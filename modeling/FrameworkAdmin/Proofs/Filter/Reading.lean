/-
# The reader accepts the grammar

`Filter.read` against the grammar of `Filter.Tree`, in two parts.

* **Completeness** (section 2) is an induction on trees: the reader takes the text of a valid tree for
  the filter it stands for and stops right behind it.  Each level of the tree uses one unit of the
  depth that the reader still allows.
* **Soundness** (section 3) is an induction on that depth: what a reader took is the text of a valid
  tree.  `Sound` is the statement that is carried from one depth to the next.

A text that has no tree is refused at a place in it, which is a matter of the reader alone
(`suffix_of_readAll` in `Filter/Locality.lean`).
-/
import FrameworkAdmin.Proofs.Filter.Grammar
import FrameworkAdmin.Proofs.Filter.Locality

namespace FrameworkAdmin
namespace Filter

open Text

/-! ## 1. Values and items -/

theorem runs_close (cs : List Char) : runs (')' :: cs) = .ok (⟨[], []⟩, ')' :: cs) := by
  simp [runs]

theorem runs_star {cs rest : List Char} {r : Runs} (h : runs cs = .ok (r, rest)) :
    runs ('*' :: cs) = .ok (r.star, rest) := by
  simp [runs, h]

theorem runs_escaped {c : Char} {cs rest : List Char} {r : Runs} (h : runs cs = .ok (r, rest)) :
    runs ('\\' :: c :: cs) = .ok (r.extend c, rest) := by
  simp [runs, h]

theorem runs_plain {c : Char} (hc : isSpecial c = false) {cs rest : List Char} {r : Runs}
    (h : runs cs = .ok (r, rest)) : runs (c :: cs) = .ok (r.extend c, rest) := by
  simp only [isSpecial, Bool.or_eq_false_iff, beq_eq_false_iff_ne] at hc
  obtain ⟨⟨⟨hslash, hstar⟩, hopen⟩, hclose⟩ := hc
  unfold runs
  split
  · rename_i heq
    cases heq
  · rename_i heq
    exact absurd (List.cons.inj heq).1 hslash
  · rename_i heq
    exact absurd (List.cons.inj heq).1 hslash
  · rename_i heq
    obtain ⟨rfl, rfl⟩ := List.cons.inj heq
    simp [hstar, hopen, hclose, h]

/-- Every value is read up to the parenthesis that closes its item. -/
theorem runs_charsAll {ps : List Piece} (h : ∀ p ∈ ps, p.Valid) (rest : List Char) :
    runs (Piece.charsAll ps ++ ')' :: rest) = .ok (Piece.between ps, ')' :: rest) := by
  induction ps with
  | nil => exact runs_close rest
  | cons p ps ih =>
    have hps := ih fun q hq => h q (List.mem_cons_of_mem _ hq)
    rw [Piece.charsAll, List.flatMap_cons, List.append_assoc]
    cases p with
    | plain c => exact runs_plain (h _ List.mem_cons_self) hps
    | escaped c => exact runs_escaped hps
    | star => exact runs_star hps

/-- What is read as a value is the spelling of one, and a parenthesis follows it. -/
theorem charsAll_of_runs {cs rest : List Char} {r : Runs} (h : runs cs = .ok (r, rest)) :
    ∃ ps tail, (∀ p ∈ ps, p.Valid) ∧ Piece.between ps = r ∧
      cs = Piece.charsAll ps ++ rest ∧ rest = ')' :: tail := by
  fun_induction runs cs generalizing r rest with
  | case1 => cases h
  | case2 => cases h
  | case3 c cs r' rest' hr ih =>
    obtain ⟨rfl, rfl⟩ := Prod.mk.inj (Except.ok.inj h)
    obtain ⟨ps, tail, hps, rfl, rfl, rfl⟩ := ih hr
    exact ⟨.escaped c :: ps, tail, by simpa [Piece.Valid] using hps, rfl, rfl, rfl⟩
  | case4 c cs s hr ih => cases h
  | case5 cs =>
    obtain ⟨rfl, rfl⟩ := Prod.mk.inj (Except.ok.inj h)
    exact ⟨[], cs, by simp, rfl, rfl, rfl⟩
  | case6 => cases h
  | case7 c cs hdangling hescape hclose hopen r' rest' hr ih =>
    obtain ⟨rfl, rfl⟩ := Prod.mk.inj (Except.ok.inj h)
    obtain ⟨ps, tail, hps, rfl, rfl, rfl⟩ := ih hr
    by_cases hstar : c = '*'
    · subst hstar
      exact ⟨.star :: ps, tail, by simpa [Piece.Valid] using hps, rfl, rfl, rfl⟩
    · have hslash : c ≠ '\\' := by
        intro heq
        cases hrest : Piece.charsAll ps ++ ')' :: tail with
        | nil => exact hdangling heq hrest
        | cons x xs => exact hescape x xs heq hrest
      refine ⟨.plain c :: ps, tail, ?_, (if_neg hstar).symm, rfl, rfl⟩
      simpa [Piece.Valid, isSpecial, hslash, hstar, hopen, hclose] using hps
  | case8 => cases h

theorem comparison_sign (op : Comparison) (cs : List Char) :
    comparison (op.sign ++ cs) = .ok (op, cs) := by
  cases op <;> rfl

theorem eq_sign_of_comparison {op : Comparison} {cs rest : List Char}
    (h : comparison cs = .ok (op, rest)) : cs = op.sign ++ rest := by
  revert h
  fun_cases comparison cs <;> intro h <;> cases h <;> rfl

/-- The item that is made of a value is the one that the grammar gives it, if there is one. -/
theorem ofRuns_between {attr : String} {op : Comparison} {ps : List Piece} {f : Filter} :
    ofRuns attr op (Piece.between ps) = some f ↔
      (.star ∈ ps → op = .equal) ∧ f = ofItem attr op ps := by
  have hmore := @Piece.more_between_eq_nil_iff ps
  have hsingle := @Piece.between_eq_single_iff ps
  by_cases hstar : .star ∈ ps
  · cases hb : Piece.between ps with
    | mk first more =>
      rw [hb] at hmore hsingle
      cases more with
      | nil => exact absurd hstar (hmore.1 rfl)
      | cons second more =>
        simp only [Runs.mk.injEq] at hsingle
        simp only [ofRuns, ofItem, hb, hstar, if_true, true_implies, hsingle]
        by_cases hop : op = .equal
        · simp only [hop, ne_eq, not_true_eq_false, if_false, true_and]
          split <;> simp [eq_comm]
        · simp [hop]
  · have hfirst := Piece.first_between hstar
    cases hb : Piece.between ps with
    | mk first more =>
      rw [hb] at hmore hfirst
      obtain rfl : more = [] := hmore.2 hstar
      simp [ofRuns, ofItem, hstar, ← hfirst, eq_comm]

/-- **An item of the grammar is read as the filter it stands for.** -/
theorem item_chars {attr : List Char} {op : Comparison} {value : List Piece}
    (h : (Body.item attr op value).Valid) (rest : List Char) :
    item ((Body.item attr op value).chars ++ ')' :: rest) =
      .ok ((Body.item attr op value).filter, ')' :: rest) := by
  rw [Body.Valid] at h
  obtain ⟨hattr, hvalue, hop⟩ := h
  have hinside : ∀ c ∈ attr, (!endsAttribute c) = true := fun c hc => by simp [hattr.inside c hc]
  obtain ⟨c, cs, hsign, hc⟩ :=
    exists_sign_append op (Piece.charsAll value ++ ')' :: rest)
  have htake : (attr ++ c :: cs).takeWhile (fun c => !endsAttribute c) = attr := by
    rw [List.takeWhile_append_of_pos hinside]
    simp [hc]
  have hdrop : (attr ++ c :: cs).dropWhile (fun c => !endsAttribute c) = c :: cs := by
    rw [List.dropWhile_append_of_pos hinside]
    simp [hc]
  have htrim : trim attr = trimEnd attr := by
    rw [trim, trimStart_of_startsClear hattr.startsClear]
  have hne : (trimEnd attr).isEmpty = false :=
    List.isEmpty_eq_false_iff.2 (trimEnd_ne_nil hattr.ne_nil hattr.startsClear)
  have hruns : ofRuns (String.ofList (trimEnd attr)) op (Piece.between value) =
      some (ofItem (String.ofList (trimEnd attr)) op value) := ofRuns_between.2 ⟨hop, rfl⟩
  simp only [Body.chars, Body.filter, List.append_assoc, hsign, item, htake, hdrop, htrim, hne,
    Bool.false_eq_true, if_false]
  rw [← hsign, comparison_sign]
  simp only [runs_charsAll hvalue]
  rw [hruns]

/-- What is taken for an attribute is one, unless it trims away. -/
theorem attributeRun_takeWhile {cs : List Char}
    (hne : ¬ (trim (cs.takeWhile fun c => !endsAttribute c)).isEmpty = true)
    (hclear : StartsClear cs) (hmark : ∀ c ∈ cs.head?, c ≠ '&' ∧ c ≠ '|' ∧ c ≠ '!') :
    AttributeRun (cs.takeWhile fun c => !endsAttribute c) := by
  cases hrun : cs.takeWhile fun c => !endsAttribute c with
  | nil => simp [hrun] at hne
  | cons c xs =>
    have hhead : cs.head? = some c := by
      have hsplit := List.takeWhile_append_dropWhile (p := fun c => !endsAttribute c) (l := cs)
      rw [← hsplit, hrun]
      rfl
    refine ⟨List.cons_ne_nil _ _, fun d hd => ?_, startsClear_cons.2 (hclear c hhead), ?_⟩
    · rw [← hrun] at hd
      simpa using List.all_eq_true.1 List.all_takeWhile d hd
    · rintro d ⟨⟩
      exact hmark c hhead

/-- **What is read as an item is one**, unless it begins with a blank or a mark. -/
theorem exists_of_item {cs rest : List Char} {f : Filter} (h : item cs = .ok (f, rest))
    (hclear : StartsClear cs) (hmark : ∀ c ∈ cs.head?, c ≠ '&' ∧ c ≠ '|' ∧ c ≠ '!') :
    ∃ attr op value tail, (Body.item attr op value).Valid ∧ (Body.item attr op value).filter = f ∧
      cs = (Body.item attr op value).chars ++ rest ∧ rest = ')' :: tail := by
  simp only [item] at h
  split at h
  · cases h
  rename_i hne
  cases hcomp : comparison (cs.dropWhile fun c => !endsAttribute c) with
  | error s => simp [hcomp] at h
  | ok p =>
    obtain ⟨op, afterSign⟩ := p
    simp only [hcomp] at h
    cases hruns : runs afterSign with
    | error s => simp [hruns] at h
    | ok p =>
      obtain ⟨r, afterValue⟩ := p
      simp only [hruns] at h
      cases hitem : ofRuns (String.ofList (trim (cs.takeWhile fun c => !endsAttribute c))) op r with
      | none => simp [hitem] at h
      | some g =>
        rw [hitem] at h
        obtain ⟨rfl, rfl⟩ := Prod.mk.inj (Except.ok.inj h)
        obtain ⟨ps, tail, hps, rfl, rfl, htail⟩ := charsAll_of_runs hruns
        obtain ⟨hstar, rfl⟩ := ofRuns_between.1 hitem
        have hsplit : cs = cs.takeWhile (fun c => !endsAttribute c) ++
            (op.sign ++ (Piece.charsAll ps ++ afterValue)) := by
          rw [← eq_sign_of_comparison hcomp]
          exact List.takeWhile_append_dropWhile.symm
        have hrun := attributeRun_takeWhile hne hclear hmark
        refine ⟨_, op, ps, tail, ⟨hrun, hps, hstar⟩, ?_, ?_, htail⟩
        · rw [Body.filter, trim, trimStart_of_startsClear hrun.startsClear]
        · simpa [Body.chars] using hsplit

/-! ## 2. Trees are read -/

theorem nesting_item (attr : List Char) (op : Comparison) (value : List Piece) :
    (Body.item attr op value).filter.nesting = 1 := by
  rw [Body.filter, ofItem]
  split
  · split <;> rfl
  · rfl

theorem one_le_nesting (f : Filter) : 1 ≤ f.nesting := by
  cases f <;> simp [nesting]

theorem close_append {after rest : List Char} (hafter : Blanks after) (hrest : StartsClear rest)
    (f : Filter) : close f (')' :: (after ++ rest)) = .ok (f, rest) := by
  rw [close, trimStart_of_startsClear (startsClear_close _)]
  simp only [trimStart_append hafter hrest]

/-- No more operands than characters, so the bound on their number is never met. -/
theorem Tree.length_le_length_charsAll (ts : List Tree) :
    ts.length ≤ (Tree.charsAll ts).length := by
  induction ts with
  | nil => exact Nat.le_refl _
  | cons t ts ih =>
    obtain ⟨cs, hcs⟩ := t.exists_chars_cons
    simp only [Tree.charsAll, hcs, List.length_append, List.length_cons]
    omega

/-- Operands are read when the filters in their row are. -/
theorem operands_append {reader : List Char → Reading Filter} {gap : List Char} {ts : List Tree}
    (hgap : Blanks gap) (hne : ts ≠ []) {rest : List Char}
    (h : ∀ count, ts.length ≤ count → many reader count (Tree.charsAll ts ++ ')' :: rest) =
      .ok (Tree.filterAll ts, ')' :: rest)) :
    operands reader (gap ++ (Tree.charsAll ts ++ ')' :: rest)) =
      .ok (Tree.filterAll ts, ')' :: rest) := by
  have hlen := Tree.length_le_length_charsAll ts
  rw [operands, trimStart_append hgap (Tree.startsClear_charsAll ts (startsClear_close rest)),
    h _ (by simp only [List.length_append]; omega)]
  cases ts with
  | nil => exact absurd rfl hne
  | cons t ts => rfl

mutual

/-- **A valid tree is read as its filter**, if as much nesting is allowed as it needs. -/
theorem Tree.filter_chars : ∀ {t : Tree} (depth : Nat) (rest : List Char), t.Valid →
    t.filter.nesting ≤ depth → StartsClear rest →
    Filter.filter depth (t.chars ++ rest) = .ok (t.filter, rest)
  | .mk before body after, 0, rest, _, hdepth, _ => by
    have hpos := one_le_nesting (Tree.mk before body after).filter
    omega
  | .mk before b after, depth + 1, rest, ht, hdepth, hrest => by
    rw [Tree.Valid] at ht
    obtain ⟨hbefore, hbody, hafter⟩ := ht
    rw [Tree.filter] at hdepth ⊢
    have hinner := Body.body_chars depth (after ++ rest) hbody hdepth
    simp only [Tree.chars, List.cons_append, List.append_assoc]
    rw [filter_open, trimStart_append hbefore (Body.startsClear_chars hbody _), hinner]
    exact close_append hafter hrest b.filter

theorem Body.body_chars : ∀ {b : Body} (depth : Nat) (rest : List Char), b.Valid →
    b.filter.nesting ≤ depth + 1 →
    body (Filter.filter depth) (b.chars ++ ')' :: rest) = .ok (b.filter, ')' :: rest)
  | .and gap ts, depth, rest, hb, hdepth => by
    rw [Body.Valid] at hb
    rw [Body.filter, nesting] at hdepth
    have hrow := operands_append hb.1 hb.2.1 fun count hcount =>
      Tree.many_charsAll depth count rest hb.2.2 (Nat.le_of_succ_le_succ hdepth) hcount
    simp only [Body.chars, Body.filter, List.cons_append, List.append_assoc, body, hrow]
  | .or gap ts, depth, rest, hb, hdepth => by
    rw [Body.Valid] at hb
    rw [Body.filter, nesting] at hdepth
    have hrow := operands_append hb.1 hb.2.1 fun count hcount =>
      Tree.many_charsAll depth count rest hb.2.2 (Nat.le_of_succ_le_succ hdepth) hcount
    simp only [Body.chars, Body.filter, List.cons_append, List.append_assoc, body, hrow]
  | .not gap t, depth, rest, hb, hdepth => by
    rw [Body.Valid] at hb
    rw [Body.filter, nesting] at hdepth
    have hone := Tree.filter_chars depth (')' :: rest) hb.2 (Nat.le_of_succ_le_succ hdepth)
      (startsClear_close rest)
    simp only [Body.chars, Body.filter, List.cons_append, List.append_assoc, body,
      trimStart_append hb.1 (t.startsClear_chars _), hone]
  | .item attr op value, depth, rest, hb, _ => by
    have hmark : ∀ c ∈ ((Body.item attr op value).chars ++ ')' :: rest).head?,
        c ≠ '&' ∧ c ≠ '|' ∧ c ≠ '!' := by
      rw [Body.Valid] at hb
      obtain ⟨c, cs, rfl, -, hc⟩ := hb.1.exists_cons
      rintro d ⟨⟩
      exact hc
    rw [body_of_noMark _ hmark]
    exact item_chars hb rest

theorem Tree.many_charsAll : ∀ {ts : List Tree} (depth count : Nat) (rest : List Char),
    Tree.ValidAll ts → nestingAll (Tree.filterAll ts) ≤ depth → ts.length ≤ count →
    many (Filter.filter depth) count (Tree.charsAll ts ++ ')' :: rest) =
      .ok (Tree.filterAll ts, ')' :: rest)
  | [], depth, count, rest, _, _, _ => by
    cases count <;> simp [Tree.charsAll, Tree.filterAll, many]
  | t :: ts, depth, 0, rest, _, _, hcount => by
    simp at hcount
  | t :: ts, depth, count + 1, rest, hts, hdepth, hcount => by
    rw [Tree.ValidAll] at hts
    rw [Tree.filterAll, nestingAll] at hdepth
    have hone := Tree.filter_chars depth (Tree.charsAll ts ++ ')' :: rest) hts.1 (by omega)
      (Tree.startsClear_charsAll ts (startsClear_close rest))
    have hrow := Tree.many_charsAll depth count rest hts.2 (by omega)
      (Nat.le_of_succ_le_succ hcount)
    obtain ⟨cs, hcs⟩ := t.exists_chars_cons
    simp only [Tree.charsAll, Tree.filterAll, List.append_assoc]
    rw [hcs] at hone ⊢
    rw [List.cons_append, many]
    simp only [List.cons_append] at hone
    simp only [hone, hrow]

end

/-! ## 3. What is read is a tree -/

/-- The reader takes texts of valid trees only, which need no more than this nesting, and the blanks
after them. -/
def Sound (depth : Nat) (reader : List Char → Reading Filter) : Prop :=
  ∀ cs f rest, reader cs = .ok (f, rest) →
    ∃ t : Tree, t.Valid ∧ t.filter = f ∧ f.nesting ≤ depth ∧ cs = t.chars ++ rest ∧
      StartsClear rest

section
variable {depth : Nat} {reader : List Char → Reading Filter}

theorem exists_of_many (hreader : Sound depth reader) {count : Nat} {cs rest : List Char}
    {fs : List Filter} (h : many reader count cs = .ok (fs, rest)) (hcs : StartsClear cs) :
    ∃ ts, Tree.ValidAll ts ∧ Tree.filterAll ts = fs ∧ nestingAll fs ≤ depth ∧
      cs = Tree.charsAll ts ++ rest ∧ StartsClear rest := by
  fun_induction many reader count cs generalizing fs rest with
  | case1 count cs s hone => cases h
  | case2 count cs f afterOne hone s hrow ih => cases h
  | case3 count cs f afterOne hone fs' rest' hrow ih =>
    obtain ⟨rfl, rfl⟩ := Prod.mk.inj (Except.ok.inj h)
    obtain ⟨t, ht, rfl, htdepth, hchars, hclear⟩ := hreader _ _ _ hone
    obtain ⟨ts, hts, rfl, htsdepth, rfl, hrest⟩ := ih hrow hclear
    refine ⟨t :: ts, ⟨ht, hts⟩, rfl, ?_, ?_, hrest⟩
    · rw [nestingAll]
      omega
    · rw [Tree.charsAll, List.append_assoc]
      exact hchars
  | case4 count cs hstop =>
    obtain ⟨rfl, rfl⟩ := Prod.mk.inj (Except.ok.inj h)
    exact ⟨[], trivial, rfl, Nat.zero_le _, rfl, hcs⟩

theorem exists_of_operands (hreader : Sound depth reader) {cs rest : List Char}
    {fs : List Filter} (h : operands reader cs = .ok (fs, rest)) :
    ∃ gap ts, Blanks gap ∧ ts ≠ [] ∧ Tree.ValidAll ts ∧ Tree.filterAll ts = fs ∧
      nestingAll fs ≤ depth ∧ cs = gap ++ (Tree.charsAll ts ++ rest) ∧ StartsClear rest := by
  obtain ⟨gap, hgap, hsplit⟩ := blanks_append_trimStart cs
  rw [operands] at h
  split at h
  · cases h
  · rename_i hne
    obtain ⟨ts, hts, rfl, hdepth, hchars, hrest⟩ :=
      exists_of_many hreader h (startsClear_trimStart cs)
    refine ⟨gap, ts, hgap, ?_, hts, rfl, hdepth, hchars ▸ hsplit, hrest⟩
    rintro rfl
    exact hne rest h

theorem exists_of_body (hreader : Sound depth reader) {cs rest : List Char} {f : Filter}
    (h : body reader cs = .ok (f, rest)) (hcs : StartsClear cs) :
    ∃ b : Body, b.Valid ∧ b.filter = f ∧ f.nesting ≤ depth + 1 ∧ cs = b.chars ++ rest ∧
      StartsClear rest := by
  unfold body at h
  split at h
  · rename_i cs
    split at h
    · rename_i fs after hrow
      obtain ⟨rfl, rfl⟩ := Prod.mk.inj (Except.ok.inj h)
      obtain ⟨gap, ts, hgap, hne, hts, rfl, hdepth, rfl, hrest⟩ := exists_of_operands hreader hrow
      refine ⟨.and gap ts, ⟨hgap, hne, hts⟩, rfl, ?_, ?_, hrest⟩
      · rw [nesting]
        omega
      · simp [Body.chars]
    · cases h
  · rename_i cs
    split at h
    · rename_i fs after hrow
      obtain ⟨rfl, rfl⟩ := Prod.mk.inj (Except.ok.inj h)
      obtain ⟨gap, ts, hgap, hne, hts, rfl, hdepth, rfl, hrest⟩ := exists_of_operands hreader hrow
      refine ⟨.or gap ts, ⟨hgap, hne, hts⟩, rfl, ?_, ?_, hrest⟩
      · rw [nesting]
        omega
      · simp [Body.chars]
    · cases h
  · rename_i cs
    split at h
    · rename_i g after hone
      obtain ⟨rfl, rfl⟩ := Prod.mk.inj (Except.ok.inj h)
      obtain ⟨gap, hgap, hsplit⟩ := blanks_append_trimStart cs
      obtain ⟨t, ht, rfl, hdepth, hchars, hrest⟩ := hreader _ _ _ hone
      refine ⟨.not gap t, ⟨hgap, ht⟩, rfl, ?_, ?_, hrest⟩
      · rw [nesting]
        omega
      · rw [hsplit, hchars]
        simp [Body.chars]
    · cases h
  · rename_i hand hor hnot
    have hmark : ∀ c ∈ cs.head?, c ≠ '&' ∧ c ≠ '|' ∧ c ≠ '!' := by
      intro c hc
      obtain ⟨xs, rfl⟩ := List.head?_eq_some_iff.1 hc
      exact ⟨fun heq => hand xs (heq ▸ rfl), fun heq => hor xs (heq ▸ rfl),
        fun heq => hnot xs (heq ▸ rfl)⟩
    obtain ⟨attr, op, value, tail, hvalid, rfl, hchars, rfl⟩ := exists_of_item h hcs hmark
    refine ⟨_, hvalid, rfl, ?_, hchars, startsClear_close tail⟩
    rw [nesting_item]
    omega

end

theorem exists_of_close {f g : Filter} {cs rest : List Char} (h : close f cs = .ok (g, rest))
    (hcs : StartsClear cs) :
    g = f ∧ ∃ after, Blanks after ∧ cs = ')' :: (after ++ rest) ∧ StartsClear rest := by
  rw [close, trimStart_of_startsClear hcs] at h
  split at h
  · rename_i afterClose
    obtain ⟨rfl, rfl⟩ := Prod.mk.inj (Except.ok.inj h)
    obtain ⟨after, hafter, hsplit⟩ := blanks_append_trimStart afterClose
    exact ⟨rfl, after, hafter, congrArg _ hsplit, startsClear_trimStart _⟩
  · cases h

/-- **The reader of filters is sound at every depth.** -/
theorem sound_filter (depth : Nat) : Sound depth (filter depth) := by
  induction depth with
  | zero =>
    intro cs f rest h
    simp [filter] at h
  | succ depth ih =>
    intro cs f rest h
    unfold filter at h
    split at h
    · cases h
    · rename_i depth' cs heq
      obtain rfl := Nat.succ.inj heq
      split at h
      · rename_i g afterBody hbody
        obtain ⟨before, hbefore, hsplit⟩ := blanks_append_trimStart cs
        obtain ⟨b, hb, rfl, hdepth, hchars, hclear⟩ :=
          exists_of_body ih hbody (startsClear_trimStart cs)
        obtain ⟨rfl, after, hafter, rfl, hrest⟩ := exists_of_close h hclear
        refine ⟨.mk before b after, ⟨hbefore, hb, hafter⟩, rfl, hdepth, ?_, hrest⟩
        rw [hsplit, hchars]
        simp [Tree.chars]
      · cases h
    · cases h

/-! ## 4. Texts -/

/-- A text is read as a filter exactly if it has a derivation of this filter. -/
theorem readAll_eq_ok_iff {cs : List Char} {f : Filter} :
    readAll cs = .ok f ↔ ∃ d : Derivation cs, d.tree.filter = f := by
  unfold readAll
  constructor
  · intro h
    obtain ⟨lead, hlead, hsplit⟩ := blanks_append_trimStart cs
    split at h
    · rename_i g hread
      obtain rfl := Except.ok.inj h
      obtain ⟨t, ht, rfl, hdepth, hchars, -⟩ := sound_filter depthLimit _ _ _ hread
      refine ⟨⟨lead, t, hlead, ht, hdepth, ?_⟩, rfl⟩
      rw [hsplit, hchars, List.append_nil]
    · cases h
    · cases h
  · rintro ⟨⟨lead, t, hlead, ht, hdepth, rfl⟩, rfl⟩
    have hclear := t.startsClear_chars []
    have hread := Tree.filter_chars depthLimit [] ht hdepth startsClear_nil
    rw [List.append_nil] at hclear hread
    rw [trimStart_append hlead hclear, hread]

theorem read_eq_ok_iff {s : String} {f : Filter} :
    read s = .ok f ↔ ∃ d : Derivation s.toList, d.tree.filter = f := by
  rw [← readAll_eq_ok_iff, read]
  cases readAll s.toList <;> simp

/-- **A text is read as the filter of its derivation.**  There is one derivation at most, and a text
without any is refused at a place in it. -/
theorem read_iff_derivation (s : String) :
    (∀ f, read s = .ok f ↔ ∃ d : Derivation s.toList, d.tree.filter = f) ∧
    (∀ d e : Derivation s.toList, d = e) ∧
    ((∃ d : Derivation s.toList, read s = .ok d.tree.filter) ∨
      IsEmpty (Derivation s.toList) ∧
        ∃ fault, read s = .error fault ∧ fault.filter = s ∧
          ∃ before after, s.toList = before ++ after ∧ fault.position = byteLength before) := by
  refine ⟨fun f => read_eq_ok_iff, fun d e => Subsingleton.elim d e, ?_⟩
  cases h : readAll s.toList with
  | ok f =>
    obtain ⟨d, hd⟩ := readAll_eq_ok_iff.1 h
    exact Or.inl ⟨d, read_eq_ok_iff.2 ⟨d, rfl⟩⟩
  | error stop =>
    refine Or.inr ⟨⟨fun d => ?_⟩, ⟨s, stop.position s.toList, stop.reason⟩, ?_, rfl, ?_⟩
    · rw [readAll_eq_ok_iff.2 ⟨d, rfl⟩] at h
      cases h
    · rw [read, h]
    · obtain ⟨before, hbefore⟩ := suffix_of_readAll h
      refine ⟨before, stop.rest, hbefore.symm, ?_⟩
      rw [← hbefore]
      exact position_append before stop

end Filter
end FrameworkAdmin
