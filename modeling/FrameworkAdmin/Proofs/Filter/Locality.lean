/-
# Readers look no further than where they stop

Whatever a reader leaves over, because it is done or because it gave up, begins with the first character that
was not taken.  The reader may have looked at this character, to see that it does not belong to what is read,
but it has looked at none behind it.  So any text that is the same up to and with this character is read with
the same outcome, and what follows it is what is left over (`LocalAt`).

This is shown of each reader once, and from the inside out.  A reader that is put together of others, of
which each goes on where the one before it stopped, is local if they are (`LocalAt.andThen`); and a reader that
decides by the first character what to do is local if it is so in each case (`LocalAt.congr`).  What remains are
runs of characters, the sign of a comparison, and values.

Two things follow.  What is left over is an end of the text, so that a fault has a position in it
(`suffix_of_readAll`); and a fault before the end of a text is a fault of every text that goes on differently
behind its position (`refused_locally`).
-/
import FrameworkAdmin.Filter.Parser
import FrameworkAdmin.Proofs.Text.Ends

namespace FrameworkAdmin
namespace Filter

open Text

/-! ## 1. Locality -/

section
variable {α β : Type}

/-- The text that a reader leaves over, or at which it gave up. -/
def leftover : Reading α → List Char
  | .ok (_, rest) => rest
  | .error stop => stop.rest

/-- The same outcome in front of another text. -/
def leaving (rest : List Char) : Reading α → Reading α
  | .ok (a, _) => .ok (a, rest)
  | .error stop => .error ⟨stop.reason, rest⟩

/-- The reader takes a beginning of the text, and leaves over the rest.  If that is not empty, only its first
character mattered: with another text behind it the outcome is the same. -/
def LocalAt (reader : List Char → Reading α) (cs : List Char) : Prop :=
  ∃ taken, cs = taken ++ leftover (reader cs) ∧
    ∀ c after, leftover (reader cs) = c :: after → ∀ after',
      reader (taken ++ c :: after') = leaving (c :: after') (reader cs)

/-- Goes on where a reader stopped, unless it gave up. -/
def andThen (r : Reading α) (next : α → List Char → Reading β) : Reading β :=
  match r with
  | .ok (a, rest) => next a rest
  | .error stop => .error stop

variable {reader r : List Char → Reading α} {next : α → List Char → Reading β} {cs : List Char}

theorem LocalAt.isSuffix (h : LocalAt reader cs) : leftover (reader cs) <:+ cs := by
  obtain ⟨taken, htaken, -⟩ := h
  exact ⟨taken, htaken.symm⟩

/-- A reader that takes nothing. -/
theorem localAt_ok (a : α) (cs : List Char) : LocalAt (fun cs => .ok (a, cs)) cs :=
  ⟨[], rfl, fun _ _ _ _ => rfl⟩

/-- A reader that gives up at once. -/
theorem localAt_error (reason : Reason) (cs : List Char) :
    LocalAt (fun cs => (.error ⟨reason, cs⟩ : Reading α)) cs :=
  ⟨[], rfl, fun _ _ _ _ => rfl⟩

/-- A reader that needs the whole text. -/
theorem localAt_of_leftover_nil (h : leftover (reader cs) = []) : LocalAt reader cs := by
  refine ⟨cs, by rw [h, List.append_nil], fun c after hc => ?_⟩
  rw [h] at hc
  cases hc

/-- **Readers that follow each other.** -/
theorem LocalAt.andThen (hfirst : LocalAt r cs)
    (hnext : ∀ a rest, r cs = .ok (a, rest) → LocalAt (next a) rest) :
    LocalAt (fun cs => andThen (r cs) next) cs := by
  obtain ⟨taken, htaken, hagain⟩ := hfirst
  cases hread : r cs with
  | error stop =>
    rw [hread] at htaken hagain
    refine ⟨taken, ?_, fun c after hrest after' => ?_⟩
    · simp only [Filter.andThen, hread]
      exact htaken
    · simp only [Filter.andThen, hread] at hrest ⊢
      simp only [hagain c after hrest after', leaving]
  | ok p =>
    obtain ⟨a, rest⟩ := p
    rw [hread] at htaken hagain
    obtain ⟨more, hmore, hnextAgain⟩ := hnext a rest hread
    refine ⟨taken ++ more, ?_, fun c after hrest after' => ?_⟩
    · simp only [Filter.andThen, hread, List.append_assoc]
      rwa [← hmore]
    · simp only [Filter.andThen, hread] at hrest ⊢
      rw [hrest] at hmore
      -- the second reader starts at a character that is the same in both texts
      have hstart : ∃ d tail tail', rest = d :: tail ∧ more ++ c :: after' = d :: tail' := by
        rw [hmore]
        cases more with
        | nil => exact ⟨c, after, after', rfl, rfl⟩
        | cons d more => exact ⟨d, more ++ c :: after, more ++ c :: after', rfl, rfl⟩
      obtain ⟨d, tail, tail', hrestStart, hmoreStart⟩ := hstart
      rw [List.append_assoc, hmoreStart, hagain d tail hrestStart tail', leaving]
      simp only
      rw [← hmoreStart]
      exact hnextAgain c after hrest after'

/-- A reader that takes the first character and goes on as another one. -/
theorem LocalAt.cons {x : Char} (h : LocalAt r cs) (hreader : ∀ ds, reader (x :: ds) = r ds) :
    LocalAt reader (x :: cs) := by
  obtain ⟨taken, htaken, hagain⟩ := h
  refine ⟨x :: taken, ?_, fun c after hrest after' => ?_⟩
  · rw [hreader, List.cons_append, ← htaken]
  · rw [hreader] at hrest ⊢
    rw [List.cons_append, hreader, hagain c after hrest after']

/-- A reader that goes on as another one because of the first character. -/
theorem LocalAt.congr (h : LocalAt r cs)
    (hreader : ∀ ds, ds.head? = cs.head? → reader ds = r ds) : LocalAt reader cs := by
  obtain ⟨taken, htaken, hagain⟩ := h
  refine ⟨taken, by rwa [hreader cs rfl], fun c after hrest after' => ?_⟩
  rw [hreader cs rfl] at hrest ⊢
  have hhead : (taken ++ c :: after').head? = cs.head? := by
    rw [htaken, hrest]
    cases taken <;> rfl
  rw [hreader _ hhead, hagain c after hrest after']

/-- A run of characters ends at the first one that does not belong to it. -/
theorem localAt_run (p : Char → Bool) (f : List Char → α) (cs : List Char) :
    LocalAt (fun cs => .ok (f (cs.takeWhile p), cs.dropWhile p)) cs := by
  refine ⟨cs.takeWhile p, List.takeWhile_append_dropWhile.symm, fun c after hrest after' => ?_⟩
  have hc : p c = false := by
    have hhead := List.head?_dropWhile_not p cs
    simp only [leftover] at hrest
    rw [hrest] at hhead
    simpa using hhead
  have hrun : ∀ d ∈ cs.takeWhile p, p d = true := fun d hd =>
    List.all_eq_true.1 List.all_takeWhile d hd
  simp only [leaving]
  rw [List.takeWhile_append_of_pos hrun, List.dropWhile_append_of_pos hrun]
  simp [hc]

end

/-- Blanks are skipped up to the first character that is none. -/
theorem localAt_skip (cs : List Char) : LocalAt (fun cs => .ok ((), trimStart cs)) cs :=
  localAt_run isBlank (fun _ => ()) cs

/-! ## 2. Items -/

/-- The signs of two characters, of which the second is an equals sign. -/
theorem exists_comparison_cons {x : Char} (hx : x = '~' ∨ x = '>' ∨ x = '<') :
    (∃ op, ∀ ds, comparison (x :: '=' :: ds) = .ok (op, ds)) ∧
      ∀ ds, ds.head? ≠ some '=' → comparison (x :: ds) = .error ⟨.missingEquals x, ds⟩ := by
  constructor
  · rcases hx with rfl | rfl | rfl <;> exact ⟨_, fun _ => rfl⟩
  · intro ds hds
    cases ds with
    | nil => rcases hx with rfl | rfl | rfl <;> rfl
    | cons d ds =>
      have hd : d ≠ '=' := fun heq => hds (heq ▸ rfl)
      rcases hx with rfl | rfl | rfl <;> simp [comparison, hd]

theorem comparison_cons_of_ne {x : Char} (hequal : x ≠ '=') (hx : ¬ (x = '~' ∨ x = '>' ∨ x = '<'))
    (ds : List Char) : comparison (x :: ds) = .error ⟨.missingComparison, ds⟩ := by
  unfold comparison
  split <;> simp_all

theorem localAt_comparison (cs : List Char) : LocalAt comparison cs := by
  cases cs with
  | nil => exact localAt_of_leftover_nil rfl
  | cons x cs =>
    by_cases hequal : x = '='
    · subst hequal
      exact (localAt_ok .equal cs).cons fun _ => rfl
    by_cases hx : x = '~' ∨ x = '>' ∨ x = '<'
    · obtain ⟨⟨op, hop⟩, hmissing⟩ := exists_comparison_cons hx
      refine LocalAt.cons (r := fun ds => comparison (x :: ds)) ?_ fun _ => rfl
      by_cases hhead : cs.head? = some '='
      · obtain ⟨ds, rfl⟩ := List.head?_eq_some_iff.1 hhead
        exact (localAt_ok op ds).cons hop
      · exact (localAt_error _ cs).congr fun ds hds => hmissing ds (hds ▸ hhead)
    · exact (localAt_error _ cs).cons (comparison_cons_of_ne hequal hx)

/-- A value is read one character at a time, unless that is special. -/
theorem runs_cons {c : Char} (hslash : c ≠ '\\') (hclose : c ≠ ')') (hopen : c ≠ '(')
    (cs : List Char) : runs (c :: cs) =
      andThen (runs cs) fun r rest => .ok (if c = '*' then r.star else r.extend c, rest) := by
  rw [runs]
  · rw [if_neg hclose, if_neg hopen]
    cases runs cs <;> rfl
  · exact fun heq _ => hslash heq
  · exact fun _ _ heq _ => hslash heq

theorem localAt_runs (cs : List Char) : LocalAt runs cs := by
  match cs with
  | [] => exact localAt_of_leftover_nil rfl
  | c :: cs =>
    by_cases hslash : c = '\\'
    · subst hslash
      cases cs with
      | nil => exact localAt_of_leftover_nil rfl
      | cons d ds =>
        have hds := (localAt_runs ds).andThen fun r rest _ => localAt_ok (r.extend d) rest
        refine LocalAt.cons (r := fun ds => runs ('\\' :: ds)) (hds.cons fun ds => ?_) fun _ => rfl
        rw [runs]
        cases runs ds <;> rfl
    by_cases hclose : c = ')'
    · subst hclose
      refine (localAt_ok ⟨[], []⟩ _).congr fun ds hds => ?_
      obtain ⟨ds, rfl⟩ := List.head?_eq_some_iff.1 hds
      simp [runs]
    by_cases hopen : c = '('
    · subst hopen
      refine (localAt_error .unescapedOpen _).congr fun ds hds => ?_
      obtain ⟨ds, rfl⟩ := List.head?_eq_some_iff.1 hds
      simp [runs]
    · exact ((localAt_runs cs).andThen fun r rest _ => localAt_ok _ rest).cons
        (runs_cons hslash hclose hopen)

/-- An item is its attribute, the sign of a comparison and a value, which are put together in the end. -/
theorem item_eq (cs : List Char) : item cs =
    andThen (.ok (trim (cs.takeWhile fun c => !endsAttribute c), cs.dropWhile fun c => !endsAttribute c))
      fun attr rest =>
        if attr.isEmpty then .error ⟨.missingAttribute, rest⟩
        else andThen (comparison rest) fun op rest => andThen (runs rest) fun r rest =>
          match ofRuns (String.ofList attr) op r with
          | some f => .ok (f, rest)
          | none => .error ⟨.misplacedWildcard, rest⟩ := by
  simp only [item, andThen]
  split
  · rfl
  · cases comparison (cs.dropWhile fun c => !endsAttribute c) with
    | error stop => rfl
    | ok p =>
      cases hruns : runs p.2 with
      | error stop => simp only [hruns]
      | ok q =>
        cases hf : ofRuns (String.ofList (trim (cs.takeWhile fun c => !endsAttribute c))) p.1 q.1 <;>
          simp only [hruns, hf]

theorem localAt_item (cs : List Char) : LocalAt item cs := by
  refine ((localAt_run (fun c => !endsAttribute c) trim cs).andThen fun attr rest _ => ?_).congr
    fun ds _ => item_eq ds
  split
  · exact localAt_error _ rest
  · refine (localAt_comparison rest).andThen fun op rest _ => ?_
    refine (localAt_runs rest).andThen fun r rest _ => ?_
    split
    · exact localAt_ok _ rest
    · exact localAt_error _ rest

/-! ## 3. Composites -/

/-- A filter that opens is read as what follows, one level deeper, and closed. -/
theorem filter_open (depth : Nat) (cs : List Char) :
    filter (depth + 1) ('(' :: cs) =
      match body (filter depth) (trimStart cs) with
      | .ok (f, rest) => close f rest
      | .error s => .error s :=
  rfl

theorem filter_of_head?_ne {cs : List Char} (h : cs.head? ≠ some '(') (depth : Nat) :
    filter (depth + 1) cs = .error ⟨.missingOpen, cs⟩ := by
  unfold filter
  split
  · contradiction
  · exact absurd rfl h
  · rfl

theorem body_of_noMark (reader : List Char → Reading Filter) {cs : List Char}
    (h : ∀ c ∈ cs.head?, c ≠ '&' ∧ c ≠ '|' ∧ c ≠ '!') : body reader cs = item cs := by
  unfold body
  split <;> simp_all

/-- The reader takes at least one character of every text that it reads. -/
def Advances (reader : List Char → Reading Filter) : Prop :=
  ∀ cs f rest, reader cs = .ok (f, rest) → rest.length < cs.length

/-- As many filters as there are. -/
def row (reader : List Char → Reading Filter) (cs : List Char) : Reading (List Filter) :=
  many reader cs.length cs

section
variable {reader : List Char → Reading Filter}

theorem many_of_head?_ne {cs : List Char} (h : cs.head? ≠ some '(') (count : Nat) :
    many reader count cs = .ok ([], cs) := by
  unfold many
  split
  · exact absurd rfl h
  · rfl

/-- Where each filter takes a character, the bound on their number is never met. -/
theorem many_eq_row (hadvances : Advances reader) {count : Nat} {cs : List Char}
    (h : cs.length ≤ count) : many reader count cs = row reader cs := by
  suffices hcount : ∀ count count' cs, cs.length ≤ count → cs.length ≤ count' →
      many reader count cs = many reader count' cs from hcount _ _ _ h (Nat.le_refl _)
  clear h
  intro count
  induction count with
  | zero =>
    intro count' cs hcs _
    obtain rfl := List.length_eq_zero_iff.1 (Nat.le_zero.1 hcs)
    rw [many_of_head?_ne (by simp), many_of_head?_ne (by simp)]
  | succ count ih =>
    intro count' cs hcs hcs'
    by_cases hhead : cs.head? = some '('
    · obtain ⟨ds, rfl⟩ := List.head?_eq_some_iff.1 hhead
      obtain ⟨count', rfl⟩ := Nat.exists_eq_succ_of_ne_zero (show count' ≠ 0 by rintro rfl; simp at hcs')
      rw [many, many]
      cases hread : reader ('(' :: ds) with
      | error stop => rfl
      | ok p =>
        obtain ⟨f, rest⟩ := p
        have hrest := hadvances _ _ _ hread
        simp only [List.length_cons] at hcs hcs' hrest
        simp only [ih count' rest (by omega) (by omega)]
    · rw [many_of_head?_ne hhead, many_of_head?_ne hhead]

/-- A filter, and the filters behind it. -/
theorem row_open (hadvances : Advances reader) (ds : List Char) : row reader ('(' :: ds) =
    andThen (reader ('(' :: ds)) fun f rest => andThen (row reader rest) fun fs rest =>
      .ok (f :: fs, rest) := by
  rw [row, List.length_cons, many]
  cases hread : reader ('(' :: ds) with
  | error stop => rfl
  | ok p =>
    obtain ⟨f, rest⟩ := p
    have hrest := hadvances _ _ _ hread
    simp only [List.length_cons] at hrest
    simp only [andThen, many_eq_row hadvances (Nat.le_of_lt_succ hrest)]
    cases row reader rest <;> rfl

variable (hreader : ∀ cs, LocalAt reader cs) (hadvances : Advances reader)
include hreader hadvances

theorem localAt_row (cs : List Char) : LocalAt (row reader) cs := by
  induction hlen : cs.length using Nat.strong_induction_on generalizing cs with
  | h n ih =>
    by_cases hhead : cs.head? = some '('
    · refine LocalAt.congr (r := fun ds => andThen (reader ds) fun f rest =>
        andThen (row reader rest) fun fs rest => .ok (f :: fs, rest)) ?_ fun ds hds => ?_
      · refine (hreader cs).andThen fun f rest hread => ?_
        exact (ih rest.length (hlen ▸ hadvances _ _ _ hread) rest rfl).andThen fun fs rest _ =>
          localAt_ok _ rest
      · obtain ⟨ds, rfl⟩ := List.head?_eq_some_iff.1 (hds.trans hhead)
        exact row_open hadvances ds
    · exact (localAt_ok [] cs).congr fun ds hds => many_of_head?_ne (hds ▸ hhead) _

/-- Operands are a row that is not empty. -/
theorem localAt_operands (cs : List Char) : LocalAt (operands reader) cs := by
  refine LocalAt.congr (r := fun cs => andThen (.ok ((), trimStart cs)) fun _ rest =>
    andThen (row reader rest) fun fs rest =>
      if fs = [] then .error ⟨.missingOperand, rest⟩ else .ok (fs, rest)) ?_ fun ds _ => ?_
  · refine (localAt_skip cs).andThen fun _ rest _ => ?_
    refine (localAt_row hreader hadvances rest).andThen fun fs rest _ => ?_
    split
    · exact localAt_error _ rest
    · exact localAt_ok _ rest
  · rw [operands, many_eq_row hadvances (trimStart_isSuffix ds).length_le]
    simp only [andThen]
    cases row reader (trimStart ds) with
    | error stop => rfl
    | ok p =>
      obtain ⟨fs, rest⟩ := p
      cases fs <;> simp

theorem localAt_body (cs : List Char) : LocalAt (body reader) cs := by
  have hoperands (make : List Filter → Filter) (cs : List Char) :
      LocalAt (fun cs => andThen (operands reader cs) fun fs rest => .ok (make fs, rest)) cs :=
    (localAt_operands hreader hadvances cs).andThen fun fs rest _ => localAt_ok _ rest
  by_cases hand : cs.head? = some '&'
  · obtain ⟨cs, rfl⟩ := List.head?_eq_some_iff.1 hand
    refine (hoperands .and cs).cons fun ds => ?_
    rw [body]
    cases operands reader ds <;> rfl
  by_cases hor : cs.head? = some '|'
  · obtain ⟨cs, rfl⟩ := List.head?_eq_some_iff.1 hor
    refine (hoperands .or cs).cons fun ds => ?_
    rw [body]
    cases operands reader ds <;> rfl
  by_cases hnot : cs.head? = some '!'
  · obtain ⟨cs, rfl⟩ := List.head?_eq_some_iff.1 hnot
    refine LocalAt.cons (r := fun cs => andThen (.ok ((), trimStart cs)) fun _ rest =>
      andThen (reader rest) fun f rest => .ok (.not f, rest)) ?_ fun ds => ?_
    · exact (localAt_skip cs).andThen fun _ rest _ => (hreader rest).andThen fun f rest _ =>
        localAt_ok _ rest
    · rw [body]
      simp only [andThen]
      cases reader (trimStart ds) <;> rfl
  · refine (localAt_item cs).congr fun ds hds => body_of_noMark reader fun c hc => ?_
    rw [hds] at hc
    exact ⟨fun heq => hand (heq ▸ hc), fun heq => hor (heq ▸ hc), fun heq => hnot (heq ▸ hc)⟩

end

theorem localAt_close (f : Filter) (cs : List Char) : LocalAt (close f) cs := by
  refine LocalAt.congr (r := fun cs => andThen (.ok ((), trimStart cs)) fun _ rest => close f rest)
    ?_ fun ds _ => ?_
  · refine (localAt_skip cs).andThen fun _ rest hrest => ?_
    have hclear : StartsClear rest := by
      cases hrest
      exact startsClear_trimStart cs
    by_cases hclose : rest.head? = some ')'
    · obtain ⟨rest, rfl⟩ := List.head?_eq_some_iff.1 hclose
      refine (localAt_run isBlank (fun _ => f) rest).cons fun ds => ?_
      rw [close, trimStart_of_startsClear (startsClear_cons.2 (by decide))]
      rfl
    · refine (localAt_error .missingClose rest).congr fun ds hds => ?_
      have hds' : StartsClear ds := fun c hc => hclear c (hds ▸ hc)
      rw [close, trimStart_of_startsClear hds']
      split
      · exact absurd hds.symm hclose
      · rfl
  · simp only [andThen]
    rw [close, close, trimStart_of_startsClear (startsClear_trimStart ds)]

/-- **The reader of filters is local at every depth, and takes a character of each filter.** -/
theorem localAt_filter (depth : Nat) :
    (∀ cs, LocalAt (filter depth) cs) ∧ Advances (filter depth) := by
  induction depth with
  | zero =>
    refine ⟨fun cs => (localAt_error .tooDeep cs).congr fun _ _ => rfl, fun cs f rest h => ?_⟩
    cases h
  | succ depth ih =>
    have hopen (cs : List Char) : LocalAt (fun cs => andThen (.ok ((), trimStart cs)) fun _ rest =>
        andThen (body (filter depth) rest) fun f rest => close f rest) cs :=
      (localAt_skip cs).andThen fun _ rest _ => (localAt_body ih.1 ih.2 rest).andThen fun f rest _ =>
        localAt_close f rest
    have hcons (ds : List Char) : filter (depth + 1) ('(' :: ds) =
        andThen (.ok ((), trimStart ds)) fun _ rest =>
          andThen (body (filter depth) rest) fun f rest => close f rest := by
      rw [filter_open]
      simp only [andThen]
      cases body (filter depth) (trimStart ds) <;> rfl
    constructor
    · intro cs
      by_cases hhead : cs.head? = some '('
      · obtain ⟨cs, rfl⟩ := List.head?_eq_some_iff.1 hhead
        exact (hopen cs).cons hcons
      · exact (localAt_error _ cs).congr fun ds hds => filter_of_head?_ne (hds ▸ hhead) depth
    · intro cs f rest h
      by_cases hhead : cs.head? = some '('
      · obtain ⟨cs, rfl⟩ := List.head?_eq_some_iff.1 hhead
        have hsuffix := (hopen cs).isSuffix
        rw [← hcons, h] at hsuffix
        exact Nat.lt_succ_of_le hsuffix.length_le
      · rw [filter_of_head?_ne hhead] at h
        cases h

/-! ## 4. Texts -/

theorem byteLength_append (cs ds : List Char) :
    byteLength (cs ++ ds) = byteLength cs + byteLength ds := by
  induction cs with
  | nil => simp [byteLength]
  | cons c cs ih =>
    rw [List.cons_append, byteLength, byteLength, ih]
    omega

/-- A place in a text is as far from its start as the text before it is long. -/
theorem position_append (before : List Char) (s : Stop) :
    s.position (before ++ s.rest) = byteLength before := by
  simp [Stop.position, byteLength_append]

/-- The offset of a place tells the place. -/
theorem eq_of_byteLength_eq {before before' cs : List Char} (h : before <+: cs) (h' : before' <+: cs)
    (heq : byteLength before = byteLength before') : before = before' := by
  have hwhole : ∀ {as bs : List Char}, as <+: bs → byteLength as = byteLength bs → as = bs := by
    rintro as _ ⟨more, rfl⟩ hlength
    rw [byteLength_append] at hlength
    cases more with
    | nil => rw [List.append_nil]
    | cons c more =>
      have hc := c.utf8Size_pos
      rw [byteLength] at hlength
      omega
  rcases List.prefix_or_prefix_of_prefix h h' with hprefix | hprefix
  · exact hwhole hprefix heq
  · exact (hwhole hprefix heq.symm).symm

/-- A text is refused because no filter was read, or because something follows the filter. -/
theorem readAll_eq_error_iff {cs : List Char} {stop : Stop} : readAll cs = .error stop ↔
    filter depthLimit (trimStart cs) = .error stop ∨
      stop.reason = .trailingCharacters ∧ stop.rest ≠ [] ∧
        ∃ f, filter depthLimit (trimStart cs) = .ok (f, stop.rest) := by
  obtain ⟨reason, rest⟩ := stop
  unfold readAll
  split
  · rename_i f hread
    simp [hread, eq_comm]
  · rename_i f rest' hne hread
    have hrest : rest' ≠ [] := hne
    simp only [hread, Except.error.injEq, Stop.mk.injEq, reduceCtorEq, Except.ok.injEq, Prod.mk.injEq,
      exists_eq_left', false_or]
    constructor
    · rintro ⟨rfl, rfl⟩
      exact ⟨rfl, hrest, rfl⟩
    · rintro ⟨rfl, -, rfl⟩
      exact ⟨rfl, rfl⟩
  · rename_i stop' hread
    simp [hread]

theorem localAt_first (cs : List Char) :
    LocalAt (fun cs => filter depthLimit (trimStart cs)) cs :=
  (localAt_skip cs).andThen fun _ rest _ => (localAt_filter depthLimit).1 rest

/-- What is left of a refused text is left over by the reader of its first filter. -/
theorem leftover_of_readAll {cs : List Char} {stop : Stop} (h : readAll cs = .error stop) :
    leftover (filter depthLimit (trimStart cs)) = stop.rest := by
  rcases readAll_eq_error_iff.1 h with hread | ⟨-, -, f, hread⟩ <;> rw [hread] <;> rfl

/-- A text is given up at a place in it. -/
theorem suffix_of_readAll {cs : List Char} {stop : Stop} (h : readAll cs = .error stop) :
    stop.rest <:+ cs := by
  rw [← leftover_of_readAll h]
  exact (localAt_first cs).isSuffix

/-- **A text that is given up before its end is given up for the same reason, at the same place, whatever
follows the character there.** -/
theorem readAll_locally {before after : List Char} {c : Char} {reason : Reason}
    (h : readAll (before ++ c :: after) = .error ⟨reason, c :: after⟩) (after' : List Char) :
    readAll (before ++ c :: after') = .error ⟨reason, c :: after'⟩ := by
  have hrest := leftover_of_readAll h
  obtain ⟨taken, htaken, hagain⟩ := localAt_first (before ++ c :: after)
  rw [hrest] at htaken
  obtain rfl := List.append_cancel_right htaken
  have hother : filter depthLimit (trimStart (before ++ c :: after')) =
      leaving (c :: after') (filter depthLimit (trimStart (before ++ c :: after))) :=
    hagain c after hrest after'
  rw [readAll_eq_error_iff, hother]
  rcases readAll_eq_error_iff.1 h with hread | ⟨hreason, -, f, hread⟩
  · rw [hread]
    exact .inl rfl
  · rw [hread]
    exact .inr ⟨hreason, List.cons_ne_nil c after', f, rfl⟩

/-- The same of texts and faults. -/
theorem read_locally {s t : String} {before after after' : List Char} {c : Char} {fault : SyntaxFault}
    (h : read s = .error fault) (hs : s.toList = before ++ c :: after)
    (hposition : fault.position = byteLength before) (ht : t.toList = before ++ c :: after') :
    read t = .error ⟨t, fault.position, fault.reason⟩ := by
  rw [read, hs] at h
  cases hread : readAll (before ++ c :: after) with
  | ok f =>
    rw [hread] at h
    cases h
  | error stop =>
    rw [hread] at h
    obtain rfl := Except.error.inj h
    obtain ⟨reason, rest⟩ := stop
    obtain ⟨taken, htaken⟩ := suffix_of_readAll hread
    simp only at hposition htaken
    rw [← htaken, position_append taken ⟨reason, rest⟩] at hposition
    obtain rfl := eq_of_byteLength_eq ⟨rest, htaken⟩ (List.prefix_append before _) hposition
    obtain rfl := List.append_cancel_left htaken
    rw [read, ht, readAll_locally hread after']
    simp only [position_append taken ⟨reason, _⟩]

/-- **A fault before the end of a text is settled by what stands before it and at it.**  Every text that is
the same up to and with the character at the position of the fault is refused there for the same reason; in
particular nothing that begins with the refused text is a filter. -/
theorem refused_locally {s t : String} {fault : SyntaxFault} {i : Nat} (h : read s = .error fault)
    (hi : i < s.toList.length) (hposition : fault.position = byteLength (s.toList.take i))
    (hsame : t.toList.take (i + 1) = s.toList.take (i + 1)) :
    read t = .error ⟨t, fault.position, fault.reason⟩ ∧
      ∀ u f, s.toList <+: u.toList → read u ≠ .ok f := by
  -- the common beginning, the character at the position, and what follows it
  have hsplit : ∀ u : String, u.toList.take (i + 1) = s.toList.take (i + 1) →
      u.toList = s.toList.take i ++ s.toList[i] :: u.toList.drop (i + 1) := by
    intro u hu
    have hwhole := List.take_append_drop (i + 1) u.toList
    rw [hu, ← List.take_append_getElem hi, List.append_assoc, List.singleton_append] at hwhole
    exact hwhole.symm
  refine ⟨read_locally h (hsplit s rfl) hposition (hsplit t hsame), fun u f ⟨more, hmore⟩ hok => ?_⟩
  have hu : u.toList.take (i + 1) = s.toList.take (i + 1) := by
    rw [← hmore, List.take_append_of_le_length hi]
  rw [read_locally h (hsplit s rfl) hposition (hsplit u hu)] at hok
  cases hok

/-- The fault is found at the fourth character and the fifth byte: the equals sign is missing there, however
the text goes on. -/
theorem refused_locally_accented :
    read "(é~1)" = .error ⟨"(é~1)", 4, .missingEquals '~'⟩ ∧
    read "(é~1\\" = .error ⟨"(é~1\\", 4, .missingEquals '~'⟩ ∧
    ∀ u f, "(é~1)".toList <+: u.toList → read u ≠ .ok f := by
  have hread : read "(é~1)" = .error ⟨"(é~1)", 4, .missingEquals '~'⟩ := rfl
  obtain ⟨hother, hnone⟩ := refused_locally (t := "(é~1\\") (i := 3) hread (by decide) (by decide) (by decide)
  exact ⟨hread, hother, hnone⟩

end Filter
end FrameworkAdmin
