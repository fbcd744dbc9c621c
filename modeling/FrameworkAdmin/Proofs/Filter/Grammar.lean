/-
# The grammar of filters

The language that `Filter.read` is measured against, as trees.  A tree records everything a text
consists of, the blanks included, so that its text is a function of it (`Tree.chars`), and so is the
filter it stands for (`Tree.filter`).  `Tree.Valid` says which trees the grammar has:

    filter  ::=  "(" blank* body ")" blank*
    body    ::=  "&" blank* filter+  |  "|" blank* filter+  |  "!" blank* filter  |  item
    item    ::=  attribute sign value

An attribute is a run of characters that end no attribute; its blanks at the end are part of the run
but not of the name.  It starts neither with a blank nor with one of the three marks, since those
would have been read as something else.  A value is a list of pieces, and only `=` admits a wildcard
among them.

Nothing here mentions the reader.  The result of this module is that the grammar is unambiguous:
`Tree.eq_of_chars` says that a text has one tree at most, even if a text follows it.
-/
import FrameworkAdmin.Filter.Parser
import FrameworkAdmin.Proofs.Text.Ends

namespace FrameworkAdmin
namespace Filter

open Text

/-! ## 1. Values -/

/-- What a value is spelled with: a character, a character after a backslash, or a wildcard. -/
inductive Piece where
  | plain (c : Char)
  | escaped (c : Char)
  | star
deriving DecidableEq, Repr

namespace Piece

/-- The spelling of a piece. -/
def chars : Piece → List Char
  | .plain c => [c]
  | .escaped c => ['\\', c]
  | .star => ['*']

/-- The spelling of a value. -/
def charsAll (ps : List Piece) : List Char := ps.flatMap chars

/-- A character that stands for itself has no meaning of its own. -/
def Valid : Piece → Prop
  | .plain c => isSpecial c = false
  | .escaped _ => True
  | .star => True

/-- The character that a piece stands for; a wildcard stands for none. -/
def char? : Piece → Option Char
  | .plain c => some c
  | .escaped c => some c
  | .star => none

/-- The texts between the wildcards of a value. -/
def between : List Piece → Runs
  | [] => ⟨[], []⟩
  | .plain c :: ps => (between ps).extend c
  | .escaped c :: ps => (between ps).extend c
  | .star :: ps => (between ps).star

/-- There is more than one text exactly if there is a wildcard. -/
theorem more_between_eq_nil_iff {ps : List Piece} : (between ps).more = [] ↔ star ∉ ps := by
  induction ps with
  | nil => simp [between]
  | cons p ps ih => cases p <;> simp [between, Runs.extend, Runs.star, ih]

/-- Without a wildcard the one text is the whole value. -/
theorem first_between {ps : List Piece} (h : star ∉ ps) :
    (between ps).first = ps.filterMap char? := by
  induction ps with
  | nil => rfl
  | cons p ps ih =>
    have hps := ih fun hmem => h (List.mem_cons_of_mem _ hmem)
    cases p with
    | plain c => simp [between, Runs.extend, char?, hps]
    | escaped c => simp [between, Runs.extend, char?, hps]
    | star => exact absurd List.mem_cons_self h

/-- Two empty texts stand around one wildcard and nothing else. -/
theorem between_eq_single_iff {ps : List Piece} : between ps = ⟨[], [[]]⟩ ↔ ps = [star] := by
  cases ps with
  | nil => simp [between]
  | cons p ps =>
    cases p with
    | plain c => simp [between, Runs.extend]
    | escaped c => simp [between, Runs.extend]
    | star =>
      cases ps with
      | nil => simp [between, Runs.star]
      | cons q qs =>
        cases q <;> simp [between, Runs.extend, Runs.star]

end Piece

/-- The filter of an item.  A value that is one wildcard asks for presence, any other value with a
wildcard for the texts between them. -/
def ofItem (attr : String) (op : Comparison) (value : List Piece) : Filter :=
  if .star ∈ value then
    if value = [.star] then .present attr
    else
      .substring attr
        (((Piece.between value).first :: (Piece.between value).more).map String.ofList)
  else .compare attr op (String.ofList (value.filterMap Piece.char?))

/-! ## 2. Trees -/

mutual

/-- A filter as it is spelled: what is between its parentheses, and the blanks around that. -/
inductive Tree where
  | mk (before : List Char) (body : Body) (after : List Char)

/-- What is between the parentheses of a filter; `gap` are the blanks after a mark. -/
inductive Body where
  | and (gap : List Char) (operands : List Tree)
  | or (gap : List Char) (operands : List Tree)
  | not (gap : List Char) (operand : Tree)
  | item (attr : List Char) (op : Comparison) (value : List Piece)

end

/-- The characters of an attribute, the blanks at its end included. -/
structure AttributeRun (cs : List Char) : Prop where
  ne_nil : cs ≠ []
  inside : ∀ c ∈ cs, endsAttribute c = false
  startsClear : StartsClear cs
  noMark : ∀ c ∈ cs.head?, c ≠ '&' ∧ c ≠ '|' ∧ c ≠ '!'

mutual

/-- The spelling of a filter. -/
def Tree.chars : Tree → List Char
  | .mk before body after => '(' :: (before ++ (body.chars ++ ')' :: after))

/-- The spelling of what is between the parentheses. -/
def Body.chars : Body → List Char
  | .and gap ts => '&' :: (gap ++ Tree.charsAll ts)
  | .or gap ts => '|' :: (gap ++ Tree.charsAll ts)
  | .not gap t => '!' :: (gap ++ t.chars)
  | .item attr op value => attr ++ (op.sign ++ Piece.charsAll value)

/-- The spelling of filters that follow each other. -/
def Tree.charsAll : List Tree → List Char
  | [] => []
  | t :: ts => t.chars ++ Tree.charsAll ts

end

mutual

/-- The filter that a tree stands for. -/
def Tree.filter : Tree → Filter
  | .mk _ body _ => body.filter

/-- The filter that stands between the parentheses. -/
def Body.filter : Body → Filter
  | .and _ ts => .and (Tree.filterAll ts)
  | .or _ ts => .or (Tree.filterAll ts)
  | .not _ t => .not t.filter
  | .item attr op value => ofItem (String.ofList (trimEnd attr)) op value

/-- The filters that trees stand for. -/
def Tree.filterAll : List Tree → List Filter
  | [] => []
  | t :: ts => t.filter :: Tree.filterAll ts

end

mutual

/-- The tree belongs to the grammar. -/
def Tree.Valid : Tree → Prop
  | .mk before body after => Blanks before ∧ body.Valid ∧ Blanks after

/-- What stands between the parentheses belongs to the grammar. -/
def Body.Valid : Body → Prop
  | .and gap ts => Blanks gap ∧ ts ≠ [] ∧ Tree.ValidAll ts
  | .or gap ts => Blanks gap ∧ ts ≠ [] ∧ Tree.ValidAll ts
  | .not gap t => Blanks gap ∧ t.Valid
  | .item attr op value =>
    AttributeRun attr ∧ (∀ p ∈ value, p.Valid) ∧ (.star ∈ value → op = .equal)

/-- All of the trees belong to the grammar. -/
def Tree.ValidAll : List Tree → Prop
  | [] => True
  | t :: ts => t.Valid ∧ Tree.ValidAll ts

end

mutual

/-- How deep parentheses are nested. -/
def nesting : Filter → Nat
  | .and fs => nestingAll fs + 1
  | .or fs => nestingAll fs + 1
  | .not f => nesting f + 1
  | .compare _ _ _ => 1
  | .present _ => 1
  | .substring _ _ => 1

/-- The deepest nesting in a list of filters. -/
def nestingAll : List Filter → Nat
  | [] => 0
  | f :: fs => max (nesting f) (nestingAll fs)

end

/-- A derivation of a whole text: one tree after blanks, nested no deeper than is allowed. -/
structure Derivation (cs : List Char) where
  lead : List Char
  tree : Tree
  blanks : Blanks lead
  valid : tree.Valid
  shallow : tree.filter.nesting ≤ depthLimit
  spelling : cs = lead ++ tree.chars

/-! ## 3. Where the parts of a text begin -/

theorem Tree.exists_chars_cons (t : Tree) : ∃ cs, t.chars = '(' :: cs := by
  cases t with
  | mk before body after => exact ⟨_, by rw [Tree.chars]⟩

theorem Tree.startsClear_chars (t : Tree) (rest : List Char) : StartsClear (t.chars ++ rest) := by
  obtain ⟨cs, hcs⟩ := t.exists_chars_cons
  rw [hcs]
  exact startsClear_cons.2 (by decide)

/-- Filters in a row start with no blank, and neither does what is left after the last of them. -/
theorem Tree.startsClear_charsAll (ts : List Tree) {rest : List Char} (h : StartsClear rest) :
    StartsClear (Tree.charsAll ts ++ rest) := by
  cases ts with
  | nil => exact h
  | cons t ts =>
    rw [Tree.charsAll, List.append_assoc]
    exact t.startsClear_chars _

/-- The first character of an attribute is no blank and no mark. -/
theorem AttributeRun.exists_cons {attr : List Char} (h : AttributeRun attr) :
    ∃ c cs, attr = c :: cs ∧ isBlank c = false ∧ c ≠ '&' ∧ c ≠ '|' ∧ c ≠ '!' := by
  obtain ⟨c, cs, rfl⟩ := List.exists_cons_of_ne_nil h.ne_nil
  exact ⟨c, cs, rfl, startsClear_cons.1 h.startsClear, h.noMark c rfl⟩

theorem Body.startsClear_chars {b : Body} (h : b.Valid) (rest : List Char) :
    StartsClear (b.chars ++ rest) := by
  cases b with
  | and gap ts => exact startsClear_cons.2 (by decide)
  | or gap ts => exact startsClear_cons.2 (by decide)
  | not gap t => exact startsClear_cons.2 (by decide)
  | item attr op value =>
    rw [Body.Valid] at h
    obtain ⟨c, cs, rfl, hc, -⟩ := h.1.exists_cons
    exact startsClear_cons.2 hc

theorem startsClear_close (rest : List Char) : StartsClear (')' :: rest) :=
  startsClear_cons.2 (by decide)

/-- The sign of a comparison starts with a character that ends an attribute. -/
theorem exists_sign_append (op : Comparison) (cs : List Char) :
    ∃ c ds, op.sign ++ cs = c :: ds ∧ endsAttribute c = true := by
  cases op <;> exact ⟨_, _, rfl, by decide⟩

/-! ## 4. A text has one tree

Two trees are compared from the left.  Each part is determined by where it ends: blanks by the first
character that is none, an attribute by the first character that ends one, a value by the first
parenthesis, a row of filters by the first parenthesis that does not open.  So what follows the two
texts may differ, and the induction shows that it does not. -/

/-- Blanks end where the text does not go on with one. -/
theorem eq_of_blanks {ws vs cs ds : List Char} (hws : Blanks ws) (hvs : Blanks vs)
    (hcs : StartsClear cs) (hds : StartsClear ds) (h : ws ++ cs = vs ++ ds) :
    ws = vs ∧ cs = ds := by
  have hrest : cs = ds := by
    rw [← trimStart_append hws hcs, h, trimStart_append hvs hds]
  subst hrest
  exact ⟨List.append_cancel_right h, rfl⟩

/-- A run ends where the text goes on with a character that cannot belong to it. -/
theorem eq_of_run {p : Char → Bool} {as bs cs ds : List Char} (has : ∀ c ∈ as, p c = false)
    (hbs : ∀ c ∈ bs, p c = false) (hcs : ∃ c cs', cs = c :: cs' ∧ p c = true)
    (hds : ∃ d ds', ds = d :: ds' ∧ p d = true) (h : as ++ cs = bs ++ ds) :
    as = bs ∧ cs = ds := by
  obtain ⟨c, cs, rfl, hc⟩ := hcs
  obtain ⟨d, ds, rfl, hd⟩ := hds
  have hcut : cut p (as ++ c :: cs) = cut p (bs ++ d :: ds) := congrArg (cut p) h
  rw [cut_append_cons has hc, cut_append_cons hbs hd] at hcut
  obtain rfl := (Prod.mk.inj hcut).1
  exact ⟨rfl, List.append_cancel_left h⟩

theorem eq_of_sign {op op' : Comparison} {cs ds : List Char}
    (h : op.sign ++ cs = op'.sign ++ ds) : op = op' ∧ cs = ds := by
  cases op <;> cases op' <;> simp_all [Comparison.sign]

/-- A value that goes on does not do so with a parenthesis that closes. -/
theorem Piece.chars_append_ne_close {p : Piece} (hp : p.Valid) (cs ds : List Char) :
    p.chars ++ cs ≠ ')' :: ds := by
  intro h
  cases p with
  | plain c =>
    obtain rfl : c = ')' := (List.cons.inj h).1
    simp [Valid, isSpecial] at hp
  | escaped c => exact absurd (List.cons.inj h).1 (by decide)
  | star => exact absurd (List.cons.inj h).1 (by decide)

/-- A piece is told from another by its first character, and an escaped one by its second. -/
theorem Piece.eq_of_chars {p q : Piece} (hp : p.Valid) (hq : q.Valid) {cs ds : List Char}
    (h : p.chars ++ cs = q.chars ++ ds) : p = q ∧ cs = ds := by
  have hplain {c : Char} (hc : isSpecial c = false) : c ≠ '\\' ∧ c ≠ '*' :=
    ⟨fun heq => by simp [heq, isSpecial] at hc, fun heq => by simp [heq, isSpecial] at hc⟩
  cases p with
  | plain c =>
    cases q with
    | plain d =>
      obtain ⟨rfl, htail⟩ := List.cons.inj h
      exact ⟨rfl, htail⟩
    | escaped d => exact absurd (List.cons.inj h).1 (hplain hp).1
    | star => exact absurd (List.cons.inj h).1 (hplain hp).2
  | escaped c =>
    cases q with
    | plain d => exact absurd (List.cons.inj h).1.symm (hplain hq).1
    | escaped d =>
      obtain ⟨rfl, htail⟩ := List.cons.inj (List.cons.inj h).2
      exact ⟨rfl, htail⟩
    | star => exact absurd (List.cons.inj h).1 (by decide)
  | star =>
    cases q with
    | plain d => exact absurd (List.cons.inj h).1.symm (hplain hq).2
    | escaped d => exact absurd (List.cons.inj h).1 (by decide)
    | star => exact ⟨rfl, (List.cons.inj h).2⟩

/-- Pieces are read one by one up to the parenthesis. -/
theorem Piece.eq_of_charsAll {ps qs : List Piece} (hps : ∀ p ∈ ps, p.Valid)
    (hqs : ∀ q ∈ qs, q.Valid) {cs ds : List Char}
    (h : charsAll ps ++ ')' :: cs = charsAll qs ++ ')' :: ds) : ps = qs ∧ cs = ds := by
  induction ps generalizing qs with
  | nil =>
    cases qs with
    | nil => exact ⟨rfl, (List.cons.inj h).2⟩
    | cons q qs =>
      rw [charsAll, charsAll, List.flatMap_cons, List.append_assoc] at h
      exact absurd h.symm (chars_append_ne_close (hqs q List.mem_cons_self) _ _)
  | cons p ps ih =>
    rw [charsAll, List.flatMap_cons, List.append_assoc] at h
    cases qs with
    | nil => exact absurd h (chars_append_ne_close (hps p List.mem_cons_self) _ _)
    | cons q qs =>
      rw [charsAll, List.flatMap_cons, List.append_assoc] at h
      obtain ⟨rfl, hrest⟩ :=
        eq_of_chars (hps p List.mem_cons_self) (hqs q List.mem_cons_self) h
      obtain ⟨rfl, rfl⟩ := ih (fun r hr => hps r (List.mem_cons_of_mem _ hr))
        (fun r hr => hqs r (List.mem_cons_of_mem _ hr)) hrest
      exact ⟨rfl, rfl⟩

/-- The mark that what is between the parentheses begins with; an item has none. -/
def Body.mark : Body → Option Char
  | .and _ _ => some '&'
  | .or _ _ => some '|'
  | .not _ _ => some '!'
  | .item _ _ _ => none

/-- The first character decides what stands between the parentheses. -/
theorem Body.mark_eq {b : Body} (h : b.Valid) (cs : List Char) :
    b.mark = (b.chars ++ cs).head?.filter fun c => c == '&' || c == '|' || c == '!' := by
  cases b with
  | and gap ts => rfl
  | or gap ts => rfl
  | not gap t => rfl
  | item attr op value =>
    rw [Body.Valid] at h
    obtain ⟨c, xs, rfl, -, hand, hor, hnot⟩ := h.1.exists_cons
    simp [Body.mark, Body.chars, Option.filter, hand, hor, hnot]

/-- Operands start where the blanks after the mark end. -/
theorem eq_of_gap {gap gap' : List Char} (hgap : Blanks gap) (hgap' : Blanks gap')
    {ts us : List Tree} {cs ds : List Char}
    (h : gap ++ (Tree.charsAll ts ++ ')' :: cs) = gap' ++ (Tree.charsAll us ++ ')' :: ds)) :
    gap = gap' ∧ Tree.charsAll ts ++ ')' :: cs = Tree.charsAll us ++ ')' :: ds :=
  eq_of_blanks hgap hgap' (Tree.startsClear_charsAll ts (startsClear_close cs))
    (Tree.startsClear_charsAll us (startsClear_close ds)) h

mutual

theorem Tree.eq_of_chars : ∀ {t u : Tree} {cs ds : List Char}, t.Valid → u.Valid →
    StartsClear cs → StartsClear ds → t.chars ++ cs = u.chars ++ ds → t = u ∧ cs = ds
  | .mk before body after, .mk before' body' after', cs, ds, ht, hu, hcs, hds, h => by
    rw [Tree.Valid] at ht hu
    obtain ⟨hbefore, hbody, hafter⟩ := ht
    obtain ⟨hbefore', hbody', hafter'⟩ := hu
    simp only [Tree.chars, List.cons_append, List.append_assoc, List.cons.injEq, true_and] at h
    obtain ⟨rfl, hinner⟩ := eq_of_blanks hbefore hbefore' (Body.startsClear_chars hbody _)
      (Body.startsClear_chars hbody' _) h
    obtain ⟨rfl, houter⟩ := Body.eq_of_chars hbody hbody' hinner
    obtain ⟨rfl, rfl⟩ := eq_of_blanks hafter hafter' hcs hds houter
    exact ⟨rfl, rfl⟩

theorem Body.eq_of_chars : ∀ {b c : Body} {cs ds : List Char}, b.Valid → c.Valid →
    b.chars ++ ')' :: cs = c.chars ++ ')' :: ds → b = c ∧ cs = ds
  | .and gap ts, c, cs, ds, hb, hc, h => by
    have hmark := Body.mark_eq hb (')' :: cs)
    rw [h, ← Body.mark_eq hc] at hmark
    cases c with
    | and gap' us =>
      rw [Body.Valid] at hb hc
      simp only [Body.chars, List.cons_append, List.append_assoc, List.cons.injEq, true_and] at h
      obtain ⟨rfl, hrest⟩ := eq_of_gap hb.1 hc.1 h
      obtain ⟨rfl, rfl⟩ := Tree.eq_of_charsAll hb.2.2 hc.2.2 hrest
      exact ⟨rfl, rfl⟩
    | or gap' us => cases hmark
    | not gap' u => cases hmark
    | item attr' op' value' => cases hmark
  | .or gap ts, c, cs, ds, hb, hc, h => by
    have hmark := Body.mark_eq hb (')' :: cs)
    rw [h, ← Body.mark_eq hc] at hmark
    cases c with
    | or gap' us =>
      rw [Body.Valid] at hb hc
      simp only [Body.chars, List.cons_append, List.append_assoc, List.cons.injEq, true_and] at h
      obtain ⟨rfl, hrest⟩ := eq_of_gap hb.1 hc.1 h
      obtain ⟨rfl, rfl⟩ := Tree.eq_of_charsAll hb.2.2 hc.2.2 hrest
      exact ⟨rfl, rfl⟩
    | and gap' us => cases hmark
    | not gap' u => cases hmark
    | item attr' op' value' => cases hmark
  | .not gap t, c, cs, ds, hb, hc, h => by
    have hmark := Body.mark_eq hb (')' :: cs)
    rw [h, ← Body.mark_eq hc] at hmark
    cases c with
    | not gap' u =>
      rw [Body.Valid] at hb hc
      simp only [Body.chars, List.cons_append, List.append_assoc, List.cons.injEq, true_and] at h
      obtain ⟨rfl, hrest⟩ := eq_of_blanks hb.1 hc.1 (t.startsClear_chars _)
        (u.startsClear_chars _) h
      obtain ⟨rfl, htail⟩ := Tree.eq_of_chars hb.2 hc.2 (startsClear_close cs)
        (startsClear_close ds) hrest
      exact ⟨rfl, (List.cons.inj htail).2⟩
    | and gap' us => cases hmark
    | or gap' us => cases hmark
    | item attr' op' value' => cases hmark
  | .item attr op value, c, cs, ds, hb, hc, h => by
    have hmark := Body.mark_eq hb (')' :: cs)
    rw [h, ← Body.mark_eq hc] at hmark
    cases c with
    | item attr' op' value' =>
      rw [Body.Valid] at hb hc
      simp only [Body.chars, List.append_assoc] at h
      obtain ⟨rfl, hsign⟩ := eq_of_run hb.1.inside hc.1.inside (exists_sign_append op _)
        (exists_sign_append op' _) h
      obtain ⟨rfl, hvalue⟩ := eq_of_sign hsign
      obtain ⟨rfl, rfl⟩ := Piece.eq_of_charsAll hb.2.1 hc.2.1 hvalue
      exact ⟨rfl, rfl⟩
    | and gap' us => cases hmark
    | or gap' us => cases hmark
    | not gap' u => cases hmark

theorem Tree.eq_of_charsAll : ∀ {ts us : List Tree} {cs ds : List Char}, Tree.ValidAll ts →
    Tree.ValidAll us → Tree.charsAll ts ++ ')' :: cs = Tree.charsAll us ++ ')' :: ds →
    ts = us ∧ cs = ds
  | [], [], cs, ds, _, _, h => ⟨rfl, (List.cons.inj h).2⟩
  | [], u :: us, cs, ds, _, _, h => by
    obtain ⟨xs, hxs⟩ := u.exists_chars_cons
    simp [Tree.charsAll, hxs] at h
  | t :: ts, [], cs, ds, _, _, h => by
    obtain ⟨xs, hxs⟩ := t.exists_chars_cons
    simp [Tree.charsAll, hxs] at h
  | t :: ts, u :: us, cs, ds, ht, hu, h => by
    rw [Tree.ValidAll] at ht hu
    simp only [Tree.charsAll, List.append_assoc] at h
    obtain ⟨rfl, hrest⟩ := Tree.eq_of_chars ht.1 hu.1
      (Tree.startsClear_charsAll ts (startsClear_close cs))
      (Tree.startsClear_charsAll us (startsClear_close ds)) h
    obtain ⟨rfl, rfl⟩ := Tree.eq_of_charsAll ht.2 hu.2 hrest
    exact ⟨rfl, rfl⟩

end

/-- **The grammar is unambiguous**: a text has one derivation at most. -/
instance {cs : List Char} : Subsingleton (Derivation cs) := by
  refine ⟨fun d e => ?_⟩
  obtain ⟨lead, tree, blanks, valid, shallow, spelling⟩ := d
  obtain ⟨lead', tree', blanks', valid', shallow', spelling'⟩ := e
  have hclear (t : Tree) : StartsClear t.chars := by
    simpa using t.startsClear_chars []
  obtain ⟨rfl, hchars⟩ := eq_of_blanks blanks blanks' (hclear tree) (hclear tree')
    (spelling.symm.trans spelling')
  obtain ⟨rfl, -⟩ := Tree.eq_of_chars valid valid' startsClear_nil startsClear_nil
    (congrArg (· ++ []) hchars)
  rfl

end Filter
end FrameworkAdmin
