/-
# Wildcards stand for any text

The search for the parts of a value is greedy: it takes each part where it occurs first and never goes
back.  It is exact all the same (`covers_iff`).  If a part is taken earlier than in some other
placement, what is left of the text is longer and ends in the same way, so whatever the other placement
still finds in its rest is found here as well (`Occurs.of_suffix`).  That is the whole exchange argument,
and `search_spec` carries it through the list of parts.

The search works on offsets in bytes, and `search_spec` is stated for the offsets that it starts from:
they are the lengths of texts that the whole text is put together from.  Such offsets lie between
characters and in the right order (`slice?_append`), and every step leads from one pair of them to
another.  So no cut goes wrong, and no difference of lengths falls below zero, whatever characters the
text and the parts are made of.
-/
import FrameworkAdmin.Filter.Matching
import FrameworkAdmin.Proofs.Filter.Reading

namespace FrameworkAdmin
namespace Wildcard

open FrameworkAdmin.Filter (byteLength byteLength_append)

variable {part first last cs ds rest : List Char} {parts middle : List (List Char)}

/-! ## 1. Offsets that are lengths -/

theorem byteLength_cons (c : Char) (cs : List Char) :
    byteLength (c :: cs) = c.utf8Size + byteLength cs := rfl

theorem dropBytes?_zero (cs : List Char) : dropBytes? cs 0 = some cs := by cases cs <;> rfl

theorem takeBytes?_zero (cs : List Char) : takeBytes? cs 0 = some [] := by cases cs <;> rfl

theorem dropBytes?_append (cs rest : List Char) :
    dropBytes? (cs ++ rest) (byteLength cs) = some rest := by
  induction cs with
  | nil => exact dropBytes?_zero rest
  | cons c cs ih =>
    have hpos := c.utf8Size_pos
    obtain ⟨n, hn⟩ : ∃ n, c.utf8Size + byteLength cs = n + 1 := ⟨_, (Nat.sub_add_cancel (by omega)).symm⟩
    have hrest : n + 1 - c.utf8Size = byteLength cs := by omega
    rw [byteLength_cons, hn, List.cons_append, dropBytes?, if_pos (by omega), hrest, ih]

theorem takeBytes?_append (cs rest : List Char) :
    takeBytes? (cs ++ rest) (byteLength cs) = some cs := by
  induction cs with
  | nil => exact takeBytes?_zero rest
  | cons c cs ih =>
    have hpos := c.utf8Size_pos
    obtain ⟨n, hn⟩ : ∃ n, c.utf8Size + byteLength cs = n + 1 := ⟨_, (Nat.sub_add_cancel (by omega)).symm⟩
    have hrest : n + 1 - c.utf8Size = byteLength cs := by omega
    rw [byteLength_cons, hn, List.cons_append, takeBytes?, if_pos (by omega), hrest, ih]
    rfl

/-- **Lengths are sound offsets**: the text between them is the one in the middle. -/
theorem slice?_append (before between after : List Char) :
    slice? (before ++ (between ++ after)) (byteLength before)
      (byteLength before + byteLength between) = some between := by
  have hlength : byteLength before + byteLength between - byteLength before = byteLength between := by
    omega
  rw [slice?, if_pos (Nat.le_add_right _ _), dropBytes?_append, hlength]
  exact takeBytes?_append between after

/-! ## 2. The earliest occurrence -/

theorem find?_eq_none (h : find? part cs = none) : ¬ part <:+: cs := by
  induction cs with
  | nil =>
    rw [find?] at h
    split at h
    · cases h
    · rename_i hne
      simpa using hne
  | cons c cs ih =>
    rw [find?] at h
    split at h
    · cases h
    · rename_i hbegins
      rw [List.isPrefixOf_iff_prefix] at hbegins
      rw [List.infix_cons_iff, not_or]
      exact ⟨hbegins, ih (Option.map_eq_none_iff.1 h)⟩

/-- What is found is an occurrence, and the rest after any other ends the rest after it. -/
theorem exists_of_find? {found : Nat} (h : find? part cs = some found) :
    ∃ gap rest, cs = gap ++ (part ++ rest) ∧ found = byteLength gap ∧
      ∀ gap' rest', cs = gap' ++ (part ++ rest') → rest' <:+ rest := by
  induction cs generalizing found with
  | nil =>
    rw [find?] at h
    split at h
    · rename_i hempty
      obtain rfl := List.isEmpty_iff.1 hempty
      cases h
      refine ⟨[], [], rfl, rfl, fun gap' rest' heq => ?_⟩
      obtain ⟨-, hrest⟩ := List.append_eq_nil_iff.1 heq.symm
      exact (List.append_eq_nil_iff.1 hrest).2 ▸ List.suffix_refl []
    · cases h
  | cons c cs ih =>
    rw [find?] at h
    split at h
    · -- it begins here, so every other occurrence leaves less
      rename_i hbegins
      cases h
      obtain ⟨rest, hrest⟩ := List.isPrefixOf_iff_prefix.1 hbegins
      refine ⟨[], rest, hrest.symm, rfl, fun gap' rest' heq => ?_⟩
      have hlength := congrArg List.length (hrest.trans heq)
      simp only [List.length_append] at hlength
      have hsuffix : rest' <:+ c :: cs := ⟨gap' ++ part, by rw [heq, List.append_assoc]⟩
      exact List.suffix_of_suffix_length_le hsuffix ⟨part, hrest⟩ (by omega)
    · -- it does not begin here, so no occurrence does
      rename_i hbegins
      obtain ⟨later, hlater, rfl⟩ := Option.map_eq_some_iff.1 h
      obtain ⟨gap, rest, rfl, rfl, hearliest⟩ := ih hlater
      refine ⟨c :: gap, rest, rfl, rfl, fun gap' rest' heq => ?_⟩
      cases gap' with
      | nil => exact absurd (List.isPrefixOf_iff_prefix.2 ⟨rest', heq.symm⟩) hbegins
      | cons d gap' => exact hearliest gap' rest' (List.cons.inj heq).2

/-! ## 3. Placements -/

/-- The parts occur in the text, in order and without overlap. -/
inductive Occurs : List (List Char) → List Char → Prop
  | nil {cs : List Char} : Occurs [] cs
  | cons {gap part rest : List Char} {parts : List (List Char)} (h : Occurs parts rest) :
      Occurs (part :: parts) (gap ++ (part ++ rest))

/-- The text is the parts in order, with any text in the gaps between neighbours. -/
inductive Spread : List (List Char) → List Char → Prop
  | last {part : List Char} : Spread [part] part
  | gap {part gap rest : List Char} {parts : List (List Char)} (h : Spread parts rest) :
      Spread (part :: parts) (part ++ (gap ++ rest))

/-- **What occurs in a text occurs in every text that ends in it.** -/
theorem Occurs.of_suffix (h : Occurs parts cs) (hsuffix : cs <:+ ds) : Occurs parts ds := by
  obtain ⟨before, rfl⟩ := hsuffix
  cases h with
  | nil => exact .nil
  | cons h =>
    rw [← List.append_assoc]
    exact .cons h

/-- Spread parts are the two at the ends and those that occur between them. -/
theorem spread_iff : Spread (first :: (middle ++ [last])) cs ↔
    ∃ rest, cs = first ++ (rest ++ last) ∧ Occurs middle rest := by
  induction middle generalizing first cs with
  | nil =>
    constructor
    · intro h
      cases h with
      | @gap _ gap _ _ h =>
        cases h with
        | last => exact ⟨gap, rfl, .nil⟩
        | gap h => cases h
    · rintro ⟨rest, rfl, -⟩
      exact .gap .last
  | cons part middle ih =>
    constructor
    · intro h
      cases h with
      | @gap _ gap _ _ h =>
        obtain ⟨rest, rfl, hoccurs⟩ := ih.1 h
        exact ⟨gap ++ (part ++ rest), by simp, .cons hoccurs⟩
    · rintro ⟨rest, rfl, hoccurs⟩
      cases hoccurs with
      | cons h =>
        have hspread : Spread (part :: (middle ++ [last])) _ := ih.2 ⟨_, rfl, h⟩
        simp only [List.append_assoc]
        exact .gap hspread

/-! ## 4. The search -/

/-- From sound offsets, the next part is looked for in the text between them. -/
theorem search_cons (before rest last part : List Char) (parts : List (List Char)) :
    search (before ++ (rest ++ last)) (byteLength before + byteLength rest) (byteLength before)
        (part :: parts) =
      match find? part rest with
      | none => .error .absent
      | some found =>
        search (before ++ (rest ++ last)) (byteLength before + byteLength rest)
          (byteLength before + (found + byteLength part)) parts := by
  cases hfound : find? part rest <;> simp only [search, slice?_append, hfound]

/-- **The search from sound offsets** finds the parts if and only if they occur between them.  It misses
them for no other reason than that one is absent. -/
theorem search_spec (before rest last : List Char) (parts : List (List Char)) :
    (Occurs parts rest ∧ ∃ pos ≤ byteLength before + byteLength rest,
      search (before ++ (rest ++ last)) (byteLength before + byteLength rest) (byteLength before) parts =
        .ok pos) ∨
    (¬ Occurs parts rest ∧
      search (before ++ (rest ++ last)) (byteLength before + byteLength rest) (byteLength before) parts =
        .error .absent) := by
  induction parts generalizing before rest with
  | nil => exact Or.inl ⟨.nil, _, Nat.le_add_right _ _, rfl⟩
  | cons part parts ih =>
    cases hfind : find? part rest with
    | none =>
      refine Or.inr ⟨fun hoccurs => find?_eq_none hfind ?_, ?_⟩
      · cases hoccurs with
        | @cons gap _ after _ h => exact ⟨gap, after, by rw [List.append_assoc]⟩
      · rw [search_cons, hfind]
    | some found =>
      simp only [search_cons, hfind]
      obtain ⟨gap, after, rfl, rfl, hearliest⟩ := exists_of_find? hfind
      -- the offsets of the next step are the lengths of longer texts
      have htext : before ++ (gap ++ (part ++ after) ++ last) =
          before ++ (gap ++ part) ++ (after ++ last) := by simp
      have hpos : byteLength before + (byteLength gap + byteLength part) =
          byteLength (before ++ (gap ++ part)) := by simp only [byteLength_append]
      have hlimit : byteLength before + byteLength (gap ++ (part ++ after)) =
          byteLength (before ++ (gap ++ part)) + byteLength after := by
        simp only [byteLength_append]
        omega
      have hoccurs : Occurs (part :: parts) (gap ++ (part ++ after)) ↔ Occurs parts after := by
        refine ⟨fun h => ?_, .cons⟩
        generalize htail : gap ++ (part ++ after) = whole at h
        cases h with
        | @cons gap' _ rest' _ h => exact h.of_suffix (hearliest gap' rest' htail)
      simp only [hoccurs, htext, hpos, hlimit]
      exact ih (before ++ (gap ++ part)) after

/-- The lengths and the two ends are right if and only if the text has something between two ends that do
not overlap. -/
theorem ends_iff : byteLength first + byteLength last ≤ byteLength cs ∧ first <+: cs ∧ last <:+ cs ↔
    ∃ rest, cs = first ++ (rest ++ last) := by
  constructor
  · rintro ⟨hlength, ⟨tail, rfl⟩, hsuffix⟩
    rcases List.suffix_or_suffix_of_suffix hsuffix (List.suffix_append first tail) with h | h
    · obtain ⟨rest, rfl⟩ := h
      exact ⟨rest, rfl⟩
    · -- the last part would begin within the first, and be too long for that
      obtain ⟨excess, rfl⟩ := h
      simp only [byteLength_append] at hlength
      cases excess with
      | nil => exact ⟨[], rfl⟩
      | cons c excess =>
        have hpos := c.utf8Size_pos
        rw [byteLength_cons] at hlength
        omega
  · rintro ⟨rest, rfl⟩
    refine ⟨?_, List.prefix_append _ _, ?_⟩
    · simp only [byteLength_append]
      omega
    · rw [← List.append_assoc]
      exact List.suffix_append _ _

/-- The reasons for which a text can fail to fit. -/
def Miss.Expected (m : Miss) : Prop := m = .tooFewParts ∨ m = .tooShort ∨ m = .otherEnds ∨ m = .absent

theorem fit_spec (first last cs : List Char) (middle : List (List Char)) :
    (fit first middle last cs = .ok () ∧ Spread (first :: (middle ++ [last])) cs) ∨
    (∃ m, fit first middle last cs = .error m ∧ m.Expected ∧ ¬ Spread (first :: (middle ++ [last])) cs) := by
  rw [spread_iff]
  have hends (h : ¬ (byteLength first + byteLength last ≤ byteLength cs ∧ first <+: cs ∧ last <:+ cs)) :
      ¬ ∃ rest, cs = first ++ (rest ++ last) ∧ Occurs middle rest :=
    fun ⟨rest, heq, _⟩ => h (ends_iff.2 ⟨rest, heq⟩)
  rw [fit]
  split
  · rename_i hshort
    exact Or.inr ⟨_, rfl, Or.inr (Or.inl rfl), hends fun h => by omega⟩
  rename_i hlong
  split
  · rename_i hother
    refine Or.inr ⟨_, rfl, Or.inr (Or.inr (Or.inl rfl)), hends fun h => ?_⟩
    have hsame := And.intro (List.isPrefixOf_iff_prefix.2 h.2.1) (List.isSuffixOf_iff_suffix.2 h.2.2)
    rw [hsame.1, hsame.2] at hother
    cases hother
  rename_i hsame
  simp only [Bool.not_eq_true', Bool.not_eq_false, Bool.and_eq_true, List.isPrefixOf_iff_prefix,
    List.isSuffixOf_iff_suffix] at hsame
  obtain ⟨rest, rfl⟩ := ends_iff.1 ⟨by omega, hsame⟩
  have hlimit : minus? (byteLength (first ++ (rest ++ last))) (byteLength last) =
      .ok (byteLength first + byteLength rest) := by
    simp only [minus?, byteLength_append]
    rw [if_pos (by omega)]
    congr 1
    omega
  have hrest {rest'} (heq : first ++ (rest ++ last) = first ++ (rest' ++ last)) : rest = rest' :=
    List.append_cancel_right (List.append_cancel_left heq)
  simp only [hlimit, bind, Except.bind]
  rcases search_spec first rest last middle with ⟨hoccurs, pos, hpos, hsearch⟩ | ⟨hno, hsearch⟩
  · refine Or.inl ⟨?_, rest, rfl, hoccurs⟩
    rw [hsearch]
    exact if_pos hpos
  · refine Or.inr ⟨.absent, ?_, Or.inr (Or.inr (Or.inr rfl)), ?_⟩
    · rw [hsearch]
    · rintro ⟨rest', heq, hoccurs⟩
      exact hno (hrest heq ▸ hoccurs)

/-- **A text fits its parts if and only if it is spread out of them**, and fails to fit for an expected
reason only. -/
theorem attempt_spec (parts : List (List Char)) (cs : List Char) :
    (attempt parts cs = .ok () ∧ 2 ≤ parts.length ∧ Spread parts cs) ∨
    (∃ m, attempt parts cs = .error m ∧ m.Expected ∧ ¬ (2 ≤ parts.length ∧ Spread parts cs)) := by
  match parts with
  | [] => exact Or.inr ⟨_, rfl, Or.inl rfl, by simp⟩
  | [part] => exact Or.inr ⟨_, rfl, Or.inl rfl, by simp⟩
  | first :: second :: parts =>
    have hparts := List.dropLast_concat_getLast (l := second :: parts) (by simp)
    have hspec := fit_spec first ((second :: parts).getLast (by simp)) cs (second :: parts).dropLast
    rw [hparts] at hspec
    rw [attempt]
    simpa using hspec

theorem covers_iff : covers parts cs = true ↔ 2 ≤ parts.length ∧ Spread parts cs := by
  rcases attempt_spec parts cs with ⟨hok, hspread⟩ | ⟨m, herror, -, hno⟩
  · simp [covers, hok, hspread, Except.isOk, Except.toBool]
  · simp [covers, herror, hno, Except.isOk, Except.toBool]

/-- **Wildcards stand for any text, and for nothing else.**  The parts cover a text if and only if there
are two at least and the text is the parts with something in the gaps.  On the way no length is taken
from a smaller one, no cut is made inside a character or at offsets in the wrong order, and the parts
in the middle do not run into the last one. -/
theorem covers_iff_spread (parts : List (List Char)) (cs : List Char) :
    (covers parts cs = true ↔ 2 ≤ parts.length ∧ Spread parts cs) ∧
    attempt parts cs ≠ .error .underflow ∧
    (∀ start stop, attempt parts cs ≠ .error (.badSlice start stop)) ∧
    attempt parts cs ≠ .error .overrun := by
  refine ⟨covers_iff, ?_⟩
  rcases attempt_spec parts cs with ⟨hok, -⟩ | ⟨m, herror, hexpected, -⟩
  · simp [hok]
  · rcases hexpected with rfl | rfl | rfl | rfl <;> simp [herror]

/-- Two parts cannot share a character of the text. -/
example : covers [['ä', 'b'], ['b', 'ä']] ['ä', 'b', 'ä'] = false := by decide

end Wildcard

/-- A substring filter selects the dictionaries with a string under its attribute that is spread out of
its parts. -/
theorem Filter.selects_substring_iff {attr : String} {parts : List String} {p : Properties} :
    (Filter.substring attr parts).selects p = true ↔
      2 ≤ parts.length ∧ ∃ v text, p.attribute? attr = some v ∧ (⟨.string, text⟩ : Scalar) ∈ v.scalars ∧
        Wildcard.Spread (parts.map String.toList) text.toList := by
  rw [Filter.selects, Properties.holds]
  constructor
  · intro h
    split at h
    · rename_i v hv
      obtain ⟨s, hs, hfits⟩ := List.any_eq_true.1 h
      obtain ⟨k, a⟩ := s
      cases k with
      | string =>
        obtain ⟨hlength, hspread⟩ := Wildcard.covers_iff.1 hfits
        exact ⟨by simpa using hlength, v, a, hv, hs, hspread⟩
      | _ => cases hfits
    · cases h
  · rintro ⟨hlength, v, text, hv, hs, hspread⟩
    rw [hv]
    exact List.any_eq_true.2 ⟨_, hs, Wildcard.covers_iff.2 ⟨by simpa using hlength, hspread⟩⟩

end FrameworkAdmin
