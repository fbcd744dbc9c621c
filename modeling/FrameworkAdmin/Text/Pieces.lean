/-
# Cutting a text at a character

Two cuts are enough for every list this library reads.

* `pieces sep` cuts at every occurrence of one character.  A text with `n` separators has
  `n + 1` pieces, so the empty text has one piece and that piece is empty (`pieces_nil`).
* `cut p` cuts once, at the first character that satisfies `p`, and tells a text without such
  a character (`none`) from one that ends in it (`some []`).

`join` puts the separators back.  Cutting again gives the pieces that were joined, if they are
free of the separator and there is one at least (`pieces_join`).
-/

namespace FrameworkAdmin
namespace Text

/-! ## 1. Every occurrence -/

/-- The runs of characters between the occurrences of `sep`; never the empty list. -/
def pieces (sep : Char) : List Char → List (List Char)
  | [] => [[]]
  | c :: cs =>
    if c = sep then [] :: pieces sep cs
    else
      match pieces sep cs with
      | [] => [[c]]
      | p :: ps => (c :: p) :: ps

/-- The pieces in order, with `sep` between neighbours. -/
def join (sep : Char) : List (List Char) → List Char
  | [] => []
  | [p] => p
  | p :: q :: ps => p ++ sep :: join sep (q :: ps)

@[simp] theorem pieces_nil (sep : Char) : pieces sep [] = [[]] := rfl

theorem pieces_ne_nil (sep : Char) (cs : List Char) : pieces sep cs ≠ [] := by
  cases cs with
  | nil => simp
  | cons c cs =>
    rw [pieces]
    split
    · simp
    · split <;> simp

/-- The separator starts a new piece. -/
theorem pieces_cons_self (sep : Char) (cs : List Char) :
    pieces sep (sep :: cs) = [] :: pieces sep cs := by
  rw [pieces, if_pos rfl]

/-- Any other character belongs to the first piece. -/
theorem pieces_cons_of_ne {sep c : Char} (h : c ≠ sep) {cs p : List Char}
    {ps : List (List Char)} (hcs : pieces sep cs = p :: ps) :
    pieces sep (c :: cs) = (c :: p) :: ps := by
  rw [pieces, if_neg h, hcs]

/-- A text without separators is one piece. -/
theorem pieces_of_not_mem {sep : Char} {cs : List Char} (h : sep ∉ cs) : pieces sep cs = [cs] := by
  induction cs with
  | nil => rfl
  | cons c cs ih =>
    simp only [List.mem_cons, not_or] at h
    exact pieces_cons_of_ne (Ne.symm h.1) (ih h.2)

/-- The first separator ends the first piece. -/
theorem pieces_append_cons {sep : Char} {p : List Char} (h : sep ∉ p) (cs : List Char) :
    pieces sep (p ++ sep :: cs) = p :: pieces sep cs := by
  induction p with
  | nil => exact pieces_cons_self sep cs
  | cons c p ih =>
    simp only [List.mem_cons, not_or] at h
    exact pieces_cons_of_ne (Ne.symm h.1) (ih h.2)

/-- Pieces without separators, one at least, are the pieces of the text they are joined to. -/
theorem pieces_join {sep : Char} {ps : List (List Char)} (hne : ps ≠ [])
    (h : ∀ p ∈ ps, sep ∉ p) : pieces sep (join sep ps) = ps := by
  induction ps with
  | nil => exact absurd rfl hne
  | cons p ps ih =>
    cases ps with
    | nil => exact pieces_of_not_mem (h p (by simp))
    | cons q qs =>
      rw [join, pieces_append_cons (h p (by simp)), ih (by simp) fun r hr => h r (by simp [hr])]

/-! ## 2. The first occurrence -/

/-- What stands before the first character with `p`, and what stands after it, if there is
one. -/
def cut (p : Char → Bool) (cs : List Char) : List Char × Option (List Char) :=
  (cs.takeWhile (fun c => !p c),
    match cs.dropWhile (fun c => !p c) with
    | [] => none
    | _ :: rest => some rest)

end Text
end FrameworkAdmin
