/-
# Integers are read back from their text

Bounded and unbounded integers are written by one function, `integerText`, and read by two readers
that accept different things besides.  Both take a run of digits for its value, with a sign or without
one, and a bounded integer needs no more than that the value is in range.  From there it is one step to
the texts that are written, `Bounded.read_text` and `Integer.read_integerText`.
-/
import FrameworkAdmin.Number.Bounded
import FrameworkAdmin.Number.Integer
import FrameworkAdmin.Proofs.Number.Digits

namespace FrameworkAdmin

/-- An integer is written with digits and a sign. -/
theorem isDigit_or_of_mem_integerText {i : Int} {c : Char} (h : c ∈ integerText i) :
    c.isDigit = true ∨ c = '-' := by
  cases i with
  | ofNat n => exact Or.inl (isDigit_of_mem_digits h)
  | negSucc n =>
    rcases List.mem_cons.1 h with rfl | h
    · exact Or.inr rfl
    · exact Or.inl (isDigit_of_mem_digits h)

/-! ## 1. Bounded integers -/

namespace Bounded

variable {r : Range}

/-- A run of digits is added up as long as its value is within the limit. -/
theorem readUpTo_of_allDigits {limit : Nat} {beyond : Misread} {cs : List Char}
    (h : AllDigits cs) {n : { n : Nat // n ≤ limit }} (hle : Nat.ofDigitChars 10 cs n ≤ limit) :
    readUpTo limit beyond n cs = .ok ⟨Nat.ofDigitChars 10 cs n, hle⟩ := by
  induction cs generalizing n with
  | nil => simp [readUpTo]
  | cons c cs ih =>
    obtain ⟨hc, hcs⟩ := allDigits_cons.1 h
    have hstep : Nat.ofDigitChars 10 (c :: cs) n =
        Nat.ofDigitChars 10 cs (10 * n.val + (c.toNat - 48)) := Nat.ofDigitChars_cons
    -- what has been read so far is at most the value of the whole run
    have hsofar : 10 * n.val + (c.toNat - 48) ≤ limit := by
      rw [hstep, Nat.ofDigitChars_eq_ofDigitChars_zero] at hle
      have hpow : 1 ≤ 10 ^ cs.length := Nat.one_le_pow _ _ (by decide)
      have hmul := Nat.mul_le_mul_right (10 * n.val + (c.toNat - 48)) hpow
      omega
    rw [readUpTo, if_pos hc, dif_pos hsofar]
    simp only [hstep] at hle ⊢
    exact ih hcs hle

theorem readUpward_of_allDigits {cs : List Char} (h : AllDigits cs) {a : Bounded r}
    (ha : a.val = digitsValue cs) : readUpward r cs = .ok a := by
  have hle : digitsValue cs ≤ r.above := by
    have := a.upper
    omega
  rw [readUpward, readUpTo_of_allDigits h hle]
  exact congrArg Except.ok (Bounded.ext ha.symm)

theorem readDownward_of_allDigits {cs : List Char} (h : AllDigits cs) {a : Bounded r}
    (ha : a.val = -(digitsValue cs : Int)) : readDownward r cs = .ok a := by
  have hle : digitsValue cs ≤ r.below := by
    have := a.lower
    omega
  rw [readDownward, readUpTo_of_allDigits h hle]
  exact congrArg Except.ok (Bounded.ext ha.symm)

/-- Digits without a sign are a number. -/
theorem read_of_allDigits {cs : List Char} (hne : cs ≠ []) (h : AllDigits cs) {a : Bounded r}
    (ha : a.val = digitsValue cs) : read r cs = .ok a := by
  obtain ⟨c, ds, rfl, hc⟩ := exists_digit_cons hne h
  have hplus : c ≠ '+' := ne_of_isDigit hc (by decide)
  have hminus : c ≠ '-' := ne_of_isDigit hc (by decide)
  unfold read
  split
  · simp_all
  · simp_all
  · simp_all
  · rename_i heq
    rw [← heq]
    exact readUpward_of_allDigits h ha

/-- A plus sign in front of digits changes nothing. -/
theorem read_plus_of_allDigits {cs : List Char} (hne : cs ≠ []) (h : AllDigits cs)
    {a : Bounded r} (ha : a.val = digitsValue cs) : read r ('+' :: cs) = .ok a := by
  rw [read, if_neg (by simpa using hne), readUpward_of_allDigits h ha]

/-- A minus sign in front of digits negates them, in a range with negative numbers. -/
theorem read_minus_of_allDigits {cs : List Char} (hne : cs ≠ []) (h : AllDigits cs)
    (hr : r.below ≠ 0) {a : Bounded r} (ha : a.val = -(digitsValue cs : Int)) :
    read r ('-' :: cs) = .ok a := by
  rw [read, if_neg (by simp [hne, hr]), readDownward_of_allDigits h ha]

/-- **A bounded integer is read back from its text.** -/
theorem read_text (a : Bounded r) : read r a.text = .ok a := by
  unfold text
  cases hv : a.val with
  | ofNat n =>
    exact read_of_allDigits (digits_ne_nil n) (allDigits_digits n) (by simp [hv])
  | negSucc n =>
    have hr : r.below ≠ 0 := by
      have := a.lower
      omega
    exact read_minus_of_allDigits (digits_ne_nil _) (allDigits_digits _) hr
      (by rw [hv, digitsValue_digits]; omega)

end Bounded

/-! ## 2. Unbounded integers -/

namespace Integer

theorem readDigits_of_allDigits {cs : List Char} (h : AllDigits cs) (n : Nat) :
    readDigits n cs = .ok (Nat.ofDigitChars 10 cs n) := by
  induction cs generalizing n with
  | nil => simp [readDigits]
  | cons c cs ih =>
    obtain ⟨hc, hcs⟩ := allDigits_cons.1 h
    rw [readDigits, if_pos hc, ih hcs, Nat.ofDigitChars_cons]
    rfl

theorem readMagnitude_of_allDigits {cs : List Char} (hne : cs ≠ []) (h : AllDigits cs) :
    readMagnitude cs = .ok (digitsValue cs) := by
  obtain ⟨c, ds, rfl, hc⟩ := exists_digit_cons hne h
  have hplus : c ≠ '+' := ne_of_isDigit hc (by decide)
  have hunder : c ≠ '_' := ne_of_isDigit hc (by decide)
  have hread : readMagnitude (c :: ds) = readDigits 0 (c :: ds) := by
    unfold readMagnitude
    simp [hplus, hunder]
  rw [hread, readDigits_of_allDigits h]
  rfl

/-- Digits without a sign are a number. -/
theorem read_of_allDigits {cs : List Char} (hne : cs ≠ []) (h : AllDigits cs) :
    read cs = .ok (digitsValue cs : Int) := by
  have hmag := readMagnitude_of_allDigits hne h
  obtain ⟨c, ds, rfl, hc⟩ := exists_digit_cons hne h
  have hminus : c ≠ '-' := ne_of_isDigit hc (by decide)
  unfold read
  split
  · simp_all
  · simp_all
  · rw [hmag]
    rfl

/-- A minus sign in front of digits negates them. -/
theorem read_minus_of_allDigits {cs : List Char} (hne : cs ≠ []) (h : AllDigits cs) :
    read ('-' :: cs) = .ok (-(digitsValue cs : Int)) := by
  have hmag := readMagnitude_of_allDigits hne h
  obtain ⟨c, ds, rfl, hc⟩ := exists_digit_cons hne h
  have hplus : c ≠ '+' := ne_of_isDigit hc (by decide)
  unfold read
  split
  · simp_all
  · rename_i heq
    cases heq
    rw [hmag]
    rfl
  · simp_all

/-- **An integer is read back from its text.** -/
theorem read_integerText (i : Int) : read (integerText i) = .ok i := by
  cases i with
  | ofNat n =>
    have h := read_of_allDigits (digits_ne_nil n) (allDigits_digits n)
    rw [digitsValue_digits] at h
    exact h
  | negSucc n =>
    have h := read_minus_of_allDigits (digits_ne_nil (n + 1)) (allDigits_digits _)
    rw [digitsValue_digits] at h
    exact h

end Integer
end FrameworkAdmin
