/-
# Runs of digits

Every number is written with the digits of a natural number, and read by taking digits one after the
other.  The readers accept more than is written: leading zeros, a point anywhere among the digits.  So
the lemmas about them start from **any** run of digits (`AllDigits`) and its value, and what is
written comes in as the run `digits n`.

A reader stops at the first character that is no digit.  That digits are none of the signs, marks and
letters that stand among them is used in every step, and `ne_of_isDigit` is the one place where it is
proved.

`Positional` is a run with a point in it, or without one: the form of decimals and floats alike.
-/
import FrameworkAdmin.Number.Digits

namespace FrameworkAdmin

/-! ## 1. Runs of digits -/

/-- Every character is a digit. -/
def AllDigits (cs : List Char) : Prop := ∀ c ∈ cs, c.isDigit = true

theorem allDigits_cons {c : Char} {cs : List Char} :
    AllDigits (c :: cs) ↔ c.isDigit = true ∧ AllDigits cs := by
  simp [AllDigits]

theorem allDigits_append {cs ds : List Char} :
    AllDigits (cs ++ ds) ↔ AllDigits cs ∧ AllDigits ds := by
  simp only [AllDigits, List.mem_append]
  constructor
  · intro h
    exact ⟨fun c hc => h c (Or.inl hc), fun c hc => h c (Or.inr hc)⟩
  · rintro ⟨h, h'⟩ c (hc | hc)
    · exact h c hc
    · exact h' c hc

theorem allDigits_zeros (k : Nat) : AllDigits (List.replicate k '0') := by
  intro c hc
  rw [List.eq_of_mem_replicate hc]
  decide

theorem allDigits_digits (n : Nat) : AllDigits (digits n) := fun _ hc => isDigit_of_mem_digits hc

theorem digits_ne_nil (n : Nat) : digits n ≠ [] := Nat.toDigits_ne_nil

/-- A digit differs from every character that is none. -/
theorem ne_of_isDigit {c d : Char} (hc : c.isDigit = true) (hd : d.isDigit = false) : c ≠ d := by
  rintro rfl
  rw [hc] at hd
  cases hd

/-- A text with a digit in front starts with no sign. -/
theorem exists_digit_cons {cs : List Char} (hne : cs ≠ []) (h : AllDigits cs) :
    ∃ c ds, cs = c :: ds ∧ c.isDigit = true := by
  obtain ⟨c, ds, rfl⟩ := List.exists_cons_of_ne_nil hne
  exact ⟨c, ds, rfl, (allDigits_cons.1 h).1⟩

/-! ## 2. The value of a run -/

/-- Zeros behind a run multiply its value. -/
theorem digitsValue_append_zeros (cs : List Char) (k : Nat) :
    digitsValue (cs ++ List.replicate k '0') = digitsValue cs * 10 ^ k := by
  rw [digitsValue, Nat.ofDigitChars_append, Nat.ofDigitChars_replicate_zero, Nat.mul_comm]
  rfl

/-- Zeros in front of a run do not count. -/
theorem digitsValue_zeros_append (k : Nat) (cs : List Char) :
    digitsValue (List.replicate k '0' ++ cs) = digitsValue cs := by
  rw [digitsValue, Nat.ofDigitChars_append, Nat.ofDigitChars_replicate_zero, Nat.mul_zero]
  rfl

/-- **Multiplying by a power of ten puts zeros behind the digits.** -/
theorem digits_mul_pow {n : Nat} (hn : n ≠ 0) (k : Nat) :
    digits (n * 10 ^ k) = digits n ++ List.replicate k '0' := by
  induction k with
  | zero => simp
  | succ k ih =>
    have hpos : 0 < n * 10 ^ k := Nat.mul_pos (Nat.pos_of_ne_zero hn) (Nat.pow_pos (by decide))
    have hstep : n * 10 ^ (k + 1) = 10 * (n * 10 ^ k) + 0 := by
      rw [Nat.pow_succ, ← Nat.mul_assoc, Nat.mul_comm]
      rfl
    have happ : digits (n * 10 ^ k) ++ digits 0 = digits (10 * (n * 10 ^ k) + 0) :=
      Nat.toDigits_append_toDigits (by decide) hpos (by decide)
    rw [hstep, ← happ, ih, List.append_assoc, List.replicate_succ']
    rfl

theorem length_digits_mul_pow {n : Nat} (hn : n ≠ 0) (k : Nat) :
    (digits (n * 10 ^ k)).length = (digits n).length + k := by
  rw [digits_mul_pow hn, List.length_append, List.length_replicate]

theorem length_digits_le_iff {n k : Nat} (hk : 0 < k) : (digits n).length ≤ k ↔ n < 10 ^ k :=
  Nat.length_toDigits_le_iff (by decide) hk

theorem length_digits_pos (n : Nat) : 0 < (digits n).length := Nat.length_toDigits_pos

/-! ## 3. A point among the digits -/

/-- `Positional base ds places`: the text `base` is the run of digits `ds`, of which the last `places`
stand behind a point; without places there is no point. -/
inductive Positional : List Char → List Char → Nat → Prop
  | whole {ds : List Char} (hne : ds ≠ []) (h : AllDigits ds) : Positional ds ds 0
  | point {whole fraction : List Char} (hw : whole ≠ []) (hf : fraction ≠ [])
      (h : AllDigits (whole ++ fraction)) :
      Positional (whole ++ '.' :: fraction) (whole ++ fraction) fraction.length

namespace Positional

variable {base ds : List Char} {places : Nat}

theorem digits_ne_nil (h : Positional base ds places) : ds ≠ [] := by
  cases h with
  | whole hne _ => exact hne
  | point hw _ _ => simp [hw]

theorem base_ne_nil (h : Positional base ds places) : base ≠ [] := by
  cases h with
  | whole hne _ => exact hne
  | point _ _ _ => simp

theorem allDigits (h : Positional base ds places) : AllDigits ds := by
  cases h with
  | whole _ h => exact h
  | point _ _ h => exact h

/-- There is nothing but digits and the point. -/
theorem isDigit_or_eq (h : Positional base ds places) {c : Char} (hc : c ∈ base) :
    c.isDigit = true ∨ c = '.' := by
  cases h with
  | whole _ h => exact Or.inl (h c hc)
  | point _ _ h =>
    rcases List.mem_append.1 hc with hc | hc
    · exact Or.inl (h c (List.mem_append_left _ hc))
    rcases List.mem_cons.1 hc with rfl | hc
    · exact Or.inr rfl
    · exact Or.inl (h c (List.mem_append_right _ hc))

/-- A digit stands in front. -/
theorem exists_digit_cons (h : Positional base ds places) :
    ∃ c cs, base = c :: cs ∧ c.isDigit = true := by
  cases h with
  | whole hne h => exact FrameworkAdmin.exists_digit_cons hne h
  | point hw _ h =>
    obtain ⟨c, cs, rfl, hc⟩ := FrameworkAdmin.exists_digit_cons hw (allDigits_append.1 h).1
    exact ⟨c, _, rfl, hc⟩

end Positional

/-- **The plain layout** has the digits of the number, after zeros that do not count, and exactly
`places` of them behind the point. -/
theorem positional_fixedPoint (n : Nat) {places : Nat} (hp : 0 < places) :
    ∃ ds, Positional (fixedPoint n places) ds places ∧ digitsValue ds = n := by
  let padded := List.replicate (places + 1 - (digits n).length) '0' ++ digits n
  have hlen : places < padded.length := by
    simp only [padded, List.length_append, List.length_replicate]
    omega
  let whole := padded.take (padded.length - places)
  let fraction := padded.drop (padded.length - places)
  have hfix : fixedPoint n places = whole ++ '.' :: fraction := by
    obtain ⟨k, rfl⟩ := Nat.exists_eq_add_of_lt hp
    rfl
  have happ : whole ++ fraction = padded := List.take_append_drop _ _
  have hwhole : whole ≠ [] := by
    refine List.ne_nil_of_length_pos ?_
    simp only [whole, List.length_take]
    omega
  have hplaces : fraction.length = places := by
    simp only [fraction, List.length_drop]
    omega
  have hfraction : fraction ≠ [] := List.ne_nil_of_length_pos (by omega)
  have hall : AllDigits (whole ++ fraction) := by
    rw [happ]
    exact allDigits_append.2 ⟨allDigits_zeros _, allDigits_digits n⟩
  refine ⟨whole ++ fraction, ?_, ?_⟩
  · rw [hfix, ← hplaces]
    exact .point hwhole hfraction hall
  · rw [happ, digitsValue_zeros_append, digitsValue_digits]

end FrameworkAdmin
