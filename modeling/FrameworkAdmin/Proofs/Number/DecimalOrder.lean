/-
# Decimals are ordered by their numbers

Decimals are compared without being brought to a common scale first: sign before size, then the power of
ten of the leading digit, and only when these agree the digits.  The result is that of the plain rule,
which nobody could compute at scales of 64 bits (`compare_eq`):

    c / 10 ^ s  against  d / 10 ^ t   is   c * 10 ^ (t - s)  against  d * 10 ^ (s - t)

where a negative exponent counts as zero.  A number with more digits before its point, or fewer zeros
behind it, is larger because its digits alone bound it from both sides (`mul_pow_lt`).

From the rule follow that the comparison turns around with its sides, that it is one of numerators wherever
the decimals can be brought to one scale (`compare_eq_of_le`), so that decimals of the same number are
ordered alike (`compare_congr`), and what it says of a decimal that stands for an integer (`Denotes`), at
whatever scale it is written.
-/
import FrameworkAdmin.Number.Decimal
import FrameworkAdmin.Proofs.Number.Digits

namespace FrameworkAdmin
namespace Decimal

/-! ## 1. Magnitudes -/

theorem lt_pow_length_digits (n : Nat) : n < 10 ^ (digits n).length :=
  (length_digits_le_iff (length_digits_pos n)).1 (Nat.le_refl _)

theorem pow_length_digits_le {n : Nat} (hn : n ≠ 0) : 10 ^ ((digits n).length - 1) ≤ n := by
  have hpos := length_digits_pos n
  refine Nat.le_of_not_lt fun hlt => ?_
  rcases Nat.eq_zero_or_pos ((digits n).length - 1) with hone | hmore
  · rw [hone, Nat.pow_zero] at hlt
    omega
  · have hle := (length_digits_le_iff hmore).2 hlt
    omega

/-- **The leading digit decides**: a number whose digits reach less far is smaller. -/
theorem mul_pow_lt {m n : Nat} (hn : n ≠ 0) {j k : Nat}
    (h : (digits m).length + j < (digits n).length + k) : m * 10 ^ j < n * 10 ^ k := by
  have hpos := length_digits_pos n
  calc m * 10 ^ j
      < 10 ^ (digits m).length * 10 ^ j :=
        Nat.mul_lt_mul_of_pos_right (lt_pow_length_digits m) (Nat.pow_pos (by decide))
    _ = 10 ^ ((digits m).length + j) := (Nat.pow_add ..).symm
    _ ≤ 10 ^ ((digits n).length - 1 + k) := Nat.pow_le_pow_right (by decide) (by omega)
    _ = 10 ^ ((digits n).length - 1) * 10 ^ k := Nat.pow_add ..
    _ ≤ n * 10 ^ k := Nat.mul_le_mul_right _ (pow_length_digits_le hn)

theorem compareMagnitudes_eq {m n : Nat} (hm : m ≠ 0) (hn : n ≠ 0) (s t : Int) :
    compareMagnitudes m s n t =
      Ord.compare (m * 10 ^ (t - s).toNat) (n * 10 ^ (s - t).toNat) := by
  rw [compareMagnitudes]
  split
  · rfl
  · rename_i hne
    rcases Int.lt_trichotomy ((digits m).length - s) ((digits n).length - t) with h | h | h
    · rw [Int.compare_eq_lt.2 h, eq_comm, Nat.compare_eq_lt]
      exact mul_pow_lt hn (by omega)
    · exact absurd (Int.compare_eq_eq.2 h) hne
    · rw [Int.compare_eq_gt.2 h, eq_comm, Nat.compare_eq_gt]
      exact mul_pow_lt hm (by omega)

/-! ## 2. Decimals -/

theorem compare_neg (i j : Int) : Ord.compare (-i) (-j) = (Ord.compare i j).swap := by
  rw [Int.compare_swap]
  rcases Int.lt_trichotomy i j with h | rfl | h
  · rw [Int.compare_eq_gt.2 h, Int.compare_eq_gt.2 (Int.neg_lt_neg h)]
  · rw [Std.compare_self, Std.compare_self]
  · rw [Int.compare_eq_lt.2 h, Int.compare_eq_lt.2 (Int.neg_lt_neg h)]

theorem compare_natCast (m n : Nat) : Ord.compare (m : Int) (n : Int) = Ord.compare m n := by
  rcases Nat.lt_trichotomy m n with h | rfl | h
  · rw [Nat.compare_eq_lt.2 h, Int.compare_eq_lt.2 (Int.ofNat_lt.2 h)]
  · rw [Std.compare_self, Std.compare_self]
  · rw [Nat.compare_eq_gt.2 h, Int.compare_eq_gt.2 (Int.ofNat_lt.2 h)]

/-- A factor that is positive does not change a sign. -/
theorem sign_mul_pow (i : Int) (k : Nat) : (i * 10 ^ k).sign = i.sign := by
  have hpow : ((10 : Int) ^ k).sign = 1 := Int.sign_eq_one_of_pos (Int.pow_pos (by decide))
  rw [Int.sign_mul, hpow, Int.mul_one]

theorem lt_of_sign_lt {i j : Int} (h : i.sign < j.sign) : i < j := by
  rcases Int.lt_trichotomy i 0 with hi | rfl | hi
  · rcases Int.lt_or_le j 0 with hj | hj
    · rw [Int.sign_eq_neg_one_of_neg hi, Int.sign_eq_neg_one_of_neg hj] at h
      omega
    · omega
  · exact Int.sign_pos_iff.1 h
  · rw [Int.sign_eq_one_of_pos hi] at h
    rcases Int.lt_trichotomy j 0 with hj | rfl | hj
    · rw [Int.sign_eq_neg_one_of_neg hj] at h
      omega
    · exact absurd h (by decide)
    · rw [Int.sign_eq_one_of_pos hj] at h
      omega

/-- Different signs decide. -/
theorem compare_of_sign_ne {i j : Int} (h : i.sign ≠ j.sign) :
    Ord.compare i j = Ord.compare i.sign j.sign := by
  rcases Int.lt_trichotomy i.sign j.sign with hlt | heq | hgt
  · rw [Int.compare_eq_lt.2 hlt, Int.compare_eq_lt.2 (lt_of_sign_lt hlt)]
  · exact absurd heq h
  · rw [Int.compare_eq_gt.2 hgt, Int.compare_eq_gt.2 (lt_of_sign_lt hgt)]

/-- **Decimals are compared as the numbers that they stand for.** -/
theorem compare_eq (a b : Decimal) :
    a.compare b = Ord.compare (a.coefficient * 10 ^ (b.scale.val - a.scale.val).toNat)
      (b.coefficient * 10 ^ (a.scale.val - b.scale.val).toNat) := by
  obtain ⟨c, s⟩ := a
  obtain ⟨d, t⟩ := b
  simp only [compare]
  by_cases hsign : c.sign = d.sign
  · rw [hsign, Std.compare_self]
    simp only
    split
    · rename_i hzero
      subst hzero
      have hd : d = 0 := Int.sign_eq_zero_iff_zero.1 hsign.symm
      simp [hd]
    rename_i hc
    have hd : d ≠ 0 := fun hd => hc (Int.sign_eq_zero_iff_zero.1 (by rw [hsign, hd]; rfl))
    rw [compareMagnitudes_eq (by omega) (by omega), ← compare_natCast]
    simp only [Int.natCast_mul, Int.natCast_pow, Int.cast_ofNat_Int]
    split
    · -- both are negative, and the larger magnitude is the smaller number
      rename_i hneg
      have hdneg : d < 0 := Int.sign_eq_neg_one_iff_neg.1 (hsign ▸ Int.sign_eq_neg_one_of_neg hneg)
      rw [← compare_neg, ← Int.neg_mul, ← Int.neg_mul, show -(c.natAbs : Int) = c by omega,
        show -(d.natAbs : Int) = d by omega]
    · rename_i hnonneg
      have hcpos : 0 < c := by omega
      have hdpos : 0 < d := Int.sign_eq_one_iff_pos.1 (hsign ▸ Int.sign_eq_one_of_pos hcpos)
      rw [show (c.natAbs : Int) = c by omega, show (d.natAbs : Int) = d by omega]
  · have hproducts := compare_of_sign_ne (i := c * 10 ^ (t.val - s.val).toNat)
      (j := d * 10 ^ (s.val - t.val).toNat) (by rwa [sign_mul_pow, sign_mul_pow])
    rw [hproducts, sign_mul_pow, sign_mul_pow]
    split
    · rename_i heq
      exact absurd (Int.compare_eq_eq.1 heq) hsign
    · rfl

/-- A decimal is the same number as itself. -/
theorem same_self (d : Decimal) : d.same d = true := by
  rw [same, compare_eq, Std.compare_self]
  rfl

theorem compare_swap (a b : Decimal) : (a.compare b).swap = b.compare a := by
  rw [compare_eq, compare_eq, Int.compare_swap]

/-! ## 3. At a common scale -/

/-- A factor that is positive does not change an order. -/
theorem compare_mul_pow (i j : Int) (k : Nat) :
    Ord.compare (i * 10 ^ k) (j * 10 ^ k) = Ord.compare i j := by
  have hpow : (0 : Int) < 10 ^ k := Int.pow_pos (by decide)
  rcases Int.lt_trichotomy i j with hlt | rfl | hgt
  · rw [Int.compare_eq_lt.2 hlt, Int.compare_eq_lt]
    exact Int.mul_lt_mul_of_pos_right hlt hpow
  · rw [Std.compare_self, Std.compare_self]
  · rw [Int.compare_eq_gt.2 hgt, Int.compare_eq_gt]
    exact Int.mul_lt_mul_of_pos_right hgt hpow

/-- The number times `10 ^ scale`, which is whole if the scale is no smaller than that of the decimal. -/
def numerator (d : Decimal) (scale : Int) : Int := d.coefficient * 10 ^ (scale - d.scale.val).toNat

/-- **At a scale that is fine enough for both, decimals are compared by their numerators.** -/
theorem compare_eq_of_le {a b : Decimal} {scale : Int} (ha : a.scale.val ≤ scale)
    (hb : b.scale.val ≤ scale) : a.compare b = Ord.compare (a.numerator scale) (b.numerator scale) := by
  -- what the common scale is finer than the finer one of the two multiplies both sides
  let k := (scale - max a.scale.val b.scale.val).toNat
  have hapow : (scale - a.scale.val).toNat = (b.scale.val - a.scale.val).toNat + k := by omega
  have hbpow : (scale - b.scale.val).toNat = (a.scale.val - b.scale.val).toNat + k := by omega
  rw [compare_eq, ← compare_mul_pow _ _ k, Int.mul_assoc, Int.mul_assoc, ← Int.pow_add, ← Int.pow_add,
    ← hapow, ← hbpow]
  rfl

/-- **Decimals of the same number are ordered alike**, whatever their scales. -/
theorem compare_congr {a b : Decimal} (h : a.same b = true) (c : Decimal) : a.compare c = b.compare c := by
  let scale := max (max a.scale.val b.scale.val) c.scale.val
  have ha : a.scale.val ≤ scale := by omega
  have hb : b.scale.val ≤ scale := by omega
  have hc : c.scale.val ≤ scale := by omega
  have hnumerator : a.numerator scale = b.numerator scale := by
    rw [same, beq_iff_eq, compare_eq_of_le ha hb] at h
    exact Int.compare_eq_eq.1 h
  rw [compare_eq_of_le ha hc, compare_eq_of_le hb hc, hnumerator]

/-! ## 4. Integers among the decimals -/

/-- The decimal is this integer, at whatever scale. -/
def Denotes (d : Decimal) (i : Int) : Prop :=
  d.coefficient * 10 ^ (-d.scale.val).toNat = i * 10 ^ d.scale.val.toNat

/-- **A decimal that is an integer compares like it** with one that has no places. -/
theorem compare_of_denotes {d e : Decimal} {i : Int} (h : d.Denotes i) (he : e.scale.val = 0) :
    d.compare e = Ord.compare i e.coefficient := by
  rw [compare_eq, he, Int.zero_sub, Int.sub_zero, h, compare_mul_pow]

end Decimal
end FrameworkAdmin
