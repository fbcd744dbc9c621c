/-
# Decimal digits

The layer below every number format of this library: natural numbers as runs of the characters
`0` to `9`, most significant first.

* `digits` writes a natural number without leading zeros and `digitsValue` reads a run of
  digits; `digitsValue_digits` ties them together.
* `integerText` puts a minus sign in front where it is needed.
* `fixedPoint n places` writes `n / 10 ^ places` with exactly `places` digits after the point,
  which is the plain layout of decimals and of floating-point numbers alike.
-/

namespace FrameworkAdmin

/-- A power is the one of core Lean, also where a larger library brings an instance of its own; so the
numbers below mean the same wherever they are used. -/
instance (priority := high) corePow {α : Type} [NatPow α] : Pow α Nat := instPowNat

/-! ## 1. Natural numbers -/

/-- The decimal digits of a natural number; zero has one digit. -/
def digits (n : Nat) : List Char := Nat.toDigits 10 n

/-- The number that a run of digits stands for; the empty run is zero. -/
def digitsValue (cs : List Char) : Nat := Nat.ofDigitChars 10 cs 0

/-- A character is one of `0` to `9`. -/
theorem isDigit_of_mem_digits {n : Nat} {c : Char} (h : c ∈ digits n) : c.isDigit = true :=
  Nat.isDigit_of_mem_toDigits (by decide) (by decide) h

/-- Writing a number and reading it back gives the number. -/
@[simp] theorem digitsValue_digits (n : Nat) : digitsValue (digits n) = n :=
  Nat.ofDigitChars_toDigits (by decide) (by decide)

/-! ## 2. Integers -/

/-- The digits of an integer, after a minus sign if it is negative. -/
def integerText : Int → List Char
  | .ofNat n => digits n
  | .negSucc n => '-' :: digits (n + 1)

/-! ## 3. A point among the digits -/

/-- The number `n / 10 ^ places` with exactly `places` digits after the point and at least one
before it; without places there is no point. -/
def fixedPoint (n places : Nat) : List Char :=
  let ds := digits n
  let padded := List.replicate (places + 1 - ds.length) '0' ++ ds
  let whole := padded.length - places
  match places with
  | 0 => ds
  | _ => padded.take whole ++ '.' :: padded.drop whole

end FrameworkAdmin
