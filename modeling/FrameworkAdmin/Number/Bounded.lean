/-
# Integers of a bounded range

The integers of the wire and of property values have widths: 8, 16, 32 and 64 bits with a sign,
32 bits without one in versions.  None of the operations here does arithmetic on them, they are
only read, written and compared, so a bounded integer is an integer with the proof that it lies
in its range, and one definition serves every width.  The order is that of the integers.

The reader (`Bounded.read`) works from left to right and stops at the first character that
settles the matter.  Each character is first checked to be a digit and only then added, so
`2147483648x` is too large for 32 bits while `2147483647x` has a stray character.
-/
import FrameworkAdmin.Number.Digits
import FrameworkAdmin.Number.Misread

namespace FrameworkAdmin

/-! ## 1. Ranges -/

/-- The integers from `-below` to `above`; zero is always among them. -/
structure Range where
  below : Nat
  above : Nat
deriving DecidableEq, Repr

/-- The range of two's complement integers of this many bits. -/
def Range.signed (bits : Nat) : Range := ⟨2 ^ (bits - 1), 2 ^ (bits - 1) - 1⟩

/-- The range of natural numbers of this many bits. -/
def Range.unsigned (bits : Nat) : Range := ⟨0, 2 ^ bits - 1⟩

/-- An integer in range. -/
structure Bounded (r : Range) where
  val : Int
  lower : -(r.below : Int) ≤ val
  upper : val ≤ r.above
deriving DecidableEq, Repr

namespace Bounded

variable {r : Range}

@[ext] theorem ext {a b : Bounded r} (h : a.val = b.val) : a = b := by
  cases a; cases b; simp_all

/-- The integer `i`, if it is in range. -/
def ofInt? (r : Range) (i : Int) : Option (Bounded r) :=
  if h : -(r.below : Int) ≤ i ∧ i ≤ r.above then some ⟨i, h.1, h.2⟩ else none

/-- Every bounded integer is found from its value. -/
@[simp] theorem ofInt?_val (a : Bounded r) : ofInt? r a.val = some a := by
  simp [ofInt?, a.lower, a.upper]

theorem val_of_ofInt? {i : Int} {a : Bounded r} (h : ofInt? r i = some a) : a.val = i := by
  unfold ofInt? at h
  split at h
  · cases h; rfl
  · cases h

/-- The integer of this many bits that agrees with `i` in all of them. -/
def wrap (bits : Nat) (i : Int) : Bounded (.signed bits) where
  val := i.bmod (2 ^ bits)
  lower := by
    have h := Int.le_bmod (x := i) (m := 2 ^ bits) (Nat.two_pow_pos bits)
    cases bits with
    | zero => simp [Range.signed] at *
    | succ b =>
      simp only [Range.signed, Nat.add_sub_cancel, Nat.pow_succ] at *
      omega
  upper := by
    have h := Int.bmod_lt (x := i) (m := 2 ^ bits) (Nat.two_pow_pos bits)
    have hp : 0 < 2 ^ (bits - 1) := Nat.two_pow_pos (bits - 1)
    cases bits with
    | zero => simp [Range.signed] at *
    | succ b =>
      simp only [Range.signed, Nat.add_sub_cancel, Nat.pow_succ] at *
      omega

/-- An integer that fits is not changed by being wrapped. -/
theorem val_wrap_eq {bits : Nat} {i : Int} (hlower : -(((2 ^ bits : Nat) : Int) / 2) ≤ i)
    (hupper : i < (((2 ^ bits : Nat) : Int) + 1) / 2) : (wrap bits i).val = i :=
  Int.bmod_eq_of_le hlower hupper

/-! ## 2. Order -/

instance : Ord (Bounded r) := ⟨fun a b => compare a.val b.val⟩

theorem compare_def (a b : Bounded r) : compare a b = compare a.val b.val := rfl

instance : Std.TransOrd (Bounded r) where
  eq_swap := by
    intro a b
    simp only [compare_def]
    exact Std.OrientedCmp.eq_swap
  isLE_trans := by
    intro a b c
    simp only [compare_def]
    exact Std.TransCmp.isLE_trans

instance : Std.LawfulEqOrd (Bounded r) where
  compare_self := by
    intro a
    simp only [compare_def]
    exact Std.ReflCmp.compare_self
  eq_of_compare := by
    intro a b h
    simp only [compare_def] at h
    exact Bounded.ext (Std.LawfulEqCmp.eq_of_compare h)

/-! ## 3. Reading and writing -/

/-- The digits of the value, after a minus sign if it is negative. -/
def text (a : Bounded r) : List Char := integerText a.val

/-- Adds the digits of a text to what has been read, as long as the sum is within `limit`;
beyond it the fault is `beyond`. -/
def readUpTo (limit : Nat) (beyond : Misread) :
    { n : Nat // n ≤ limit } → List Char → Except Misread { n : Nat // n ≤ limit }
  | n, [] => .ok n
  | n, c :: cs =>
    if c.isDigit then
      if h : 10 * n.val + (c.toNat - 48) ≤ limit then readUpTo limit beyond ⟨_, h⟩ cs
      else .error beyond
    else .error .strayCharacter

/-- Reads the digits of a number that is not negative. -/
def readUpward (r : Range) (cs : List Char) : Except Misread (Bounded r) :=
  match readUpTo r.above .tooLarge ⟨0, Nat.zero_le _⟩ cs with
  | .ok ⟨n, h⟩ => .ok ⟨n, by omega, by omega⟩
  | .error e => .error e

/-- Reads the digits of a number with a minus sign in front. -/
def readDownward (r : Range) (cs : List Char) : Except Misread (Bounded r) :=
  match readUpTo r.below .tooSmall ⟨0, Nat.zero_le _⟩ cs with
  | .ok ⟨n, h⟩ => .ok ⟨-n, by omega, by omega⟩
  | .error e => .error e

/-- Reads an optional sign and at least one digit.  A minus sign is a stray character where the
range has no negative numbers. -/
def read (r : Range) : List Char → Except Misread (Bounded r)
  | [] => .error .emptyInteger
  | '+' :: cs => if cs.isEmpty then .error .strayCharacter else readUpward r cs
  | '-' :: cs =>
    if cs.isEmpty || r.below == 0 then .error .strayCharacter else readDownward r cs
  | c :: cs => readUpward r (c :: cs)

end Bounded

end FrameworkAdmin
