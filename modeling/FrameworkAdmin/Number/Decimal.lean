/-
# Decimals

A decimal is an integer and a scale: `⟨150, 2⟩` is 1.50 and `⟨1, -3⟩` is 1e3.  The scale is part
of the datum, so that 1.5 and 1.50 are different decimals, but it is no part of the number:
`Decimal.compare` orders decimals by value.

**Writing.**  There are three layouts, chosen by where the point would fall (section 2).  Small
numbers go to scientific notation when more than five zeros would follow the point, large ones
to a bare `e+` when more than fifteen zeros would have to be filled in, and everything between
is plain.

**Comparing.**  Two scales can lie as far apart as 64 bits allow, so the digits must not be
brought to a common scale blindly.  Numbers whose leading digits stand at different powers of
ten are ordered by those powers; only when they agree are the digits aligned, and then the two
scales differ by no more than the two lengths do.
-/
import FrameworkAdmin.Number.Bounded
import FrameworkAdmin.Number.Integer
import FrameworkAdmin.Text.Pieces

namespace FrameworkAdmin

/-- The number `coefficient / 10 ^ scale`. -/
structure Decimal where
  coefficient : Int
  scale : Bounded (.signed 64)
deriving DecidableEq, Repr

namespace Decimal

/-! ## 1. Reading -/

/-- The digits of a number without an exponent, and how many of them follow the point.  A point
at the very end has nothing after it.  Underscores after the point are not counted. -/
def unpoint (base : List Char) : List Char × Nat :=
  match Text.cut (· == '.') base with
  | (whole, none) => (whole, 0)
  | (whole, some []) => (whole, 0)
  | (whole, some fraction) => (whole ++ fraction, (fraction.filter (· != '_')).length)

/-- Reads the digits `base` at the power of ten `exponent`; `cs` is the text they come from. -/
def readScaled (cs base : List Char) (exponent : Int) : Except Misread Decimal :=
  if base.isEmpty then .error .emptyDecimal
  else
    let (ds, places) := unpoint base
    match Bounded.ofInt? (.signed 64) (places - exponent) with
    | none => .error (.scaleOverflow (String.ofList cs))
    | some scale => (Integer.read ds).map (⟨·, scale⟩)

/-- Reads digits with an optional point and an optional exponent.  The exponent is looked at
first, then whether there are digits at all, then the scale, and the digits last. -/
def read (cs : List Char) : Except Misread Decimal :=
  match Text.cut (fun c => c == 'e' || c == 'E') cs with
  | (base, none) => readScaled cs base 0
  | (base, some exponent) =>
    match Bounded.read (.signed 128) exponent with
    | .error e => .error e
    | .ok e => readScaled cs base e.val

/-! ## 2. Writing -/

/-- The most zeros that stand between the point and the first digit in the plain layout. -/
def leadingZeroLimit : Int := 5

/-- The most zeros that are filled in before the point in the plain layout. -/
def trailingZeroLimit : Int := 15

/-- One digit, the point, the other digits and the power of ten of the first one.  There is no
point after a single digit. -/
def scientific (ds : List Char) (exponent : Int) : List Char :=
  let mantissa :=
    match ds with
    | [] => []
    | [d] => [d]
    | d :: rest => d :: '.' :: rest
  mantissa ++ 'E' :: (if exponent < 0 then '-' else '+') :: digits exponent.natAbs

/-- The text of `n / 10 ^ scale`. -/
def magnitudeText (n : Nat) (scale : Int) : List Char :=
  let ds := digits n
  if scale - ds.length > leadingZeroLimit then scientific ds (ds.length - 1 - scale)
  else if -scale > trailingZeroLimit then ds ++ 'e' :: '+' :: digits (-scale).toNat
  else if scale ≤ 0 then ds ++ List.replicate (-scale).toNat '0'
  else fixedPoint n scale.toNat

/-- The text of a decimal.  Zero is written without its scale. -/
def text (d : Decimal) : List Char :=
  let n := d.coefficient.natAbs
  let body := magnitudeText n (if n = 0 then 0 else d.scale.val)
  if d.coefficient < 0 then '-' :: body else body

/-! ## 3. Comparing -/

/-- The order of `m / 10 ^ s` and `n / 10 ^ t`, neither of which is zero. -/
def compareMagnitudes (m : Nat) (s : Int) (n : Nat) (t : Int) : Ordering :=
  match Ord.compare ((digits m).length - s) ((digits n).length - t) with
  | .eq => Ord.compare (m * 10 ^ (t - s).toNat) (n * 10 ^ (s - t).toNat)
  | o => o

/-- The order of the numbers, whatever their scales. -/
def compare (a b : Decimal) : Ordering :=
  match Ord.compare a.coefficient.sign b.coefficient.sign with
  | .eq =>
    if a.coefficient = 0 then .eq
    else
      let o := compareMagnitudes a.coefficient.natAbs a.scale.val b.coefficient.natAbs b.scale.val
      if a.coefficient < 0 then o.swap else o
  | o => o

/-- Equality of the numbers, whatever their scales. -/
def same (a b : Decimal) : Bool := a.compare b == .eq

end Decimal

end FrameworkAdmin
