/-
# Reading and writing floating-point numbers

**Reading** is correctly rounded: the literal is taken as an exact fraction and rounded once, to
the format at hand.  Only the exponent needs a guard.  A literal may name a power of ten that
no machine can hold, so the power of its leading digit is looked at first (`leadingPower`), and
a number far outside the format becomes infinity or zero without being computed.

**Writing** gives the shortest text that reads back.  A finite number has an exact decimal
expansion, because `2 ^ -depth` is `5 ^ depth` over a power of ten.  From it digits are dropped,
as many as possible: at each length the two neighbours of the number are tried, the nearer one
first and of two equally near ones the upper, and the first that rounds back to the same rank is
taken (`shortest`).  With nothing dropped the text is exact, so the search always ends in a text
that reads back.

The text is always positional: there is no exponent, however many zeros that takes.
-/
import FrameworkAdmin.Number.Binary
import FrameworkAdmin.Number.Digits
import FrameworkAdmin.Number.Misread

namespace FrameworkAdmin
namespace Binary

/-! ## 1. Literals -/

/-- The exponent after the letter: an optional sign and at least one digit. -/
def readExponent : List Char → Option Int
  | '+' :: cs => if cs.isEmpty || !cs.all Char.isDigit then none else some (digitsValue cs)
  | '-' :: cs => if cs.isEmpty || !cs.all Char.isDigit then none else some (-(digitsValue cs : Int))
  | cs => if cs.isEmpty || !cs.all Char.isDigit then none else some (digitsValue cs)

/-- The digits after the point, if there is one, and what follows them. -/
def readFraction : List Char → List Char × List Char
  | '.' :: cs => (cs.takeWhile Char.isDigit, cs.dropWhile Char.isDigit)
  | cs => ([], cs)

/-- A literal without a sign as `significand * 10 ^ exponent`: digits with an optional point,
at least one digit in all, and an optional exponent. -/
def readLiteral (cs : List Char) : Option (Nat × Int) :=
  let whole := cs.takeWhile Char.isDigit
  let (fraction, rest) := readFraction (cs.dropWhile Char.isDigit)
  if whole.isEmpty && fraction.isEmpty then none
  else
    let significand := digitsValue (whole ++ fraction)
    match rest with
    | [] => some (significand, -(fraction.length : Int))
    | c :: tail =>
      if c = 'e' ∨ c = 'E' then
        (readExponent tail).map fun e => (significand, e - fraction.length)
      else none

/-- The power of ten that bounds `significand * 10 ^ exponent` from above. -/
def leadingPower (significand : Nat) (exponent : Int) : Int :=
  (digits significand).length + exponent

/-- A bound on the powers of ten of a format's numbers, far on the safe side. -/
def reach (f : Format) : Int := 2 ^ f.exponentBits

/-- The rank nearest to `significand * 10 ^ exponent`. -/
def rankOf (f : Format) (significand : Nat) (exponent : Int) : Nat :=
  if significand = 0 then 0
  else if reach f < leadingPower significand exponent then f.infinity
  else if leadingPower significand exponent < -reach f then 0
  else f.nearest (significand * 10 ^ exponent.toNat) (10 ^ (-exponent).toNat)

/-- Reads a number without its sign: a name in any case of its letters, or a literal. -/
def readUnsigned (f : Format) (negative : Bool) (cs : List Char) : Except Misread (Binary f) :=
  match readLiteral cs with
  | some (significand, exponent) => .ok (ofRank f negative (rankOf f significand exponent))
  | none =>
    let name := String.ofList (cs.map Char.toLower)
    if name = "nan" then .ok .nan
    else if name = "inf" ∨ name = "infinity" then .ok (ofRank f negative f.infinity)
    else .error .malformedFloat

/-- Reads an optional sign and a number. -/
def read (f : Format) : List Char → Except Misread (Binary f)
  | [] => .error .emptyFloat
  | '+' :: cs => readUnsigned f false cs
  | '-' :: cs => readUnsigned f true cs
  | cs => readUnsigned f false cs

/-! ## 2. The shortest digits -/

/-- The digits of the exact expansion: the magnitude is this over `10 ^ depth`. -/
def expansion (f : Format) (rank : Nat) : Nat := f.units rank * 5 ^ f.depth

/-- The digits `c`, of which `dropped` are missing at the end, round back to the rank. -/
def readsBack (f : Format) (rank c dropped : Nat) : Bool :=
  f.nearest (c * 10 ^ dropped) (10 ^ f.depth) == rank

/-- The expansion `m` with as many digits dropped as possible, at most `dropped` of them, and
how many were dropped. -/
def shorten (f : Format) (rank m : Nat) : Nat → Nat × Nat
  | 0 => (m, 0)
  | dropped + 1 =>
    let unit := 10 ^ (dropped + 1)
    let below := m / unit
    let lower := decide (2 * (m % unit) < unit)
    let near := if lower then below else below + 1
    let far := if lower then below + 1 else below
    if readsBack f rank near (dropped + 1) then (near, dropped + 1)
    else if readsBack f rank far (dropped + 1) then (far, dropped + 1)
    else shorten f rank m dropped

/-- The fewest digits that read back to the rank, and how many were dropped from the exact
expansion. -/
def shortest (f : Format) (rank : Nat) : Nat × Nat :=
  let m := expansion f rank
  shorten f rank m ((digits m).length - 1)

/-! ## 3. Text -/

/-- The text without zeros at its end, and without the point if nothing follows it. -/
def trimFraction (cs : List Char) : List Char :=
  match cs.reverse.dropWhile (· == '0') with
  | '.' :: rest => rest.reverse
  | rest => rest.reverse

/-- The text of a finite magnitude. -/
def magnitudeText (f : Format) (rank : Nat) : List Char :=
  if rank = 0 then ['0']
  else
    let (c, dropped) := shortest f rank
    if f.depth ≤ dropped then digits c ++ List.replicate (dropped - f.depth) '0'
    else trimFraction (fixedPoint c (f.depth - dropped))

/-- The text of a datum; zero keeps its sign. -/
def text : Binary f → List Char
  | .nan => ['N', 'a', 'N']
  | .signed negative rank =>
    let body := if rank.val = f.infinity then ['i', 'n', 'f'] else magnitudeText f rank.val
    if negative then '-' :: body else body

end Binary
end FrameworkAdmin
