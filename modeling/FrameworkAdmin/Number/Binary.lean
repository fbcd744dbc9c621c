/-
# Binary floating point

A floating-point datum of an IEEE binary format is a NaN, or a sign and a **rank**.  The ranks
of a format number its magnitudes in ascending order: rank 0 is zero, rank 1 the smallest
positive number, and the last rank is infinity.  A rank is what remains of the bit pattern when
the sign bit is taken off, so it costs nothing to obtain, and it turns the comparison of floats
into the comparison of naturals (`Binary.compare?`).

Everything else is exact arithmetic on naturals.  All finite magnitudes of a format are whole
multiples of its smallest positive number, `2 ^ -depth`; `Format.units` is the multiplier.  To
round a fraction is then to find a rank whose units are nearest (`Format.nearest`), and the
exponent of the result falls out of one `log2`.

All NaNs are one datum here, and the only operations are reading, writing, comparing and the
step to a wider format.
-/
import FrameworkAdmin.Number.Digits

namespace FrameworkAdmin

/-! ## 1. Formats -/

/-- An IEEE binary format: the stored digits of its significand and the width of its exponent. -/
structure Format where
  trailing : Nat
  exponentBits : Nat
deriving DecidableEq, Repr

namespace Format

/-- The format of 32 bits. -/
def single : Format := ⟨23, 8⟩

/-- The format of 64 bits. -/
def double : Format := ⟨52, 11⟩

/-- The rank of infinity. -/
def infinity (f : Format) : Nat := (2 ^ f.exponentBits - 1) * 2 ^ f.trailing

/-- The smallest positive number is `2 ^ -depth`. -/
def depth (f : Format) : Nat := 2 ^ (f.exponentBits - 1) - 2 + f.trailing

/-- A rank as a multiple of the smallest positive number. -/
def units (f : Format) (rank : Nat) : Nat :=
  let exponent := rank / 2 ^ f.trailing
  let fraction := rank % 2 ^ f.trailing
  if exponent = 0 then fraction else (2 ^ f.trailing + fraction) * 2 ^ (exponent - 1)

/-- The quotient rounded to the nearest integer, a half going to the even neighbour. -/
def divNearest (a b : Nat) : Nat :=
  let q := a / b
  let r := a % b
  if 2 * r < b then q else if b < 2 * r then q + 1 else q + q % 2

/-- The rank nearest to the number `num / den`, an equal distance going to the even rank; what
is too large becomes infinity. -/
def nearest (f : Format) (num den : Nat) : Nat :=
  let scaled := num * 2 ^ f.depth
  let shift := (scaled / den).log2 - f.trailing
  min f.infinity (shift * 2 ^ f.trailing + divNearest scaled (den * 2 ^ shift))

end Format

/-! ## 2. Data -/

/-- A datum of a format: a NaN, or a sign and a rank. -/
inductive Binary (f : Format) where
  | nan
  | signed (negative : Bool) (rank : Fin (f.infinity + 1))
deriving DecidableEq, Repr

namespace Binary

variable {f : Format}

/-- The datum with this sign and this rank, infinity standing in for ranks beyond it. -/
def ofRank (f : Format) (negative : Bool) (rank : Nat) : Binary f :=
  .signed negative ⟨min f.infinity rank, Nat.lt_succ_of_le (Nat.min_le_left _ _)⟩

/-- The datum with this bit pattern. -/
def ofBits (f : Format) (bits : Nat) : Binary f :=
  let half := 2 ^ (f.trailing + f.exponentBits)
  let rank := bits % half
  if f.infinity < rank then .nan else ofRank f (bits / half % 2 == 1) rank

/-- The bit pattern of a datum; a NaN has many and none is chosen. -/
def bits? : Binary f → Option Nat
  | .nan => none
  | .signed negative rank =>
    some ((if negative then 2 ^ (f.trailing + f.exponentBits) else 0) + rank.val)

/-- It is a NaN. -/
def isNaN : Binary f → Bool
  | .nan => true
  | .signed _ _ => false

/-- The rank with the sign of the datum: the two zeros agree in it. -/
def signedRank (negative : Bool) (rank : Fin (f.infinity + 1)) : Int :=
  if negative then -(rank.val : Int) else rank.val

/-- The order of two data.  A NaN has no place in it, and the zeros are equal. -/
def compare? : Binary f → Binary f → Option Ordering
  | .signed s a, .signed t b => some (compare (signedRank s a) (signedRank t b))
  | _, _ => none

/-- Equality as numbers: a NaN differs from everything, and the zeros are equal. -/
def same (x y : Binary f) : Bool := x.compare? y == some .eq

/-- The same number in another format, rounded where it has to be. -/
def convert (g : Format) : Binary f → Binary g
  | .nan => .nan
  | .signed negative rank =>
    if rank.val = f.infinity then ofRank g negative g.infinity
    else ofRank g negative (g.nearest (f.units rank.val) (2 ^ f.depth))

end Binary

end FrameworkAdmin
