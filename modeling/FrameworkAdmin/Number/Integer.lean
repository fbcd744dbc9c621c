/-
# Integers of any size

An unbounded integer is written with a plain run of digits, but it is read with more tolerance:
underscores may separate the digits, except in front.

The signs need care, because a minus sign and a plus sign are taken off in two separate steps
and each looks one character ahead.  `-` is taken off unless `+` follows it, then `+` is taken
off unless another `+` follows it.  So `+5` and `-5` are numbers, and `-+5`, `+-5` and `++5` all
stop at the sign that stays behind.
-/
import FrameworkAdmin.Number.Digits
import FrameworkAdmin.Number.Misread

namespace FrameworkAdmin
namespace Integer

/-- The digits of a run in which underscores count for nothing. -/
def readDigits : Nat → List Char → Except Misread Nat
  | n, [] => .ok n
  | n, c :: cs =>
    if c.isDigit then readDigits (10 * n + (c.toNat - 48)) cs
    else if c = '_' then readDigits n cs
    else .error .strayCharacter

/-- Reads the part after a minus sign: a plus sign at most, then digits, the first of which is
no underscore. -/
def readMagnitude (cs : List Char) : Except Misread Nat :=
  let body :=
    match cs with
    | '+' :: '+' :: _ => cs
    | '+' :: rest => rest
    | _ => cs
  match body with
  | [] => .error .emptyInteger
  | '_' :: _ => .error .strayCharacter
  | _ => readDigits 0 body

/-- Reads an integer of any size. -/
def read (cs : List Char) : Except Misread Int :=
  match cs with
  | '-' :: '+' :: _ => (readMagnitude cs).map fun n => -(n : Int)
  | '-' :: rest => (readMagnitude rest).map fun n => -(n : Int)
  | _ => (readMagnitude cs).map fun n => (n : Int)

end Integer
end FrameworkAdmin
