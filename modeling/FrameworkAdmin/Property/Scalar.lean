/-
# Scalars

A scalar is a kind together with a value of that kind: `ScalarKind.Carrier` says which Lean type
holds the values, so a scalar cannot name one kind and hold another.  Arrays are lists of the
same carriers, which is why everything that depends on the kind is said here, once for each of
the eleven kinds, and nowhere else:

* `ScalarKind.write` is the text of a value, the one that stands in the value column;
* `ScalarKind.read` reads a text, all of it, as a value;
* `ScalarKind.same` is equality as values.  It is not equality of data for floats, where a NaN
  differs from itself and the two zeros agree, nor for decimals, where 1.5 and 1.50 agree.

Two kinds are lenient when they are read.  A boolean is true exactly for the word `true` in any
case and false for every other text; a character is the first one of the text.
-/
import FrameworkAdmin.Number.Binary.Literal
import FrameworkAdmin.Number.Decimal
import FrameworkAdmin.Property.Kind
import FrameworkAdmin.Text.LowerCase

namespace FrameworkAdmin

namespace ScalarKind

/-! ## 1. Values of a kind -/

/-- The type of the values of a kind. -/
@[reducible] def Carrier : ScalarKind → Type
  | .string => String
  | .integer => Bounded (.signed 32)
  | .long => Bounded (.signed 64)
  | .float => Binary .single
  | .double => Binary .double
  | .byte => Bounded (.signed 8)
  | .short => Bounded (.signed 16)
  | .character => Char
  | .boolean => Bool
  | .bigDecimal => Decimal
  | .bigInteger => Int

instance (k : ScalarKind) : DecidableEq k.Carrier :=
  match k with
  | .string => inferInstanceAs (DecidableEq String)
  | .integer => inferInstanceAs (DecidableEq (Bounded (.signed 32)))
  | .long => inferInstanceAs (DecidableEq (Bounded (.signed 64)))
  | .float => inferInstanceAs (DecidableEq (Binary .single))
  | .double => inferInstanceAs (DecidableEq (Binary .double))
  | .byte => inferInstanceAs (DecidableEq (Bounded (.signed 8)))
  | .short => inferInstanceAs (DecidableEq (Bounded (.signed 16)))
  | .character => inferInstanceAs (DecidableEq Char)
  | .boolean => inferInstanceAs (DecidableEq Bool)
  | .bigDecimal => inferInstanceAs (DecidableEq Decimal)
  | .bigInteger => inferInstanceAs (DecidableEq Int)

/-! ## 2. Text -/

/-- The text of a value. -/
def write : (k : ScalarKind) → k.Carrier → List Char
  | .string, s => s.toList
  | .integer, n => n.text
  | .long, n => n.text
  | .float, x => x.text
  | .double, x => x.text
  | .byte, n => n.text
  | .short, n => n.text
  | .character, c => [c]
  | .boolean, true => ['t', 'r', 'u', 'e']
  | .boolean, false => ['f', 'a', 'l', 's', 'e']
  | .bigDecimal, d => d.text
  | .bigInteger, i => integerText i

/-- The text is the word `true`, in any case. -/
def readBoolean (cs : List Char) : Bool := cs.map Char.toLower == ['t', 'r', 'u', 'e']

/-- The first character of a text. -/
def readCharacter : List Char → Except Misread Char
  | [] => .error .emptyCharacter
  | c :: _ => .ok c

/-- Reads the whole of a text as a value of this kind. -/
def read : (k : ScalarKind) → List Char → Except Misread k.Carrier
  | .string, cs => .ok (String.ofList cs)
  | .integer, cs => Bounded.read (.signed 32) cs
  | .long, cs => Bounded.read (.signed 64) cs
  | .float, cs => Binary.read .single cs
  | .double, cs => Binary.read .double cs
  | .byte, cs => Bounded.read (.signed 8) cs
  | .short, cs => Bounded.read (.signed 16) cs
  | .character, cs => readCharacter cs
  | .boolean, cs => .ok (readBoolean cs)
  | .bigDecimal, cs => Decimal.read cs
  | .bigInteger, cs => Integer.read cs

/-! ## 3. Equality -/

/-- Equality as values. -/
def same : (k : ScalarKind) → k.Carrier → k.Carrier → Bool
  | .string, s, t => s == t
  | .integer, m, n => m == n
  | .long, m, n => m == n
  | .float, x, y => x.same y
  | .double, x, y => x.same y
  | .byte, m, n => m == n
  | .short, m, n => m == n
  | .character, c, d => c == d
  | .boolean, a, b => a == b
  | .bigDecimal, d, e => d.same e
  | .bigInteger, i, j => i == j

end ScalarKind

/-! ## 4. Scalars -/

/-- A value of one of the eleven kinds. -/
structure Scalar where
  kind : ScalarKind
  value : kind.Carrier
deriving DecidableEq

namespace Scalar

/-- The text of a scalar. -/
def text (s : Scalar) : List Char := s.kind.write s.value

/-- Equality of scalars: the same kind and the same value of it. -/
def same : Scalar → Scalar → Bool
  | ⟨k, a⟩, ⟨l, b⟩ => if h : k = l then l.same (h ▸ a) b else false

/-- The string of a string scalar. -/
def string? : Scalar → Option String
  | ⟨.string, s⟩ => some s
  | _ => none

/-- The scalar is a floating-point NaN. -/
def isNaN : Scalar → Bool
  | ⟨.float, x⟩ => x.isNaN
  | ⟨.double, x⟩ => x.isNaN
  | _ => false

end Scalar

end FrameworkAdmin
