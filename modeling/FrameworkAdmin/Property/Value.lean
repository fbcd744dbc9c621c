/-
# Property values

The values of a host's property dictionary have five shapes.  Three of them can be written into
a table: scalars, dense arrays of one element kind, and vectors, which are lists of values whose
kind is taken from the first.  A nested dictionary is a value that a host may hold and no table
can express; neither can it express a vector that holds anything but scalars.

`Value.same` is equality as values.  It compares the shape and the element kind exactly (an
array of `int` is never an array of `Integer`) and the scalars as values.
-/
import FrameworkAdmin.Property.Scalar
import FrameworkAdmin.SortedMap

namespace FrameworkAdmin

/-! ## 1. Shapes -/

/-- A value of a property dictionary.  The entries of a nested dictionary are listed in key
order. -/
inductive Value where
  | scalar (s : Scalar)
  | array (element : ElementKind) (items : List element.boxed.Carrier)
  | vector (items : List Value)
  | dictionary (entries : List (String × Value))

/-- A property dictionary. -/
abbrev Properties := SortedMap String Value

namespace Value

instance : Inhabited Value := ⟨.vector []⟩

/-- A string as a value. -/
def ofString (s : String) : Value := .scalar ⟨.string, s⟩

/-- A 32-bit integer as a value. -/
def ofInteger (n : Bounded (.signed 32)) : Value := .scalar ⟨.integer, n⟩

/-- A 64-bit integer as a value. -/
def ofLong (n : Bounded (.signed 64)) : Value := .scalar ⟨.long, n⟩

/-- A floating-point number of 64 bits as a value. -/
def ofDouble (x : Binary .double) : Value := .scalar ⟨.double, x⟩

/-- A truth value as a value. -/
def ofBool (b : Bool) : Value := .scalar ⟨.boolean, b⟩

/-- A list of strings as a value: an array, not a vector. -/
def ofStrings (l : List String) : Value := .array (.scalar .string) l

/-- A dictionary as a value of another one. -/
def ofProperties (p : Properties) : Value := .dictionary p.entries

/-! ## 2. Looking into a value -/

/-- The scalars of an array. -/
def boxAll (e : ElementKind) (items : List e.boxed.Carrier) : List Scalar :=
  items.map fun a => ⟨e.boxed, a⟩

/-- What the value is, in the words of an error message. -/
def kindName : Value → String
  | .scalar s => s.kind.name
  | .array e _ => e.name ++ "[]"
  | .vector _ => "Vector"
  | .dictionary _ => "Dictionary"

/-- The element kind of an array. -/
def element? : Value → Option ElementKind
  | .array e _ => some e
  | _ => none

/-- The scalar, if the value is one. -/
def scalar? : Value → Option Scalar
  | .scalar s => some s
  | _ => none

/-- The string, if the value is a string scalar. -/
def string? (v : Value) : Option String := v.scalar?.bind Scalar.string?

/-- The strings, if the value is an array of strings. -/
def strings? : Value → Option (List String)
  | .array (.scalar .string) items => some items
  | _ => none

/-- The scalars that a condition on the value is tested on: itself, or the scalars it directly
holds. -/
def scalars : Value → List Scalar
  | .scalar s => [s]
  | .array e items => boxAll e items
  | .vector items => items.filterMap scalar?
  | .dictionary _ => []

/-! ## 3. Equality -/

/-- Pairwise equality of two lists of scalars of equal length. -/
def sameScalars : List Scalar → List Scalar → Bool
  | [], [] => true
  | a :: as, b :: bs => a.same b && sameScalars as bs
  | _, _ => false

mutual

/-- Equality as values. -/
def same : Value → Value → Bool
  | .scalar a, .scalar b => a.same b
  | .array e as, .array f bs => e == f && sameScalars (boxAll e as) (boxAll f bs)
  | .vector as, .vector bs => sameItems as bs
  | .dictionary as, .dictionary bs => sameEntries as bs
  | _, _ => false

/-- Pairwise equality of two lists of values of equal length. -/
def sameItems : List Value → List Value → Bool
  | [], [] => true
  | a :: as, b :: bs => a.same b && sameItems as bs
  | _, _ => false

/-- Pairwise equality of keys and values of two lists of equal length. -/
def sameEntries : List (String × Value) → List (String × Value) → Bool
  | [], [] => true
  | (k, a) :: as, (l, b) :: bs => k == l && a.same b && sameEntries as bs
  | _, _ => false

end

instance : BEq Value := ⟨same⟩

end Value

/-- Equality of dictionaries: the same keys with equal values. -/
def Properties.same (p q : Properties) : Bool := Value.sameEntries p.entries q.entries

end FrameworkAdmin
