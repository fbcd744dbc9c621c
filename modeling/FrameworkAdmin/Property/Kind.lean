/-
# Kinds of values

A property value is a scalar, or a list of scalars, of one of eleven kinds.  Eight of these
kinds have a second, unboxed form that occurs only as the element of an array; its values are
those of the boxed kind (`PrimitiveKind.boxed`), only its name differs.

Names are looked up in the list of all kinds, so the names that are written and the names that
are read cannot drift apart (`ofName?_name`).  Two names differ only in case from a name of the
other table (`Long` and `long`), which is why look-up is exact.
-/

namespace FrameworkAdmin

/-! ## 1. Boxed kinds -/

/-- The kinds of scalars. -/
inductive ScalarKind where
  | string
  | integer
  | long
  | float
  | double
  | byte
  | short
  | character
  | boolean
  | bigDecimal
  | bigInteger
deriving DecidableEq, Repr

namespace ScalarKind

/-- Every kind, in the order in which they are documented. -/
def all : List ScalarKind :=
  [.string, .integer, .long, .float, .double, .byte, .short, .character, .boolean, .bigDecimal,
    .bigInteger]

/-- The name of the kind in a type tag. -/
def name : ScalarKind → String
  | .string => "String"
  | .integer => "Integer"
  | .long => "Long"
  | .float => "Float"
  | .double => "Double"
  | .byte => "Byte"
  | .short => "Short"
  | .character => "Character"
  | .boolean => "Boolean"
  | .bigDecimal => "BigDecimal"
  | .bigInteger => "BigInteger"

/-- The kind with this name. -/
def ofName? (s : String) : Option ScalarKind := all.find? (·.name == s)

/-- Every kind is found by its name. -/
@[simp] theorem ofName?_name (k : ScalarKind) : ofName? k.name = some k := by
  cases k <;> decide

/-- A kind that is found has the name that was looked for. -/
theorem name_of_ofName? {s : String} {k : ScalarKind} (h : ofName? s = some k) : k.name = s := by
  simpa using List.find?_some h

end ScalarKind

/-! ## 2. Unboxed kinds -/

/-- The kinds that an array can hold unboxed. -/
inductive PrimitiveKind where
  | int
  | long
  | float
  | double
  | byte
  | short
  | char
  | boolean
deriving DecidableEq, Repr

namespace PrimitiveKind

/-- Every kind, in the order in which they are documented. -/
def all : List PrimitiveKind :=
  [.int, .long, .float, .double, .byte, .short, .char, .boolean]

/-- The name of the kind in a type tag. -/
def name : PrimitiveKind → String
  | .int => "int"
  | .long => "long"
  | .float => "float"
  | .double => "double"
  | .byte => "byte"
  | .short => "short"
  | .char => "char"
  | .boolean => "boolean"

/-- The kind with this name. -/
def ofName? (s : String) : Option PrimitiveKind := all.find? (·.name == s)

/-- The scalar kind with the same values. -/
def boxed : PrimitiveKind → ScalarKind
  | .int => .integer
  | .long => .long
  | .float => .float
  | .double => .double
  | .byte => .byte
  | .short => .short
  | .char => .character
  | .boolean => .boolean

/-- Every kind is found by its name. -/
@[simp] theorem ofName?_name (k : PrimitiveKind) : ofName? k.name = some k := by
  cases k <;> decide

/-- A kind that is found has the name that was looked for. -/
theorem name_of_ofName? {s : String} {k : PrimitiveKind} (h : ofName? s = some k) :
    k.name = s := by
  simpa using List.find?_some h

/-- No name belongs to both tables. -/
theorem scalarOfName?_name (k : PrimitiveKind) : ScalarKind.ofName? k.name = none := by
  cases k <;> decide

end PrimitiveKind

/-! ## 3. Elements of arrays -/

/-- What an array holds: boxed or unboxed values. -/
inductive ElementKind where
  | scalar (kind : ScalarKind)
  | primitive (kind : PrimitiveKind)
deriving DecidableEq, Repr

namespace ElementKind

/-- The name of the kind in a type tag. -/
def name : ElementKind → String
  | .scalar k => k.name
  | .primitive k => k.name

/-- The element kind with this name, boxed or unboxed. -/
def ofName? (s : String) : Option ElementKind :=
  match ScalarKind.ofName? s with
  | some k => some (.scalar k)
  | none => (PrimitiveKind.ofName? s).map .primitive

/-- The scalar kind with the same values. -/
def boxed : ElementKind → ScalarKind
  | .scalar k => k
  | .primitive k => k.boxed

/-- Every element kind is found by its name. -/
@[simp] theorem ofName?_name (e : ElementKind) : ofName? e.name = some e := by
  cases e with
  | scalar k => simp [ofName?, name]
  | primitive k => simp [ofName?, name, PrimitiveKind.scalarOfName?_name]

end ElementKind

end FrameworkAdmin
