/-
# Type tags

The type column of a property row holds a tag:

    tag     ::=  scalar-kind  |  "Array of " element-kind  |  "Vector of " scalar-kind

A tag is read word by word, so blanks of any kind and number separate its parts, and whatever
follows the last expected word is ignored.  The faults follow the same order: first the shape of
the tag, as far as it has to be known to find the kind word, then the kind word itself.
-/
import FrameworkAdmin.Property.Fault
import FrameworkAdmin.Text.Blank

namespace FrameworkAdmin

/-- The shape of a value and the kind of its scalars. -/
inductive Tag where
  | scalar (kind : ScalarKind)
  | array (element : ElementKind)
  | vector (kind : ScalarKind)
deriving DecidableEq, Repr

namespace Tag

/-! ## 1. Writing -/

/-- The words of the tag. -/
def words : Tag → List String
  | .scalar k => [k.name]
  | .array e => ["Array", "of", e.name]
  | .vector k => ["Vector", "of", k.name]

/-- The words of the tag with a space between neighbours. -/
def text (t : Tag) : String := String.intercalate " " t.words

/-! ## 2. Reading -/

/-- Reads the kind word of an array. -/
def ofArrayKind (word : String) : Except Fault Tag :=
  match ElementKind.ofName? word with
  | some e => .ok (.array e)
  | none => .error (.unknownElement word)

/-- Reads the kind word of a vector.  An unboxed kind is known but has no place there. -/
def ofVectorKind (word : String) : Except Fault Tag :=
  match ElementKind.ofName? word with
  | some (.scalar k) => .ok (.vector k)
  | some (.primitive _) => .error (.misplacedElement word)
  | none => .error (.unknownElement word)

/-- Reads a bare kind word. -/
def ofScalarKind (word : String) : Except Fault Tag :=
  match ScalarKind.ofName? word with
  | some k => .ok (.scalar k)
  | none => .error (.unknownScalar word)

/-- Reads a tag from its words; `tag` is the text they come from. -/
def ofWords (tag : String) : List String → Except Fault Tag
  | [] => .error (.malformedTag tag .empty)
  | first :: rest =>
    if first = "Array" then
      match rest with
      | "of" :: word :: _ => ofArrayKind word
      | ["of"] => .error (.malformedTag tag .missingArrayKind)
      | _ => .error (.malformedTag tag .missingOf)
    else if first = "Vector" then
      match rest with
      | "of" :: word :: _ => ofVectorKind word
      | ["of"] => .error (.malformedTag tag .missingVectorKind)
      | _ => .error (.malformedTag tag .missingOf)
    else ofScalarKind first

/-- Reads a tag from text. -/
def read (tag : String) : Except Fault Tag :=
  ofWords tag ((Text.words tag.toList).map String.ofList)

end Tag

end FrameworkAdmin
