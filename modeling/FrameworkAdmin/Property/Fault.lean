/-
# Faults of the property codec

A conversion between values and their tabular form fails for one of the causes below.  They
fall into stages.  A fault of the **tag** says that the type column was not understood
(`Fault.isTagFault`), a fault of an **element** that the tag was understood and a piece of the
value column was not (`Fault.isElementFault`).  The remaining ones arise where a value has no
tabular form at all, or where a record carries a code that no kind has.
-/
import FrameworkAdmin.Number.Bounded
import FrameworkAdmin.Property.Kind

namespace FrameworkAdmin

/-- What is wrong with the shape of a type tag. -/
inductive TagFlaw where
  /-- There is no word in the tag. -/
  | empty
  /-- The word after `Array` or `Vector` is not `of`. -/
  | missingOf
  /-- Nothing follows `Array of`. -/
  | missingArrayKind
  /-- Nothing follows `Vector of`. -/
  | missingVectorKind
deriving DecidableEq, Repr

/-- The wording of each flaw. -/
def TagFlaw.message : TagFlaw → String
  | .empty => "type is empty"
  | .missingOf => "expected 'of'"
  | .missingArrayKind => "expected <scalar>|<primitive> after 'Array of'"
  | .missingVectorKind => "expected <scalar> after 'Vector of'"

/-- The codes of records that name one of a few kinds. -/
inductive CodeItem where
  | roleType
  | eventType
deriving DecidableEq, Repr

/-- The item of the record that carries the code. -/
def CodeItem.name : CodeItem → String
  | .roleType => "Type"
  | .eventType => "EventType"

/-- What the code is a code of. -/
def CodeItem.noun : CodeItem → String
  | .roleType => "role type"
  | .eventType => "event type"

/-- The reason why a value, a row or a record could not be converted. -/
inductive Fault where
  /-- The value under `key` has no tabular form; `kind` says what it is. -/
  | unsupportedValue (key kind : String)
  /-- The tag does not have the shape of a tag. -/
  | malformedTag (tag : String) (flaw : TagFlaw)
  /-- A bare word that is no scalar kind. -/
  | unknownScalar (word : String)
  /-- An element word that is no kind at all. -/
  | unknownElement (word : String)
  /-- An unboxed kind where only a boxed one can stand. -/
  | misplacedElement (word : String)
  /-- A text that cannot be read as its kind. -/
  | unreadable (kind : ElementKind) (token : String) (cause : Misread)
  /-- A code that no kind has. -/
  | unknownCode (item : CodeItem) (code : Bounded (.signed 32))
deriving DecidableEq, Repr

namespace Fault

/-- The fault lies in the type tag. -/
def isTagFault : Fault → Bool
  | .malformedTag _ _ | .unknownScalar _ | .unknownElement _ | .misplacedElement _ => true
  | .unsupportedValue _ _ | .unreadable _ _ _ | .unknownCode _ _ => false

/-- The fault lies in the text of a value. -/
def isElementFault : Fault → Bool
  | .unreadable _ _ _ => true
  | _ => false

/-- The wording of each fault. -/
def message : Fault → String
  | .unsupportedValue key kind =>
    "unsupported value kind '" ++ kind ++ "' for property '" ++ key ++ "'"
  | .malformedTag tag flaw => "malformed type tag '" ++ tag ++ "': " ++ flaw.message
  | .unknownScalar word => "unknown scalar kind '" ++ word ++ "'"
  | .unknownElement word => "unknown element kind '" ++ word ++ "'"
  | .misplacedElement word => "element kind '" ++ word ++ "' is not allowed here"
  | .unreadable kind token cause =>
    "cannot parse '" ++ token ++ "' as " ++ kind.name ++ ": " ++ cause.message
  | .unknownCode item code =>
    "invalid item '" ++ item.name ++ "': unknown " ++ item.noun ++ " " ++ String.ofList code.text

end Fault

end FrameworkAdmin
