/-
# The value column

In a table a value is one text, and its tag says how to read it.  A scalar is its own text.  The
scalars of an array or a vector are separated by commas, and nothing escapes a comma inside
one, so the column is not a faithful picture of every list.  What it does with a list is simple
all the same:

* writing joins the texts (`Value.write`);
* reading cuts at every comma, drops the pieces of length zero, trims the others and reads each
  one as the kind of the tag (`Tag.readValue`).  The pieces are dropped **before** they are
  trimmed, so a blank piece survives as an empty token.

The first token that cannot be read decides the fault.  A scalar outside a list is neither cut
nor trimmed.
-/
import FrameworkAdmin.Property.Tag
import FrameworkAdmin.Property.Value
import FrameworkAdmin.Text.Pieces

namespace FrameworkAdmin

/-- The character between the elements of a list. -/
def separator : Char := ','

/-! ## 1. Writing -/

namespace Value

/-- The scalars of a vector, or its first item that is no scalar. -/
def vectorScalars : List Value → Except Value (List Scalar)
  | [] => .ok []
  | .scalar s :: items =>
    match vectorScalars items with
    | .ok ss => .ok (s :: ss)
    | .error v => .error v
  | v :: _ => .error v

/-- The kind of a vector is that of its first scalar, and `String` if there is none. -/
def vectorKind : List Scalar → ScalarKind
  | [] => .string
  | s :: _ => s.kind

/-- The text of a list of scalar texts. -/
def joinTexts (texts : List (List Char)) : String := String.ofList (Text.join separator texts)

/-- The text of a value and its tag.  The key only names the property in a fault. -/
def write (key : String) : Value → Except Fault (String × Tag)
  | .scalar s => .ok (String.ofList s.text, .scalar s.kind)
  | .array e items => .ok (joinTexts (items.map e.boxed.write), .array e)
  | .vector items =>
    match vectorScalars items with
    | .ok ss => .ok (joinTexts (ss.map Scalar.text), .vector (vectorKind ss))
    | .error v => .error (.unsupportedValue key ("Vector of " ++ v.kindName))
  | .dictionary entries => .error (.unsupportedValue key (kindName (.dictionary entries)))

end Value

/-! ## 2. Reading -/

/-- The elements of a list: the pieces between separators that are not of length zero, without
the blanks at their ends. -/
def tokens (text : String) : List (List Char) :=
  ((Text.pieces separator text.toList).filter (!·.isEmpty)).map Text.trim

/-- Reads one token.  The fault names the kind as the tag does. -/
def ElementKind.readToken (e : ElementKind) (token : List Char) :
    Except Fault e.boxed.Carrier :=
  match e.boxed.read token with
  | .ok a => .ok a
  | .error m => .error (.unreadable e (String.ofList token) m)

/-- Reads every token, or gives the fault of the first that cannot be read. -/
def ElementKind.readTokens (e : ElementKind) : List (List Char) →
    Except Fault (List e.boxed.Carrier)
  | [] => .ok []
  | token :: rest =>
    match e.readToken token with
    | .error f => .error f
    | .ok a =>
      match e.readTokens rest with
      | .error f => .error f
      | .ok as => .ok (a :: as)

/-- Reads a text as a scalar of this kind. -/
def Scalar.read (k : ScalarKind) (text : String) : Except Fault Scalar :=
  match (ElementKind.scalar k).readToken text.toList with
  | .ok a => .ok ⟨k, a⟩
  | .error f => .error f

/-- Reads a text as a value with this tag. -/
def Tag.readValue : Tag → String → Except Fault Value
  | .scalar k, text =>
    match Scalar.read k text with
    | .ok s => .ok (.scalar s)
    | .error f => .error f
  | .array e, text =>
    match e.readTokens (tokens text) with
    | .ok items => .ok (.array e items)
    | .error f => .error f
  | .vector k, text =>
    match (ElementKind.scalar k).readTokens (tokens text) with
    | .ok items => .ok (.vector (items.map fun a => .scalar ⟨k, a⟩))
    | .error f => .error f

/-- Reads a text as a value, the tag being a text as well.  A tag that cannot be read is the
fault, whatever the value. -/
def Value.read (tag text : String) : Except Fault Value :=
  match Tag.read tag with
  | .ok t => t.readValue text
  | .error f => .error f

end FrameworkAdmin
