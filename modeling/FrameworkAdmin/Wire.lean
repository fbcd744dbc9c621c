/-
# Wire forms

Records leave and enter the framework as plain trees of texts, numbers, lists and objects.  A
`Wire` is such a tree.  Integers are kept apart from all other numbers, because an item that is
declared to be an integer accepts nothing else.

A record has a fixed list of items.  It is written as an object with exactly these names; it is
read from such an object, which may have further names that are ignored, or from the bare list
of its items in order (`Wire.items?`).  Whatever has the wrong shape is refused without a
reason, so the readers of this module and of the records return options.
-/
import FrameworkAdmin.Number.Bounded

namespace FrameworkAdmin

/-- A tree of plain data.  The fields of an object have different names. -/
inductive Wire where
  | null
  | bool (b : Bool)
  | integer (i : Int)
  | fraction
  | text (s : String)
  | list (items : List Wire)
  | object (fields : List (String × Wire))

namespace Wire

instance : Inhabited Wire := ⟨.null⟩

/-- The items of a record with these names: all of them, in this order. -/
def items? (names : List String) : Wire → Option (List Wire)
  | .object fields => names.mapM fun n => fields.lookup n
  | .list items => if items.length = names.length then some items else none
  | _ => none

/-- The text, if it is one. -/
def text? : Wire → Option String
  | .text s => some s
  | _ => none

/-- The integer, if it is one of the range. -/
def bounded? (r : Range) : Wire → Option (Bounded r)
  | .integer i => Bounded.ofInt? r i
  | _ => none

/-- The elements, if it is a list of which each element is read by `read`. -/
def listOf? {α : Type} (read : Wire → Option α) : Wire → Option (List α)
  | .list items => items.mapM read
  | _ => none

/-- The texts, if it is a list of texts. -/
def texts? (w : Wire) : Option (List String) := w.listOf? text?

/-- A list of texts. -/
def ofTexts (l : List String) : Wire := .list (l.map .text)

end Wire

end FrameworkAdmin
