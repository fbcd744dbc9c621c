/-
# Which dictionaries a filter selects

An item looks its attribute up without regard to the case of ASCII letters; where several keys
qualify, the first in key order is taken.  The condition is then tested on the scalars of the
value, and one that satisfies it is enough.

**Comparison.**  The text of the item is read as the type that the scalar is compared at: 64
bits for all bounded integers, 64-bit floating point for both float kinds, the kind itself
otherwise (`Scalar.order?`).  A text that cannot be read is never matched.  All four operators
accept equality; a boolean accepts nothing else, whatever the operator.  Blanks around the text
count only for strings.

**Approximation.**  `~=` differs from `=` for two kinds.  Strings are compared without blanks
and in lower case, characters in lower case.

**Wildcards.**  They are for strings only; which strings the parts between them cover is the
subject of `Filter/Wildcard.lean`.
-/
import FrameworkAdmin.Filter.Wildcard
import FrameworkAdmin.Property.Value
import FrameworkAdmin.Text.Blank

namespace FrameworkAdmin

/-! ## 1. Comparison -/

/-- The operator accepts this order of the scalar and the text. -/
def Comparison.accepts : Comparison → Ordering → Bool
  | _, .eq => true
  | .atLeast, .gt => true
  | .atMost, .lt => true
  | _, _ => false

namespace Scalar

/-- The order of an integer and a text that is a 64-bit integer. -/
def orderInteger? (i : Int) (cs : List Char) : Option Ordering :=
  match Bounded.read (.signed 64) cs with
  | .ok n => some (compare i n.val)
  | .error _ => none

/-- The order of a floating-point number and a text that is one. -/
def orderFloat? (x : Binary .double) (cs : List Char) : Option Ordering :=
  match Binary.read .double cs with
  | .ok y => x.compare? y
  | .error _ => none

/-- The order of a scalar and a text that can be read at its type. -/
def order? (s : Scalar) (text : String) : Option Ordering :=
  let trimmed := Text.trim text.toList
  match s with
  | ⟨.string, a⟩ => some (compare a text)
  | ⟨.integer, n⟩ => orderInteger? n.val trimmed
  | ⟨.long, n⟩ => orderInteger? n.val trimmed
  | ⟨.byte, n⟩ => orderInteger? n.val trimmed
  | ⟨.short, n⟩ => orderInteger? n.val trimmed
  | ⟨.float, x⟩ => orderFloat? (x.convert .double) trimmed
  | ⟨.double, x⟩ => orderFloat? x trimmed
  | ⟨.character, c⟩ =>
    match trimmed with
    | [d] => some (compare c d)
    | _ => none
  | ⟨.boolean, b⟩ => if ScalarKind.readBoolean trimmed == b then some .eq else none
  | ⟨.bigDecimal, d⟩ =>
    match Decimal.read trimmed with
    | .ok e => some (d.compare e)
    | .error _ => none
  | ⟨.bigInteger, i⟩ =>
    match Integer.read trimmed with
    | .ok j => some (compare i j)
    | .error _ => none

/-- A string as approximate comparison sees it. -/
def normalize (s : String) : List Char :=
  (s.toList.filter fun c => !Text.isBlank c).flatMap Text.lowerCase

/-- The scalar stands in the relation `op` to the text. -/
def satisfies (s : Scalar) (op : Comparison) (text : String) : Bool :=
  match op, s with
  | .approximate, ⟨.string, a⟩ => normalize a == normalize text
  | .approximate, ⟨.character, c⟩ =>
    match Text.trim text.toList with
    | [d] => Text.lowerCase c == Text.lowerCase d
    | _ => false
  | _, _ =>
    match s.order? text with
    | some o => op.accepts o
    | none => false

end Scalar

/-! ## 2. Wildcards -/

/-- The scalar is a string that the parts cover. -/
def Scalar.fitsParts (s : Scalar) (parts : List String) : Bool :=
  match s with
  | ⟨.string, a⟩ => Wildcard.covers (parts.map String.toList) a.toList
  | _ => false

/-! ## 3. Filters -/

/-- The value of the first key that is the attribute up to the case of ASCII letters. -/
def Properties.attribute? (p : Properties) (name : String) : Option Value :=
  (p.entries.find? fun e => Text.sameIgnoringAsciiCase e.1 name).map Prod.snd

/-- The attribute is present and one of its scalars satisfies the condition. -/
def Properties.holds (p : Properties) (name : String) (condition : Scalar → Bool) : Bool :=
  match p.attribute? name with
  | some v => v.scalars.any condition
  | none => false

namespace Filter

mutual

/-- The filter selects the dictionary. -/
def selects : Filter → Properties → Bool
  | .and fs, p => allSelect fs p
  | .or fs, p => anySelects fs p
  | .not f, p => !selects f p
  | .present a, p => (p.attribute? a).isSome
  | .compare a op text, p => p.holds a fun s => s.satisfies op text
  | .substring a parts, p => p.holds a fun s => s.fitsParts parts

/-- Every filter of a list selects the dictionary. -/
def allSelect : List Filter → Properties → Bool
  | [], _ => true
  | f :: fs, p => selects f p && allSelect fs p

/-- Some filter of a list selects the dictionary. -/
def anySelects : List Filter → Properties → Bool
  | [], _ => false
  | f :: fs, p => selects f p || anySelects fs p

end

end Filter

end FrameworkAdmin
