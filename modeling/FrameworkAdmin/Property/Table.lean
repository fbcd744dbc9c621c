/-
# Property tables

A property dictionary travels as a table of three columns of text: key, value, type.  The key
column is the table's index, so a table holds one row per key and lists its rows in key order;
a row that is inserted replaces the row with its key.

The table stores under each key the two other columns (`Cells`) and puts the rows together when
they are asked for, so a row can only ever be found under its own key.

The conversions of section 3 work row by row in key order and stop at the first row, or the
first property, that cannot be converted.  They neither add nor lose a key.
-/
import FrameworkAdmin.Property.Column

namespace FrameworkAdmin

/-! ## 1. Rows -/

/-- The columns of a row other than its key. -/
structure Cells where
  value : String
  type : String
deriving DecidableEq, Repr

/-- A row of a property table. -/
structure Row extends Cells where
  key : String
deriving DecidableEq, Repr

namespace Row

/-- The row of a property. -/
def ofValue (key : String) (v : Value) : Except Fault Row :=
  match v.write key with
  | .ok (text, tag) => .ok { key, value := text, type := tag.text }
  | .error f => .error f

/-- The value that the other two columns of a row stand for. -/
def toValue (r : Row) : Except Fault Value := Value.read r.type r.value

end Row

/-! ## 2. Tables -/

/-- A property table: the cells of each row under its key. -/
structure Table where
  cells : SortedMap String Cells
deriving DecidableEq

namespace Table

instance : EmptyCollection Table := ⟨⟨∅⟩⟩
instance : Inhabited Table := ⟨∅⟩

/-- The row with this key. -/
def get? (t : Table) (key : String) : Option Row :=
  (t.cells.get? key).map fun c => { c with key }

/-- The table has a row with this key. -/
def contains (t : Table) (key : String) : Bool := t.cells.contains key

/-- The number of rows. -/
def size (t : Table) : Nat := t.cells.size

/-- There are no rows. -/
def isEmpty (t : Table) : Bool := t.cells.isEmpty

/-- The keys, ascending. -/
def keys (t : Table) : List String := t.cells.keys

/-- The rows, in key order. -/
def rows (t : Table) : List Row := t.cells.entries.map fun e => { e.2 with key := e.1 }

/-- The table with a row, which takes the place of a row with its key. -/
def insert (t : Table) (r : Row) : Table := ⟨t.cells.insert r.key r.toCells⟩

/-- The table with a row, and the row that this replaces. -/
def exchange (t : Table) (r : Row) : Option Row × Table :=
  let (replaced, cells) := t.cells.exchange r.key r.toCells
  (replaced.map fun c => { c with key := r.key }, ⟨cells⟩)

/-- The table of a list of rows, of which a later one replaces an earlier one with its key. -/
def ofRows (rows : List Row) : Table := rows.foldl insert ∅

/-! ## 3. Dictionaries -/

/-- The table of a dictionary, or the fault of its smallest key whose value has no tabular
form. -/
def ofProperties (p : Properties) : Except Fault Table :=
  match p.traverse fun key v => (Row.ofValue key v).map Row.toCells with
  | .ok cells => .ok ⟨cells⟩
  | .error f => .error f

/-- The dictionary of a table, or the fault of its smallest key whose row cannot be read. -/
def toProperties (t : Table) : Except Fault Properties :=
  t.cells.traverse fun key c => Row.toValue { c with key }

end Table

end FrameworkAdmin
