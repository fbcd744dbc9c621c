/-
# Property tables on the wire

A row is a record of three texts and a table is the list of its rows.  A table is read from any
list of rows: their order does not matter, and of rows with one key the last counts.
-/
import FrameworkAdmin.Property.Table
import FrameworkAdmin.Wire

namespace FrameworkAdmin

/-- The wire form of a row. -/
def Row.toWire (r : Row) : Wire :=
  .object [("Key", .text r.key), ("Value", .text r.value), ("Type", .text r.type)]

/-- The row with this wire form. -/
def Row.ofWire? (w : Wire) : Option Row :=
  match w.items? ["Key", "Value", "Type"] with
  | some [key, value, type] => do
    return { key := ← key.text?, value := ← value.text?, type := ← type.text? }
  | _ => none

/-- The wire form of a table: its rows in key order. -/
def Table.toWire (t : Table) : Wire := .list (t.rows.map Row.toWire)

/-- The table with this wire form. -/
def Table.ofWire? (w : Wire) : Option Table := (w.listOf? Row.ofWire?).map Table.ofRows

end FrameworkAdmin
