/-
# Records that bear their names

A store knows what it has by name.  The name is the key of its map, and nothing says it a second time.  A
store of whole records says it twice, since each record bears a name of its own: it is found by the one and
goes by the other, and only its operations make the two the same.

`SortedMap.named` turns a map into the map of the records.  It commutes with every way in which a store
changes its map: a record is put under the name that it bears, it is taken away, and its content is changed
where it is (section 2).  So a store of records that does the same as a store of entries has these records
and no others, whatever is done.
-/
import FrameworkAdmin.Proofs.SortedMap

namespace FrameworkAdmin

/-! ## 1. Records -/

/-- A record: a content and the name that it bears. -/
structure Named (α : Type) where
  name : String
  content : α

variable {α : Type}

/-- The record with another content. -/
def Named.change (f : α → α) (r : Named α) : Named α := { r with content := f r.content }

namespace SortedMap

/-- The map of the records. -/
def named (m : SortedMap String α) : SortedMap String (Named α) := m.map fun name a => ⟨name, a⟩

/-- Each record bears the name under which it is kept, and has the content that the map has there.  Going
through the records and taking the names off them is going through the entries of the map. -/
structure BearsNames (m : SortedMap String α) (records : SortedMap String (Named α)) : Prop where
  get?_iff : ∀ name r, records.get? name = some r ↔ r.name = name ∧ m.get? name = some r.content
  entries_eq : (records.values.map fun r => (r.name, r.content)) = m.entries

variable (m : SortedMap String α)

theorem get?_named (name : String) : m.named.get? name = (m.get? name).map fun a => ⟨name, a⟩ :=
  m.get?_map _ name

theorem contains_named (name : String) : m.named.contains name = m.contains name := by
  rw [contains, get?_named, Option.isSome_map, contains]

/-- **The records of a map bear their names.** -/
theorem bearsNames_named : m.BearsNames m.named where
  get?_iff := by
    intro name r
    rw [get?_named, Option.map_eq_some_iff]
    constructor
    · rintro ⟨a, hget, rfl⟩
      exact ⟨rfl, hget⟩
    · rintro ⟨rfl, hget⟩
      exact ⟨r.content, hget, rfl⟩
  entries_eq := by
    rw [values, named, map, List.map_map, List.map_map]
    exact List.map_id _

/-! ## 2. Changes -/

theorem named_insert (name : String) (a : α) :
    (m.insert name a).named = m.named.insert name ⟨name, a⟩ := by
  refine ext_get? fun x => ?_
  rw [get?_named, get?_insert, get?_insert, get?_named]
  split
  · rename_i hx
    obtain rfl := Std.LawfulEqCmp.eq_of_compare hx
    rfl
  · rfl

theorem named_erase (name : String) : (m.erase name).named = m.named.erase name := by
  refine ext_get? fun x => ?_
  rw [get?_named, get?_erase, get?_erase, get?_named]
  split <;> rfl

/-- Changing contents where they are leaves the names alone. -/
theorem named_map (f : α → α) : (m.map fun _ => f).named = m.named.map fun _ => Named.change f := by
  refine ext_get? fun x => ?_
  rw [get?_named, get?_map, get?_map, get?_named, Option.map_map, Option.map_map]
  rfl

end SortedMap

end FrameworkAdmin
