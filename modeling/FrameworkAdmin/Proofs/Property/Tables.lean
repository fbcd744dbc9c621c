/-
# Dictionaries through a table

A dictionary is written and read value by value, and neither direction adds or loses a name.  So what is
known of one value holds under every name: the conversions succeed when each value converts
(`exists_toProperties_iff`), their results are looked up value by value (`get?_of_toProperties`,
`get?_of_ofProperties`), and where each value comes back from its row as something else, so does the
dictionary (`Properties.exists_read`).

A dictionary that came out of a table is special in that it can always be written again
(`Properties.Readable.exists_ofProperties`).  What comes back then is the dictionary without the empty
strings in its lists (`Properties.Readable.comesBackAs`).
-/
import Mathlib.Data.Option.Basic
import FrameworkAdmin.Proofs.Property.RoundTrip
import FrameworkAdmin.Proofs.SortedMap

namespace FrameworkAdmin

/-! ## 1. Tables to dictionaries -/

namespace Table

variable {t : Table} {p : Properties} {key : String}

theorem get?_eq_some_iff {row : Row} :
    t.get? key = some row ↔ t.cells.get? key = some row.toCells ∧ row.key = key := by
  obtain ⟨cells, rowKey⟩ := row
  simp only [get?, Option.map_eq_some_iff]
  constructor
  · rintro ⟨c, hc, hrow⟩
    cases hrow
    exact ⟨hc, rfl⟩
  · rintro ⟨hc, rfl⟩
    exact ⟨cells, hc, rfl⟩

/-- The rows of a table are what it has under their keys. -/
theorem mem_rows_iff {row : Row} : row ∈ t.rows ↔ t.get? row.key = some row := by
  rw [get?_eq_some_iff, SortedMap.get?_eq_some_iff, rows, List.mem_map]
  obtain ⟨cells, rowKey⟩ := row
  constructor
  · rintro ⟨e, he, hrow⟩
    cases hrow
    exact ⟨he, rfl⟩
  · rintro ⟨he, -⟩
    exact ⟨_, he, rfl⟩

/-- Under each key the dictionary has the value of the row. -/
theorem get?_of_toProperties (h : t.toProperties = .ok p) (key : String) :
    (t.get? key).map Row.toValue = (p.get? key).map Except.ok := by
  rw [← SortedMap.get?_of_traverse h key, get?, Option.map_map]
  rfl

theorem keys_of_toProperties (h : t.toProperties = .ok p) : p.keys = t.keys :=
  SortedMap.keys_of_traverse h

/-- **A table can be read exactly when each of its rows can.** -/
theorem exists_toProperties_iff :
    (∃ p, t.toProperties = .ok p) ↔ ∀ row ∈ t.rows, ∃ v, row.toValue = .ok v := by
  constructor
  · rintro ⟨p, hp⟩ row hrow
    have hget := get?_of_toProperties hp row.key
    rw [mem_rows_iff.1 hrow, Option.map_some] at hget
    obtain ⟨v, -, hv⟩ := Option.map_eq_some_iff.1 hget.symm
    exact ⟨v, hv.symm⟩
  · intro hrows
    cases hread : t.toProperties with
    | ok p => exact ⟨p, rfl⟩
    | error fault =>
      obtain ⟨key, cells, hget, hfault, -⟩ := SortedMap.traverse_eq_error_iff.1 hread
      obtain ⟨v, hv⟩ := hrows { cells with key } (mem_rows_iff.2 (get?_eq_some_iff.2 ⟨hget, rfl⟩))
      rw [hfault] at hv
      cases hv

/-! ## 2. Dictionaries to tables -/

theorem ofProperties_eq_ok_iff :
    ofProperties p = .ok t ↔
      (p.traverse fun key v => (Row.ofValue key v).map Row.toCells) = .ok t.cells := by
  obtain ⟨cells⟩ := t
  unfold ofProperties
  cases p.traverse fun key v => (Row.ofValue key v).map Row.toCells <;> simp

theorem keys_of_ofProperties (h : ofProperties p = .ok t) : t.keys = p.keys :=
  SortedMap.keys_of_traverse (ofProperties_eq_ok_iff.1 h)

/-- Under each key the table has the row of the value. -/
theorem get?_of_ofProperties (h : ofProperties p = .ok t) (key : String) :
    (p.get? key).map (Row.ofValue key) = (t.get? key).map Except.ok := by
  have hget := SortedMap.get?_of_traverse (ofProperties_eq_ok_iff.1 h) key
  rw [get?]
  cases hp : p.get? key with
  | none =>
    rw [hp, Option.map_none, eq_comm, Option.map_eq_none_iff] at hget
    rw [hget]
    rfl
  | some v =>
    rw [hp, Option.map_some, eq_comm, Option.map_eq_some_iff] at hget
    obtain ⟨cells, hcells, hrow⟩ := hget
    cases hv : Row.ofValue key v with
    | error fault =>
      rw [hv] at hrow
      cases hrow
    | ok row =>
      rw [hv] at hrow
      obtain ⟨text, tag, -, rfl⟩ := Row.ofValue_eq_ok_iff.1 hv
      rw [hcells, Except.ok.inj hrow, Option.map_some, Option.map_some, hv]
      rfl

end Table

/-! ## 3. There and back -/

/-- **A dictionary comes back as its values do**: with the same names, and under each of them what is read
from the row of the value. -/
theorem Properties.exists_read {R : Value → Value → Prop} {p : Properties}
    (h : ∀ name v, p.get? name = some v →
      ∃ row w, Row.ofValue name v = .ok row ∧ row.toValue = .ok w ∧ R v w) :
    ∃ t q, Table.ofProperties p = .ok t ∧ t.toProperties = .ok q ∧
      ∀ name, Option.Rel R (p.get? name) (q.get? name) := by
  obtain ⟨t, ht⟩ : ∃ t, Table.ofProperties p = .ok t := by
    cases hwrite : p.traverse fun key v => (Row.ofValue key v).map Row.toCells with
    | ok cells => exact ⟨⟨cells⟩, Table.ofProperties_eq_ok_iff.2 hwrite⟩
    | error fault =>
      obtain ⟨key, v, hget, hfault, -⟩ := SortedMap.traverse_eq_error_iff.1 hwrite
      obtain ⟨row, w, hrow, -⟩ := h key v hget
      rw [hrow] at hfault
      cases hfault
  -- what stands under one name, in the dictionary and in its table
  have hrow : ∀ key row, t.get? key = some row →
      ∃ v w, p.get? key = some v ∧ row.toValue = .ok w ∧ R v w := by
    intro key row hget
    have hwritten := Table.get?_of_ofProperties ht key
    rw [hget, Option.map_some, Option.map_eq_some_iff] at hwritten
    obtain ⟨v, hv, hofValue⟩ := hwritten
    obtain ⟨row', w, hrow', hw, hvw⟩ := h key v hv
    obtain rfl := Except.ok.inj (hofValue.symm.trans hrow')
    exact ⟨v, w, hv, hw, hvw⟩
  obtain ⟨q, hq⟩ : ∃ q, t.toProperties = .ok q := by
    refine Table.exists_toProperties_iff.2 fun row hmem => ?_
    obtain ⟨v, w, -, hw, -⟩ := hrow row.key row (Table.mem_rows_iff.1 hmem)
    exact ⟨w, hw⟩
  refine ⟨t, q, ht, hq, fun key => ?_⟩
  have hread := Table.get?_of_toProperties hq key
  cases hget : t.get? key with
  | none =>
    have hwritten := Table.get?_of_ofProperties ht key
    rw [hget, Option.map_none, Option.map_eq_none_iff] at hwritten
    rw [hget, Option.map_none, eq_comm, Option.map_eq_none_iff] at hread
    rw [hwritten, hread]
    exact .none
  | some row =>
    obtain ⟨v, w, hv, hw, hvw⟩ := hrow key row hget
    rw [hget, Option.map_some, hw, eq_comm, Option.map_eq_some_iff] at hread
    obtain ⟨w', hw', heq⟩ := hread
    rw [hv, hw', Except.ok.inj heq]
    exact .some hvw

/-! ## 4. Dictionaries out of a table -/

/-- The value is what some text means under some type. -/
def Value.Readable (v : Value) : Prop := ∃ type text, Value.read type text = .ok v

/-- All values of the dictionary can be read from a text. -/
def Properties.Readable (p : Properties) : Prop := ∀ name v, p.get? name = some v → v.Readable

/-- What comes back of a dictionary: the same names, and under each of them the value without its empty
strings. -/
def Properties.ComesBackAs (p q : Properties) : Prop :=
  ∀ name, Option.Rel (fun v w => v.withoutEmpty.Agrees w) (p.get? name) (q.get? name)

theorem Value.Readable.gives {v : Value} (h : v.Readable) : ∃ tag : Tag, tag.Gives v := by
  obtain ⟨type, text, hread⟩ := h
  unfold Value.read at hread
  split at hread
  · exact ⟨_, Tag.gives_of_readValue hread⟩
  · cases hread

/-- A value that was read can be written under any name, and is read again without its empty
strings. -/
theorem Value.Readable.carries {v : Value} (h : v.Readable) (key : String) :
    ∃ row w, Row.ofValue key v = .ok row ∧ row.toValue = .ok w ∧ v.withoutEmpty.Agrees w := by
  obtain ⟨tag, hgives⟩ := h.gives
  obtain ⟨type, w, ⟨row, hrow, -, -, hw⟩, -, -, hagrees, -⟩ := hgives.carries key
  exact ⟨row, w, hrow, hw, hagrees⟩

theorem Table.readable_of_toProperties {t : Table} {p : Properties} (h : t.toProperties = .ok p) :
    p.Readable := by
  intro name v hv
  have hget := get?_of_toProperties h name
  rw [hv, Option.map_some, Option.map_eq_some_iff] at hget
  obtain ⟨row, -, hread⟩ := hget
  exact ⟨row.type, row.value, hread⟩

namespace Properties.Readable

variable {p : Properties}

/-- **What was read from a table can be written to one.** -/
theorem exists_ofProperties (h : p.Readable) : ∃ t, Table.ofProperties p = .ok t := by
  obtain ⟨t, -, ht, -⟩ := exists_read fun name v hv => (h name v hv).carries name
  exact ⟨t, ht⟩

/-- **And is read from it again, without its empty strings.** -/
theorem comesBackAs (h : p.Readable) {t : Table} (ht : Table.ofProperties p = .ok t) :
    ∃ q, t.toProperties = .ok q ∧ p.ComesBackAs q := by
  obtain ⟨t', q, ht', hq, hback⟩ := exists_read fun name v hv => (h name v hv).carries name
  obtain rfl := Except.ok.inj (ht.symm.trans ht')
  exact ⟨q, hq, hback⟩

end Properties.Readable
end FrameworkAdmin
