/-
# What is written can be read back

Values enter the store as texts and leave it as texts.  That a configuration can be read at all is not a
matter of course: a host may put values in it that no table can express.  Management operations cannot,
since they put nothing in the store that did not come from a text, so every store that they reach can be
read in all its parts.

After an update the table that is read is the one that was given, with every value in its normal form,
and under the same keys.  Where a table was read and is written back to its configuration, the dictionary
stays what it was, up to the empty strings in its lists.

`tables_read_back` says all of this.
-/
import FrameworkAdmin.Proofs.Configuration.Provenance

namespace FrameworkAdmin
namespace ConfigurationStore

variable {s t : ConfigurationStore} {pid : String} {c : Configuration} {p : Properties}

/-! ## 1. Reading -/

/-- A configuration that is not there is made, and has no table. -/
theorem propertiesOf_of_absent (hget : s.get? pid = none) (location : Option String) :
    s.propertiesOf pid location = (.ok none, s.put pid (.unset location)) := by
  simp only [propertiesOf, obtain_of_none hget, Configuration.unset]

/-- A configuration that was never updated has no table. -/
theorem propertiesOf_of_none (hget : s.get? pid = some c) (hp : c.properties = none)
    (location : Option String) : s.propertiesOf pid location = (.ok none, s) := by
  simp only [propertiesOf, obtain_of_some hget, hp]

/-- Any other has the table of its properties, if there is one. -/
theorem propertiesOf_of_some (hget : s.get? pid = some c) (hp : c.properties = some p)
    (location : Option String) :
    s.propertiesOf pid location = ((Table.ofProperties p).mapError .codec |>.map some, s) := by
  simp only [propertiesOf, obtain_of_some hget, hp]
  cases Table.ofProperties p <;> rfl

/-- The answer depends on nothing but the configuration. -/
theorem propertiesOf_fst_congr (h : s.get? pid = t.get? pid) (location : Option String) :
    (s.propertiesOf pid location).1 = (t.propertiesOf pid location).1 := by
  cases hget : s.get? pid with
  | none => rw [propertiesOf_of_absent hget, propertiesOf_of_absent (h ▸ hget)]
  | some c =>
    cases hp : c.properties with
    | none => rw [propertiesOf_of_none hget hp, propertiesOf_of_none (h ▸ hget) hp]
    | some p => rw [propertiesOf_of_some hget hp, propertiesOf_of_some (h ▸ hget) hp]

/-- **In a store that was reached every configuration can be read.** -/
theorem Reached.propertiesOf_ok (hs : s.Reached) (pid : String) (location : Option String) :
    ∃ answer, (s.propertiesOf pid location).1 = .ok answer := by
  cases hget : s.get? pid with
  | none => exact ⟨none, by rw [propertiesOf_of_absent hget]⟩
  | some c =>
    cases hp : c.properties with
    | none => exact ⟨none, by rw [propertiesOf_of_none hget hp]⟩
    | some p =>
      obtain ⟨table, htable⟩ := (hs.readable hget hp).exists_ofProperties
      refine ⟨some table, ?_⟩
      rw [propertiesOf_of_some hget hp, htable]
      rfl

/-- A table that was read is the one of the properties, and reading it has changed nothing. -/
theorem exists_of_propertiesOf {location : Option String} {table : Table}
    (h : s.propertiesOf pid location = (.ok (some table), t)) :
    ∃ c p, s.get? pid = some c ∧ c.properties = some p ∧ Table.ofProperties p = .ok table ∧
      t = s := by
  cases hget : s.get? pid with
  | none =>
    rw [propertiesOf_of_absent hget] at h
    cases h
  | some c =>
    cases hp : c.properties with
    | none =>
      rw [propertiesOf_of_none hget hp] at h
      cases h
    | some p =>
      rw [propertiesOf_of_some hget hp] at h
      refine ⟨c, p, rfl, hp, ?_⟩
      cases htable : Table.ofProperties p with
      | error fault =>
        rw [htable] at h
        cases h
      | ok written =>
        rw [htable] at h
        cases h
        exact ⟨rfl, rfl⟩

/-! ## 2. Writing -/

/-- An update is carried out exactly when every row of its table can be read. -/
theorem exists_updateFromTable_iff (s : ConfigurationStore) (pid : String) (location : Option String)
    (table : Table) :
    (∃ t, s.updateFromTable pid location table = (.ok (), t)) ↔
      ∀ row ∈ table.rows, ∃ v, row.toValue = .ok v := by
  rw [← Table.exists_toProperties_iff]
  constructor
  · rintro ⟨t, ht⟩
    cases hread : table.toProperties with
    | ok p => exact ⟨p, rfl⟩
    | error fault => simp [updateFromTable, hread] at ht
  · rintro ⟨p, hp⟩
    exact ⟨_, updateFromTable_eq s pid location hp⟩

/-- What it leaves behind: the dictionary of the table, and everything else as it was. -/
theorem get?_of_updateFromTable {location : Option String} {table : Table}
    (h : s.updateFromTable pid location table = (.ok (), t)) :
    ∃ p, table.toProperties = .ok p ∧ ∀ x, t.get? x =
      if x = pid then some { (s.get? x).getD (.unset location) with properties := some p }
      else s.get? x := by
  cases hread : table.toProperties with
  | error fault => simp [updateFromTable, hread] at h
  | ok p =>
    rw [updateFromTable_eq s pid location hread] at h
    cases h
    exact ⟨p, rfl, s.get?_put_obtain pid location _⟩

/-- **After an update the table that is read has the same keys, and the values that were given.** -/
theorem propertiesOf_of_updateFromTable {location : Option String} {table : Table}
    (h : s.updateFromTable pid location table = (.ok (), t)) :
    ∃ p written, table.toProperties = .ok p ∧ Table.ofProperties p = .ok written ∧
      written.keys = table.keys ∧ ∀ l, t.propertiesOf pid l = (.ok (some written), t) := by
  obtain ⟨p, hp, hview⟩ := get?_of_updateFromTable h
  obtain ⟨written, hwritten⟩ := (Table.readable_of_toProperties hp).exists_ofProperties
  have hkeys : written.keys = table.keys := by
    rw [Table.keys_of_ofProperties hwritten, Table.keys_of_toProperties hp]
  refine ⟨p, written, hp, hwritten, hkeys, fun l => ?_⟩
  have hself := hview pid
  rw [if_pos rfl] at hself
  rw [propertiesOf_of_some hself rfl, hwritten]
  rfl

/-! ## 3. Reading and writing back -/

/-- **A table that is written back to its configuration leaves the dictionary as it was**, without the
empty strings in its lists, and nothing else changes. -/
theorem Reached.updateFromTable_of_propertiesOf (hs : s.Reached) {location : Option String}
    {table : Table} (h : s.propertiesOf pid location = (.ok (some table), t)) (l : Option String) :
    ∃ c p q u, s.get? pid = some c ∧ c.properties = some p ∧
      t.updateFromTable pid l table = (.ok (), u) ∧
      u.get? pid = some { c with properties := some q } ∧ p.ComesBackAs q ∧
      ∀ other, other ≠ pid → u.get? other = s.get? other := by
  obtain ⟨c, p, hget, hp, htable, rfl⟩ := exists_of_propertiesOf h
  obtain ⟨q, hq, hback⟩ := (hs.readable hget hp).comesBackAs htable
  have hupdate := updateFromTable_eq t pid l hq
  obtain ⟨q', hq', hview⟩ := get?_of_updateFromTable hupdate
  obtain rfl := Except.ok.inj (hq.symm.trans hq')
  refine ⟨c, p, q, _, hget, hp, hupdate, ?_, hback, fun other hother => ?_⟩
  · rw [hview, if_pos rfl, hget]
    rfl
  · rw [hview, if_neg hother]

/-- **What is written is read back.**

* In a store that operations have reached no configuration is refused to be read.
* In any store an update is carried out exactly when every row of its table can be read.  The
  configuration then has the table of the dictionary that was given, which has the same keys, and every
  other configuration is what it was.
* In a store that operations have reached, a table that was read can be written back to its
  configuration, and leaves its dictionary as it was but for the empty strings in lists. -/
theorem tables_read_back :
    (∀ s : ConfigurationStore, s.Reached → ∀ pid location,
      ∃ answer, (s.propertiesOf pid location).1 = .ok answer) ∧
    (∀ (s : ConfigurationStore) pid location table,
      ((∃ t, s.updateFromTable pid location table = (.ok (), t)) ↔
        ∀ row ∈ table.rows, ∃ v, row.toValue = .ok v) ∧
      ∀ t, s.updateFromTable pid location table = (.ok (), t) →
        (∃ p written, table.toProperties = .ok p ∧ Table.ofProperties p = .ok written ∧
          written.keys = table.keys ∧ ∀ l, t.propertiesOf pid l = (.ok (some written), t)) ∧
        ∀ other, other ≠ pid → t.get? other = s.get? other ∧
          ∀ l, (t.propertiesOf other l).1 = (s.propertiesOf other l).1) ∧
    ∀ s : ConfigurationStore, s.Reached → ∀ pid location table t,
      s.propertiesOf pid location = (.ok (some table), t) → ∀ l,
        ∃ c p q u, s.get? pid = some c ∧ c.properties = some p ∧
          t.updateFromTable pid l table = (.ok (), u) ∧
          u.get? pid = some { c with properties := some q } ∧ p.ComesBackAs q ∧
          ∀ other, other ≠ pid → u.get? other = s.get? other := by
  refine ⟨fun s hs => hs.propertiesOf_ok, fun s pid location table => ⟨?_, fun t ht => ⟨?_, ?_⟩⟩, ?_⟩
  · exact s.exists_updateFromTable_iff pid location table
  · exact propertiesOf_of_updateFromTable ht
  · intro other hother
    obtain ⟨p, -, hview⟩ := get?_of_updateFromTable ht
    have hsame : t.get? other = s.get? other := by
      rw [hview, if_neg hother]
    exact ⟨hsame, propertiesOf_fst_congr hsame⟩
  · intro s hs pid location table t ht l
    exact hs.updateFromTable_of_propertiesOf ht l

/-- A configuration whose names have an empty string among them. -/
def gapped : ConfigurationStore :=
  (∅ : ConfigurationStore).after [
    .addProperty "a" (some "file:a") "names" "x, ,y" "Array of String",
    .addProperty "a" none "free" "" "Vector of Long"]

theorem tables_read_back_gapped :
    gapped.Reached ∧ (∃ answer, (gapped.propertiesOf "b" none).1 = .ok answer) ∧
      ∃ table t c p q u, gapped.propertiesOf "a" none = (.ok (some table), t) ∧
        gapped.get? "a" = some c ∧ c.properties = some p ∧
        t.updateFromTable "a" none table = (.ok (), u) ∧
        u.get? "a" = some { c with properties := some q } ∧ p.ComesBackAs q ∧
        ∀ l, (u.propertiesOf "b" l).1 = (t.propertiesOf "b" l).1 := by
  have hreached : gapped.Reached := ⟨_, rfl⟩
  obtain ⟨hread, hupdate, hback⟩ := tables_read_back
  obtain ⟨c, p, q, u, hget, hp, hu, hq, hcomes, -⟩ := hback gapped hreached "a" none _ _ rfl none
  obtain ⟨-, hframe⟩ := (hupdate _ "a" none _).2 u hu
  exact ⟨hreached, hread gapped hreached "b" none, _, _, c, p, q, u, rfl, hget, hp, hu, hq, hcomes,
    (hframe "b" (by decide)).2⟩

end ConfigurationStore
end FrameworkAdmin
