/-
# A refused operation has no effect

Every management operation on configurations can make a configuration on the way, and some change
several.  A refusal must leave no trace of that.  The reasons why none does differ:

* Values, tables and filters are read before the store is touched.
* What comes after that cannot fail: a configuration that was asked for is there, and so are all that a
  filter has listed.  So no operation ever complains that a configuration does not exist.
* `propertiesOf` is the one operation that asks for a configuration first and can fail then, on a
  dictionary that has no table.  But a configuration that was made by asking has no properties at all.

`Atomic` is what is claimed of a single outcome.
-/
import FrameworkAdmin.Proofs.Configuration.Effects
import FrameworkAdmin.Proofs.Refusal

namespace FrameworkAdmin
namespace ConfigurationStore

variable {α : Type} {s : ConfigurationStore}

/-! ## 1. Outcomes -/

/-- A refusal concerns a text that was given or stored, and leaves the store as it was. -/
def Atomic (s : ConfigurationStore) (o : Outcome ConfigurationStore α) : Prop :=
  ∀ refusal t, o = (.error refusal, t) →
    t = s ∧ ((∃ fault, refusal = .codec fault) ∨ ∃ fault, refusal = .filter fault)

theorem atomic_ok (a : α) (t : ConfigurationStore) : s.Atomic (.ok a, t) := by
  intro refusal u h
  cases h

theorem atomic_codec (fault : Fault) : s.Atomic ((.error (.codec fault), s) : Outcome _ α) := by
  intro refusal t h
  cases h
  exact ⟨rfl, Or.inl ⟨fault, rfl⟩⟩

theorem atomic_filter (fault : Filter.SyntaxFault) :
    s.Atomic ((.error (.filter fault), s) : Outcome _ α) := by
  intro refusal t h
  cases h
  exact ⟨rfl, Or.inr ⟨fault, rfl⟩⟩

theorem Atomic.reply {f : α → Reply} {o : Outcome ConfigurationStore α} (h : s.Atomic o) :
    s.Atomic (reply f o) := by
  obtain ⟨a | r, t⟩ := o
  · intro refusal u heq
    cases heq
    exact h _ _ rfl
  · exact atomic_ok _ _

/-! ## 2. Operations -/

theorem atomic_changeProperties (s : ConfigurationStore) (pid : String) (location : Option String)
    (f : Option Properties → Option Properties) : s.Atomic (s.changeProperties pid location f) := by
  rw [changeProperties_eq]
  exact atomic_ok _ _

theorem atomic_addProperty (s : ConfigurationStore) (pid : String) (location : Option String)
    (name text type : String) : s.Atomic (s.addProperty pid location name text type) := by
  unfold addProperty
  split
  · exact atomic_codec _
  · exact atomic_changeProperties _ _ _ _

theorem atomic_updateFromTable (s : ConfigurationStore) (pid : String) (location : Option String)
    (table : Table) : s.Atomic (s.updateFromTable pid location table) := by
  cases hread : table.toProperties with
  | error fault =>
    rw [updateFromTable, hread]
    exact atomic_codec _
  | ok p =>
    rw [updateFromTable_eq s pid location hread]
    exact atomic_ok _ _

theorem atomic_bind (s : ConfigurationStore) (pid : String) (location : Option String) :
    s.Atomic (s.bind pid location) := by
  rw [bind_eq]
  exact atomic_ok _ _

theorem atomic_propertiesOf (s : ConfigurationStore) (pid : String) (location : Option String) :
    s.Atomic (s.propertiesOf pid location) := by
  unfold propertiesOf
  cases hget : s.get? pid with
  | none =>
    rw [obtain_of_none hget]
    exact atomic_ok _ _
  | some c =>
    rw [obtain_of_some hget]
    dsimp only
    split
    · exact atomic_ok _ _
    · split
      · exact atomic_ok _ _
      · exact atomic_codec _

theorem atomic_addPropertyToSelected (s : ConfigurationStore) (filter name text type : String) :
    s.Atomic (s.addPropertyToSelected filter name text type) := by
  cases hvalue : Value.read type text with
  | error fault =>
    simp only [addPropertyToSelected, hvalue]
    exact atomic_codec _
  | ok v =>
    cases hfilter : Refusal.readFilter filter with
    | error refusal =>
      obtain ⟨fault, rfl⟩ := Refusal.eq_filter_of_readFilter hfilter
      simp only [addPropertyToSelected, hvalue, hfilter]
      exact atomic_filter _
    | ok f =>
      obtain ⟨t, ht, -⟩ := addPropertyToSelected_spec hvalue hfilter
      rw [ht]
      exact atomic_ok _ _

theorem atomic_deletePropertyFromSelected (s : ConfigurationStore) (filter name : String) :
    s.Atomic (s.deletePropertyFromSelected filter name) := by
  cases hfilter : Refusal.readFilter filter with
  | error refusal =>
    obtain ⟨fault, rfl⟩ := Refusal.eq_filter_of_readFilter hfilter
    simp only [deletePropertyFromSelected, hfilter]
    exact atomic_filter _
  | ok f =>
    obtain ⟨t, ht, -⟩ := deletePropertyFromSelected_spec hfilter
    rw [ht]
    exact atomic_ok _ _

theorem atomic_deleteSelected (s : ConfigurationStore) (filter : String) :
    s.Atomic (s.deleteSelected filter) := by
  cases hfilter : Refusal.readFilter filter with
  | error refusal =>
    obtain ⟨fault, rfl⟩ := Refusal.eq_filter_of_readFilter hfilter
    simp only [deleteSelected, hfilter]
    exact atomic_filter _
  | ok f =>
    obtain ⟨t, ht, -⟩ := deleteSelected_spec hfilter
    rw [ht]
    exact atomic_ok _ _

theorem atomic_run (s : ConfigurationStore) (r : Request) : s.Atomic (r.run s) := by
  cases r with
  | addProperty pid location name text type => exact (s.atomic_addProperty _ _ _ _ _).reply
  | addPropertyToSelected filter name text type =>
    exact (s.atomic_addPropertyToSelected _ _ _ _).reply
  | createFactory factoryPid suffix location => exact atomic_ok _ _
  | discard pid location => exact atomic_ok _ _
  | deleteSelected filter => exact (s.atomic_deleteSelected _).reply
  | deleteProperty pid location name => exact (s.atomic_changeProperties _ _ _).reply
  | deletePropertyFromSelected filter name => exact (s.atomic_deletePropertyFromSelected _ _).reply
  | locationOf pid => exact atomic_ok _ _
  | factoryPidOf pid location => exact atomic_ok _ _
  | propertiesOf pid location => exact (s.atomic_propertiesOf _ _).reply
  | listLocations filter =>
    rw [Request.run, listLocations]
    cases hfilter : Refusal.readFilter? filter with
    | error refusal =>
      obtain ⟨fault, rfl⟩ := Refusal.eq_filter_of_readFilter? hfilter
      exact atomic_filter _
    | ok f => exact atomic_ok _ _
  | bind pid location => exact (s.atomic_bind _ _).reply
  | update pid location table => exact (s.atomic_updateFromTable _ _ _).reply

/-! ## 3. Refusals -/

/-- **A refused operation leaves the store as it was, and the fault is in a text.**  In particular none
is refused because a configuration does not exist.  Where the value of a property and the filter are
both faulty, the value is complained about. -/
theorem run_refused (s : ConfigurationStore) (r : Request) :
    (∀ refusal t, r.run s = (.error refusal, t) →
      t = s ∧ ((∃ fault, refusal = .codec fault) ∨ ∃ fault, refusal = .filter fault) ∧
        ∀ pid, refusal ≠ .configurationNotFound pid) ∧
    ∀ filter name text type fault, Value.read type text = .error fault →
      (Request.addPropertyToSelected filter name text type).run s = (.error (.codec fault), s) := by
  constructor
  · intro refusal t h
    obtain ⟨hsame, htext⟩ := s.atomic_run r refusal t h
    refine ⟨hsame, htext, ?_⟩
    rintro pid rfl
    rcases htext with ⟨fault, heq⟩ | ⟨fault, heq⟩ <;> cases heq
  · intro filter name text type fault hvalue
    simp only [Request.run, addPropertyToSelected, hvalue, reply]

end ConfigurationStore
end FrameworkAdmin
