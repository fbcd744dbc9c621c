/-
# Configurations that bear their pids

What is filed under a pid does not say under which: the pid is the key.  Here is the store of whole
configurations, which know their pids.  Its operations find a configuration by the key, as those of
`ConfigurationStore` do, and a configuration gets its pid when it is made.

`ConfigurationStore.named` goes from the one store to the other and commutes with each operation of the
store.  The requests of clients are made of these operations, whatever they are refused for, so every run
puts together a store of whole configurations, too (`recorded_after`), and in it each of them bears the pid
under which it is filed (`BuiltAlike.bearsNames`).
-/
import FrameworkAdmin.Proofs.Configuration.Effects
import FrameworkAdmin.Proofs.Named

namespace FrameworkAdmin

/-! ## 1. The store of whole configurations -/

/-- The dictionary that a filter is tested on, with the pid that the configuration bears. -/
def Configuration.viewOf (r : Named Configuration) : Properties := r.content.view r.name

/-- Whole configurations by pid. -/
structure NamedConfigurationStore where
  byPid : SortedMap String (Named Configuration)

namespace NamedConfigurationStore

instance : EmptyCollection NamedConfigurationStore := ⟨⟨∅⟩⟩

/-- The configuration under a pid, made on the spot if there is none. -/
def obtain (s : NamedConfigurationStore) (pid : String) (location : Option String) :
    Named Configuration × NamedConfigurationStore :=
  match s.byPid.get? pid with
  | some r => (r, s)
  | none => (⟨pid, .unset location⟩, ⟨s.byPid.insert pid ⟨pid, .unset location⟩⟩)

/-- Makes a configuration for a factory. -/
def createFactory (s : NamedConfigurationStore) (factoryPid suffix : String)
    (location : Option String) : Named Configuration × NamedConfigurationStore :=
  let pid := ConfigurationStore.factoryMadePid factoryPid suffix
  let r : Named Configuration := ⟨pid, some factoryPid, location, none⟩
  (r, ⟨s.byPid.insert pid r⟩)

/-- Changes the configuration under a pid, its own pid included. -/
def modify (s : NamedConfigurationStore) (pid : String)
    (f : Named Configuration → Named Configuration) : Except Refusal NamedConfigurationStore :=
  match s.byPid.get? pid with
  | some r => .ok ⟨s.byPid.insert pid (f r)⟩
  | none => .error (.configurationNotFound pid)

/-- Removes the configuration under a pid and tells whether there was one. -/
def delete (s : NamedConfigurationStore) (pid : String) : Bool × NamedConfigurationStore :=
  (s.byPid.contains pid, ⟨s.byPid.erase pid⟩)

end NamedConfigurationStore

namespace ConfigurationStore

/-! ## 2. One operation -/

/-- The store of the whole configurations. -/
def named (s : ConfigurationStore) : NamedConfigurationStore := ⟨s.byPid.named⟩

theorem named_put (s : ConfigurationStore) (pid : String) (c : Configuration) :
    (s.put pid c).named = ⟨s.named.byPid.insert pid ⟨pid, c⟩⟩ := by
  rw [named, put, SortedMap.named_insert]
  rfl

theorem get?_named (s : ConfigurationStore) (pid : String) :
    s.named.byPid.get? pid = (s.get? pid).map fun c => ⟨pid, c⟩ :=
  s.byPid.get?_named pid

theorem named_obtain (s : ConfigurationStore) (pid : String) (location : Option String) :
    s.named.obtain pid location =
      (⟨pid, (s.obtain pid location).1⟩, (s.obtain pid location).2.named) := by
  rw [NamedConfigurationStore.obtain, get?_named]
  cases hget : s.get? pid with
  | none =>
    rw [obtain_of_none hget, named_put]
    rfl
  | some c =>
    rw [obtain_of_some hget]
    rfl

theorem named_createFactory (s : ConfigurationStore) (factoryPid suffix : String)
    (location : Option String) :
    s.named.createFactory factoryPid suffix location =
      (⟨(s.createFactory factoryPid suffix location).1, some factoryPid, location, none⟩,
        (s.createFactory factoryPid suffix location).2.named) := by
  rw [createFactory, named_put]
  rfl

theorem named_modify (s : ConfigurationStore) (pid : String) (f : Configuration → Configuration) :
    s.named.modify pid (Named.change f) = (s.modify pid f).map named := by
  rw [NamedConfigurationStore.modify, modify, get?_named]
  cases s.get? pid with
  | none => rfl
  | some c => exact congrArg Except.ok (named_put s pid (f c)).symm

theorem named_delete (s : ConfigurationStore) (pid : String) :
    s.named.delete pid = ((s.delete pid).1, (s.delete pid).2.named) := by
  rw [NamedConfigurationStore.delete, delete, named, named, SortedMap.contains_named,
    SortedMap.named_erase]

/-! ## 3. Runs of operations -/

/-- The store of whole configurations has been put together by the same operations.  They change what
configurations are, and not their pids. -/
inductive BuiltAlike : ConfigurationStore → NamedConfigurationStore → Prop
  | empty : BuiltAlike ∅ ∅
  | obtain {s : ConfigurationStore} {records : NamedConfigurationStore} (h : BuiltAlike s records)
      (pid : String) (location : Option String) :
      BuiltAlike (s.obtain pid location).2 (records.obtain pid location).2
  | createFactory {s : ConfigurationStore} {records : NamedConfigurationStore}
      (h : BuiltAlike s records) (factoryPid suffix : String) (location : Option String) :
      BuiltAlike (s.createFactory factoryPid suffix location).2
        (records.createFactory factoryPid suffix location).2
  | modify {s t : ConfigurationStore} {records records' : NamedConfigurationStore}
      (h : BuiltAlike s records) {pid : String} {f : Configuration → Configuration}
      (ht : s.modify pid f = .ok t)
      (hrecords : records.modify pid (Named.change f) = .ok records') : BuiltAlike t records'
  | delete {s : ConfigurationStore} {records : NamedConfigurationStore} (h : BuiltAlike s records)
      (pid : String) : BuiltAlike (s.delete pid).2 (records.delete pid).2

variable {s t : ConfigurationStore} {records : NamedConfigurationStore} {pid : String}

theorem BuiltAlike.eq_named (h : BuiltAlike s records) : records = s.named := by
  induction h with
  | empty => rfl
  | obtain _ pid location ih => rw [ih, named_obtain]
  | createFactory _ factoryPid suffix location ih => rw [ih, named_createFactory]
  | modify _ ht hrecords ih =>
    rw [ih, named_modify, ht] at hrecords
    exact (Except.ok.inj hrecords).symm
  | delete _ pid ih => rw [ih, named_delete]

/-- **However the stores are put together, each configuration bears the pid under which it is filed.** -/
theorem BuiltAlike.bearsNames (h : BuiltAlike s records) : s.byPid.BearsNames records.byPid := by
  rw [h.eq_named]
  exact s.byPid.bearsNames_named

/-! ## 4. Requests -/

/-- Some store of whole configurations is put together by the operations that have made this one. -/
def Recorded (s : ConfigurationStore) : Prop := ∃ records, BuiltAlike s records

theorem Recorded.obtain (h : s.Recorded) (pid : String) (location : Option String) :
    (s.obtain pid location).2.Recorded := by
  obtain ⟨records, hs⟩ := h
  exact ⟨_, hs.obtain pid location⟩

theorem Recorded.modify (h : s.Recorded) {f : Configuration → Configuration}
    (ht : s.modify pid f = .ok t) : t.Recorded := by
  obtain ⟨records, hs⟩ := h
  -- what can be changed here can be changed there
  refine ⟨t.named, hs.modify ht ?_⟩
  rw [hs.eq_named, named_modify, ht]
  rfl

theorem Recorded.delete (h : s.Recorded) (pid : String) : (s.delete pid).2.Recorded := by
  obtain ⟨records, hs⟩ := h
  exact ⟨_, hs.delete pid⟩

/-- Asking for a configuration and changing it are two operations. -/
theorem Recorded.put_obtain (h : s.Recorded) (pid : String) (location : Option String)
    (f : Configuration → Configuration) :
    ((s.obtain pid location).2.put pid (f (s.obtain pid location).1)).Recorded :=
  (h.obtain pid location).modify (s.modify_obtain pid location f)

theorem Recorded.changeEach (h : s.Recorded) (f : Option Properties → Option Properties)
    (listing : List (String × Configuration)) : (changeEach f listing s).2.Recorded := by
  induction listing generalizing s with
  | nil => exact h
  | cons head rest ih =>
    rw [ConfigurationStore.changeEach]
    split
    · rename_i ht
      exact ih (h.modify ht)
    · exact h

theorem Recorded.deleteEach (h : s.Recorded) (listing : List (String × Configuration)) :
    (deleteEach listing s).2.Recorded := by
  induction listing generalizing s with
  | nil => exact h
  | cons head rest ih => exact ih (h.delete head.1)

/-- **Each request is made of operations of the store.** -/
theorem Recorded.run (h : s.Recorded) (r : Request) : (r.run s).2.Recorded := by
  cases r with
  | addProperty pid location name text type =>
    rw [Request.run, reply_snd]
    cases hvalue : Value.read type text with
    | error fault =>
      rw [addProperty, hvalue]
      exact h
    | ok v =>
      rw [addProperty_eq s pid location name hvalue]
      exact h.put_obtain pid location _
  | addPropertyToSelected filter name text type =>
    rw [Request.run, reply_snd, addPropertyToSelected]
    split
    · exact h
    · rename_i v _
      split
      · exact h
      · rename_i f _
        have heach := h.changeEach (withProperty name v) (s.list (some f))
        dsimp only
        -- the store is that of the changes, whatever they answer
        generalize ConfigurationStore.changeEach (withProperty name v) (s.list (some f)) s = outcome
          at heach ⊢
        obtain ⟨refusal | done, t⟩ := outcome
        · exact heach
        · exact heach
  | createFactory factoryPid suffix location =>
    obtain ⟨records, hs⟩ := h
    exact ⟨_, hs.createFactory factoryPid suffix location⟩
  | discard pid location => exact (h.obtain pid location).delete pid
  | deleteSelected filter =>
    rw [Request.run, reply_snd, deleteSelected]
    split
    · exact h
    · exact h.deleteEach _
  | deleteProperty pid location name =>
    rw [Request.run, reply_snd, deleteProperty, changeProperties_eq]
    exact h.put_obtain pid location _
  | deletePropertyFromSelected filter name =>
    rw [Request.run, reply_snd, deletePropertyFromSelected]
    split
    · exact h
    · exact h.changeEach _ _
  | locationOf pid => exact h.obtain pid none
  | factoryPidOf pid location => exact h.obtain pid location
  | propertiesOf pid location =>
    rw [Request.run, reply_snd, propertiesOf_snd]
    exact h.obtain pid location
  | listLocations filter =>
    rw [Request.run]
    split
    · exact h
    · exact h
  | bind pid location =>
    rw [Request.run, reply_snd, bind_eq]
    exact h.put_obtain pid none fun c => { c with location }
  | update pid location table =>
    rw [Request.run, reply_snd]
    cases htable : table.toProperties with
    | error fault =>
      rw [updateFromTable, htable]
      exact h
    | ok p =>
      rw [updateFromTable_eq s pid location htable]
      exact h.put_obtain pid location _

theorem Recorded.after (h : s.Recorded) (requests : List Request) : (s.after requests).Recorded := by
  induction requests generalizing s with
  | nil => exact h
  | cons r rest ih => exact ih (h.run r)

/-- **A run puts together a store of whole configurations, too.** -/
theorem recorded_after (requests : List Request) :
    ((∅ : ConfigurationStore).after requests).Recorded :=
  Recorded.after ⟨∅, .empty⟩ requests

end ConfigurationStore

end FrameworkAdmin
