/-
# The configuration store

A configuration is filed under its pid.  It remembers the factory that it was made for, if any,
the location of the bundle that it is bound to, if any, and its properties, which are absent
until it is first updated.

Configurations come into being when they are asked for: `obtain` gives the one under a pid and
makes an unbound or bound one if there is none.  A factory makes a configuration under a pid of
its own, the factory's pid and a suffix that has not been used before; the suffix is an argument
here, because nothing in the store depends on how it was chosen.

Listings show only configurations with properties, and a filter sees each of them through its
`view`: its properties, and its identity under three reserved names.  A property that is spelled like
one of them gives way to it.
-/
import FrameworkAdmin.Filter.Matching
import FrameworkAdmin.Refusal

namespace FrameworkAdmin

/-! ## 1. Configurations -/

/-- What is filed under a pid. -/
structure Configuration where
  factoryPid : Option String
  location : Option String
  properties : Option Properties

namespace Configuration

/-- The attribute that carries the pid. -/
def pidAttribute : String := "service.pid"

/-- The attribute that carries the pid of the factory. -/
def factoryPidAttribute : String := "service.factoryPid"

/-- The attribute that carries the location of the bundle. -/
def locationAttribute : String := "service.bundleLocation"

/-- A configuration that has never been updated. -/
def unset (location : Option String) : Configuration := ⟨none, location, none⟩

/-- The dictionary that a filter is tested on. -/
def view (pid : String) (c : Configuration) : Properties :=
  let own := (c.properties.getD ∅).insert pidAttribute (.ofString pid)
  let own :=
    match c.factoryPid with
    | some factoryPid => own.insert factoryPidAttribute (.ofString factoryPid)
    | none => own
  match c.location with
  | some location => own.insert locationAttribute (.ofString location)
  | none => own

/-- The configuration is listed: it has properties and the filter, if there is one, selects
it. -/
def listed (filter : Option Filter) (pid : String) (c : Configuration) : Bool :=
  c.properties.isSome &&
    match filter with
    | some f => f.selects (c.view pid)
    | none => true

end Configuration

/-! ## 2. The store -/

/-- The configurations by pid. -/
structure ConfigurationStore where
  byPid : SortedMap String Configuration

namespace ConfigurationStore

instance : EmptyCollection ConfigurationStore := ⟨⟨∅⟩⟩
instance : Inhabited ConfigurationStore := ⟨∅⟩

/-- The configuration under a pid. -/
def get? (s : ConfigurationStore) (pid : String) : Option Configuration := s.byPid.get? pid

/-- The number of configurations, listed or not. -/
def size (s : ConfigurationStore) : Nat := s.byPid.size

/-- There are no configurations. -/
def isEmpty (s : ConfigurationStore) : Bool := s.byPid.isEmpty

/-- The store with a configuration under a pid. -/
def put (s : ConfigurationStore) (pid : String) (c : Configuration) : ConfigurationStore :=
  ⟨s.byPid.insert pid c⟩

/-- The configuration under a pid, made on the spot if there is none.  The location counts only
when it is made. -/
def obtain (s : ConfigurationStore) (pid : String) (location : Option String) :
    Configuration × ConfigurationStore :=
  match s.get? pid with
  | some c => (c, s)
  | none => (.unset location, s.put pid (.unset location))

/-- The pid of a configuration made by a factory. -/
def factoryMadePid (factoryPid suffix : String) : String := factoryPid ++ "." ++ suffix

/-- Makes a configuration for a factory and gives its pid. -/
def createFactory (s : ConfigurationStore) (factoryPid suffix : String)
    (location : Option String) : String × ConfigurationStore :=
  let pid := factoryMadePid factoryPid suffix
  (pid, s.put pid ⟨some factoryPid, location, none⟩)

/-- Changes the configuration under a pid, which must exist. -/
def modify (s : ConfigurationStore) (pid : String) (f : Configuration → Configuration) :
    Except Refusal ConfigurationStore :=
  match s.get? pid with
  | some c => .ok (s.put pid (f c))
  | none => .error (.configurationNotFound pid)

/-- Replaces the properties of an existing configuration. -/
def update (s : ConfigurationStore) (pid : String) (p : Properties) :
    Except Refusal ConfigurationStore :=
  s.modify pid fun c => { c with properties := some p }

/-- Changes the properties of an existing configuration. -/
def modifyProperties (s : ConfigurationStore) (pid : String)
    (f : Option Properties → Option Properties) : Except Refusal ConfigurationStore :=
  s.modify pid fun c => { c with properties := f c.properties }

/-- Binds an existing configuration to a location, or unbinds it. -/
def setLocation (s : ConfigurationStore) (pid : String) (location : Option String) :
    Except Refusal ConfigurationStore :=
  s.modify pid fun c => { c with location }

/-- Removes the configuration under a pid and tells whether there was one. -/
def delete (s : ConfigurationStore) (pid : String) : Bool × ConfigurationStore :=
  (s.byPid.contains pid, ⟨s.byPid.erase pid⟩)

/-- The listed configurations with their pids, by pid. -/
def list (s : ConfigurationStore) (filter : Option Filter) : List (String × Configuration) :=
  (s.byPid.filter (Configuration.listed filter)).entries

/-! ## 3. The view -/

theorem get?_put (s : ConfigurationStore) (pid : String) (c : Configuration) (x : String) :
    (s.put pid c).get? x = if x = pid then some c else s.get? x := by
  simp [get?, put, SortedMap.get?_insert]

/-- Asking for a configuration that exists changes nothing. -/
theorem obtain_of_some {s : ConfigurationStore} {pid : String} {c : Configuration}
    (h : s.get? pid = some c) (location : Option String) : s.obtain pid location = (c, s) := by
  rw [obtain, h]

/-- Asking for a configuration that does not exist makes one. -/
theorem obtain_of_none {s : ConfigurationStore} {pid : String} (h : s.get? pid = none)
    (location : Option String) :
    s.obtain pid location = (.unset location, s.put pid (.unset location)) := by
  rw [obtain, h]

/-- Whoever asks for a configuration finds it in the store afterwards. -/
theorem get?_obtain (s : ConfigurationStore) (pid : String) (location : Option String) :
    (s.obtain pid location).2.get? pid = some (s.obtain pid location).1 := by
  cases h : s.get? pid with
  | none => rw [obtain_of_none h, get?_put, if_pos rfl]
  | some c => rw [obtain_of_some h, h]

theorem modify_of_some {s : ConfigurationStore} {pid : String} {c : Configuration}
    (h : s.get? pid = some c) (f : Configuration → Configuration) :
    s.modify pid f = .ok (s.put pid (f c)) := by
  rw [modify, h]

theorem get?_delete (s : ConfigurationStore) (pid x : String) :
    (s.delete pid).2.get? x = if x = pid then none else s.get? x := by
  rw [get?, delete, SortedMap.get?_erase]
  by_cases hx : x = pid
  · simp [hx]
  · simp [get?, hx, Ne.symm hx]

/-- What is listed is filed under its pid, has properties and is selected. -/
theorem mem_list_iff {s : ConfigurationStore} {filter : Option Filter} {pid : String}
    {c : Configuration} :
    (pid, c) ∈ s.list filter ↔ s.get? pid = some c ∧ c.listed filter pid = true := by
  rw [list, ← SortedMap.get?_eq_some_iff, SortedMap.get?_filter_eq_some_iff, get?]

end ConfigurationStore

end FrameworkAdmin
