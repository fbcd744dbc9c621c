/-
# Managing configurations

The operations that a management client has on the configuration store.  Values come in as text
with a type, whole dictionaries as tables, and selections as filters.

Every argument that can be malformed is read before the store is touched, so an operation that
is refused has no effect.  Operations that name a pid make its configuration if it does not
exist, even those that only look at it; `location` is used for that and for nothing else, except
by `setLocation`.

Operations with a filter first list what it selects and then work through the list.  A change
that they make on the way does not affect which configurations they reach.
-/
import FrameworkAdmin.Configuration.Store
import FrameworkAdmin.Property.Table

namespace FrameworkAdmin
namespace ConfigurationStore

/-! ## 1. Changes of properties -/

/-- Sets a property, in a new dictionary if there is none. -/
def withProperty (name : String) (v : Value) (p : Option Properties) : Option Properties :=
  some ((p.getD ∅).insert name v)

/-- Removes a property.  Absent properties stay absent. -/
def withoutProperty (name : String) (p : Option Properties) : Option Properties :=
  p.map (·.erase name)

/-- Changes the properties of the configuration under a pid, which is made if need be. -/
def changeProperties (s : ConfigurationStore) (pid : String) (location : Option String)
    (f : Option Properties → Option Properties) : Outcome ConfigurationStore Unit :=
  let (_, s) := s.obtain pid location
  match s.modifyProperties pid f with
  | .ok s => (.ok (), s)
  | .error r => (.error r, s)

/-- Changes the properties of each of the listed configurations in turn. -/
def changeEach (f : Option Properties → Option Properties) :
    List (String × Configuration) → ConfigurationStore → Outcome ConfigurationStore Unit
  | [], s => (.ok (), s)
  | (pid, _) :: rest, s =>
    match s.modifyProperties pid f with
    | .ok s => changeEach f rest s
    | .error r => (.error r, s)

/-! ## 2. One configuration -/

/-- Sets a property to the value that a text has under a type. -/
def addProperty (s : ConfigurationStore) (pid : String) (location : Option String)
    (name text type : String) : Outcome ConfigurationStore Unit :=
  match Value.read type text with
  | .error fault => (.error (.codec fault), s)
  | .ok v => s.changeProperties pid location (withProperty name v)

/-- Removes a property. -/
def deleteProperty (s : ConfigurationStore) (pid : String) (location : Option String)
    (name : String) : Outcome ConfigurationStore Unit :=
  s.changeProperties pid location (withoutProperty name)

/-- Replaces the properties by the dictionary of a table. -/
def updateFromTable (s : ConfigurationStore) (pid : String) (location : Option String)
    (t : Table) : Outcome ConfigurationStore Unit :=
  match t.toProperties with
  | .error fault => (.error (.codec fault), s)
  | .ok p =>
    let (_, s) := s.obtain pid location
    match s.update pid p with
    | .ok s => (.ok (), s)
    | .error r => (.error r, s)

/-- Removes a configuration, which need not exist. -/
def discard (s : ConfigurationStore) (pid : String) (location : Option String) :
    ConfigurationStore :=
  let (_, s) := s.obtain pid location
  (s.delete pid).2

/-- The location that a configuration is bound to. -/
def locationOf (s : ConfigurationStore) (pid : String) : Option String × ConfigurationStore :=
  let (c, s) := s.obtain pid none
  (c.location, s)

/-- The pid of the factory that a configuration was made for. -/
def factoryPidOf (s : ConfigurationStore) (pid : String) (location : Option String) :
    Option String × ConfigurationStore :=
  let (c, s) := s.obtain pid location
  (c.factoryPid, s)

/-- The table of the properties, if there are any. -/
def propertiesOf (s : ConfigurationStore) (pid : String) (location : Option String) :
    Outcome ConfigurationStore (Option Table) :=
  let (c, s) := s.obtain pid location
  match c.properties with
  | none => (.ok none, s)
  | some p =>
    match Table.ofProperties p with
    | .ok t => (.ok (some t), s)
    | .error fault => (.error (.codec fault), s)

/-- Binds a configuration to a location, or unbinds it. -/
def bind (s : ConfigurationStore) (pid : String) (location : Option String) :
    Outcome ConfigurationStore Unit :=
  let (_, s) := s.obtain pid none
  match s.setLocation pid location with
  | .ok s => (.ok (), s)
  | .error r => (.error r, s)

/-! ## 3. Selected configurations -/

/-- The pids and locations of the configurations that a filter selects, or of all that are
listed. -/
def listLocations (s : ConfigurationStore) (filter : Option String) :
    Except Refusal (List (String × Option String)) :=
  match Refusal.readFilter? filter with
  | .error r => .error r
  | .ok f => .ok ((s.list f).map fun e => (e.1, e.2.location))

/-- Sets a property in every selected configuration and gives their number.  The value is read
before the filter. -/
def addPropertyToSelected (s : ConfigurationStore) (filter name text type : String) :
    Outcome ConfigurationStore Nat :=
  match Value.read type text with
  | .error fault => (.error (.codec fault), s)
  | .ok v =>
    match Refusal.readFilter filter with
    | .error r => (.error r, s)
    | .ok f =>
      let selected := s.list (some f)
      match changeEach (withProperty name v) selected s with
      | (.ok (), s) => (.ok selected.length, s)
      | (.error r, s) => (.error r, s)

/-- Removes a property from every selected configuration. -/
def deletePropertyFromSelected (s : ConfigurationStore) (filter name : String) :
    Outcome ConfigurationStore Unit :=
  match Refusal.readFilter filter with
  | .error r => (.error r, s)
  | .ok f => changeEach (withoutProperty name) (s.list (some f)) s

/-- Removes configurations in turn and counts those that were there. -/
def deleteEach : List (String × Configuration) → ConfigurationStore → Nat × ConfigurationStore
  | [], s => (0, s)
  | (pid, _) :: rest, s =>
    let (existed, s) := s.delete pid
    let (n, s) := deleteEach rest s
    (if existed then n + 1 else n, s)

/-- Removes every selected configuration and gives their number. -/
def deleteSelected (s : ConfigurationStore) (filter : String) : Outcome ConfigurationStore Nat :=
  match Refusal.readFilter filter with
  | .error r => (.error r, s)
  | .ok f =>
    let (n, s) := deleteEach (s.list (some f)) s
    (.ok n, s)

/-! ## 4. Requests -/

/-- A management operation with its arguments. -/
inductive Request where
  | addProperty (pid : String) (location : Option String) (name text type : String)
  | addPropertyToSelected (filter name text type : String)
  | createFactory (factoryPid suffix : String) (location : Option String)
  | discard (pid : String) (location : Option String)
  | deleteSelected (filter : String)
  | deleteProperty (pid : String) (location : Option String) (name : String)
  | deletePropertyFromSelected (filter name : String)
  | locationOf (pid : String)
  | factoryPidOf (pid : String) (location : Option String)
  | propertiesOf (pid : String) (location : Option String)
  | listLocations (filter : Option String)
  | bind (pid : String) (location : Option String)
  | update (pid : String) (location : Option String) (table : Table)

/-- The answer to an operation. -/
inductive Reply where
  | done
  | count (n : Nat)
  | pid (pid : String)
  | text (text : Option String)
  | table (table : Option Table)
  | locations (entries : List (String × Option String))

/-- The outcome with its answer turned into a reply. -/
def reply {α : Type} (f : α → Reply) : Outcome ConfigurationStore α →
    Outcome ConfigurationStore Reply
  | (.ok a, s) => (.ok (f a), s)
  | (.error r, s) => (.error r, s)

/-- Carries out one operation. -/
def Request.run (s : ConfigurationStore) : Request → Outcome ConfigurationStore Reply
  | .addProperty pid location name text type =>
    reply (fun _ => .done) (s.addProperty pid location name text type)
  | .addPropertyToSelected filter name text type =>
    reply .count (s.addPropertyToSelected filter name text type)
  | .createFactory factoryPid suffix location =>
    let (pid, s) := s.createFactory factoryPid suffix location
    (.ok (.pid pid), s)
  | .discard pid location => (.ok .done, s.discard pid location)
  | .deleteSelected filter => reply .count (s.deleteSelected filter)
  | .deleteProperty pid location name =>
    reply (fun _ => .done) (s.deleteProperty pid location name)
  | .deletePropertyFromSelected filter name =>
    reply (fun _ => .done) (s.deletePropertyFromSelected filter name)
  | .locationOf pid =>
    let (location, s) := s.locationOf pid
    (.ok (.text location), s)
  | .factoryPidOf pid location =>
    let (factoryPid, s) := s.factoryPidOf pid location
    (.ok (.text factoryPid), s)
  | .propertiesOf pid location => reply .table (s.propertiesOf pid location)
  | .listLocations filter =>
    match s.listLocations filter with
    | .ok l => (.ok (.locations l), s)
    | .error r => (.error r, s)
  | .bind pid location => reply (fun _ => .done) (s.bind pid location)
  | .update pid location table => reply (fun _ => .done) (s.updateFromTable pid location table)

/-- The store after a run of operations, whatever their outcomes. -/
def after (s : ConfigurationStore) (requests : List Request) : ConfigurationStore :=
  requests.foldl (fun s r => (r.run s).2) s

end ConfigurationStore
end FrameworkAdmin
