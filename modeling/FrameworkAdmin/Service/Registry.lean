/-
# The service registry

A service is registered by a bundle under a list of interfaces and gets an id: 1 for the first
registration, 2 for the second, and so on.  An id is never given out again, also when its
service is gone.

Two properties carry the identity of a service, its id and its interfaces.  Registration sets
them over whatever the caller passes, and modification, which replaces all other properties,
keeps them.

Every change of a registration gives the event that a framework would broadcast.
-/
import FrameworkAdmin.Property.Value
import FrameworkAdmin.Record.ServiceEvent

namespace FrameworkAdmin

/-! ## 1. Services -/

/-- The id of a service or a bundle. -/
abbrev FrameworkId := Bounded (.signed 64)

/-- A registered service. -/
structure Service where
  id : FrameworkId
  bundle : FrameworkId
  location : String
  properties : Properties
  users : List FrameworkId

namespace Service

/-- The property that carries the interfaces. -/
def classesProperty : String := "objectClass"

/-- The property that carries the id. -/
def idProperty : String := "service.id"

/-- The interfaces that the service is registered under. -/
def classes (s : Service) : List String :=
  ((s.properties.get? classesProperty).bind Value.strings?).getD []

/-- The event of this type for the service. -/
def event (s : Service) (type : EventType) : ServiceEvent :=
  ⟨s.id, s.bundle, s.location, s.classes, type⟩

/-- The properties `p` with the value that `old` has under a key, if it has one. -/
def keep (key : String) (old p : Properties) : Properties :=
  match old.get? key with
  | some v => p.insert key v
  | none => p

end Service

/-! ## 2. The registry -/

/-- The number of registrations so far, and the services by id. -/
structure ServiceRegistry where
  registered : Nat
  byId : SortedMap FrameworkId Service

namespace ServiceRegistry

instance : EmptyCollection ServiceRegistry := ⟨⟨0, ∅⟩⟩
instance : Inhabited ServiceRegistry := ⟨∅⟩

/-- The service with this id. -/
def get? (s : ServiceRegistry) (id : FrameworkId) : Option Service := s.byId.get? id

/-- Registers a service under the next id. -/
def register (s : ServiceRegistry) (bundle : FrameworkId) (location : String)
    (classes : List String) (p : Properties) : ServiceEvent × ServiceRegistry :=
  let id := Bounded.wrap 64 (s.registered + 1)
  let p := (p.insert Service.idProperty (.ofLong id)).insert Service.classesProperty
    (.ofStrings classes)
  let service : Service := ⟨id, bundle, location, p, []⟩
  (service.event .registered, ⟨s.registered + 1, s.byId.insert id service⟩)

/-- Replaces the properties of a service other than its identity, if there is such a
service. -/
def modify (s : ServiceRegistry) (id : FrameworkId) (p : Properties) :
    Option ServiceEvent × ServiceRegistry :=
  match s.get? id with
  | none => (none, s)
  | some old =>
    let p := Service.keep Service.classesProperty old.properties
      (Service.keep Service.idProperty old.properties p)
    let service := { old with properties := p }
    (some (service.event .modified), { s with byId := s.byId.insert id service })

/-- Removes a service, if there is such a service. -/
def unregister (s : ServiceRegistry) (id : FrameworkId) : Option ServiceEvent × ServiceRegistry :=
  match s.get? id with
  | none => (none, s)
  | some old => (some (old.event .unregistering), { s with byId := s.byId.erase id })

/-- Notes that a bundle uses a service and tells whether there is such a service. -/
def addUser (s : ServiceRegistry) (id bundle : FrameworkId) : Bool × ServiceRegistry :=
  match s.get? id with
  | none => (false, s)
  | some old =>
    let users := if old.users.contains bundle then old.users else old.users ++ [bundle]
    (true, { s with byId := s.byId.insert id { old with users } })

/-- The bundles that use a service, if there is such a service. -/
def usersOf? (s : ServiceRegistry) (id : FrameworkId) : Option (List FrameworkId) :=
  (s.get? id).map (·.users)

/-! ## 3. Changes -/

/-- A change of the registry with its arguments. -/
inductive Change where
  | register (bundle : FrameworkId) (location : String) (classes : List String)
      (properties : Properties)
  | modify (id : FrameworkId) (properties : Properties)
  | unregister (id : FrameworkId)
  | addUser (id bundle : FrameworkId)

/-- Makes one change and gives its event, if it has one. -/
def Change.run (s : ServiceRegistry) : Change → Option ServiceEvent × ServiceRegistry
  | .register bundle location classes p =>
    let (e, s) := s.register bundle location classes p
    (some e, s)
  | .modify id p => s.modify id p
  | .unregister id => s.unregister id
  | .addUser id bundle => (none, (s.addUser id bundle).2)

/-- The events of a run of changes in order, and the registry after them. -/
def run (s : ServiceRegistry) : List Change → List ServiceEvent × ServiceRegistry
  | [] => ([], s)
  | c :: cs =>
    let (e, s) := c.run s
    let (es, s) := run s cs
    (e.toList ++ es, s)

end ServiceRegistry

end FrameworkAdmin
