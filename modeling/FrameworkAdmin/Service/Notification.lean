/-
# Services as management clients see them

Clients ask about services by id and are refused where there is none (section 1), and they are
told about changes by notifications (section 2).  A notification carries the record of an event
and a number; the numbers of one sender count up from zero without a gap, in 64 bits.
-/
import FrameworkAdmin.Property.Table
import FrameworkAdmin.Refusal
import FrameworkAdmin.Service.Registry

namespace FrameworkAdmin

/-! ## 1. Questions -/

/-- The line of a listing that tells about one service. -/
structure ServiceSummary where
  id : FrameworkId
  bundle : FrameworkId
  interfaces : List String
  users : List FrameworkId
deriving DecidableEq, Repr

namespace ServiceRegistry

/-- The service with this id, which must exist. -/
def find (s : ServiceRegistry) (id : FrameworkId) : Except Refusal Service :=
  match s.get? id with
  | some service => .ok service
  | none => .error (.serviceNotFound id)

/-- The bundle that registered a service. -/
def bundleOf (s : ServiceRegistry) (id : FrameworkId) : Except Refusal FrameworkId :=
  (s.find id).map (·.bundle)

/-- The interfaces of a service. -/
def interfacesOf (s : ServiceRegistry) (id : FrameworkId) : Except Refusal (List String) :=
  (s.find id).map (·.classes)

/-- The bundles that use a service. -/
def usersOf (s : ServiceRegistry) (id : FrameworkId) : Except Refusal (List FrameworkId) :=
  (s.find id).map (·.users)

/-- The table of the properties of a service. -/
def propertiesOf (s : ServiceRegistry) (id : FrameworkId) : Except Refusal Table :=
  match s.find id with
  | .error r => .error r
  | .ok service =>
    match Table.ofProperties service.properties with
    | .ok t => .ok t
    | .error fault => .error (.codec fault)

/-- All services, by id. -/
def list (s : ServiceRegistry) : List ServiceSummary :=
  s.byId.values.map fun e => ⟨e.id, e.bundle, e.classes, e.users⟩

end ServiceRegistry

/-! ## 2. Notifications -/

/-- The type of all notifications about services. -/
def serviceEventType : String := "org.osgi.service.jmx.framework.ServiceEvent"

/-- A numbered service event. -/
structure Notification where
  type : String
  sequence : UInt64
  data : ServiceEventRecord
deriving DecidableEq, Repr

/-- A sender of notifications: how many it has sent, up to multiples of `2 ^ 64`. -/
structure Notifier where
  sent : UInt64
deriving DecidableEq, Repr

namespace Notifier

/-- A sender that has sent nothing. -/
def initial : Notifier := ⟨0⟩

/-- Sends the next notification. -/
def send (n : Notifier) (e : ServiceEvent) : Notification × Notifier :=
  (⟨serviceEventType, n.sent, e.encode⟩, ⟨n.sent + 1⟩)

/-- Sends a notification for each event in turn. -/
def sendAll (n : Notifier) : List ServiceEvent → List Notification × Notifier
  | [] => ([], n)
  | e :: es =>
    let (first, n) := n.send e
    let (rest, n) := sendAll n es
    (first :: rest, n)

end Notifier

end FrameworkAdmin
