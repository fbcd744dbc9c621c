/-
# Service events as records

A service event tells that a service was registered, modified or is about to go.  The encoded
form differs from the event in one item, the code of its type, and decoding fails exactly where
that code is none of the four.
-/
import FrameworkAdmin.Property.Fault
import FrameworkAdmin.Wire

namespace FrameworkAdmin

/-! ## 1. Types of events -/

/-- What happened to a service. -/
inductive EventType where
  | registered
  | modified
  | unregistering
  | modifiedEndmatch
deriving DecidableEq, Repr

namespace EventType

/-- The code of a type. -/
def code : EventType → Bounded (.signed 32)
  | .registered => .wrap 32 1
  | .modified => .wrap 32 2
  | .unregistering => .wrap 32 4
  | .modifiedEndmatch => .wrap 32 8

/-- The type with this code. -/
def ofCode? (code : Bounded (.signed 32)) : Option EventType :=
  [.registered, .modified, .unregistering, .modifiedEndmatch].find? (EventType.code · == code)

/-- Every type is found by its code. -/
@[simp] theorem ofCode?_code (t : EventType) : ofCode? t.code = some t := by
  cases t <;> decide

end EventType

/-! ## 2. Events -/

/-- A change of a service registration. -/
structure ServiceEvent where
  service : Bounded (.signed 64)
  bundle : Bounded (.signed 64)
  location : String
  classes : List String
  type : EventType
deriving DecidableEq, Repr

/-- The encoded form of a service event. -/
structure ServiceEventRecord where
  service : Bounded (.signed 64)
  bundle : Bounded (.signed 64)
  location : String
  classes : List String
  type : Bounded (.signed 32)
deriving DecidableEq, Repr

/-- The encoded form of an event. -/
def ServiceEvent.encode (e : ServiceEvent) : ServiceEventRecord :=
  ⟨e.service, e.bundle, e.location, e.classes, e.type.code⟩

namespace ServiceEventRecord

/-- The event with this encoded form. -/
def decode (r : ServiceEventRecord) : Except Fault ServiceEvent :=
  match EventType.ofCode? r.type with
  | some type => .ok ⟨r.service, r.bundle, r.location, r.classes, type⟩
  | none => .error (.unknownCode .eventType r.type)

/-- The wire form of an encoded event. -/
def toWire (r : ServiceEventRecord) : Wire :=
  .object [("Identifier", .integer r.service.val), ("BundleIdentifier", .integer r.bundle.val),
    ("BundleLocation", .text r.location), ("ObjectClass", .ofTexts r.classes),
    ("EventType", .integer r.type.val)]

/-- The encoded event with this wire form. -/
def ofWire? (w : Wire) : Option ServiceEventRecord :=
  match w.items? ["Identifier", "BundleIdentifier", "BundleLocation", "ObjectClass", "EventType"]
    with
  | some [service, bundle, location, classes, type] => do
    return ⟨← service.bounded? (.signed 64), ← bundle.bounded? (.signed 64), ← location.text?,
      ← classes.texts?, ← type.bounded? (.signed 32)⟩
  | _ => none

end ServiceEventRecord

end FrameworkAdmin
