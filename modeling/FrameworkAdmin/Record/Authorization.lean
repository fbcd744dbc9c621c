/-
# Authorizations as records

An authorization lists the roles that a user has, by name.  It is made by the framework and only
ever travels outwards, so it has an encoded form and nothing to decode it into.
-/
import FrameworkAdmin.Wire

namespace FrameworkAdmin

/-- The roles that the user `name` has. -/
structure AuthorizationRecord where
  name : String
  roles : List String
deriving DecidableEq, Repr

namespace AuthorizationRecord

/-- The role is among them. -/
def hasRole (a : AuthorizationRecord) (role : String) : Bool := a.roles.contains role

/-- The wire form of an authorization. -/
def toWire (a : AuthorizationRecord) : Wire :=
  .object [("Name", .text a.name), ("Roles", .ofTexts a.roles)]

/-- The authorization with this wire form. -/
def ofWire? (w : Wire) : Option AuthorizationRecord :=
  match w.items? ["Name", "Roles"] with
  | some [name, roles] => do
    return ⟨← name.text?, ← roles.texts?⟩
  | _ => none

end AuthorizationRecord

end FrameworkAdmin
