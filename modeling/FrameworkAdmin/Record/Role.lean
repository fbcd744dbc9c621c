/-
# Roles, users and groups as records

A role has a name, a kind and properties.  A user is a role with credentials, and a group is a
user with members, of whom some are required.  Each of the three has an encoded form that a
management client receives, in which dictionaries are property tables and the kind is a code.

Encoding fails where a dictionary has no table, decoding where a code has no kind or a table
cannot be read.  Both work from the inside out: the role before the credentials, and within the
role the code before the properties.  Members are names and pass unchanged.
-/
import FrameworkAdmin.Property.Wire

namespace FrameworkAdmin

/-! ## 1. Kinds -/

/-- What a role can do: nothing but exist, be authorized, or also have members. -/
inductive RoleKind where
  | role
  | user
  | group
deriving DecidableEq, Repr

namespace RoleKind

/-- The code of a kind. -/
def code : RoleKind → Bounded (.signed 32)
  | .role => .wrap 32 0
  | .user => .wrap 32 1
  | .group => .wrap 32 2

/-- The kind with this code. -/
def ofCode? (code : Bounded (.signed 32)) : Option RoleKind :=
  [.role, .user, .group].find? (RoleKind.code · == code)

/-- Every kind is found by its code. -/
@[simp] theorem ofCode?_code (k : RoleKind) : ofCode? k.code = some k := by
  cases k <;> decide

end RoleKind

/-! ## 2. Records -/

/-- A role. -/
structure Role where
  name : String
  kind : RoleKind
  properties : Properties

/-- A role with credentials. -/
structure User where
  role : Role
  credentials : Properties

/-- A user with members, given by their names. -/
structure Group where
  user : User
  members : List String
  requiredMembers : List String

/-- The encoded form of a role. -/
structure RoleRecord where
  name : String
  type : Bounded (.signed 32)
  properties : Table
deriving DecidableEq

/-- The encoded form of a user. -/
structure UserRecord where
  role : RoleRecord
  credentials : Table
deriving DecidableEq

/-- The encoded form of a group. -/
structure GroupRecord where
  user : UserRecord
  members : List String
  requiredMembers : List String
deriving DecidableEq

/-! ## 3. Encoding and decoding -/

/-- The encoded form of a role. -/
def Role.encode (r : Role) : Except Fault RoleRecord :=
  match Table.ofProperties r.properties with
  | .ok properties => .ok ⟨r.name, r.kind.code, properties⟩
  | .error f => .error f

/-- The encoded form of a user. -/
def User.encode (u : User) : Except Fault UserRecord :=
  match u.role.encode with
  | .error f => .error f
  | .ok role =>
    match Table.ofProperties u.credentials with
    | .ok credentials => .ok ⟨role, credentials⟩
    | .error f => .error f

/-- The encoded form of a group. -/
def Group.encode (g : Group) : Except Fault GroupRecord :=
  match g.user.encode with
  | .ok user => .ok ⟨user, g.members, g.requiredMembers⟩
  | .error f => .error f

/-- The role with this encoded form. -/
def RoleRecord.decode (r : RoleRecord) : Except Fault Role :=
  match RoleKind.ofCode? r.type with
  | none => .error (.unknownCode .roleType r.type)
  | some kind =>
    match r.properties.toProperties with
    | .ok properties => .ok ⟨r.name, kind, properties⟩
    | .error f => .error f

/-- The user with this encoded form. -/
def UserRecord.decode (u : UserRecord) : Except Fault User :=
  match u.role.decode with
  | .error f => .error f
  | .ok role =>
    match u.credentials.toProperties with
    | .ok credentials => .ok ⟨role, credentials⟩
    | .error f => .error f

/-- The group with this encoded form. -/
def GroupRecord.decode (g : GroupRecord) : Except Fault Group :=
  match g.user.decode with
  | .ok user => .ok ⟨user, g.members, g.requiredMembers⟩
  | .error f => .error f

/-! ## 4. Wire forms -/

/-- The wire form of an encoded role. -/
def RoleRecord.toWire (r : RoleRecord) : Wire :=
  .object [("Name", .text r.name), ("Type", .integer r.type.val),
    ("Properties", r.properties.toWire)]

/-- The encoded role with this wire form. -/
def RoleRecord.ofWire? (w : Wire) : Option RoleRecord :=
  match w.items? ["Name", "Type", "Properties"] with
  | some [name, type, properties] => do
    return ⟨← name.text?, ← type.bounded? (.signed 32), ← Table.ofWire? properties⟩
  | _ => none

/-- The wire form of an encoded user. -/
def UserRecord.toWire (u : UserRecord) : Wire :=
  .object [("Role", u.role.toWire), ("Credentials", u.credentials.toWire)]

/-- The encoded user with this wire form. -/
def UserRecord.ofWire? (w : Wire) : Option UserRecord :=
  match w.items? ["Role", "Credentials"] with
  | some [role, credentials] => do
    return ⟨← RoleRecord.ofWire? role, ← Table.ofWire? credentials⟩
  | _ => none

/-- The wire form of an encoded group. -/
def GroupRecord.toWire (g : GroupRecord) : Wire :=
  .object [("User", g.user.toWire), ("Members", .ofTexts g.members),
    ("RequiredMembers", .ofTexts g.requiredMembers)]

/-- The encoded group with this wire form. -/
def GroupRecord.ofWire? (w : Wire) : Option GroupRecord :=
  match w.items? ["User", "Members", "RequiredMembers"] with
  | some [user, members, required] => do
    return ⟨← UserRecord.ofWire? user, ← members.texts?, ← required.texts?⟩
  | _ => none

end FrameworkAdmin
