/-
# Managing roles

The operations that a management client has on the role store, all by name.

A name that stands for no role is treated in two ways.  Where an answer about the role is asked
for, the operation is refused (`roleNotFound`) or answers that there is none; where something is
to be taken away from it, nothing is left to do and the operation succeeds.  A name that stands
for a role of the wrong kind is always refused.

Operations that answer with a truth value tell whether the store has changed.
-/
import FrameworkAdmin.Record.Authorization
import FrameworkAdmin.Refusal
import FrameworkAdmin.Role.Authorization

namespace FrameworkAdmin
namespace RoleStore

/-! ## 1. Roles of a kind -/

/-- The role with this name, which must exist. -/
def find (s : RoleStore) (name : String) : Except Refusal RoleEntry :=
  match s.get? name with
  | some e => .ok e
  | none => .error (.roleNotFound name)

/-- The user or group with this name, which must exist. -/
def findUser (s : RoleStore) (name : String) : Except Refusal RoleEntry :=
  match s.get? name with
  | some e => if e.isUser then .ok e else .error (.notAUser name)
  | none => .error (.roleNotFound name)

/-- The group with this name, which must exist. -/
def findGroup (s : RoleStore) (name : String) : Except Refusal RoleEntry :=
  match s.get? name with
  | some e => if e.isGroup then .ok e else .error (.notAGroup name)
  | none => .error (.roleNotFound name)

/-! ## 2. Dictionaries -/

/-- Sets a credential of a user. -/
def addCredential (s : RoleStore) (key : String) (v : Value) (name : String) :
    Outcome RoleStore Unit :=
  match s.findUser name with
  | .error r => (.error r, s)
  | .ok _ =>
    (.ok (), (s.modify name fun e => { e with credentials := e.credentials.insert key v }).2)

/-- Sets a property of a role. -/
def addProperty (s : RoleStore) (key : String) (v : Value) (name : String) :
    Outcome RoleStore Unit :=
  match s.find name with
  | .error r => (.error r, s)
  | .ok _ =>
    (.ok (), (s.modify name fun e => { e with properties := e.properties.insert key v }).2)

/-- Removes a credential of a user, if there is such a user. -/
def removeCredential (s : RoleStore) (key name : String) : Outcome RoleStore Unit :=
  match s.findUser name with
  | .ok _ =>
    (.ok (), (s.modify name fun e => { e with credentials := e.credentials.erase key }).2)
  | .error (.roleNotFound _) => (.ok (), s)
  | .error r => (.error r, s)

/-- Removes a property of a role, if there is such a role. -/
def removeProperty (s : RoleStore) (key name : String) : RoleStore :=
  (s.modify name fun e => { e with properties := e.properties.erase key }).2

/-- The table of a user's credentials. -/
def credentialsOf (s : RoleStore) (name : String) : Except Refusal Table :=
  match s.findUser name with
  | .error r => .error r
  | .ok e =>
    match Table.ofProperties e.credentials with
    | .ok t => .ok t
    | .error fault => .error (.codec fault)

/-- The table of a role's properties, if there is such a role. -/
def propertiesOf (s : RoleStore) (name : String) : Except Refusal (Option Table) :=
  match s.get? name with
  | none => .ok none
  | some e =>
    match Table.ofProperties e.properties with
    | .ok t => .ok (some t)
    | .error fault => .error (.codec fault)

/-! ## 3. Members -/

/-- The two lists of members of a group. -/
inductive Membership where
  | basic
  | required
deriving DecidableEq, Repr

/-- The list of members of this sort. -/
def Membership.of : Membership → RoleEntry → List String
  | .basic, e => e.members
  | .required, e => e.requiredMembers

/-- The entry with one more member of this sort. -/
def Membership.append (name : String) : Membership → RoleEntry → RoleEntry
  | .basic, e => { e with members := e.members ++ [name] }
  | .required, e => { e with requiredMembers := e.requiredMembers ++ [name] }

/-- Makes a role a member of a group and tells whether it did: both have to exist, and the role
must not be a member of this sort already. -/
def addMember (s : RoleStore) (sort : Membership) (group name : String) :
    Outcome RoleStore Bool :=
  match s.get? group with
  | none => (.ok false, s)
  | some e =>
    if e.isGroup = false then (.error (.notAGroup group), s)
    else if (s.get? name).isNone || (sort.of e).contains name then (.ok false, s)
    else (.ok true, (s.modify group (sort.append name)).2)

/-- Removes a name from both lists of members of a group and tells whether it was in one. -/
def removeMember (s : RoleStore) (group name : String) : Outcome RoleStore Bool :=
  match s.findGroup group with
  | .error (.roleNotFound _) => (.ok false, s)
  | .error r => (.error r, s)
  | .ok e =>
    (.ok (e.members.contains name || e.requiredMembers.contains name),
      (s.modify group (·.withoutMember name)).2)

/-- The members of a group that are not required. -/
def membersOf (s : RoleStore) (group : String) : Except Refusal (List String) :=
  (s.findGroup group).map (·.members)

/-- The required members of a group. -/
def requiredMembersOf (s : RoleStore) (group : String) : Except Refusal (List String) :=
  (s.findGroup group).map (·.requiredMembers)

/-! ## 4. Records and names -/

/-- The result of an encoding as the answer of an operation. -/
def encoded {α : Type} : Except Fault α → Except Refusal (Option α)
  | .ok a => .ok (some a)
  | .error fault => .error (.codec fault)

/-- The record of a role, if there is one. -/
def roleRecord (s : RoleStore) (name : String) : Except Refusal (Option RoleRecord) :=
  match s.get? name with
  | none => .ok none
  | some e => encoded (e.toRole name).encode

/-- The record of a user, if there is a role with this name. -/
def userRecord (s : RoleStore) (name : String) : Except Refusal (Option UserRecord) :=
  match s.get? name with
  | none => .ok none
  | some e => if e.isUser then encoded (e.toUser name).encode else .error (.notAUser name)

/-- The record of a group, if there is a role with this name. -/
def groupRecord (s : RoleStore) (name : String) : Except Refusal (Option GroupRecord) :=
  match s.get? name with
  | none => .ok none
  | some e => if e.isGroup then encoded (e.toGroup name).encode else .error (.notAGroup name)

/-- The record of a user's authorization. -/
def authorizationRecord (s : RoleStore) (name : String) : Except Refusal AuthorizationRecord :=
  match s.findUser name with
  | .error r => .error r
  | .ok _ =>
    match s.authorization name with
    | some roles => .ok ⟨name, roles⟩
    | none => .error (.notAUser name)

/-- The names of the roles that a user has; none for a role that is no user. -/
def impliedRolesOf (s : RoleStore) (name : String) : Except Refusal (List String) :=
  match s.find name with
  | .error r => .error r
  | .ok _ => .ok ((s.authorization name).getD [])

/-- The names of the roles of a kind, or of all kinds, whose properties a filter selects. -/
def namesOf (s : RoleStore) (filter : Option String) (kind : Option RoleKind) :
    Except Refusal (List String) :=
  match Refusal.readFilter? filter with
  | .error r => .error r
  | .ok f =>
    .ok (((s.list f).filter fun e => kind.isNone || kind == some e.2.kind).map Prod.fst)

/-- The name of the one user or group with this string property. -/
def nameWith (s : RoleStore) (key value : String) : Option String :=
  (s.userWith key value).map Prod.fst

/-! ## 5. Requests -/

/-- A management operation with its arguments. -/
inductive Request where
  | addCredential (key : String) (value : Value) (name : String)
  | addProperty (key : String) (value : Value) (name : String)
  | addMember (sort : Membership) (group name : String)
  | removeMember (group name : String)
  | create (name : String) (kind : RoleKind)
  | remove (name : String)
  | removeCredential (key name : String)
  | removeProperty (key name : String)
  | authorizationRecord (name : String)
  | impliedRolesOf (name : String)
  | credentialsOf (name : String)
  | propertiesOf (name : String)
  | membersOf (name : String)
  | requiredMembersOf (name : String)
  | roleRecord (name : String)
  | userRecord (name : String)
  | groupRecord (name : String)
  | namesOf (filter : Option String) (kind : Option RoleKind)
  | nameWith (key value : String)

/-- The answer to an operation. -/
inductive Reply where
  | done
  | truth (b : Bool)
  | name (name : Option String)
  | names (names : List String)
  | table (table : Option Table)
  | authorization (record : AuthorizationRecord)
  | role (record : Option RoleRecord)
  | user (record : Option UserRecord)
  | group (record : Option GroupRecord)

/-- The outcome with its answer turned into a reply. -/
def reply {α : Type} (f : α → Reply) : Outcome RoleStore α → Outcome RoleStore Reply
  | (.ok a, s) => (.ok (f a), s)
  | (.error r, s) => (.error r, s)

/-- Carries out one operation. -/
def Request.run (s : RoleStore) : Request → Outcome RoleStore Reply
  | .addCredential key v name => reply (fun _ => .done) (s.addCredential key v name)
  | .addProperty key v name => reply (fun _ => .done) (s.addProperty key v name)
  | .addMember sort group name => reply .truth (s.addMember sort group name)
  | .removeMember group name => reply .truth (s.removeMember group name)
  | .create name kind =>
    let (created, s) := s.create name kind
    (.ok (.truth created), s)
  | .remove name =>
    let (removed, s) := s.remove name
    (.ok (.truth removed), s)
  | .removeCredential key name => reply (fun _ => .done) (s.removeCredential key name)
  | .removeProperty key name => (.ok .done, s.removeProperty key name)
  | .authorizationRecord name => reply .authorization (s.authorizationRecord name, s)
  | .impliedRolesOf name => reply .names (s.impliedRolesOf name, s)
  | .credentialsOf name => reply (fun t => .table (some t)) (s.credentialsOf name, s)
  | .propertiesOf name => reply .table (s.propertiesOf name, s)
  | .membersOf name => reply .names (s.membersOf name, s)
  | .requiredMembersOf name => reply .names (s.requiredMembersOf name, s)
  | .roleRecord name => reply .role (s.roleRecord name, s)
  | .userRecord name => reply .user (s.userRecord name, s)
  | .groupRecord name => reply .group (s.groupRecord name, s)
  | .namesOf filter kind => reply .names (s.namesOf filter kind, s)
  | .nameWith key value => (.ok (.name (s.nameWith key value)), s)

/-- The store after a run of operations, whatever their outcomes. -/
def after (s : RoleStore) (requests : List Request) : RoleStore :=
  requests.foldl (fun s r => (r.run s).2) s

end RoleStore
end FrameworkAdmin
