/-
# The role store

Roles are filed under their names.  What is filed is an entry: the kind, the properties, and the
parts that only users (credentials) and groups (members) make use of.  A group is a user too.

One role is always there: `user.anyone`, which every user has and nobody can remove.

Removing a role removes its name from the members of every group, so that a later role of the
same name starts without memberships.
-/
import FrameworkAdmin.Filter.Matching
import FrameworkAdmin.Record.Role

namespace FrameworkAdmin

/-! ## 1. Entries -/

/-- What is filed under the name of a role. -/
structure RoleEntry where
  kind : RoleKind
  properties : Properties
  credentials : Properties
  members : List String
  requiredMembers : List String

namespace RoleEntry

/-- A role with nothing in it. -/
def blank (kind : RoleKind) : RoleEntry := ⟨kind, ∅, ∅, [], []⟩

/-- The role can be authorized: it is a user or a group. -/
def isUser (e : RoleEntry) : Bool := e.kind == .user || e.kind == .group

/-- The role has members. -/
def isGroup (e : RoleEntry) : Bool := e.kind == .group

theorem isUser_iff {e : RoleEntry} : e.isUser = true ↔ e.kind ≠ .role := by
  cases h : e.kind <;> simp [isUser, h]

theorem kind_eq_role {e : RoleEntry} (h : ¬e.isUser = true) : e.kind = .role := by
  rwa [isUser_iff, ne_eq, Decidable.not_not] at h

theorem isGroup_iff {e : RoleEntry} : e.isGroup = true ↔ e.kind = .group := by
  simp [isGroup]

/-- The entry as a role. -/
def toRole (name : String) (e : RoleEntry) : Role := ⟨name, e.kind, e.properties⟩

/-- The entry as a user. -/
def toUser (name : String) (e : RoleEntry) : User := ⟨e.toRole name, e.credentials⟩

/-- The entry as a group. -/
def toGroup (name : String) (e : RoleEntry) : Group :=
  ⟨e.toUser name, e.members, e.requiredMembers⟩

/-- The entry without a name among its members. -/
def withoutMember (name : String) (e : RoleEntry) : RoleEntry :=
  { e with
    members := e.members.filter (· != name)
    requiredMembers := e.requiredMembers.filter (· != name) }

/-- The entry has a property `key` that is the string `value`. -/
def hasString (key value : String) (e : RoleEntry) : Bool :=
  match e.properties.get? key with
  | some v => v.string? == some value
  | none => false

end RoleEntry

/-! ## 2. The store -/

/-- The roles by name. -/
structure RoleStore where
  byName : SortedMap String RoleEntry

namespace RoleStore

/-- The name of the role that everyone has. -/
def anyone : String := "user.anyone"

/-- The store in which everyone is alone. -/
def initial : RoleStore := ⟨(∅ : SortedMap String RoleEntry).insert anyone (.blank .role)⟩

instance : Inhabited RoleStore := ⟨initial⟩

/-- The role with this name. -/
def get? (s : RoleStore) (name : String) : Option RoleEntry := s.byName.get? name

/-- Makes a role, unless the name is taken, and tells whether it did. -/
def create (s : RoleStore) (name : String) (kind : RoleKind) : Bool × RoleStore :=
  if s.byName.contains name then (false, s)
  else (true, ⟨s.byName.insert name (.blank kind)⟩)

/-- Removes a role and its memberships, and tells whether there was one to remove. -/
def remove (s : RoleStore) (name : String) : Bool × RoleStore :=
  if name = anyone ∨ s.byName.contains name = false then (false, s)
  else
    (true,
      ⟨(s.byName.erase name).map fun _ e => if e.isGroup then e.withoutMember name else e⟩)

/-- Changes a role and tells whether there is one. -/
def modify (s : RoleStore) (name : String) (f : RoleEntry → RoleEntry) : Bool × RoleStore :=
  match s.get? name with
  | some e => (true, ⟨s.byName.insert name (f e)⟩)
  | none => (false, s)

/-- The roles whose properties a filter selects, or all roles, by name. -/
def list (s : RoleStore) (filter : Option Filter) : List (String × RoleEntry) :=
  (s.byName.filter fun _ e =>
    match filter with
    | some f => f.selects e.properties
    | none => true).entries

/-- The one user or group with this string property, if there is exactly one. -/
def userWith (s : RoleStore) (key value : String) : Option (String × RoleEntry) :=
  match (s.byName.filter fun _ e => e.isUser && e.hasString key value).entries with
  | [e] => some e
  | _ => none

/-! ## 3. The view -/

/-- A name that is free can be taken. -/
theorem create_fst {s : RoleStore} {name : String} (h : s.get? name = none) (kind : RoleKind) :
    (s.create name kind).1 = true := by
  rw [create, if_neg]
  simpa [SortedMap.contains, get?] using h

/-- A name that is taken stays with the entry that has it. -/
theorem create_of_some {s : RoleStore} {name : String} {e : RoleEntry} (h : s.get? name = some e)
    (kind : RoleKind) : s.create name kind = (false, s) := by
  have htaken : s.byName.contains name = true := by
    rw [SortedMap.contains, show s.byName.get? name = some e from h]
    rfl
  rw [create, if_pos htaken]

/-- Making a role adds an entry with nothing in it. -/
theorem get?_create {s : RoleStore} {name : String} (h : s.get? name = none) (kind : RoleKind)
    (x : String) :
    (s.create name kind).2.get? x = if x = name then some (.blank kind) else s.get? x := by
  have hfree : ¬ s.byName.contains name = true := by simpa [SortedMap.contains, get?] using h
  rw [create, if_neg hfree]
  simp [get?, SortedMap.get?_insert]

/-- Changing a role changes its entry and no other. -/
theorem get?_modify {s : RoleStore} {name : String} {e : RoleEntry} (h : s.get? name = some e)
    (f : RoleEntry → RoleEntry) (x : String) :
    (s.modify name f).2.get? x = if x = name then some (f e) else s.get? x := by
  rw [modify, h]
  simp [get?, SortedMap.get?_insert]

/-- Removing a role takes its entry away, and its name out of every group. -/
theorem get?_remove {s : RoleStore} {name : String} {e : RoleEntry} (hname : name ≠ anyone)
    (h : s.get? name = some e) (x : String) :
    (s.remove name).2.get? x = if x = name then none else
      (s.get? x).map fun e => if e.isGroup then e.withoutMember name else e := by
  have hthere : s.byName.contains name = true := by
    rw [SortedMap.contains, show s.byName.get? name = some e from h]
    rfl
  rw [remove, if_neg (by simp [hname, hthere])]
  simp only [get?, SortedMap.get?_map, SortedMap.get?_erase]
  by_cases hx : x = name
  · simp [hx]
  · simp [hx, Ne.symm hx]

end RoleStore

end FrameworkAdmin
