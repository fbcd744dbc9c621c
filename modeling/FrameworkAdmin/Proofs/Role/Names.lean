/-
# Roles that bear their names

An entry of the role store does not know its name: the name is the key under which it is filed.  Here is the
store of whole roles, which know theirs.  Its operations find a role by the key, as those of `RoleStore` do,
and they name a role when it is made; after that they only change what it is.

`RoleStore.named` goes from the one store to the other and commutes with each operation, so a store of whole
roles that is put together by the same operations as a store of entries is the latter's
(`BuiltAlike.eq_named`).
-/
import FrameworkAdmin.Proofs.Named
import FrameworkAdmin.Role.Store

namespace FrameworkAdmin

/-! ## 1. The store of whole roles -/

/-- Whole roles by name. -/
structure NamedRoleStore where
  byName : SortedMap String (Named RoleEntry)

namespace NamedRoleStore

/-- The store in which everyone is alone. -/
def initial : NamedRoleStore :=
  ⟨(∅ : SortedMap String (Named RoleEntry)).insert RoleStore.anyone
    ⟨RoleStore.anyone, .blank .role⟩⟩

/-- Makes a role, unless the name is taken, and tells whether it did. -/
def create (s : NamedRoleStore) (name : String) (kind : RoleKind) : Bool × NamedRoleStore :=
  if s.byName.contains name then (false, s)
  else (true, ⟨s.byName.insert name ⟨name, .blank kind⟩⟩)

/-- Removes a role and its memberships, and tells whether there was one to remove. -/
def remove (s : NamedRoleStore) (name : String) : Bool × NamedRoleStore :=
  if name = RoleStore.anyone ∨ s.byName.contains name = false then (false, s)
  else
    (true,
      ⟨(s.byName.erase name).map fun _ r =>
        if r.content.isGroup then r.change (·.withoutMember name) else r⟩)

/-- Changes a role, its name included, and tells whether there is one. -/
def modify (s : NamedRoleStore) (name : String) (f : Named RoleEntry → Named RoleEntry) :
    Bool × NamedRoleStore :=
  match s.byName.get? name with
  | some r => (true, ⟨s.byName.insert name (f r)⟩)
  | none => (false, s)

end NamedRoleStore

namespace RoleStore

/-! ## 2. One operation -/

/-- The store of the whole roles. -/
def named (s : RoleStore) : NamedRoleStore := ⟨s.byName.named⟩

theorem named_initial : initial.named = .initial := by
  rw [named, initial, SortedMap.named_insert]
  rfl

theorem named_create (s : RoleStore) (name : String) (kind : RoleKind) :
    s.named.create name kind = ((s.create name kind).1, (s.create name kind).2.named) := by
  rw [NamedRoleStore.create, create, named, SortedMap.contains_named, ← SortedMap.named_insert]
  split <;> rfl

theorem named_remove (s : RoleStore) (name : String) :
    s.named.remove name = ((s.remove name).1, (s.remove name).2.named) := by
  have hpurge : (fun (_ : String) (r : Named RoleEntry) =>
        if r.content.isGroup then r.change (·.withoutMember name) else r) =
      fun _ => Named.change fun e => if e.isGroup then e.withoutMember name else e := by
    funext _ r
    rw [Named.change, Named.change]
    split <;> rfl
  rw [NamedRoleStore.remove, remove, named, SortedMap.contains_named, hpurge,
    ← SortedMap.named_erase, ← SortedMap.named_map]
  split <;> rfl

theorem named_modify (s : RoleStore) (name : String) (f : RoleEntry → RoleEntry) :
    s.named.modify name (Named.change f) = ((s.modify name f).1, (s.modify name f).2.named) := by
  rw [NamedRoleStore.modify, modify, get?, named, SortedMap.get?_named]
  cases s.byName.get? name with
  | none => rfl
  | some e =>
    show (true, NamedRoleStore.mk (s.byName.named.insert name ⟨name, f e⟩)) = _
    rw [← SortedMap.named_insert]
    rfl

/-! ## 3. Runs of operations -/

/-- The store of whole roles has been put together by the same operations.  They change what roles are, and
not their names. -/
inductive BuiltAlike : RoleStore → NamedRoleStore → Prop
  | initial : BuiltAlike .initial .initial
  | create {s : RoleStore} {roles : NamedRoleStore} (h : BuiltAlike s roles) (name : String)
      (kind : RoleKind) : BuiltAlike (s.create name kind).2 (roles.create name kind).2
  | remove {s : RoleStore} {roles : NamedRoleStore} (h : BuiltAlike s roles) (name : String) :
      BuiltAlike (s.remove name).2 (roles.remove name).2
  | modify {s : RoleStore} {roles : NamedRoleStore} (h : BuiltAlike s roles) (name : String)
      (f : RoleEntry → RoleEntry) :
      BuiltAlike (s.modify name f).2 (roles.modify name (Named.change f)).2

variable {s : RoleStore} {roles : NamedRoleStore}

theorem BuiltAlike.eq_named (h : BuiltAlike s roles) : roles = s.named := by
  induction h with
  | initial => exact named_initial.symm
  | create _ name kind ih => rw [ih, named_create]
  | remove _ name ih => rw [ih, named_remove]
  | modify _ name f ih => rw [ih, named_modify]

/-- **However the stores are put together, each role bears the name under which it is filed.** -/
theorem BuiltAlike.bearsNames (h : BuiltAlike s roles) : s.byName.BearsNames roles.byName := by
  rw [h.eq_named]
  exact s.byName.bearsNames_named

end RoleStore

end FrameworkAdmin
