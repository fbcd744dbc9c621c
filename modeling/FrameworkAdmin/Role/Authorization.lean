/-
# Authorization

A user has its own role and that of everyone, and may have those of groups.  A group's role is
implied when all of its required members are, and at least one of its other members is.  Groups
may be members of groups, in circles too, so the roles of a user are the **least** set that is
closed under this rule: nothing in a circle is implied unless something outside it is.

The set is computed from below.  `pass` goes through the store once and adds each group that the
roles so far imply, including those that were added a moment ago; `saturate` makes passes until
one adds nothing.  Each pass before that adds a group, so the number of roles bounds the number
of passes.
-/
import FrameworkAdmin.Role.Store

namespace FrameworkAdmin
namespace RoleStore

/-- The rule: these roles imply a group with this entry. -/
def implies (roles : List String) (e : RoleEntry) : Bool :=
  e.isGroup && e.requiredMembers.all (roles.contains ·) && e.members.any (roles.contains ·)

/-- Looks at one role and adds it if it is a group that the roles so far imply. -/
def visit (roles : List String) (role : String × RoleEntry) : List String :=
  if roles.contains role.1 then roles
  else if implies roles role.2 then role.1 :: roles
  else roles

/-- Looks at each role of a list in turn. -/
def pass (order : List (String × RoleEntry)) (roles : List String) : List String :=
  order.foldl visit roles

/-- Makes passes until one adds nothing, at most `limit` of them. -/
def saturate (order : List (String × RoleEntry)) : Nat → List String → List String
  | 0, roles => roles
  | limit + 1, roles =>
    let next := pass order roles
    if next = roles then roles else saturate order limit next

/-- The roles that a user has, in no particular order. -/
def impliedRoles (s : RoleStore) (user : String) : List String :=
  saturate s.byName.entries s.byName.size [user, anyone]

/-- The roles that a user has: its own first, then the groups by name.  Only users and groups
can be authorized.  The role that everyone has is not listed. -/
def authorization (s : RoleStore) (user : String) : Option (List String) :=
  match s.get? user with
  | none => none
  | some e =>
    if e.isUser then
      let roles := s.impliedRoles user
      some (user :: (s.byName.keys.filter fun name =>
        roles.contains name && name != user && name != anyone))
    else none

end RoleStore
end FrameworkAdmin
