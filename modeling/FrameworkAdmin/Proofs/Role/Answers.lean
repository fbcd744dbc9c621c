/-
# Operations on roles answer truthfully

Two things can be read off an answer.

**Whether the store has changed.**  Four operations answer with a truth value.  It is `true` exactly when
the store is another one afterwards, and then `Request.Makes` says which: every entry of it, and on what
condition.  Any other answer of these operations, and every refusal of any operation, comes with the
store as it was.

**Why the operation was refused.**  Most operations are about one role, which has to be of some kind
(`Request.subject?`).  If it is there and is not of this kind, the operation is refused for that.  If it
is not there, the operation is refused for that, unless it has an answer for this case
(`Request.whenAbsent?`).  What remains are faults in a text.

Nothing here depends on how the store came about.
-/
import FrameworkAdmin.Proofs.Refusal
import FrameworkAdmin.Proofs.Role.Integrity

namespace FrameworkAdmin
namespace RoleStore

variable {s t : RoleStore} {r : Request} {name : String} {e : RoleEntry}

/-- **Stores with the same entries under the same names are equal.** -/
theorem ext_get? (h : ∀ n, s.get? n = t.get? n) : s = t := by
  obtain ⟨m⟩ := s
  obtain ⟨n⟩ := t
  exact congrArg mk (SortedMap.ext_get? h)

/-! ## 1. Whether the store has changed -/

/-- The operation answers with a truth value. -/
def Request.Tells : Request → Prop
  | .create _ _ | .remove _ | .addMember _ _ _ | .removeMember _ _ => True
  | _ => False

/-- The change that an operation announces by `true`: when it is made, and what is under each name
afterwards. -/
def Request.Makes (s t : RoleStore) : Request → Prop
  | .create name kind =>
    s.get? name = none ∧ ∀ x, t.get? x = if x = name then some (.blank kind) else s.get? x
  | .remove name =>
    (name ≠ anyone ∧ (s.get? name).isSome = true) ∧
      ∀ x, t.get? x = if x = name then none else
        (s.get? x).map fun e => if e.isGroup then e.withoutMember name else e
  | .addMember sort group name =>
    ∃ e, s.get? group = some e ∧
      (e.kind = .group ∧ (s.get? name).isSome = true ∧ name ∉ sort.of e) ∧
      ∀ x, t.get? x = if x = group then some (sort.append name e) else s.get? x
  | .removeMember group name =>
    ∃ e, s.get? group = some e ∧
      (e.kind = .group ∧ (name ∈ e.members ∨ name ∈ e.requiredMembers)) ∧
      ∀ x, t.get? x = if x = group then some (e.withoutMember name) else s.get? x
  | _ => False

/-- An outcome that is `true` and has this view on a condition, and otherwise is not `true` and leaves
the store as it was. -/
structure Told (s : RoleStore) (condition : Prop) (view : String → Option RoleEntry)
    (o : Outcome RoleStore Reply) : Prop where
  yes : condition → o.1 = .ok (.truth true) ∧ ∀ x, o.2.get? x = view x
  no : ¬ condition → o.1 ≠ .ok (.truth true) ∧ o.2 = s

namespace Told

variable {condition : Prop} {view : String → Option RoleEntry} {o : Outcome RoleStore Reply}

theorem eq_true_iff (h : s.Told condition view o) :
    o = (.ok (.truth true), t) ↔ condition ∧ ∀ x, t.get? x = view x := by
  constructor
  · rintro rfl
    by_cases hcondition : condition
    · exact ⟨hcondition, (h.yes hcondition).2⟩
    · exact absurd rfl (h.no hcondition).1
  · rintro ⟨hcondition, hview⟩
    obtain ⟨htrue, hstore⟩ := h.yes hcondition
    exact Prod.ext htrue (ext_get? fun x => (hstore x).trans (hview x).symm)

theorem store_eq (h : s.Told condition view o) (hfalse : o.1 ≠ .ok (.truth true)) : o.2 = s := by
  by_cases hcondition : condition
  · exact absurd (h.yes hcondition).1 hfalse
  · exact (h.no hcondition).2

end Told

theorem isSome_iff_contains : (s.get? name).isSome = true ↔ s.byName.contains name = true := Iff.rfl

/-- Changing an entry to what it is already changes nothing. -/
theorem modify_eq_self {f : RoleEntry → RoleEntry} (hget : s.get? name = some e) (hf : f e = e) :
    (s.modify name f).2 = s := by
  refine ext_get? fun x => ?_
  rw [get?_modify hget, hf]
  split
  · rename_i hx
    rw [hx, hget]
  · rfl

theorem told_create (s : RoleStore) (name : String) (kind : RoleKind) :
    s.Told (s.get? name = none) (fun x => if x = name then some (.blank kind) else s.get? x)
      ((Request.create name kind).run s) where
  yes := fun hfree => ⟨by simp only [Request.run, create_fst hfree], get?_create hfree kind⟩
  no := fun htaken => by
    obtain ⟨e, hget⟩ := Option.ne_none_iff_exists'.1 htaken
    simp [Request.run, create_of_some hget]

theorem told_remove (s : RoleStore) (name : String) :
    s.Told (name ≠ anyone ∧ (s.get? name).isSome = true)
      (fun x => if x = name then none else
        (s.get? x).map fun e => if e.isGroup then e.withoutMember name else e)
      ((Request.remove name).run s) where
  yes := fun ⟨hname, hthere⟩ => by
    obtain ⟨e, hget⟩ := Option.isSome_iff_exists.1 hthere
    refine ⟨?_, get?_remove hname hget⟩
    simp [Request.run, remove, hname, isSome_iff_contains.1 hthere]
  no := fun hnot => by
    have hkept : name = anyone ∨ s.byName.contains name = false := by
      by_cases hname : name = anyone
      · exact Or.inl hname
      · exact Or.inr (Bool.eq_false_iff.2 fun hthere => hnot ⟨hname, hthere⟩)
    simp [Request.run, remove, hkept]

theorem told_addMember (sort : Membership) {group : String} (hget : s.get? group = some e)
    (name : String) :
    s.Told (e.kind = .group ∧ (s.get? name).isSome = true ∧ name ∉ sort.of e)
      (fun x => if x = group then some (sort.append name e) else s.get? x)
      ((Request.addMember sort group name).run s) where
  yes := fun ⟨hkind, hthere, hnew⟩ => by
    have hrun : s.addMember sort group name = (.ok true, (s.modify group (sort.append name)).2) := by
      simp [addMember, hget, RoleEntry.isGroup, hkind, Option.isSome_iff_ne_none.1 hthere, hnew]
    rw [Request.run, hrun]
    exact ⟨rfl, get?_modify hget _⟩
  no := fun hnot => by
    rw [Request.run, addMember, hget]
    dsimp only
    split
    · exact ⟨by simp [reply], rfl⟩
    · rename_i hgroup
      split
      · exact ⟨by simp [reply], rfl⟩
      · rename_i hnew
        simp only [Bool.or_eq_true, not_or, Bool.not_eq_true, Option.isNone_eq_false_iff] at hnew
        have hkind : e.kind = .group := RoleEntry.isGroup_iff.1 (by simpa using hgroup)
        exact absurd ⟨hkind, hnew.1, by simpa using hnew.2⟩ hnot

/-- Taking out a name that is not listed changes nothing. -/
theorem withoutMember_eq_self (hbasic : name ∉ e.members) (hrequired : name ∉ e.requiredMembers) :
    e.withoutMember name = e := by
  have hkeep : ∀ {l : List String}, name ∉ l → l.filter (· != name) = l := by
    intro l hl
    exact List.filter_eq_self.2 fun m hm => bne_iff_ne.2 fun heq => hl (heq ▸ hm)
  rw [RoleEntry.withoutMember, hkeep hbasic, hkeep hrequired]

theorem told_removeMember {group : String} (hget : s.get? group = some e) (name : String) :
    s.Told (e.kind = .group ∧ (name ∈ e.members ∨ name ∈ e.requiredMembers))
      (fun x => if x = group then some (e.withoutMember name) else s.get? x)
      ((Request.removeMember group name).run s) := by
  by_cases hkind : e.kind = .group
  · have hfind : s.findGroup group = .ok e := by
      rw [findGroup, hget]
      exact if_pos (RoleEntry.isGroup_iff.2 hkind)
    have hrun : s.removeMember group name =
        (.ok (e.members.contains name || e.requiredMembers.contains name),
          (s.modify group (·.withoutMember name)).2) := by
      rw [removeMember, hfind]
    rw [Request.run, hrun]
    constructor
    · rintro ⟨-, hlisted⟩
      exact ⟨by simpa [reply] using hlisted, get?_modify hget _⟩
    · intro hnot
      have hunlisted : name ∉ e.members ∧ name ∉ e.requiredMembers :=
        not_or.1 fun hlisted => hnot ⟨hkind, hlisted⟩
      refine ⟨by simpa [reply] using hunlisted, ?_⟩
      exact modify_eq_self hget (withoutMember_eq_self hunlisted.1 hunlisted.2)
  · have hfind : s.findGroup group = .error (.notAGroup group) := by
      rw [findGroup, hget]
      exact if_neg fun hgroup => hkind (RoleEntry.isGroup_iff.1 hgroup)
    rw [Request.run, removeMember, hfind]
    exact ⟨fun h => absurd h.1 hkind, fun _ => ⟨by simp [reply], rfl⟩⟩

theorem exists_of_reply_eq_ok {α : Type} {f : α → Reply} {o : Outcome RoleStore α} {answer : Reply}
    (h : reply f o = (.ok answer, t)) : ∃ a, f a = answer := by
  obtain ⟨a | refusal, u⟩ := o
  · cases h
  · cases h
    exact ⟨_, rfl⟩

/-- The other operations give answers of other sorts. -/
theorem tells_of_run_eq_truth {b : Bool} (h : r.run s = (.ok (.truth b), t)) : r.Tells := by
  cases r with
  | create name kind => trivial
  | remove name => trivial
  | addMember sort group name => trivial
  | removeMember group name => trivial
  | removeProperty key name => cases h
  | nameWith key value => cases h
  | _ =>
    obtain ⟨a, ha⟩ := exists_of_reply_eq_ok h
    cases ha

/-- The group that is looked for first is missing, so there is nothing to add to or remove from. -/
theorem run_addMember_of_none (sort : Membership) {group : String} (hget : s.get? group = none)
    (name : String) : (Request.addMember sort group name).run s = (.ok (.truth false), s) := by
  simp only [Request.run, addMember, hget, reply]

theorem run_removeMember_of_none {group : String} (hget : s.get? group = none) (name : String) :
    (Request.removeMember group name).run s = (.ok (.truth false), s) := by
  simp only [Request.run, removeMember, findGroup, hget, reply]

/-- **An operation answers `true` exactly when it makes its change.** -/
theorem run_eq_true_iff : r.run s = (.ok (.truth true), t) ↔ r.Makes s t := by
  cases r with
  | create name kind => exact (s.told_create name kind).eq_true_iff
  | remove name => exact (s.told_remove name).eq_true_iff
  | addMember sort group name =>
    cases hget : s.get? group with
    | none =>
      rw [run_addMember_of_none sort hget]
      simp [Request.Makes, hget]
    | some e =>
      rw [(told_addMember sort hget name).eq_true_iff]
      simp [Request.Makes, hget]
  | removeMember group name =>
    cases hget : s.get? group with
    | none =>
      rw [run_removeMember_of_none hget]
      simp [Request.Makes, hget]
    | some e =>
      rw [(told_removeMember hget name).eq_true_iff]
      simp [Request.Makes, hget]
  | _ => exact ⟨tells_of_run_eq_truth, False.elim⟩

/-- An operation that could have answered `true` and has not leaves the store as it was. -/
theorem store_eq_of_ne_true (htells : r.Tells) (h : (r.run s).1 ≠ .ok (.truth true)) :
    (r.run s).2 = s := by
  cases r with
  | create name kind => exact (s.told_create name kind).store_eq h
  | remove name => exact (s.told_remove name).store_eq h
  | addMember sort group name =>
    cases hget : s.get? group with
    | none => rw [run_addMember_of_none sort hget]
    | some e => exact (told_addMember sort hget name).store_eq h
  | removeMember group name =>
    cases hget : s.get? group with
    | none => rw [run_removeMember_of_none hget]
    | some e => exact (told_removeMember hget name).store_eq h
  | _ => exact htells.elim

/-- Each of the changes can be seen. -/
theorem Request.Makes.ne (h : r.Makes s t) : t ≠ s := by
  rintro rfl
  cases r with
  | create name kind =>
    obtain ⟨hfree, hview⟩ := h
    have hself := hview name
    rw [hfree, if_pos rfl] at hself
    cases hself
  | remove name =>
    obtain ⟨⟨-, hthere⟩, hview⟩ := h
    have hself := hview name
    rw [if_pos rfl] at hself
    rw [hself] at hthere
    cases hthere
  | addMember sort group name =>
    obtain ⟨e, hget, ⟨-, -, hnew⟩, hview⟩ := h
    have hself := hview group
    rw [hget, if_pos rfl, Option.some.injEq] at hself
    rw [hself] at hnew
    cases sort <;> simp [Membership.of, Membership.append] at hnew
  | removeMember group name =>
    obtain ⟨e, hget, ⟨-, hlisted⟩, hview⟩ := h
    have hself := hview group
    rw [hget, if_pos rfl, Option.some.injEq] at hself
    rw [hself] at hlisted
    simp [RoleEntry.withoutMember] at hlisted
  | _ => exact h.elim

/-! ## 2. Why an operation is refused -/

/-- What the role has to be that an operation is about. -/
inductive Need where
  | role
  | user
  | group

/-- The role that the operation is about, and what it has to be.  Making and removing a role is not about
one that has to be there, and neither is listing them. -/
def Request.subject? : Request → Option (Need × String)
  | .addProperty _ _ name | .removeProperty _ name | .impliedRolesOf name | .propertiesOf name
  | .roleRecord name => some (.role, name)
  | .addCredential _ _ name | .removeCredential _ name | .authorizationRecord name
  | .credentialsOf name | .userRecord name => some (.user, name)
  | .addMember _ group _ | .removeMember group _ | .membersOf group | .requiredMembersOf group
  | .groupRecord group => some (.group, group)
  | .create _ _ | .remove _ | .namesOf _ _ | .nameWith _ _ => none

/-- What the operation answers where the role does not exist, if it answers then. -/
def Request.whenAbsent? : Request → Option Reply
  | .roleRecord _ => some (.role none)
  | .userRecord _ => some (.user none)
  | .groupRecord _ => some (.group none)
  | .propertiesOf _ => some (.table none)
  | .addMember _ _ _ | .removeMember _ _ => some (.truth false)
  | .removeCredential _ _ | .removeProperty _ _ => some .done
  | _ => none

/-- The outcome is an answer, or a fault in a text that leaves the store as it was. -/
def Answered (s : RoleStore) (o : Outcome RoleStore Reply) : Prop :=
  ∀ refusal t, o = (.error refusal, t) → t = s ∧ refusal.OfText

theorem answered_ok (answer : Reply) (t : RoleStore) : s.Answered (.ok answer, t) := by
  intro refusal u h
  cases h

/-- Looking something up leaves the store as it was anyway. -/
theorem answered_reply {α : Type} (f : α → Reply) {x : Except Refusal α}
    (h : ∀ refusal, x = .error refusal → refusal.OfText) : s.Answered (reply f (x, s)) := by
  intro refusal t heq
  cases x with
  | ok a => cases heq
  | error refusal' =>
    cases heq
    exact ⟨rfl, h _ rfl⟩

theorem ofText_of_encoded {α : Type} {x : Except Fault α} {refusal : Refusal}
    (h : encoded x = .error refusal) : refusal.OfText := by
  cases x with
  | ok a => cases h
  | error fault =>
    cases h
    exact Refusal.ofText_codec fault

/-- **An operation about a role that is not there.** -/
theorem run_of_absent {need : Need} (hsubject : r.subject? = some (need, name))
    (hget : s.get? name = none) :
    r.run s = (match r.whenAbsent? with
      | some answer => .ok answer
      | none => .error (.roleNotFound name), s) := by
  have hfind : s.find name = .error (.roleNotFound name) := by rw [find, hget]
  have huser : s.findUser name = .error (.roleNotFound name) := by rw [findUser, hget]
  have hgroup : s.findGroup name = .error (.roleNotFound name) := by rw [findGroup, hget]
  cases r with
  | create _ _ | remove _ | namesOf _ _ | nameWith _ _ => cases hsubject
  | addMember sort group member =>
    cases hsubject
    exact run_addMember_of_none sort hget member
  | removeMember group member =>
    cases hsubject
    exact run_removeMember_of_none hget member
  | removeProperty key name =>
    cases hsubject
    simp only [Request.run, removeProperty, modify, hget, Request.whenAbsent?]
  | addProperty _ _ _ | impliedRolesOf _ =>
    cases hsubject
    simp only [Request.run, addProperty, impliedRolesOf, hfind, reply, Request.whenAbsent?]
  | addCredential _ _ _ | removeCredential _ _ | authorizationRecord _ | credentialsOf _ =>
    cases hsubject
    simp only [Request.run, addCredential, removeCredential, authorizationRecord, credentialsOf, huser,
      reply, Request.whenAbsent?]
  | membersOf _ | requiredMembersOf _ =>
    cases hsubject
    simp only [Request.run, membersOf, requiredMembersOf, hgroup, Except.map, reply,
      Request.whenAbsent?]
  | propertiesOf _ | roleRecord _ | userRecord _ | groupRecord _ =>
    cases hsubject
    simp only [Request.run, propertiesOf, roleRecord, userRecord, groupRecord, hget, reply,
      Request.whenAbsent?]

/-- **An operation about a role that is no user, where it has to be one.** -/
theorem run_of_not_user (hsubject : r.subject? = some (.user, name)) (hget : s.get? name = some e)
    (hkind : e.kind = .role) : r.run s = (.error (.notAUser name), s) := by
  have hno : ¬ e.isUser = true := fun huser => RoleEntry.isUser_iff.1 huser hkind
  have huser : s.findUser name = .error (.notAUser name) := by
    rw [findUser, hget]
    exact if_neg hno
  cases r with
  | addCredential _ _ _ | removeCredential _ _ | authorizationRecord _ | credentialsOf _ =>
    cases hsubject
    simp only [Request.run, addCredential, removeCredential, authorizationRecord, credentialsOf, huser,
      reply]
  | userRecord _ =>
    cases hsubject
    simp only [Request.run, userRecord, hget, if_neg hno, reply]
  | _ => cases hsubject

/-- **An operation about a role that is no group, where it has to be one.** -/
theorem run_of_not_group (hsubject : r.subject? = some (.group, name)) (hget : s.get? name = some e)
    (hkind : e.kind ≠ .group) : r.run s = (.error (.notAGroup name), s) := by
  have hno : e.isGroup = false := Bool.eq_false_iff.2 fun hgroup => hkind (RoleEntry.isGroup_iff.1 hgroup)
  have hgroup : s.findGroup name = .error (.notAGroup name) := by
    rw [findGroup, hget]
    exact if_neg (Bool.eq_false_iff.1 hno)
  cases r with
  | addMember sort group member =>
    cases hsubject
    simp only [Request.run, addMember, hget, if_pos hno, reply]
  | removeMember _ _ | membersOf _ | requiredMembersOf _ =>
    cases hsubject
    simp only [Request.run, removeMember, membersOf, requiredMembersOf, hgroup, Except.map, reply]
  | groupRecord _ =>
    cases hsubject
    simp only [Request.run, groupRecord, hget, if_neg (Bool.eq_false_iff.1 hno), reply]
  | _ => cases hsubject

/-- An operation about a role that may be of any kind fails at most on a text. -/
theorem answered_of_role (hsubject : r.subject? = some (.role, name)) (hget : s.get? name = some e) :
    s.Answered (r.run s) := by
  have hfind : s.find name = .ok e := by rw [find, hget]
  cases r with
  | removeProperty key name => exact answered_ok _ _
  | addProperty _ _ _ | impliedRolesOf _ =>
    cases hsubject
    simp only [Request.run, addProperty, impliedRolesOf, hfind, reply]
    exact answered_ok _ _
  | propertiesOf name =>
    cases hsubject
    refine answered_reply _ fun refusal h => ?_
    rw [propertiesOf, hget] at h
    dsimp only at h
    split at h
    · cases h
    · cases h
      exact Refusal.ofText_codec _
  | roleRecord name =>
    cases hsubject
    refine answered_reply _ fun refusal h => ?_
    rw [roleRecord, hget] at h
    exact ofText_of_encoded h
  | _ => cases hsubject

/-- So does an operation about a user or group, where it has to be one. -/
theorem answered_of_user (hsubject : r.subject? = some (.user, name)) (hget : s.get? name = some e)
    (hkind : e.kind ≠ .role) : s.Answered (r.run s) := by
  have hyes : e.isUser = true := RoleEntry.isUser_iff.2 hkind
  have huser : s.findUser name = .ok e := by
    rw [findUser, hget]
    exact if_pos hyes
  cases r with
  | addCredential _ _ _ | removeCredential _ _ =>
    cases hsubject
    simp only [Request.run, addCredential, removeCredential, huser, reply]
    exact answered_ok _ _
  | authorizationRecord name =>
    cases hsubject
    obtain ⟨roles, hroles⟩ := exists_authorization hget hkind
    simp only [Request.run, authorizationRecord, huser, hroles, reply]
    exact answered_ok _ _
  | credentialsOf name =>
    cases hsubject
    refine answered_reply _ fun refusal h => ?_
    rw [credentialsOf, huser] at h
    dsimp only at h
    split at h
    · cases h
    · cases h
      exact Refusal.ofText_codec _
  | userRecord name =>
    cases hsubject
    refine answered_reply _ fun refusal h => ?_
    rw [userRecord, hget] at h
    dsimp only at h
    rw [if_pos hyes] at h
    exact ofText_of_encoded h
  | _ => cases hsubject

/-- And one about a group. -/
theorem answered_of_group (hsubject : r.subject? = some (.group, name)) (hget : s.get? name = some e)
    (hkind : e.kind = .group) : s.Answered (r.run s) := by
  have hyes : e.isGroup = true := RoleEntry.isGroup_iff.2 hkind
  have hgroup : s.findGroup name = .ok e := by
    rw [findGroup, hget]
    exact if_pos hyes
  cases r with
  | addMember sort group member =>
    cases hsubject
    have hno : ¬ e.isGroup = false := Bool.not_eq_false _ ▸ hyes
    rw [Request.run, addMember, hget]
    dsimp only
    rw [if_neg hno]
    split
    · exact answered_ok _ _
    · exact answered_ok _ _
  | removeMember _ _ | membersOf _ | requiredMembersOf _ =>
    cases hsubject
    simp only [Request.run, removeMember, membersOf, requiredMembersOf, hgroup, Except.map, reply]
    exact answered_ok _ _
  | groupRecord name =>
    cases hsubject
    refine answered_reply _ fun refusal h => ?_
    rw [groupRecord, hget] at h
    dsimp only at h
    rw [if_pos hyes] at h
    exact ofText_of_encoded h
  | _ => cases hsubject

/-- And so does an operation that is about no role. -/
theorem answered_of_no_subject (hsubject : r.subject? = none) : s.Answered (r.run s) := by
  cases r with
  | create _ _ | remove _ | nameWith _ _ => exact answered_ok _ _
  | namesOf filter kind =>
    refine answered_reply _ fun refusal h => ?_
    rw [namesOf] at h
    split at h
    · rename_i refusal' hfilter
      cases h
      exact Or.inr (Refusal.eq_filter_of_readFilter? hfilter)
    · cases h
  | _ => cases hsubject

/-- The reasons why the role that an operation is about does not do. -/
inductive Objection (s : RoleStore) (r : Request) : Refusal → Prop
  | absent {need : Need} {name : String} (hsubject : r.subject? = some (need, name))
      (hget : s.get? name = none) (hanswer : r.whenAbsent? = none) : Objection s r (.roleNotFound name)
  | notAUser {name : String} {e : RoleEntry} (hsubject : r.subject? = some (.user, name))
      (hget : s.get? name = some e) (hkind : e.kind = .role) : Objection s r (.notAUser name)
  | notAGroup {name : String} {e : RoleEntry} (hsubject : r.subject? = some (.group, name))
      (hget : s.get? name = some e) (hkind : e.kind ≠ .group) : Objection s r (.notAGroup name)

theorem Objection.run_eq {refusal : Refusal} (h : s.Objection r refusal) :
    r.run s = (.error refusal, s) := by
  cases h with
  | absent hsubject hget hanswer => rw [run_of_absent hsubject hget, hanswer]
  | notAUser hsubject hget hkind => exact run_of_not_user hsubject hget hkind
  | notAGroup hsubject hget hkind => exact run_of_not_group hsubject hget hkind

/-- **An operation fails on a text, or there is an objection to the role that it is about.** -/
theorem answered_or_objection (s : RoleStore) (r : Request) :
    s.Answered (r.run s) ∨ ∃ refusal, s.Objection r refusal := by
  cases hsubject : r.subject? with
  | none => exact Or.inl (answered_of_no_subject hsubject)
  | some subject =>
    obtain ⟨need, name⟩ := subject
    cases hget : s.get? name with
    | none =>
      cases hanswer : r.whenAbsent? with
      | none => exact Or.inr ⟨_, .absent hsubject hget hanswer⟩
      | some answer =>
        rw [run_of_absent hsubject hget, hanswer]
        exact Or.inl (answered_ok _ _)
    | some e =>
      cases need with
      | role => exact Or.inl (answered_of_role hsubject hget)
      | user =>
        by_cases hkind : e.kind = .role
        · exact Or.inr ⟨_, .notAUser hsubject hget hkind⟩
        · exact Or.inl (answered_of_user hsubject hget hkind)
      | group =>
        by_cases hkind : e.kind = .group
        · exact Or.inl (answered_of_group hsubject hget hkind)
        · exact Or.inr ⟨_, .notAGroup hsubject hget hkind⟩

/-- **A refusal that lies in no text is an objection.** -/
theorem run_eq_error_iff_objection {refusal : Refusal} (hnames : ¬ refusal.OfText) :
    (r.run s).1 = .error refusal ↔ s.Objection r refusal := by
  constructor
  · intro h
    rcases s.answered_or_objection r with hanswered | ⟨other, hother⟩
    · exact absurd (hanswered refusal _ (Prod.ext h rfl)).2 hnames
    · rw [hother.run_eq] at h
      cases h
      exact hother
  · intro h
    rw [h.run_eq]

theorem store_eq_of_refused {refusal : Refusal} (h : r.run s = (.error refusal, t)) : t = s := by
  rcases s.answered_or_objection r with hanswered | ⟨other, hother⟩
  · exact (hanswered refusal t h).1
  · rw [hother.run_eq] at h
    cases h
    rfl

/-! ## 3. Answers -/

/-- **Answers are true, and what fails has no effect.**  A refused operation and one that answers `false`
leave the store as it was.  The operations that make and remove roles and memberships answer `true` if and
only if the store has changed, and `Request.Makes` is then the change, and the condition of it.

The three refusals that concern names are given for exactly the operations that are about a role which is
not there, is no user, or is no group.  Some operations have an answer of their own where there is no such
role. -/
theorem run_truthful (s : RoleStore) (r : Request) :
    (∀ refusal t, r.run s = (.error refusal, t) → t = s) ∧
    (∀ t, r.run s = (.ok (.truth false), t) → t = s) ∧
    (r.Tells → ((r.run s).1 = .ok (.truth true) ↔ (r.run s).2 ≠ s)) ∧
    (∀ t, r.run s = (.ok (.truth true), t) ↔ r.Makes s t) ∧
    (∀ name, (r.run s).1 = .error (.roleNotFound name) ↔
      (∃ need, r.subject? = some (need, name)) ∧ s.get? name = none ∧ r.whenAbsent? = none) ∧
    (∀ name, (r.run s).1 = .error (.notAUser name) ↔
      r.subject? = some (.user, name) ∧ ∃ e, s.get? name = some e ∧ e.kind = .role) ∧
    (∀ name, (r.run s).1 = .error (.notAGroup name) ↔
      r.subject? = some (.group, name) ∧ ∃ e, s.get? name = some e ∧ e.kind ≠ .group) ∧
    ∀ need name answer, r.subject? = some (need, name) → s.get? name = none →
      r.whenAbsent? = some answer → r.run s = (.ok answer, s) := by
  refine ⟨fun refusal t => store_eq_of_refused, ?_, ?_, fun t => run_eq_true_iff, ?_, ?_, ?_, ?_⟩
  · intro t h
    have hstore := store_eq_of_ne_true (tells_of_run_eq_truth h) (by rw [h]; simp)
    rwa [h] at hstore
  · intro htells
    constructor
    · intro htrue
      exact (run_eq_true_iff.1 (Prod.ext htrue rfl)).ne
    · intro hchanged
      by_contra hfalse
      exact hchanged (store_eq_of_ne_true htells hfalse)
  · intro name
    rw [run_eq_error_iff_objection (by simp [Refusal.OfText])]
    constructor
    · intro h
      cases h with
      | absent hsubject hget hanswer => exact ⟨⟨_, hsubject⟩, hget, hanswer⟩
    · rintro ⟨⟨need, hsubject⟩, hget, hanswer⟩
      exact .absent hsubject hget hanswer
  · intro name
    rw [run_eq_error_iff_objection (by simp [Refusal.OfText])]
    constructor
    · intro h
      cases h with
      | notAUser hsubject hget hkind => exact ⟨hsubject, _, hget, hkind⟩
    · rintro ⟨hsubject, e, hget, hkind⟩
      exact .notAUser hsubject hget hkind
  · intro name
    rw [run_eq_error_iff_objection (by simp [Refusal.OfText])]
    constructor
    · intro h
      cases h with
      | notAGroup hsubject hget hkind => exact ⟨hsubject, _, hget, hkind⟩
    · rintro ⟨hsubject, e, hget, hkind⟩
      exact .notAGroup hsubject hget hkind
  · intro need name answer hsubject hget hanswer
    rw [run_of_absent hsubject hget, hanswer]

end RoleStore
end FrameworkAdmin
