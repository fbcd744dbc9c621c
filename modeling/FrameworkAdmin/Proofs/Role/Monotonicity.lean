/-
# What an authorization gains and loses

A member more or less in one group can change what is implied in every group that it is nested in, however
deep.  Which way it changes can be told from the group alone.

* One more basic member implies no less (`Eases`, from the store before to the store after).
* One more **required** member implies no more: it is the store before that is the easier one.
* Properties, credentials and new roles make no difference, in either direction.  A new role is in no
  group, and a new group has no basic member, so that nothing can imply it.

`Eases` compares two stores group by group, and the least closed sets follow (`Eases.closure_subset`).  So
the computation of these sets does not have to be looked at again.
-/
import FrameworkAdmin.Proofs.Role.Integrity

namespace FrameworkAdmin
namespace RoleStore

variable {s t : RoleStore} {start : Set String} {user : String} {e : RoleEntry}

/-! ## 1. Comparing stores -/

/-- Each group of `s` that anything can imply is a group of `t` that is implied no later: it has at least
the basic members there, and at most the required ones. -/
def Eases (s t : RoleStore) : Prop :=
  ∀ n e, s.get? n = some e → e.isGroup = true → e.members ≠ [] →
    ∃ f, t.get? n = some f ∧ f.isGroup = true ∧ e.members ⊆ f.members ∧
      f.requiredMembers ⊆ e.requiredMembers

/-- Each role of `s` is a role of `t` and of the same kind. -/
def Retains (s t : RoleStore) : Prop :=
  ∀ n e, s.get? n = some e → ∃ f, t.get? n = some f ∧ f.kind = e.kind

/-- **What is implied in a store is implied in an easier one.** -/
theorem Eases.closure_subset (h : s.Eases t) : s.closure start ⊆ t.closure start := by
  intro n hn
  refine hn _ ⟨(t.closed_closure start).start_subset, ?_⟩
  rintro name e hget hgroup hrequired ⟨m, hm, hmem⟩
  obtain ⟨f, hf, hfgroup, hbasic, hfewer⟩ := h name e hget hgroup (List.ne_nil_of_mem hm)
  refine (t.closed_closure start).group_mem hf hfgroup (fun r hr => ?_) ⟨m, hbasic hm, hmem⟩
  exact hrequired r (hfewer hr)

theorem Eases.authorization_subset (h : s.Eases t) {before after : List String}
    (hbefore : s.authorization user = some before) (hafter : t.authorization user = some after) :
    before ⊆ after := by
  obtain ⟨-, groups, rfl, -, hgroups⟩ := authorization_eq_some_iff.1 hbefore
  obtain ⟨-, groups', rfl, -, hgroups'⟩ := authorization_eq_some_iff.1 hafter
  refine List.cons_subset_cons user fun n hn => ?_
  obtain ⟨hmem, hne⟩ := (hgroups n).1 hn
  exact (hgroups' n).2 ⟨h.closure_subset hmem, hne⟩

/-- **Stores that are each easier than the other authorize alike.** -/
theorem Eases.authorization_eq (hst : s.Eases t) (hts : t.Eases s) (hretains : s.Retains t)
    (hget : s.get? user = some e) (hkind : e.kind ≠ .role) :
    t.authorization user = s.authorization user := by
  obtain ⟨f, hf, hsame⟩ := hretains user e hget
  obtain ⟨roles, hroles⟩ := exists_authorization hget hkind
  obtain ⟨-, groups, rfl, hascending, hgroups⟩ := authorization_eq_some_iff.1 hroles
  rw [hroles, authorization_eq_some_iff]
  refine ⟨⟨f, hf, hsame ▸ hkind⟩, groups, rfl, hascending, fun n => ?_⟩
  rw [hgroups, hst.closure_subset.antisymm hts.closure_subset]

theorem eases_refl (s : RoleStore) : s.Eases s := fun _ e hget hgroup _ =>
  ⟨e, hget, hgroup, List.Subset.refl _, List.Subset.refl _⟩

theorem retains_refl (s : RoleStore) : s.Retains s := fun _ e hget => ⟨e, hget, rfl⟩

/-! ## 2. Changing an entry -/

section Modify

variable {n : String} {f : RoleEntry → RoleEntry}

/-- An entry that is changed, and where it is found. -/
theorem get?_modify_cases (s : RoleStore) (n : String) (f : RoleEntry → RoleEntry) (x : String) :
    (s.modify n f).2.get? x = if x = n then (s.get? x).map f else s.get? x := by
  cases hget : s.get? n with
  | none =>
    have hstore : (s.modify n f).2 = s := by simp only [modify, hget]
    rw [hstore]
    split
    · rename_i hx
      rw [hx, hget]
      rfl
    · rfl
  | some e =>
    rw [get?_modify hget]
    split
    · rename_i hx
      rw [hx, hget]
      rfl
    · rfl

theorem retains_modify (hkind : ∀ e, (f e).kind = e.kind) : s.Retains (s.modify n f).2 := by
  intro x e hget
  rw [get?_modify_cases]
  split
  · exact ⟨f e, by rw [hget]; rfl, hkind e⟩
  · exact ⟨e, hget, rfl⟩

/-- More basic members and fewer required ones make a group easier. -/
theorem eases_modify (hkind : ∀ e, (f e).kind = e.kind) (hbasic : ∀ e, e.members ⊆ (f e).members)
    (hrequired : ∀ e, (f e).requiredMembers ⊆ e.requiredMembers) : s.Eases (s.modify n f).2 := by
  intro x e hget hgroup _
  rw [get?_modify_cases]
  split
  · refine ⟨f e, by rw [hget]; rfl, ?_, hbasic e, hrequired e⟩
    rw [RoleEntry.isGroup_iff, hkind]
    exact RoleEntry.isGroup_iff.1 hgroup
  · exact ⟨e, hget, hgroup, List.Subset.refl _, List.Subset.refl _⟩

/-- Fewer basic members and more required ones make it harder. -/
theorem modify_eases (hkind : ∀ e, (f e).kind = e.kind) (hbasic : ∀ e, (f e).members ⊆ e.members)
    (hrequired : ∀ e, e.requiredMembers ⊆ (f e).requiredMembers) : (s.modify n f).2.Eases s := by
  intro x e hget hgroup _
  rw [get?_modify_cases] at hget
  split at hget
  · obtain ⟨g, hg, rfl⟩ := Option.map_eq_some_iff.1 hget
    refine ⟨g, hg, ?_, hbasic g, hrequired g⟩
    rw [RoleEntry.isGroup_iff, ← hkind]
    exact RoleEntry.isGroup_iff.1 hgroup
  · exact ⟨e, hget, hgroup, List.Subset.refl _, List.Subset.refl _⟩

end Modify

/-! ## 3. Adding members -/

/-- Adding a member changes the entry of the group or nothing. -/
theorem store_addMember (s : RoleStore) (sort : Membership) (group name : String) :
    ((Request.addMember sort group name).run s).2 = s ∨
      ((Request.addMember sort group name).run s).2 = (s.modify group (sort.append name)).2 := by
  rw [Request.run, addMember]
  split
  · exact Or.inl rfl
  · split
    · exact Or.inl rfl
    · split
      · exact Or.inl rfl
      · exact Or.inr rfl

theorem kind_append (sort : Membership) (name : String) (e : RoleEntry) :
    (sort.append name e).kind = e.kind := by
  cases sort <;> rfl

theorem retains_addMember (s : RoleStore) (sort : Membership) (group name : String) :
    s.Retains ((Request.addMember sort group name).run s).2 := by
  rcases s.store_addMember sort group name with hsame | hmodify
  · rw [hsame]
    exact s.retains_refl
  · rw [hmodify]
    exact retains_modify (kind_append sort name)

theorem eases_addMember_basic (s : RoleStore) (group name : String) :
    s.Eases ((Request.addMember .basic group name).run s).2 := by
  rcases s.store_addMember .basic group name with hsame | hmodify
  · rw [hsame]
    exact s.eases_refl
  · rw [hmodify]
    exact eases_modify (kind_append .basic name) (fun e => List.subset_append_left _ _)
      fun e => List.Subset.refl _

theorem addMember_required_eases (s : RoleStore) (group name : String) :
    ((Request.addMember .required group name).run s).2.Eases s := by
  rcases s.store_addMember .required group name with hsame | hmodify
  · rw [hsame]
    exact s.eases_refl
  · rw [hmodify]
    exact modify_eases (kind_append .required name) (fun e => List.Subset.refl _)
      fun e => List.subset_append_left _ _

/-! ## 4. Leaving memberships alone -/

/-- The operation can change who is a member of what. -/
def Request.Regroups : Request → Prop
  | .addMember _ _ _ | .removeMember _ _ | .remove _ => True
  | _ => False

/-- The ways of changing a store without changing who is a member of what. -/
inductive Spared (s : RoleStore) : RoleStore → Prop
  | unchanged : Spared s s
  | modify (n : String) (f : RoleEntry → RoleEntry)
      (hf : ∀ e, (f e).kind = e.kind ∧ (f e).members = e.members ∧
        (f e).requiredMembers = e.requiredMembers) : Spared s (s.modify n f).2
  | create {n : String} (hfree : s.get? n = none) (kind : RoleKind) : Spared s (s.create n kind).2

theorem spared_reply {α : Type} {f : α → Reply} {o : Outcome RoleStore α} (h : Spared s o.2) :
    Spared s (reply f o).2 := by
  obtain ⟨a | refusal, u⟩ := o
  · exact h
  · exact h

theorem spared_run {r : Request} (h : ¬ r.Regroups) : Spared s (r.run s).2 := by
  cases r with
  | addMember _ _ _ | removeMember _ _ | remove _ => exact absurd trivial h
  | addCredential key v name =>
    refine spared_reply ?_
    rw [addCredential]
    split
    · exact .unchanged
    · exact .modify _ _ fun e => ⟨rfl, rfl, rfl⟩
  | addProperty key v name =>
    refine spared_reply ?_
    rw [addProperty]
    split
    · exact .unchanged
    · exact .modify _ _ fun e => ⟨rfl, rfl, rfl⟩
  | removeCredential key name =>
    refine spared_reply ?_
    unfold removeCredential
    split
    · exact .modify _ _ fun e => ⟨rfl, rfl, rfl⟩
    · exact .unchanged
    · exact .unchanged
  | removeProperty key name => exact .modify _ _ fun e => ⟨rfl, rfl, rfl⟩
  | create name kind =>
    cases hget : s.get? name with
    | none => exact .create hget kind
    | some e =>
      rw [Request.run, create_of_some hget]
      exact .unchanged
  | nameWith key value => exact .unchanged
  | _ => exact spared_reply .unchanged

theorem Spared.retains (h : Spared s t) : s.Retains t := by
  cases h with
  | unchanged => exact s.retains_refl
  | modify n f hf => exact retains_modify fun e => (hf e).1
  | create hfree kind =>
    intro x e hget
    refine ⟨e, ?_, rfl⟩
    rw [get?_create hfree, if_neg fun hx => by simp [hx, hfree] at hget]
    exact hget

theorem Spared.eases (h : Spared s t) : s.Eases t := by
  cases h with
  | unchanged => exact s.eases_refl
  | modify n f hf =>
    refine eases_modify (fun e => (hf e).1) (fun e => ?_) fun e => ?_
    · rw [(hf e).2.1]
      exact List.Subset.refl _
    · rw [(hf e).2.2]
      exact List.Subset.refl _
  | create hfree kind =>
    intro x e hget hgroup _
    refine ⟨e, ?_, hgroup, List.Subset.refl _, List.Subset.refl _⟩
    rw [get?_create hfree, if_neg fun hx => by simp [hx, hfree] at hget]
    exact hget

/-- The new entry is the one that has no counterpart, and nothing can imply it. -/
theorem Spared.eased (h : Spared s t) : t.Eases s := by
  cases h with
  | unchanged => exact s.eases_refl
  | modify n f hf =>
    refine modify_eases (fun e => (hf e).1) (fun e => ?_) fun e => ?_
    · rw [(hf e).2.1]
      exact List.Subset.refl _
    · rw [(hf e).2.2]
      exact List.Subset.refl _
  | create hfree kind =>
    intro x e hget hgroup hbasic
    rw [get?_create hfree] at hget
    split at hget
    · cases hget
      exact absurd rfl hbasic
    · exact ⟨e, hget, hgroup, List.Subset.refl _, List.Subset.refl _⟩

/-! ## 5. Authorizations -/

theorem authorizationRecord_eq (hget : s.get? user = some e) (hkind : e.kind ≠ .role)
    {roles : List String} (hroles : s.authorization user = some roles) :
    s.authorizationRecord user = .ok ⟨user, roles⟩ := by
  have huser : s.findUser user = .ok e := by
    rw [findUser, hget]
    exact if_pos (RoleEntry.isUser_iff.2 hkind)
  simp only [authorizationRecord, huser, hroles]

/-- The authorization of a user is there after an operation that keeps the user. -/
theorem Retains.exists_record (h : s.Retains t) (hget : s.get? user = some e)
    (hkind : e.kind ≠ .role) :
    ∃ roles, t.authorization user = some roles ∧ t.authorizationRecord user = .ok ⟨user, roles⟩ := by
  obtain ⟨f, hf, hsame⟩ := h user e hget
  obtain ⟨roles, hroles⟩ := exists_authorization hf (hsame ▸ hkind)
  exact ⟨roles, hroles, authorizationRecord_eq hf (hsame ▸ hkind) hroles⟩

/-- **A basic member more takes no role from any user, a required member more gives none to any**, and
operations that leave the memberships alone make no difference to any authorization. -/
theorem authorization_monotone (hget : s.get? user = some e) (hkind : e.kind ≠ .role) :
    ∃ before, s.authorizationRecord user = .ok ⟨user, before⟩ ∧
      (∀ group name, ∃ after,
        ((Request.addMember .basic group name).run s).2.authorizationRecord user =
          .ok ⟨user, after⟩ ∧ before ⊆ after) ∧
      (∀ group name, ∃ after,
        ((Request.addMember .required group name).run s).2.authorizationRecord user =
          .ok ⟨user, after⟩ ∧ after ⊆ before) ∧
      ∀ r : Request, ¬ r.Regroups →
        (r.run s).2.authorizationRecord user = .ok ⟨user, before⟩ := by
  obtain ⟨before, hbefore, hrecord⟩ := s.retains_refl.exists_record hget hkind
  refine ⟨before, hrecord, fun group name => ?_, fun group name => ?_, fun r hr => ?_⟩
  · obtain ⟨after, hafter, hrecord'⟩ :=
      (s.retains_addMember .basic group name).exists_record hget hkind
    exact ⟨after, hrecord', (s.eases_addMember_basic group name).authorization_subset hbefore hafter⟩
  · obtain ⟨after, hafter, hrecord'⟩ :=
      (s.retains_addMember .required group name).exists_record hget hkind
    exact ⟨after, hrecord', (s.addMember_required_eases group name).authorization_subset hafter hbefore⟩
  · have hspared : Spared s (r.run s).2 := spared_run hr
    obtain ⟨after, hafter, hrecord'⟩ := hspared.retains.exists_record hget hkind
    have hsame := hspared.eases.authorization_eq hspared.eased hspared.retains hget hkind
    rw [hafter, hbefore, Option.some.injEq] at hsame
    rwa [hsame] at hrecord'

/-- A store with groups inside each other, the outermost of which requires one of the others. -/
def nested : RoleStore := initial.after [
  .create "alice" .user, .create "staff" .group, .create "leads" .group, .create "board" .group,
  .addMember .basic "leads" "staff", .addMember .basic "board" "leads",
  .addMember .required "board" "staff"]

theorem authorization_monotone_nested :
    nested.get? "alice" = some (.blank .user) ∧ (RoleEntry.blank .user).kind ≠ .role ∧
    ∃ before, nested.authorizationRecord "alice" = .ok ⟨"alice", before⟩ ∧
      (∀ group name, ∃ after,
        ((Request.addMember .basic group name).run nested).2.authorizationRecord "alice" =
          .ok ⟨"alice", after⟩ ∧ before ⊆ after) ∧
      (∀ group name, ∃ after,
        ((Request.addMember .required group name).run nested).2.authorizationRecord "alice" =
          .ok ⟨"alice", after⟩ ∧ after ⊆ before) ∧
      ∀ r : Request, ¬ r.Regroups →
        (r.run nested).2.authorizationRecord "alice" = .ok ⟨"alice", before⟩ := by
  have hget : nested.get? "alice" = some (.blank .user) := rfl
  have hkind : (RoleEntry.blank .user).kind ≠ .role := by decide
  exact ⟨hget, hkind, authorization_monotone hget hkind⟩

/-- One member more in the inner group, and both are implied. -/
example : (initial.after [.create "alice" .user, .create "staff" .group, .create "leads" .group,
    .addMember .basic "leads" "staff", .addMember .basic "staff" "alice"]).authorization "alice" =
      some ["alice", "leads", "staff"] := rfl

end RoleStore
end FrameworkAdmin
