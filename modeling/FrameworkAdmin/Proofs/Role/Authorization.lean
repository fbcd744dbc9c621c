/-
# The roles of a user are the least closed set

`Closed` is the rule of authorization as a property of a set of names, and `closure` the least set that
has it.  Two things are to be shown of the computation.

* **It ends.**  A pass over the store that changes the roles so far adds the name of an entry that was
  missing (`pass_eq_self_or_exists`), so there are no more such passes than entries (`pass_saturate`).
* **It ends with the least closed set.**  No pass leaves a closed set that contains the start
  (`mem_of_mem_pass`), and a pass that changes nothing has found every group that is implied
  (`closed_of_pass_eq_self`).

Neither depends on the order in which a pass visits the entries, although a pass sees what it has added
itself: two orders may differ after one pass and not after the last (`isLeast_saturate`).

The least set knows the store only through the kinds of its roles, the required members, and those basic
members that are roles (`SameGroups.closure_eq`).
-/
import Mathlib.Order.Bounds.Basic
import FrameworkAdmin.Proofs.SortedMap
import FrameworkAdmin.Role.Authorization

namespace FrameworkAdmin

/-! ## 1. Closed sets -/

namespace RoleStore

variable {s t : RoleStore} {start S : Set String} {user : String}

/-- A set of names that contains `start` and the name of each group of which it contains all required
members and at least one basic member. -/
structure Closed (s : RoleStore) (start S : Set String) : Prop where
  start_subset : start ⊆ S
  group_mem : ∀ {name : String} {e : RoleEntry}, s.get? name = some e → e.isGroup = true →
    (∀ m ∈ e.requiredMembers, m ∈ S) → (∃ m ∈ e.members, m ∈ S) → name ∈ S

/-- The names that are in every closed set. -/
def closure (s : RoleStore) (start : Set String) : Set String :=
  {name | ∀ S, s.Closed start S → name ∈ S}

theorem closed_closure (s : RoleStore) (start : Set String) : s.Closed start (s.closure start) where
  start_subset := fun _ hn _ hS => hS.start_subset hn
  group_mem := by
    intro name e hget hgroup hrequired hbasic S hS
    obtain ⟨m, hm, hmem⟩ := hbasic
    exact hS.group_mem hget hgroup (fun r hr => hrequired r hr S hS) ⟨m, hm, hmem S hS⟩

/-- **The least closed set exists.** -/
theorem isLeast_closure (s : RoleStore) (start : Set String) :
    IsLeast {S | s.Closed start S} (s.closure start) :=
  ⟨s.closed_closure start, fun _ hS _ hn => hn _ hS⟩

/-- What is in the least closed set is in `start` or is there for a reason. -/
theorem mem_closure_cases {name : String} (h : name ∈ s.closure start) :
    name ∈ start ∨ ∃ e, s.get? name = some e ∧ e.isGroup = true ∧
      (∀ m ∈ e.requiredMembers, m ∈ s.closure start) ∧ ∃ m ∈ e.members, m ∈ s.closure start := by
  -- The names that are there for a reason form a closed set.
  refine (h {n | n ∈ s.closure start ∧ (n ∈ start ∨ ∃ e, s.get? n = some e ∧ e.isGroup = true ∧
    (∀ m ∈ e.requiredMembers, m ∈ s.closure start) ∧ ∃ m ∈ e.members, m ∈ s.closure start)} ?_).2
  constructor
  · intro n hn
    exact ⟨(s.closed_closure start).start_subset hn, Or.inl hn⟩
  · intro n e hget hgroup hrequired hbasic
    have hrequired' : ∀ m ∈ e.requiredMembers, m ∈ s.closure start := fun m hm => (hrequired m hm).1
    obtain ⟨m, hm, hmem⟩ := hbasic
    refine ⟨?_, Or.inr ⟨e, hget, hgroup, hrequired', m, hm, hmem.1⟩⟩
    exact (s.closed_closure start).group_mem hget hgroup hrequired' ⟨m, hm, hmem.1⟩

theorem closure_mono {start' : Set String} (h : start ⊆ start') :
    s.closure start ⊆ s.closure start' :=
  fun _ hn S hS => hn S ⟨h.trans hS.start_subset, hS.group_mem⟩

/-- **A circle does not imply itself.**  Names of which none is in `start`, and each of which lacks a
basic member from outside or requires one from inside, are not in the least closed set. -/
theorem notMem_closure_of_circle {circle : Set String} (hstart : ∀ n ∈ circle, n ∉ start)
    (hcircle : ∀ n ∈ circle, ∀ e, s.get? n = some e →
      (∀ m ∈ e.members, m ∈ circle ∨ m ∉ s.closure start) ∨ ∃ m ∈ e.requiredMembers, m ∈ circle) :
    ∀ n ∈ circle, n ∉ s.closure start := by
  -- Without the circle the least closed set would still be closed.
  have hclosed : s.Closed start (s.closure start \ circle) := by
    constructor
    · intro n hn
      exact ⟨(s.closed_closure start).start_subset hn, fun hc => hstart n hc hn⟩
    · rintro name e hget hgroup hrequired ⟨m, hm, hmem⟩
      refine ⟨?_, fun hc => ?_⟩
      · exact (s.closed_closure start).group_mem hget hgroup (fun r hr => (hrequired r hr).1)
          ⟨m, hm, hmem.1⟩
      · rcases hcircle name hc e hget with hbasic | ⟨r, hr, hrc⟩
        · rcases hbasic m hm with hmc | hmc
          · exact hmem.2 hmc
          · exact hmc hmem.1
        · exact (hrequired r hr).2 hrc
  intro n hn hmem
  exact (hmem _ hclosed).2 hn

/-! ## 2. Passes -/

theorem implies_iff {roles : List String} {e : RoleEntry} :
    implies roles e = true ↔ e.isGroup = true ∧ (∀ m ∈ e.requiredMembers, m ∈ roles) ∧
      ∃ m ∈ e.members, m ∈ roles := by
  simp [implies, and_assoc]

/-- What is implied stays implied when roles are added. -/
theorem implies_of_subset {roles roles' : List String} {e : RoleEntry} (hsub : roles ⊆ roles')
    (h : implies roles e = true) : implies roles' e = true := by
  obtain ⟨hgroup, hrequired, m, hm, hmem⟩ := implies_iff.1 h
  exact implies_iff.2 ⟨hgroup, fun r hr => hsub (hrequired r hr), m, hm, hsub hmem⟩

theorem subset_visit (roles : List String) (role : String × RoleEntry) :
    roles ⊆ visit roles role := by
  unfold visit
  split
  · exact List.Subset.refl _
  · split
    · exact List.subset_cons_self _ _
    · exact List.Subset.refl _

theorem subset_pass (order : List (String × RoleEntry)) (roles : List String) :
    roles ⊆ pass order roles := by
  induction order generalizing roles with
  | nil => exact List.Subset.refl _
  | cons role rest ih => exact List.Subset.trans (subset_visit roles role) (ih (visit roles role))

/-- A visit changes nothing or adds the name that it was missing. -/
theorem visit_eq_self_or_cons (roles : List String) (role : String × RoleEntry) :
    visit roles role = roles ∨ (role.1 ∉ roles ∧ visit roles role = role.1 :: roles) := by
  unfold visit
  split
  · exact Or.inl rfl
  · rename_i hnew
    split
    · exact Or.inr ⟨by simpa using hnew, rfl⟩
    · exact Or.inl rfl

/-- A pass changes nothing or adds the name of an entry that was missing. -/
theorem pass_eq_self_or_exists (order : List (String × RoleEntry)) (roles : List String) :
    pass order roles = roles ∨ ∃ n ∈ order.map Prod.fst, n ∉ roles ∧ n ∈ pass order roles := by
  induction order with
  | nil => exact Or.inl rfl
  | cons role rest ih =>
    rcases visit_eq_self_or_cons roles role with hsame | ⟨hnew, hcons⟩
    · have hpass : pass (role :: rest) roles = pass rest roles := congrArg (pass rest) hsame
      rw [hpass]
      rcases ih with hrest | ⟨n, hn, hmissing, hadded⟩
      · exact Or.inl hrest
      · exact Or.inr ⟨n, List.mem_cons_of_mem _ hn, hmissing, hadded⟩
    · refine Or.inr ⟨role.1, List.mem_cons_self, hnew, ?_⟩
      refine subset_pass rest (visit roles role) ?_
      rw [hcons]
      exact List.mem_cons_self

/-- A visit finds what is implied. -/
theorem mem_visit {roles : List String} {role : String × RoleEntry}
    (h : implies roles role.2 = true) : role.1 ∈ visit roles role := by
  unfold visit
  split
  · rename_i hmem
    simpa using hmem
  · exact List.mem_cons_self

/-- A pass finds everything that was implied before it. -/
theorem mem_pass {order : List (String × RoleEntry)} {roles : List String}
    {role : String × RoleEntry} (hrole : role ∈ order) (h : implies roles role.2 = true) :
    role.1 ∈ pass order roles := by
  induction order generalizing roles with
  | nil => cases hrole
  | cons first rest ih =>
    rcases List.mem_cons.1 hrole with rfl | hrest
    · exact subset_pass rest _ (mem_visit h)
    · exact ih hrest (implies_of_subset (subset_visit roles first) h)

/-- A visit does not leave a closed set. -/
theorem mem_of_mem_visit (hS : s.Closed start S) {roles : List String}
    {role : String × RoleEntry} (hrole : s.get? role.1 = some role.2) (h : ∀ n ∈ roles, n ∈ S) :
    ∀ n ∈ visit roles role, n ∈ S := by
  intro n hn
  unfold visit at hn
  split at hn
  · exact h n hn
  · split at hn
    · rename_i himplied
      rcases List.mem_cons.1 hn with rfl | hn
      · obtain ⟨hgroup, hrequired, m, hm, hmem⟩ := implies_iff.1 himplied
        exact hS.group_mem hrole hgroup (fun r hr => h r (hrequired r hr)) ⟨m, hm, h m hmem⟩
      · exact h n hn
    · exact h n hn

/-- **A pass does not leave a closed set.** -/
theorem mem_of_mem_pass (hS : s.Closed start S) {order : List (String × RoleEntry)}
    (horder : ∀ role ∈ order, s.get? role.1 = some role.2) {roles : List String}
    (h : ∀ n ∈ roles, n ∈ S) : ∀ n ∈ pass order roles, n ∈ S := by
  induction order generalizing roles with
  | nil => exact h
  | cons role rest ih =>
    have hvisit := mem_of_mem_visit hS (horder role List.mem_cons_self) h
    exact ih (fun r hr => horder r (List.mem_cons_of_mem _ hr)) hvisit

/-- **Roles that a pass does not change are closed.** -/
theorem closed_of_pass_eq_self {order : List (String × RoleEntry)}
    (horder : ∀ n e, s.get? n = some e → (n, e) ∈ order) {roles : List String}
    (hstart : ∀ n ∈ start, n ∈ roles) (h : pass order roles = roles) :
    s.Closed start {n | n ∈ roles} where
  start_subset := hstart
  group_mem := by
    intro name e hget hgroup hrequired hbasic
    have hfound := mem_pass (horder name e hget) (implies_iff.2 ⟨hgroup, hrequired, hbasic⟩)
    rwa [h] at hfound

/-! ## 3. Saturation -/

/-- The entries whose names are not among the roles. -/
def missing (order : List (String × RoleEntry)) (roles : List String) : List String :=
  (order.map Prod.fst).filter fun n => !roles.contains n

/-- A pass that changes the roles leaves fewer entries missing. -/
theorem length_missing_lt {order : List (String × RoleEntry)} {roles : List String}
    (h : pass order roles ≠ roles) :
    (missing order (pass order roles)).length < (missing order roles).length := by
  have hsub := subset_pass order roles
  have hfilter : missing order (pass order roles) =
      (missing order roles).filter fun n => !(pass order roles).contains n := by
    rw [missing, missing, List.filter_filter]
    refine List.filter_congr fun n _ => ?_
    by_cases hn : n ∈ roles
    · simp [hn, hsub hn]
    · simp [hn]
  obtain ⟨n, hn, hmissing, hadded⟩ := (pass_eq_self_or_exists order roles).resolve_left h
  rw [hfilter, List.length_filter_lt_length_iff_exists]
  refine ⟨n, ?_, by simpa using hadded⟩
  rw [missing, List.mem_filter]
  exact ⟨hn, by simpa using hmissing⟩

/-- **Enough passes come to rest.** -/
theorem pass_saturate {order : List (String × RoleEntry)} {limit : Nat} {roles : List String}
    (h : (missing order roles).length ≤ limit) :
    pass order (saturate order limit roles) = saturate order limit roles := by
  induction limit generalizing roles with
  | zero =>
    rcases pass_eq_self_or_exists order roles with hsame | ⟨n, hn, hnew, -⟩
    · exact hsame
    · have hmem : n ∈ missing order roles := List.mem_filter.2 ⟨hn, by simpa using hnew⟩
      have hpos := List.length_pos_of_mem hmem
      omega
  | succ limit ih =>
    rw [saturate]
    by_cases hsame : pass order roles = roles
    · simp only [hsame, if_true]
    · simp only [hsame, if_false]
      exact ih (by have hlt := length_missing_lt hsame; omega)

/-- Saturation is a number of passes within the limit. -/
theorem exists_saturate_eq_iterate (order : List (String × RoleEntry)) (limit : Nat)
    (roles : List String) :
    ∃ passes ≤ limit, saturate order limit roles = (pass order)^[passes] roles := by
  induction limit generalizing roles with
  | zero => exact ⟨0, le_rfl, rfl⟩
  | succ limit ih =>
    rw [saturate]
    by_cases hsame : pass order roles = roles
    · exact ⟨0, Nat.zero_le _, by simp [hsame]⟩
    · obtain ⟨passes, hle, heq⟩ := ih (pass order roles)
      exact ⟨passes + 1, Nat.succ_le_succ hle, by simp [hsame, heq]⟩

theorem subset_saturate (order : List (String × RoleEntry)) (limit : Nat) (roles : List String) :
    roles ⊆ saturate order limit roles := by
  induction limit generalizing roles with
  | zero => exact List.Subset.refl _
  | succ limit ih =>
    rw [saturate]
    split
    · exact List.Subset.refl _
    · exact List.Subset.trans (subset_pass order roles) (ih _)

theorem mem_of_mem_saturate (hS : s.Closed start S) {order : List (String × RoleEntry)}
    (horder : ∀ role ∈ order, s.get? role.1 = some role.2) {limit : Nat} {roles : List String}
    (h : ∀ n ∈ roles, n ∈ S) : ∀ n ∈ saturate order limit roles, n ∈ S := by
  induction limit generalizing roles with
  | zero => exact h
  | succ limit ih =>
    rw [saturate]
    split
    · exact h
    · exact ih (mem_of_mem_pass hS horder h)

/-- Each entry can be missing once. -/
theorem length_missing_le {order : List (String × RoleEntry)} (horder : order.Perm s.byName.entries)
    (roles : List String) : (missing order roles).length ≤ s.byName.size := by
  have hle := List.length_filter_le (fun n => !roles.contains n) (order.map Prod.fst)
  rw [List.length_map, horder.length_eq] at hle
  exact hle

/-- **Saturation gives the least closed set, in whichever order the entries are visited.** -/
theorem isLeast_saturate {order : List (String × RoleEntry)} (horder : order.Perm s.byName.entries)
    (roles : List String) :
    IsLeast {S | s.Closed {n | n ∈ roles} S} {n | n ∈ saturate order s.byName.size roles} := by
  constructor
  · refine closed_of_pass_eq_self (fun n e hget => ?_) (fun n hn => ?_)
      (pass_saturate (length_missing_le horder roles))
    · exact horder.mem_iff.2 (SortedMap.get?_eq_some_iff.1 hget)
    · exact subset_saturate order _ roles hn
  · intro S hS n hn
    refine mem_of_mem_saturate hS (fun role hrole => ?_) (fun m hm => hS.start_subset hm) n hn
    exact SortedMap.get?_eq_some_iff.2 (horder.mem_iff.1 hrole)

/-- **The roles of a user are the least closed set that contains the user and everyone.** -/
theorem mem_saturate_iff {order : List (String × RoleEntry)} (horder : order.Perm s.byName.entries)
    {name : String} :
    name ∈ saturate order s.byName.size [user, anyone] ↔ name ∈ s.closure {user, anyone} := by
  have hstart : {n | n ∈ [user, anyone]} = ({user, anyone} : Set String) := by
    ext n
    simp
  have hleast := isLeast_saturate horder [user, anyone]
  rw [hstart] at hleast
  exact Set.ext_iff.1 (hleast.unique (s.isLeast_closure _)) name

/-! ## 4. Authorization -/

/-- Only roles that are there and are users or groups can be authorized. -/
theorem authorization_eq_none_iff : s.authorization user = none ↔
    s.get? user = none ∨ ∃ e, s.get? user = some e ∧ e.kind = .role := by
  unfold authorization
  cases s.get? user with
  | none => simp
  | some e =>
    by_cases he : e.isUser = true
    · simp [he, RoleEntry.isUser_iff.1 he]
    · simp [he, RoleEntry.kind_eq_role he]

theorem exists_authorization {e : RoleEntry} (hget : s.get? user = some e) (hkind : e.kind ≠ .role) :
    ∃ roles, s.authorization user = some roles := by
  rw [← Option.ne_none_iff_exists', Ne, authorization_eq_none_iff, hget]
  simpa using hkind

/-- What is implied by the user and everyone is filed, apart from these two. -/
theorem mem_keys_of_mem_closure {n : String} (h : n ∈ s.closure {user, anyone}) (huser : n ≠ user)
    (hanyone : n ≠ anyone) : n ∈ s.byName.keys := by
  rcases mem_closure_cases h with (rfl | rfl) | ⟨e, he, -⟩
  · exact absurd rfl huser
  · exact absurd rfl hanyone
  · exact SortedMap.mem_keys_iff.2 ⟨e, he⟩

/-- **An authorization lists the user and then the implied groups by name.** -/
theorem authorization_eq_some_iff {roles : List String} : s.authorization user = some roles ↔
    (∃ e, s.get? user = some e ∧ e.kind ≠ .role) ∧
      ∃ groups, roles = user :: groups ∧ Ascending groups ∧
        ∀ n, n ∈ groups ↔ n ∈ s.closure {user, anyone} ∧ n ≠ user ∧ n ≠ anyone := by
  cases hget : s.get? user with
  | none => simp [authorization, hget]
  | some e =>
    by_cases he : e.isUser = true
    · let listed := s.byName.keys.filter fun name =>
        (s.impliedRoles user).contains name && name != user && name != anyone
      have hascending : Ascending listed := s.byName.ascending.sublist List.filter_sublist
      have himplied : ∀ n, n ∈ s.impliedRoles user ↔ n ∈ s.closure {user, anyone} := fun n =>
        mem_saturate_iff (List.Perm.refl _)
      have hlisted : ∀ n, n ∈ listed ↔ n ∈ s.closure {user, anyone} ∧ n ≠ user ∧ n ≠ anyone := by
        intro n
        simp only [listed, List.mem_filter, Bool.and_eq_true, List.contains_iff_mem, bne_iff_ne,
          himplied, and_assoc]
        exact ⟨fun h => h.2, fun h => ⟨mem_keys_of_mem_closure h.1 h.2.1 h.2.2, h⟩⟩
      have heq : s.authorization user = some (user :: listed) := by
        simp [authorization, hget, he, listed]
      rw [heq, Option.some.injEq]
      constructor
      · rintro rfl
        exact ⟨⟨e, rfl, RoleEntry.isUser_iff.1 he⟩, listed, rfl, hascending, hlisted⟩
      · rintro ⟨-, groups, rfl, hgroups, hmem⟩
        rw [eq_of_ascending hgroups hascending fun n => (hmem n).trans (hlisted n).symm]
    · simp [authorization, hget, he, RoleEntry.kind_eq_role he]

/-! ## 5. What an authorization depends on -/

/-- The stores have the same roles of the same kinds, and their groups have the same required members
and the same basic members as far as these are roles.  Order and repetition do not count, and neither do
properties and credentials. -/
structure SameGroups (s t : RoleStore) : Prop where
  kind_eq : ∀ n, (s.get? n).map (·.kind) = (t.get? n).map (·.kind)
  required_iff : ∀ {n e f}, s.get? n = some e → t.get? n = some f →
    ∀ m, m ∈ e.requiredMembers ↔ m ∈ f.requiredMembers
  basic_iff : ∀ {n e f}, s.get? n = some e → t.get? n = some f →
    ∀ m, m = anyone ∨ (s.get? m).isSome = true → (m ∈ e.members ↔ m ∈ f.members)

theorem SameGroups.exists_get? (h : s.SameGroups t) {n : String} {f : RoleEntry}
    (hf : t.get? n = some f) : ∃ e, s.get? n = some e ∧ e.kind = f.kind := by
  have hkind := h.kind_eq n
  rw [hf] at hkind
  cases he : s.get? n with
  | none => simp [he] at hkind
  | some e => exact ⟨e, rfl, by simpa [he] using hkind⟩

theorem SameGroups.symm (h : s.SameGroups t) : t.SameGroups s where
  kind_eq := fun n => (h.kind_eq n).symm
  required_iff := fun hf he m => (h.required_iff he hf m).symm
  basic_iff := by
    intro n f e hf he m hm
    refine (h.basic_iff he hf m (hm.imp_right fun hsome => ?_)).symm
    obtain ⟨g, hg⟩ := Option.isSome_iff_exists.1 hsome
    obtain ⟨g', hg', -⟩ := h.exists_get? hg
    simp [hg']

theorem SameGroups.closure_subset (h : s.SameGroups t) (hstart : ∀ n ∈ start, n = anyone ∨
    (s.get? n).isSome = true) : t.closure start ⊆ s.closure start := by
  intro n hn
  refine hn _ ⟨(s.closed_closure start).start_subset, ?_⟩
  rintro name f hf hgroup hrequired ⟨m, hm, hmem⟩
  obtain ⟨e, he, hkind⟩ := h.exists_get? hf
  have hrole : m = anyone ∨ (s.get? m).isSome = true := by
    rcases mem_closure_cases hmem with hm | ⟨g, hg, -⟩
    · exact hstart m hm
    · exact Or.inr (by simp [hg])
  refine (s.closed_closure start).group_mem he ?_ (fun r hr => ?_) ⟨m, ?_, hmem⟩
  · exact RoleEntry.isGroup_iff.2 (hkind.trans (RoleEntry.isGroup_iff.1 hgroup))
  · exact hrequired r ((h.required_iff he hf r).1 hr)
  · exact (h.basic_iff he hf m hrole).2 hm

/-- **The least closed set is the same in both stores.** -/
theorem SameGroups.closure_eq (h : s.SameGroups t) (hstart : ∀ n ∈ start, n = anyone ∨
    (s.get? n).isSome = true) : t.closure start = s.closure start := by
  refine (h.closure_subset hstart).antisymm (h.symm.closure_subset fun n hn => ?_)
  refine (hstart n hn).imp_right fun hsome => ?_
  obtain ⟨e, he⟩ := Option.isSome_iff_exists.1 hsome
  obtain ⟨f, hf, -⟩ := h.symm.exists_get? he
  simp [hf]

theorem SameGroups.authorization_eq (h : s.SameGroups t) :
    t.authorization user = s.authorization user := by
  refine Option.ext fun roles => ?_
  rw [authorization_eq_some_iff, authorization_eq_some_iff]
  have hrole : (∃ f, t.get? user = some f ∧ f.kind ≠ .role) ↔
      ∃ e, s.get? user = some e ∧ e.kind ≠ .role := by
    constructor
    · rintro ⟨f, hf, hkind⟩
      obtain ⟨e, he, heq⟩ := h.exists_get? hf
      exact ⟨e, he, heq ▸ hkind⟩
    · rintro ⟨e, he, hkind⟩
      obtain ⟨f, hf, heq⟩ := h.symm.exists_get? he
      exact ⟨f, hf, heq ▸ hkind⟩
  rw [hrole]
  refine and_congr_right fun hexists => ?_
  obtain ⟨e, he, -⟩ := hexists
  rw [h.closure_eq]
  rintro n (rfl | rfl)
  · exact Or.inr (by simp [he])
  · exact Or.inl rfl

/-- **Authorization computes the least closed set.**  There is an authorization for exactly the users
and groups of the store.  It lists the user and then, by name, the other members of the least set that
contains the user and everyone and is closed under the rule; the role of everyone is left out.

The four statements after that say what is in this set and how it is found: a circle is not implied by
itself; whatever is implied is a group of the store with a basic member; passes in any order come to
rest, and with this set; and the answer depends on nothing that `SameGroups` leaves open. -/
theorem authorization_isLeast (s : RoleStore) (user : String) :
    (s.authorization user = none ↔
      s.get? user = none ∨ ∃ e, s.get? user = some e ∧ e.kind = .role) ∧
    ∃ S : Set String, IsLeast {S | s.Closed {user, anyone} S} S ∧
      (∀ roles, s.authorization user = some roles →
        ∃ groups, roles = user :: groups ∧ Ascending groups ∧
          ∀ n, n ∈ groups ↔ n ∈ S ∧ n ≠ user ∧ n ≠ anyone) ∧
      (∀ circle : Set String, user ∉ circle → anyone ∉ circle →
        (∀ n ∈ circle, ∀ e, s.get? n = some e →
          (∀ m ∈ e.members, m ∈ circle ∨ m ∉ S) ∨ ∃ m ∈ e.requiredMembers, m ∈ circle) →
        ∀ n ∈ circle, n ∉ S) ∧
      (∀ n ∈ S, n = user ∨ n = anyone ∨
        ∃ e, s.get? n = some e ∧ e.isGroup = true ∧ e.members ≠ []) ∧
      (∀ order : List (String × RoleEntry), order.Perm s.byName.entries →
        ∃ passes ≤ s.byName.size, ∃ roles, (pass order)^[passes] [user, anyone] = roles ∧
          pass order roles = roles ∧ ∀ n, n ∈ roles ↔ n ∈ S) ∧
      ∀ t, s.SameGroups t → t.authorization user = s.authorization user := by
  refine ⟨authorization_eq_none_iff, s.closure {user, anyone}, s.isLeast_closure _, ?_, ?_, ?_, ?_,
    fun t => SameGroups.authorization_eq⟩
  · intro roles h
    exact (authorization_eq_some_iff.1 h).2
  · intro circle huser hanyone hcircle
    refine notMem_closure_of_circle (fun n hn => ?_) hcircle
    rintro (rfl | rfl)
    · exact huser hn
    · exact hanyone hn
  · intro n hn
    rcases mem_closure_cases hn with (rfl | rfl) | ⟨e, he, hgroup, -, m, hm, -⟩
    · exact Or.inl rfl
    · exact Or.inr (Or.inl rfl)
    · exact Or.inr (Or.inr ⟨e, he, hgroup, List.ne_nil_of_mem hm⟩)
  · intro order horder
    obtain ⟨passes, hle, heq⟩ := exists_saturate_eq_iterate order s.byName.size [user, anyone]
    refine ⟨passes, hle, _, heq.symm, ?_, fun n => mem_saturate_iff horder⟩
    exact pass_saturate (length_missing_le horder _)

end RoleStore
end FrameworkAdmin
