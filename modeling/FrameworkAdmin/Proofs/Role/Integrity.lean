/-
# What every run of management operations keeps

`Integrity` collects what holds of every store that management operations can make.  Its parts
support each other: that every member is a role (`member_exists`) rests on `addMember` looking for
the role first and on `remove` taking the name out of every group, and the latter only reaches what
it must because nothing but groups has members (`RoleEntry.Sound`).

`Change` says once what an operation can do to the store; every law of a single step is a case analysis
over it, and the laws of runs follow by induction on the run.

The purpose of all this is section 4: a name that is free is listed by nobody, so a role that is made
under it starts with what everyone has and nothing else.  It does not matter whether the name was free
all along or belonged to a role that has been removed.

Names are followed in the store of whole roles (section 6).  A run makes one of them besides the store of
entries, and in it every role is filed under the name that it bears.
-/
import FrameworkAdmin.Proofs.Role.Authorization
import FrameworkAdmin.Proofs.Role.Names
import FrameworkAdmin.Role.Management

namespace FrameworkAdmin

/-! ## 1. The invariant -/

/-- Only groups have members, only users and groups have credentials, and nobody is listed twice. -/
structure RoleEntry.Sound (e : RoleEntry) : Prop where
  members_nil : e.kind ≠ .group → e.members = [] ∧ e.requiredMembers = []
  credentials_empty : e.kind = .role → e.credentials = ∅
  members_nodup : e.members.Nodup
  requiredMembers_nodup : e.requiredMembers.Nodup

theorem RoleEntry.sound_blank (kind : RoleKind) : (RoleEntry.blank kind).Sound :=
  ⟨fun _ => ⟨rfl, rfl⟩, fun _ => rfl, List.nodup_nil, List.nodup_nil⟩

theorem RoleEntry.Sound.withoutMember {e : RoleEntry} (h : e.Sound) (name : String) :
    (e.withoutMember name).Sound where
  members_nil := fun hkind => by
    obtain ⟨hmembers, hrequired⟩ := h.members_nil hkind
    simp [RoleEntry.withoutMember, hmembers, hrequired]
  credentials_empty := h.credentials_empty
  members_nodup := h.members_nodup.filter _
  requiredMembers_nodup := h.requiredMembers_nodup.filter _

namespace RoleStore

variable {s t : RoleStore} {start : Set String}

/-- Every entry is sound, everyone is a role, and every member is one. -/
structure Integrity (s : RoleStore) : Prop where
  sound : ∀ {n e}, s.get? n = some e → e.Sound
  anyone_role : ∃ e, s.get? anyone = some e ∧ e.kind = .role
  member_exists : ∀ {n e}, s.get? n = some e →
    ∀ m, m ∈ e.members ∨ m ∈ e.requiredMembers → (s.get? m).isSome = true

theorem integrity_initial : initial.Integrity := by
  have hget : ∀ n e, initial.get? n = some e → e = .blank .role := by
    intro n e h
    by_cases hn : compare n anyone = .eq
    · simpa [initial, get?, SortedMap.get?_insert, hn, eq_comm] using h
    · simp [initial, get?, SortedMap.get?_insert, hn] at h
  constructor
  · intro n e h
    rw [hget n e h]
    exact RoleEntry.sound_blank _
  · exact ⟨.blank .role, rfl, rfl⟩
  · intro n e h m hm
    rw [hget n e h] at hm
    simp [RoleEntry.blank] at hm

/-! ## 2. Steps -/

/-- The ways in which an operation changes an entry. -/
inductive Edit (s : RoleStore) (e : RoleEntry) : RoleEntry → Prop
  | properties (p : Properties) : Edit s e { e with properties := p }
  | credentials (c : Properties) (huser : e.isUser = true) : Edit s e { e with credentials := c }
  | append (sort : Membership) (m : String) (hgroup : e.isGroup = true)
      (hrole : (s.get? m).isSome = true) (hnew : m ∉ sort.of e) : Edit s e (sort.append m e)
  | withdraw (m : String) (hgroup : e.isGroup = true) : Edit s e (e.withoutMember m)

/-- The ways in which an operation changes the store. -/
inductive Change (s : RoleStore) : RoleStore → Prop
  | unchanged : Change s s
  | edit {n : String} {e : RoleEntry} (hget : s.get? n = some e) (f : RoleEntry → RoleEntry)
      (hedit : Edit s e (f e)) : Change s (s.modify n f).2
  | create {n : String} (hfree : s.get? n = none) (kind : RoleKind) : Change s (s.create n kind).2
  | remove {n : String} {e : RoleEntry} (hne : n ≠ anyone) (hget : s.get? n = some e) :
      Change s (s.remove n).2

theorem change_addMember (s : RoleStore) (sort : Membership) (group name : String) :
    Change s (s.addMember sort group name).2 := by
  unfold addMember
  split
  · exact .unchanged
  · rename_i e hget
    split
    · exact .unchanged
    · rename_i hgroup
      split
      · exact .unchanged
      · rename_i hnew
        rw [Bool.or_eq_true, not_or] at hnew
        refine .edit hget _ (.append sort name (by simpa using hgroup) ?_ ?_)
        · simpa [Option.isSome_iff_ne_none] using hnew.1
        · simpa using hnew.2

theorem change_create (s : RoleStore) (name : String) (kind : RoleKind) :
    Change s (s.create name kind).2 := by
  cases hget : s.get? name with
  | none => exact .create hget kind
  | some e =>
    rw [create_of_some hget]
    exact .unchanged

theorem change_remove (s : RoleStore) (name : String) : Change s (s.remove name).2 := by
  by_cases hname : name = anyone ∨ s.byName.contains name = false
  · rw [RoleStore.remove, if_pos hname]
    exact .unchanged
  · rw [not_or, SortedMap.contains_eq_false_iff] at hname
    obtain ⟨e, hget⟩ := Option.ne_none_iff_exists'.1 hname.2
    exact .remove hname.1 hget

theorem get?_of_find {name : String} {e : RoleEntry} (h : s.find name = .ok e) :
    s.get? name = some e := by
  unfold find at h
  split at h <;> cases h
  assumption

theorem get?_of_findUser {name : String} {e : RoleEntry} (h : s.findUser name = .ok e) :
    s.get? name = some e ∧ e.isUser = true := by
  unfold findUser at h
  split at h
  · split at h <;> cases h
    exact ⟨by assumption, by assumption⟩
  · cases h

theorem get?_of_findGroup {name : String} {e : RoleEntry} (h : s.findGroup name = .ok e) :
    s.get? name = some e ∧ e.isGroup = true := by
  unfold findGroup at h
  split at h
  · split at h <;> cases h
    exact ⟨by assumption, by assumption⟩
  · cases h

theorem change_addCredential (s : RoleStore) (key : String) (v : Value) (name : String) :
    Change s (s.addCredential key v name).2 := by
  unfold addCredential
  split
  · exact .unchanged
  · rename_i e hfind
    obtain ⟨hget, huser⟩ := get?_of_findUser hfind
    exact .edit hget _ (.credentials _ huser)

theorem change_addProperty (s : RoleStore) (key : String) (v : Value) (name : String) :
    Change s (s.addProperty key v name).2 := by
  unfold addProperty
  split
  · exact .unchanged
  · rename_i e hfind
    exact .edit (get?_of_find hfind) _ (.properties _)

theorem change_removeCredential (s : RoleStore) (key name : String) :
    Change s (s.removeCredential key name).2 := by
  unfold removeCredential
  split
  · rename_i e hfind
    obtain ⟨hget, huser⟩ := get?_of_findUser hfind
    exact .edit hget _ (.credentials _ huser)
  · exact .unchanged
  · exact .unchanged

theorem change_removeProperty (s : RoleStore) (key name : String) :
    Change s (s.removeProperty key name) := by
  unfold removeProperty
  cases hget : s.get? name with
  | none =>
    rw [modify, hget]
    exact .unchanged
  | some e => exact .edit hget _ (.properties _)

theorem change_removeMember (s : RoleStore) (group name : String) :
    Change s (s.removeMember group name).2 := by
  unfold removeMember
  split
  · exact .unchanged
  · exact .unchanged
  · rename_i e hfind
    obtain ⟨hget, hgroup⟩ := get?_of_findGroup hfind
    exact .edit hget _ (.withdraw _ hgroup)

/-- A reply leaves the store of its outcome. -/
theorem change_reply {α : Type} {f : α → Reply} {o : Outcome RoleStore α} (h : Change s o.2) :
    Change s (reply f o).2 := by
  obtain ⟨a | r, t⟩ := o <;> exact h

/-- **Each operation is one change.** -/
theorem change_run (s : RoleStore) (r : Request) : Change s (r.run s).2 := by
  cases r with
  | addCredential key v name => exact change_reply (change_addCredential s key v name)
  | addProperty key v name => exact change_reply (change_addProperty s key v name)
  | addMember sort group name => exact change_reply (change_addMember s sort group name)
  | removeMember group name => exact change_reply (change_removeMember s group name)
  | create name kind => exact change_create s name kind
  | remove name => exact change_remove s name
  | removeCredential key name => exact change_reply (change_removeCredential s key name)
  | removeProperty key name => exact change_removeProperty s key name
  | nameWith key value => exact .unchanged
  | _ => exact change_reply .unchanged

/-! ## 3. Preservation -/

theorem Edit.kind_eq {e f : RoleEntry} (h : Edit s e f) : f.kind = e.kind := by
  cases h with
  | append sort => cases sort <;> rfl
  | _ => rfl

theorem Edit.sound {e f : RoleEntry} (h : Edit s e f) (he : e.Sound) : f.Sound := by
  cases h with
  | properties p =>
    exact ⟨he.members_nil, he.credentials_empty, he.members_nodup, he.requiredMembers_nodup⟩
  | credentials c huser =>
    refine ⟨he.members_nil, fun hkind => ?_, he.members_nodup, he.requiredMembers_nodup⟩
    exact absurd hkind (RoleEntry.isUser_iff.1 huser)
  | append sort m hgroup hrole hnew =>
    have hkind := RoleEntry.isGroup_iff.1 hgroup
    have hlonger : ∀ {l : List String}, l.Nodup → m ∉ l → (l ++ [m]).Nodup := fun hl hm =>
      List.nodup_append.2 ⟨hl, by simp, by simpa using fun a ha => ne_of_mem_of_not_mem ha hm⟩
    cases sort with
    | basic =>
      refine ⟨fun hne => absurd hkind hne, he.credentials_empty, ?_, he.requiredMembers_nodup⟩
      exact hlonger he.members_nodup hnew
    | required =>
      refine ⟨fun hne => absurd hkind hne, he.credentials_empty, he.members_nodup, ?_⟩
      exact hlonger he.requiredMembers_nodup hnew
  | withdraw m => exact he.withoutMember m

/-- A member was one before, or is a role that was looked for. -/
theorem Edit.member {e f : RoleEntry} (h : Edit s e f) {m : String}
    (hm : m ∈ f.members ∨ m ∈ f.requiredMembers) :
    (m ∈ e.members ∨ m ∈ e.requiredMembers) ∨ (s.get? m).isSome = true := by
  cases h with
  | properties p => exact Or.inl hm
  | credentials c => exact Or.inl hm
  | append sort x hgroup hrole hnew =>
    by_cases hx : m = x
    · exact Or.inr (hx ▸ hrole)
    · left
      cases sort <;> simpa [Membership.append, hx] using hm
  | withdraw x =>
    left
    simp only [RoleEntry.withoutMember, List.mem_filter] at hm
    exact hm.imp And.left And.left

/-- **A change keeps the kind of a role that is there before and after it.** -/
theorem Change.kind_eq (h : Change s t) {n : String} {e f : RoleEntry} (he : s.get? n = some e)
    (hf : t.get? n = some f) : f.kind = e.kind := by
  cases h with
  | unchanged =>
    rw [he] at hf
    cases hf
    rfl
  | edit hget g hedit =>
    rw [get?_modify hget] at hf
    split at hf
    · rename_i hn
      subst hn
      rw [he] at hget
      cases hget
      cases hf
      exact hedit.kind_eq
    · rw [he] at hf
      cases hf
      rfl
  | create hfree kind =>
    rw [get?_create hfree] at hf
    split at hf
    · rename_i hn
      subst hn
      rw [he] at hfree
      cases hfree
    · rw [he] at hf
      cases hf
      rfl
  | remove hne hget =>
    rw [get?_remove hne hget, he] at hf
    split at hf
    · cases hf
    · cases hf
      dsimp only
      split <;> rfl

theorem Integrity.edit (hs : s.Integrity) {n : String} {e : RoleEntry} (hget : s.get? n = some e)
    {f : RoleEntry → RoleEntry} (hedit : Edit s e (f e)) : (s.modify n f).2.Integrity := by
  have hview := get?_modify hget f
  have hstays : ∀ m, (s.get? m).isSome = true → ((s.modify n f).2.get? m).isSome = true := by
    intro m hm
    rw [hview]
    split
    · rfl
    · exact hm
  constructor
  · intro x g hx
    rw [hview] at hx
    split at hx
    · cases hx
      exact hedit.sound (hs.sound hget)
    · exact hs.sound hx
  · obtain ⟨a, ha, hkind⟩ := hs.anyone_role
    by_cases hn : anyone = n
    · subst hn
      obtain rfl := Option.some.inj (hget.symm.trans ha)
      exact ⟨f e, by rw [hview, if_pos rfl], hedit.kind_eq.trans hkind⟩
    · exact ⟨a, by rw [hview, if_neg hn, ha], hkind⟩
  · intro x g hx m hm
    rw [hview] at hx
    split at hx
    · cases hx
      rcases hedit.member hm with hold | hrole
      · exact hstays m (hs.member_exists hget m hold)
      · exact hstays m hrole
    · exact hstays m (hs.member_exists hx m hm)

theorem Integrity.create (hs : s.Integrity) {n : String} (hfree : s.get? n = none)
    (kind : RoleKind) : (s.create n kind).2.Integrity := by
  have hview := get?_create hfree kind
  constructor
  · intro x g hx
    rw [hview] at hx
    split at hx
    · cases hx
      exact RoleEntry.sound_blank kind
    · exact hs.sound hx
  · obtain ⟨a, ha, hkind⟩ := hs.anyone_role
    have hn : anyone ≠ n := fun heq => by
      rw [← heq, ha] at hfree
      cases hfree
    exact ⟨a, by rw [hview, if_neg hn, ha], hkind⟩
  · intro x g hx m hm
    rw [hview] at hx ⊢
    split at hx
    · cases hx
      simp [RoleEntry.blank] at hm
    · split
      · rfl
      · exact hs.member_exists hx m hm

theorem Integrity.remove (hs : s.Integrity) {n : String} {e : RoleEntry} (hne : n ≠ anyone)
    (hget : s.get? n = some e) : (s.remove n).2.Integrity := by
  have hview := get?_remove hne hget
  constructor
  · intro x g hx
    rw [hview] at hx
    split at hx
    · cases hx
    · obtain ⟨g', hg', rfl⟩ := Option.map_eq_some_iff.1 hx
      split
      · exact (hs.sound hg').withoutMember n
      · exact hs.sound hg'
  · obtain ⟨a, ha, hkind⟩ := hs.anyone_role
    refine ⟨a, ?_, hkind⟩
    rw [hview, if_neg (Ne.symm hne), ha]
    simp [RoleEntry.isGroup, hkind]
  · intro x g hx m hm
    rw [hview] at hx
    split at hx
    · cases hx
    · obtain ⟨g', hg', rfl⟩ := Option.map_eq_some_iff.1 hx
      have hm' : (m ∈ g'.members ∨ m ∈ g'.requiredMembers) ∧ m ≠ n := by
        split at hm
        · simpa [RoleEntry.withoutMember, ← or_and_right] using hm
        · -- The name is only taken out of groups, but an entry that is no group has no members.
          rename_i hgroup
          have hnil := (hs.sound hg').members_nil fun hk => hgroup (RoleEntry.isGroup_iff.2 hk)
          simp [hnil] at hm
      rw [hview, if_neg hm'.2, Option.isSome_map]
      exact hs.member_exists hg' m hm'.1

/-- **A change keeps the invariant.** -/
theorem Change.integrity (h : Change s t) (hs : s.Integrity) : t.Integrity := by
  cases h with
  | unchanged => exact hs
  | edit hget f hedit => exact hs.edit hget hedit
  | create hfree kind => exact hs.create hfree kind
  | remove hne hget => exact hs.remove hne hget

/-! ## 4. Runs -/

/-- The store is the outcome of a run of operations on the initial one. -/
def Reached (s : RoleStore) : Prop := ∃ requests, initial.after requests = s

theorem integrity_after (hs : s.Integrity) (requests : List Request) :
    (s.after requests).Integrity := by
  induction requests generalizing s with
  | nil => exact hs
  | cons r rest ih => exact ih ((change_run s r).integrity hs)

/-- **A run keeps the kind of a role that is there all along.** -/
theorem kind_eq_after {n : String} {e : RoleEntry} (he : s.get? n = some e) (requests : List Request)
    (hthere : ∀ run, run <+: requests → ((s.after run).get? n).isSome = true) :
    ∃ f, (s.after requests).get? n = some f ∧ f.kind = e.kind := by
  induction requests generalizing s e with
  | nil => exact ⟨e, he, rfl⟩
  | cons r rest ih =>
    have hnext : ((r.run s).2.get? n).isSome = true :=
      hthere [r] (List.prefix_cons_inj r |>.2 List.nil_prefix)
    obtain ⟨g, hg⟩ := Option.isSome_iff_exists.1 hnext
    obtain ⟨f, hf, hkind⟩ := ih hg fun run hrun =>
      hthere (r :: run) ((List.prefix_cons_inj r).2 hrun)
    exact ⟨f, hf, hkind.trans ((change_run s r).kind_eq he hg)⟩

/-! ## 5. New roles -/

/-- A name that nobody lists adds nothing to the least closed set but itself. -/
theorem closure_insert {n : String} (hn : ∀ {g e}, s.get? g = some e →
    n ∉ e.members ∧ n ∉ e.requiredMembers) :
    s.closure (insert n start) = insert n (s.closure start) := by
  apply Set.Subset.antisymm
  · intro x hx
    refine hx _ ⟨Set.insert_subset_insert (s.closed_closure start).start_subset, ?_⟩
    rintro name e hget hgroup hrequired ⟨m, hm, hmem⟩
    obtain ⟨hbasic, hreq⟩ := hn hget
    refine Or.inr ((s.closed_closure start).group_mem hget hgroup (fun r hr => ?_) ⟨m, hm, ?_⟩)
    · exact (hrequired r hr).resolve_left fun heq => hreq (heq ▸ hr)
    · exact hmem.resolve_left fun heq => hbasic (heq ▸ hm)
  · rintro x (rfl | hx)
    · exact (s.closed_closure _).start_subset (Set.mem_insert _ _)
    · exact closure_mono (Set.subset_insert _ _) hx

/-- **A new role has what everyone has.** -/
theorem authorization_create (hs : s.Integrity) {n : String} (hfree : s.get? n = none)
    {kind : RoleKind} (hkind : kind ≠ .role) :
    ∃ groups, (s.create n kind).2.authorization n = some (n :: groups) ∧ Ascending groups ∧
      ∀ m, m ∈ groups ↔ m ∈ (s.create n kind).2.closure {anyone} ∧ m ≠ anyone := by
  have hview := get?_create hfree kind
  have hself : (s.create n kind).2.get? n = some (.blank kind) := by rw [hview, if_pos rfl]
  -- Nobody lists the name: it was free, and members are roles.
  have hunlisted : ∀ {g e}, (s.create n kind).2.get? g = some e →
      n ∉ e.members ∧ n ∉ e.requiredMembers := by
    intro g e hg
    rw [hview] at hg
    split at hg
    · cases hg
      simp [RoleEntry.blank]
    · constructor
      · intro hm
        simpa [hfree] using hs.member_exists hg n (Or.inl hm)
      · intro hm
        simpa [hfree] using hs.member_exists hg n (Or.inr hm)
  have hout : n ∉ (s.create n kind).2.closure {anyone} := by
    intro hn
    rcases mem_closure_cases hn with rfl | ⟨e, he, -, -, m, hm, -⟩
    · obtain ⟨a, ha, -⟩ := hs.anyone_role
      rw [ha] at hfree
      cases hfree
    · rw [hself] at he
      cases he
      cases hm
  obtain ⟨roles, hroles⟩ := exists_authorization hself hkind
  obtain ⟨-, groups, rfl, hascending, hmem⟩ := authorization_eq_some_iff.1 hroles
  refine ⟨groups, hroles, hascending, fun m => ?_⟩
  rw [hmem, closure_insert hunlisted, Set.mem_insert_iff]
  constructor
  · rintro ⟨hm, hne, hanyone⟩
    exact ⟨hm.resolve_left hne, hanyone⟩
  · rintro ⟨hm, hanyone⟩
    exact ⟨Or.inr hm, fun heq => hout (heq ▸ hm), hanyone⟩

/-! ## 6. Names -/

theorem Role.encode_name {r : Role} {record : RoleRecord} (h : r.encode = .ok record) :
    record.name = r.name := by
  unfold Role.encode at h
  split at h <;> cases h
  rfl

theorem User.encode_name {u : User} {record : UserRecord} (h : u.encode = .ok record) :
    record.role.name = u.role.name := by
  unfold User.encode at h
  split at h
  · cases h
  · rename_i hrole
    split at h <;> cases h
    exact Role.encode_name hrole

theorem Group.encode_name {g : Group} {record : GroupRecord} (h : g.encode = .ok record) :
    record.user.role.name = g.user.role.name := by
  unfold Group.encode at h
  split at h <;> cases h
  rename_i huser
  exact User.encode_name huser

theorem eq_ok_of_encoded {α : Type} {r : Except Fault α} {a : α} (h : encoded r = .ok (some a)) :
    r = .ok a := by
  cases r <;> cases h
  rfl

/-- Whatever the store gives out about a role bears the name under which the role is filed. -/
structure Filed (s : RoleStore) : Prop where
  listed : ∀ {n e}, (n, e) ∈ s.list none → s.get? n = some e
  role : ∀ {n r}, s.roleRecord n = .ok (some r) → r.name = n
  user : ∀ {n u}, s.userRecord n = .ok (some u) → u.role.name = n
  group : ∀ {n g}, s.groupRecord n = .ok (some g) → g.user.role.name = n

theorem filed (s : RoleStore) : s.Filed where
  listed := fun h => SortedMap.get?_eq_some_iff.2 (List.mem_filter.1 h).1
  role := by
    intro n r h
    unfold roleRecord at h
    split at h
    · cases h
    · exact Role.encode_name (eq_ok_of_encoded h)
  user := by
    intro n u h
    unfold userRecord at h
    split at h
    · cases h
    · split at h
      · exact User.encode_name (eq_ok_of_encoded h)
      · cases h
  group := by
    intro n g h
    unfold groupRecord at h
    split at h
    · cases h
    · split at h
      · exact Group.encode_name (eq_ok_of_encoded h)
      · cases h

/-- A change of the entries is one of the whole roles. -/
theorem Change.builtAlike (h : Change s t) {roles : NamedRoleStore} (hs : BuiltAlike s roles) :
    ∃ roles', BuiltAlike t roles' := by
  cases h with
  | unchanged => exact ⟨roles, hs⟩
  | edit _ f _ => exact ⟨_, hs.modify _ f⟩
  | create _ kind => exact ⟨_, hs.create _ kind⟩
  | remove _ _ => exact ⟨_, hs.remove _⟩

/-- **A run makes a store of whole roles, too.** -/
theorem exists_builtAlike_after {roles : NamedRoleStore} (hs : BuiltAlike s roles)
    (requests : List Request) : ∃ roles', BuiltAlike (s.after requests) roles' := by
  induction requests generalizing s roles with
  | nil => exact ⟨roles, hs⟩
  | cons r rest ih =>
    obtain ⟨_, hr⟩ := (change_run s r).builtAlike hs
    exact ih hr

/-! ## 7. Reached stores -/

/-- **What holds of every store that management operations can make.**  In the store of whole roles that
the same operations make, each role is filed under the name that it bears, and this is the name on all that
the store gives out.  The invariant holds; in particular everyone is there, with nothing in it.  A role
keeps its kind for as long as it is there.  Where a name is free, whatever stood under it before, a user or
group can be made under it, and has then its own role and those that everyone has. -/
theorem integrity_of_reached {s : RoleStore} (h : s.Reached) :
    ((∃ roles, BuiltAlike s roles) ∧
      ∀ roles, BuiltAlike s roles → s.byName.BearsNames roles.byName) ∧
    s.Filed ∧ s.Integrity ∧
    (∃ e, s.get? anyone = some e ∧ e.kind = .role ∧ e.credentials = ∅ ∧ e.members = [] ∧
      e.requiredMembers = []) ∧
    (∀ requests n e, s.get? n = some e →
      (∀ run, run <+: requests → ((s.after run).get? n).isSome = true) →
      ∃ f, (s.after requests).get? n = some f ∧ f.kind = e.kind) ∧
    ∀ n kind, s.get? n = none → kind ≠ .role →
      ∃ t groups, (Request.create n kind).run s = (.ok (.truth true), t) ∧
        (Request.authorizationRecord n).run t = (.ok (.authorization ⟨n, n :: groups⟩), t) ∧
        Ascending groups ∧
        ∃ S, IsLeast {S | t.Closed {anyone} S} S ∧ ∀ m, m ∈ groups ↔ m ∈ S ∧ m ≠ anyone := by
  obtain ⟨requests, rfl⟩ := h
  have hs := integrity_after integrity_initial requests
  refine ⟨⟨exists_builtAlike_after .initial requests, fun _ hroles => hroles.bearsNames⟩, filed _, hs, ?_,
    fun requests n e he => kind_eq_after he requests, ?_⟩
  · obtain ⟨e, he, hkind⟩ := hs.anyone_role
    obtain ⟨hmembers, hrequired⟩ := (hs.sound he).members_nil (by simp [hkind])
    exact ⟨e, he, hkind, (hs.sound he).credentials_empty hkind, hmembers, hrequired⟩
  · intro n kind hfree hkind
    obtain ⟨groups, hgroups, hascending, hmem⟩ := authorization_create hs hfree hkind
    refine ⟨((initial.after requests).create n kind).2, groups, ?_, ?_, hascending, _,
      isLeast_closure _ _, hmem⟩
    · simp only [Request.run, create_fst hfree kind]
    · have hself := get?_create hfree kind n
      rw [if_pos rfl] at hself
      have huser : (RoleEntry.blank kind).isUser = true := RoleEntry.isUser_iff.2 hkind
      simp [Request.run, authorizationRecord, findUser, hself, huser, hgroups, reply]

/-- A store in which a user was a member of a group in both ways and has been removed since. -/
def bereft : RoleStore := initial.after [
  .create "alice" .user, .create "staff" .group, .create "public" .group,
  .addMember .basic "staff" "alice", .addMember .required "staff" "alice",
  .addMember .basic "public" anyone, .remove "alice"]

theorem integrity_of_reached_bereft :
    bereft.Reached ∧ (∃ roles, BuiltAlike bereft roles ∧ bereft.byName.BearsNames roles.byName) ∧
      bereft.Integrity ∧ bereft.get? "alice" = none ∧
      ∃ t groups, (Request.create "alice" .user).run bereft = (.ok (.truth true), t) ∧
        (Request.authorizationRecord "alice").run t =
          (.ok (.authorization ⟨"alice", "alice" :: groups⟩), t) ∧
        Ascending groups ∧
        ∃ S, IsLeast {S | t.Closed {anyone} S} S ∧ ∀ m, m ∈ groups ↔ m ∈ S ∧ m ≠ anyone := by
  have hreached : bereft.Reached := ⟨_, rfl⟩
  have hfree : bereft.get? "alice" = none := by rfl
  obtain ⟨⟨⟨roles, hroles⟩, hnames⟩, -, hs, -, -, hnew⟩ := integrity_of_reached hreached
  exact ⟨hreached, ⟨roles, hroles, hnames roles hroles⟩, hs, hfree, hnew "alice" .user hfree (by decide)⟩

end RoleStore
end FrameworkAdmin
