/-
# A selection is a snapshot

An operation on selected configurations changes the very store that its filter selects from.  Setting a
property may end the match of a configuration that is still waiting for its turn, and may start that of
one that was passed over.  Neither matters: the configurations that are reached are those that the filter
selected before the call, each of them once, and the count that is given back is theirs.

`Configuration.DiffersAt` is the frame inside a configuration and `DiffersOn` the one around the selected
ones; `acts_on_snapshot` collects, for any store and any filter, what each operation does.
-/
import FrameworkAdmin.Proofs.Configuration.Effects

namespace FrameworkAdmin

/-! ## 1. Frames -/

/-- The second configuration is the first, except that under one name it has this value, or none. -/
structure Configuration.DiffersAt (name : String) (v : Option Value) (c d : Configuration) :
    Prop where
  factoryPid_eq : d.factoryPid = c.factoryPid
  location_eq : d.location = c.location
  properties_isSome : c.properties.isSome = true ∧ d.properties.isSome = true
  property?_self : d.property? name = v
  property?_of_ne : ∀ other, other ≠ name → d.property? other = c.property? other

namespace Configuration

open ConfigurationStore

variable {c : Configuration}

theorem differsAt_withProperty (h : c.properties.isSome = true) (name : String) (v : Value) :
    DiffersAt name (some v) c (c.change (withProperty name v)) where
  factoryPid_eq := rfl
  location_eq := rfl
  properties_isSome := ⟨h, rfl⟩
  property?_self := by rw [property?_change_withProperty, if_pos rfl]
  property?_of_ne := by
    intro other hother
    rw [property?_change_withProperty, if_neg hother]

theorem differsAt_withoutProperty (h : c.properties.isSome = true) (name : String) :
    DiffersAt name none c (c.change (withoutProperty name)) where
  factoryPid_eq := rfl
  location_eq := rfl
  properties_isSome := ⟨h, by rwa [change, withoutProperty, Option.isSome_map]⟩
  property?_self := by rw [property?_change_withoutProperty, if_pos rfl]
  property?_of_ne := by
    intro other hother
    rw [property?_change_withoutProperty, if_neg hother]

end Configuration

namespace ConfigurationStore

variable {s t : ConfigurationStore} {filter : String} {f : Filter}

/-- The second store is the first, except that under these pids the configurations are in a relation. -/
structure DiffersOn (pids : List String) (R : Configuration → Configuration → Prop)
    (s t : ConfigurationStore) : Prop where
  related : ∀ pid ∈ pids, ∃ c d, s.get? pid = some c ∧ t.get? pid = some d ∧ R c d
  get?_of_notMem : ∀ pid, pid ∉ pids → t.get? pid = s.get? pid

/-! ## 2. Selections -/

theorem ascending_selection (s : ConfigurationStore) (f : Filter) : Ascending (s.selection f) :=
  SortedMap.ascending (s.byPid.filter _)

/-- What is selected has properties and a view that matches. -/
theorem mem_selection_iff_selects {pid : String} : pid ∈ s.selection f ↔
    ∃ c, s.get? pid = some c ∧ c.properties.isSome = true ∧ f.selects (c.view pid) = true := by
  simp only [mem_selection_iff, Configuration.listed, Bool.and_eq_true]

/-- A change of the properties of the selected configurations, as a frame. -/
theorem differsOn_of_view {g : Option Properties → Option Properties}
    {R : Configuration → Configuration → Prop}
    (hR : ∀ c : Configuration, c.properties.isSome = true → R c (c.change g))
    (h : ∀ x, t.get? x = if x ∈ s.selection f then (s.get? x).map (·.change g) else s.get? x) :
    DiffersOn (s.selection f) R s t where
  related := by
    intro pid hpid
    obtain ⟨c, hget, hproperties, -⟩ := mem_selection_iff_selects.1 hpid
    refine ⟨c, c.change g, hget, ?_, hR c hproperties⟩
    rw [h, if_pos hpid, hget]
    rfl
  get?_of_notMem := by
    intro pid hpid
    rw [h, if_neg hpid]

/-- The listing gives the pids that are selected, with their locations. -/
theorem listLocations_eq (hread : Refusal.readFilter filter = .ok f) :
    s.listLocations (some filter) =
      .ok ((s.selection f).map fun pid => (pid, (s.get? pid).bind (·.location))) := by
  simp only [listLocations, Refusal.readFilter?, hread, selection, List.map_map, Except.ok.injEq]
  refine List.map_congr_left ?_
  rintro ⟨pid, c⟩ hmem
  obtain ⟨hget, -⟩ := mem_list_iff.1 hmem
  simp [hget]

/-- Nothing is selected any more where everything that was selected is gone. -/
theorem selection_eq_nil (h : ∀ x, t.get? x = if x ∈ s.selection f then none else s.get? x) :
    t.selection f = [] := by
  refine List.eq_nil_iff_forall_not_mem.2 ?_
  intro pid hpid
  obtain ⟨c, hget, hlisted⟩ := mem_selection_iff.1 hpid
  rw [h] at hget
  split at hget
  · cases hget
  · rename_i hnot
    exact hnot (mem_selection_iff.2 ⟨c, hget, hlisted⟩)

/-- Removing nothing changes nothing. -/
theorem deleteSelected_of_selection_eq_nil (hread : Refusal.readFilter filter = .ok f)
    (h : s.selection f = []) : s.deleteSelected filter = (.ok 0, s) := by
  have hlist : s.list (some f) = [] := List.map_eq_nil_iff.1 h
  simp only [deleteSelected, hread, hlist, deleteEach]

/-! ## 3. Operations -/

/-- The operations with a filter act on what it selects in the store before the call. -/
structure ActsOnSnapshot (s : ConfigurationStore) (filter : String) (f : Filter) : Prop where
  /-- The selected pids ascend, so each of them stands there once. -/
  ascending : Ascending (s.selection f)
  /-- They are those of the configurations that have properties and match. -/
  mem_iff : ∀ pid, pid ∈ s.selection f ↔
    ∃ c, s.get? pid = some c ∧ c.properties.isSome = true ∧ f.selects (c.view pid) = true
  listLocations : s.listLocations (some filter) =
    .ok ((s.selection f).map fun pid => (pid, (s.get? pid).bind (·.location)))
  addProperty : ∀ name text type v, Value.read type text = .ok v →
    ∃ t, s.addPropertyToSelected filter name text type = (.ok (s.selection f).length, t) ∧
      DiffersOn (s.selection f) (Configuration.DiffersAt name (some v)) s t
  deleteProperty : ∀ name,
    ∃ t, s.deletePropertyFromSelected filter name = (.ok (), t) ∧
      DiffersOn (s.selection f) (Configuration.DiffersAt name none) s t
  /-- Removing gives their number, and there is nothing left to remove. -/
  delete : ∃ t, s.deleteSelected filter = (.ok (s.selection f).length, t) ∧
    (∀ pid, t.get? pid = if pid ∈ s.selection f then none else s.get? pid) ∧
    t.deleteSelected filter = (.ok 0, t)

/-- **Operations with a filter act on a snapshot**, whatever the store and whatever the filter, and even if
they change what it matches. -/
theorem acts_on_snapshot (s : ConfigurationStore) (h : Filter.read filter = .ok f) :
    s.ActsOnSnapshot filter f := by
  have hread : Refusal.readFilter filter = .ok f := by
    rw [Refusal.readFilter, h]
  refine ⟨s.ascending_selection f, fun pid => mem_selection_iff_selects, listLocations_eq hread,
    ?_, ?_, ?_⟩
  · intro name text type v hvalue
    obtain ⟨t, ht, hview⟩ := @addPropertyToSelected_spec s filter name text type f v hvalue hread
    refine ⟨t, ht, differsOn_of_view (fun c hc => ?_) hview⟩
    exact Configuration.differsAt_withProperty hc name v
  · intro name
    obtain ⟨t, ht, hview⟩ := @deletePropertyFromSelected_spec s filter name f hread
    refine ⟨t, ht, differsOn_of_view (fun c hc => ?_) hview⟩
    exact Configuration.differsAt_withoutProperty hc name
  · obtain ⟨t, ht, hview⟩ := deleteSelected_spec (s := s) hread
    exact ⟨t, ht, hview, deleteSelected_of_selection_eq_nil hread (selection_eq_nil hview)⟩

/-- Configurations that a filter on `k` tells apart. -/
def numbered : ConfigurationStore :=
  (∅ : ConfigurationStore).after [
    .addProperty "b" (some "file:b") "k" "1" "Integer", .addProperty "a" none "k" "1" "Integer",
    .addProperty "c" none "k" "2" "Integer", .locationOf "d"]

/-- Setting `k` where it is 1 ends the match of every configuration that is reached. -/
theorem acts_on_snapshot_numbered :
    ∃ f, Filter.read "(k=1)" = .ok f ∧ numbered.selection f = ["a", "b"] ∧
      numbered.ActsOnSnapshot "(k=1)" f ∧
      ∃ t, numbered.addPropertyToSelected "(k=1)" "k" "2" "Integer" = (.ok 2, t) ∧
        t.selection f = [] := by
  have hread : Filter.read "(k=1)" = .ok (.compare "k" .equal "1") := by rfl
  refine ⟨_, hread, by decide, acts_on_snapshot numbered hread, _, rfl, by decide⟩

end ConfigurationStore
end FrameworkAdmin
