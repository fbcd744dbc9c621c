/-
# Operations on selected configurations

An operation with a filter takes the listing that the filter selects and then works through it.  Each
listed configuration is in the store, and is listed once.  Both stay true of the rest of the listing
while the operation works, since it touches one pid at a time; so no step fails, and what a
configuration is in the end depends on the first listing and on itself only.

`changeEach_spec` and `deleteEach_spec` say so for any listing of that kind, by induction on it; section
2 applies them to the operations.
-/
import FrameworkAdmin.Configuration.Management

namespace FrameworkAdmin

/-- The configuration with changed properties. -/
def Configuration.change (f : Option Properties → Option Properties) (c : Configuration) :
    Configuration :=
  { c with properties := f c.properties }

namespace ConfigurationStore

variable {s : ConfigurationStore} {listing : List (String × Configuration)}

/-! ## 1. Working through a listing -/

/-- **Changing each configuration of a listing** succeeds, and changes these and no others. -/
theorem changeEach_spec (f : Option Properties → Option Properties)
    (hnodup : (listing.map Prod.fst).Nodup)
    (hthere : ∀ pid ∈ listing.map Prod.fst, (s.get? pid).isSome = true) :
    ∃ t, changeEach f listing s = (.ok (), t) ∧
      ∀ x, t.get? x =
        if x ∈ listing.map Prod.fst then (s.get? x).map (·.change f) else s.get? x := by
  induction listing generalizing s with
  | nil => exact ⟨s, rfl, fun x => by simp⟩
  | cons head rest ih =>
    obtain ⟨pid, listed⟩ := head
    rw [List.map_cons, List.nodup_cons] at hnodup
    obtain ⟨c, hget⟩ := Option.isSome_iff_exists.1 (hthere pid List.mem_cons_self)
    have hview := s.get?_put pid (c.change f)
    have hstays : ∀ x ∈ rest.map Prod.fst, ((s.put pid (c.change f)).get? x).isSome = true := by
      intro x hx
      rw [hview]
      split
      · rfl
      · exact hthere x (List.mem_cons_of_mem _ hx)
    obtain ⟨t, ht, htview⟩ := ih hnodup.2 hstays
    refine ⟨t, ?_, fun x => ?_⟩
    · rw [changeEach, modifyProperties, modify_of_some hget]
      exact ht
    · rw [htview, hview, List.map_cons]
      by_cases hx : x = pid
      · subst hx
        rw [if_neg hnodup.1, if_pos rfl, if_pos List.mem_cons_self, hget]
        rfl
      · simp only [hx, if_false, List.mem_cons, false_or]

/-- **Removing each configuration of a listing** counts them all, and removes these and no others. -/
theorem deleteEach_spec (hnodup : (listing.map Prod.fst).Nodup)
    (hthere : ∀ pid ∈ listing.map Prod.fst, (s.get? pid).isSome = true) :
    (deleteEach listing s).1 = listing.length ∧
      ∀ x, (deleteEach listing s).2.get? x =
        if x ∈ listing.map Prod.fst then none else s.get? x := by
  induction listing generalizing s with
  | nil => exact ⟨rfl, fun x => by simp [deleteEach]⟩
  | cons head rest ih =>
    obtain ⟨pid, listed⟩ := head
    rw [List.map_cons, List.nodup_cons] at hnodup
    have hview := s.get?_delete pid
    have hstays : ∀ x ∈ rest.map Prod.fst, ((s.delete pid).2.get? x).isSome = true := by
      intro x hx
      have hne : x ≠ pid := fun heq => hnodup.1 (heq ▸ hx)
      rw [hview, if_neg hne]
      exact hthere x (List.mem_cons_of_mem _ hx)
    obtain ⟨hcount, hrest⟩ := ih hnodup.2 hstays
    have hexisted : (s.delete pid).1 = true := hthere pid List.mem_cons_self
    constructor
    · simp only [deleteEach, hexisted, if_true, hcount, List.length_cons]
    · intro x
      simp only [deleteEach, hrest, hview, List.map_cons, List.mem_cons]
      by_cases hx : x = pid
      · simp [hx]
      · simp only [hx, if_false, false_or]

/-! ## 2. Selections -/

/-- The pids of the configurations that a filter selects. -/
def selection (s : ConfigurationStore) (f : Filter) : List String := (s.list (some f)).map Prod.fst

theorem mem_selection_iff {f : Filter} {pid : String} :
    pid ∈ s.selection f ↔ ∃ c, s.get? pid = some c ∧ c.listed (some f) pid = true := by
  simp [selection, mem_list_iff]

theorem nodup_selection (s : ConfigurationStore) (f : Filter) : (s.selection f).Nodup := by
  refine (SortedMap.ascending (s.byPid.filter _)).imp ?_
  rintro a b hlt rfl
  simp at hlt

theorem isSome_of_mem_selection {f : Filter} :
    ∀ pid ∈ s.selection f, (s.get? pid).isSome = true := by
  intro pid hpid
  obtain ⟨c, hget, -⟩ := mem_selection_iff.1 hpid
  simp [hget]

theorem length_selection (s : ConfigurationStore) (f : Filter) :
    (s.selection f).length = (s.list (some f)).length := List.length_map _

/-- Setting a property in the selected configurations. -/
theorem addPropertyToSelected_spec {filter name text type : String} {f : Filter} {v : Value}
    (hvalue : Value.read type text = .ok v) (hfilter : Refusal.readFilter filter = .ok f) :
    ∃ t, s.addPropertyToSelected filter name text type = (.ok (s.selection f).length, t) ∧
      ∀ x, t.get? x =
        if x ∈ s.selection f then (s.get? x).map (·.change (withProperty name v)) else s.get? x := by
  obtain ⟨t, ht, hview⟩ :=
    changeEach_spec (withProperty name v) (s.nodup_selection f) isSome_of_mem_selection
  refine ⟨t, ?_, hview⟩
  simp only [addPropertyToSelected, hvalue, hfilter, ht, length_selection]

/-- Removing a property from the selected configurations. -/
theorem deletePropertyFromSelected_spec {filter name : String} {f : Filter}
    (hfilter : Refusal.readFilter filter = .ok f) :
    ∃ t, s.deletePropertyFromSelected filter name = (.ok (), t) ∧
      ∀ x, t.get? x =
        if x ∈ s.selection f then (s.get? x).map (·.change (withoutProperty name)) else s.get? x := by
  obtain ⟨t, ht, hview⟩ :=
    changeEach_spec (withoutProperty name) (s.nodup_selection f) isSome_of_mem_selection
  refine ⟨t, ?_, hview⟩
  simp only [deletePropertyFromSelected, hfilter, ht]

/-- Removing the selected configurations. -/
theorem deleteSelected_spec {filter : String} {f : Filter}
    (hfilter : Refusal.readFilter filter = .ok f) :
    ∃ t, s.deleteSelected filter = (.ok (s.selection f).length, t) ∧
      ∀ x, t.get? x = if x ∈ s.selection f then none else s.get? x := by
  obtain ⟨hcount, hview⟩ := deleteEach_spec (s.nodup_selection f) isSome_of_mem_selection
  refine ⟨_, ?_, hview⟩
  simp only [deleteSelected, hfilter, hcount, length_selection]

end ConfigurationStore
end FrameworkAdmin
