/-
# Maps are known by their view

A map in key order is no more than its view: two maps in which every key has the same value have the
same entries in the same order (`ext_get?`).  So a law about stores or dictionaries can be shown key by
key, and still speaks of the maps themselves.

The conversion of all values is described in the same spirit.  It succeeds exactly when the values
convert one by one, and gives the map of the results (`traverse_eq_ok_iff`); and it fails exactly with the
fault of the smallest key whose value does not convert (`traverse_eq_error_iff`).
-/
import Mathlib.Data.List.Induction
import Mathlib.Data.List.Nodup
import Mathlib.Data.List.Perm.Basic
import FrameworkAdmin.SortedMap

namespace FrameworkAdmin

/-! ## 1. Lists of entries -/

/-- The conversion of a list of entries succeeds exactly when each value converts. -/
theorem SortedMap.traverseEntries_eq_ok_iff {κ α β ε : Type} {f : κ → α → Except ε β}
    {l : List (κ × α)} {bs : List (κ × β)} :
    traverseEntries f l = .ok bs ↔
      (l.map fun e => (e.1, f e.1 e.2)) = bs.map fun e => (e.1, Except.ok e.2) := by
  induction l generalizing bs with
  | nil => cases bs <;> simp [traverseEntries]
  | cons head rest ih =>
    obtain ⟨k, a⟩ := head
    rw [traverseEntries, List.map_cons]
    cases hhead : f k a with
    | error e => cases bs <;> simp
    | ok b =>
      cases hrest : traverseEntries f rest with
      | error e =>
        have hne : ∀ bs : List (κ × β),
            (rest.map fun e => (e.1, f e.1 e.2)) ≠ bs.map fun e => (e.1, Except.ok e.2) := by
          intro bs heq
          rw [ih.2 heq] at hrest
          cases hrest
        cases bs <;> simp [hne]
      | ok bs' =>
        cases bs with
        | nil => simp
        | cons head' rest' =>
          obtain ⟨k', b'⟩ := head'
          have hstep : traverseEntries f rest = .ok rest' ↔ _ := ih
          rw [hrest, Except.ok.injEq] at hstep
          simp [hstep, and_assoc]

/-- It fails with the fault of the first value that fails. -/
theorem SortedMap.traverseEntries_eq_error_iff {κ α β ε : Type} {f : κ → α → Except ε β}
    {l : List (κ × α)} {e : ε} :
    traverseEntries f l = .error e ↔ ∃ before k a after, l = before ++ (k, a) :: after ∧
      f k a = .error e ∧ ∀ x ∈ before, ∃ b, f x.1 x.2 = .ok b := by
  induction l with
  | nil => simp [traverseEntries]
  | cons head rest ih =>
    obtain ⟨k, a⟩ := head
    cases hhead : f k a with
    | error e' =>
      constructor
      · intro h
        rw [traverseEntries, hhead] at h
        cases h
        exact ⟨[], k, a, rest, rfl, hhead, by simp⟩
      · rintro ⟨before, l, b, after, heq, hfail, hbefore⟩
        cases before with
        | nil =>
          cases heq
          rw [traverseEntries, hfail]
        | cons x before =>
          cases heq
          obtain ⟨b', hb'⟩ := hbefore (k, a) List.mem_cons_self
          rw [hhead] at hb'
          cases hb'
    | ok b' =>
      have hrest : traverseEntries f ((k, a) :: rest) = .error e ↔
          traverseEntries f rest = .error e := by
        rw [traverseEntries, hhead]
        cases traverseEntries f rest <;> simp
      rw [hrest, ih]
      constructor
      · rintro ⟨before, l, b, after, rfl, hfail, hbefore⟩
        refine ⟨(k, a) :: before, l, b, after, rfl, hfail, fun x hx => ?_⟩
        rcases List.mem_cons.1 hx with rfl | hx
        · exact ⟨b', hhead⟩
        · exact hbefore x hx
      · rintro ⟨before, l, b, after, heq, hfail, hbefore⟩
        cases before with
        | nil =>
          cases heq
          rw [hhead] at hfail
          cases hfail
        | cons x before =>
          cases heq
          exact ⟨before, l, b, after, rfl, hfail, fun y hy => hbefore y (List.mem_cons_of_mem _ hy)⟩

variable {κ : Type} [Ord κ]

theorem Ascending.nodup [Std.TransOrd κ] {keys : List κ} (h : Ascending keys) : keys.Nodup := by
  refine List.Pairwise.imp ?_ h
  rintro a b hlt rfl
  simp at hlt

/-- A list that ascends by a key has one order: lists with the same members are equal. -/
theorem eq_of_ascending_map [Std.TransOrd κ] [Std.LawfulEqOrd κ] {α : Type} (key : α → κ)
    {l l' : List α} (h : Ascending (l.map key)) (h' : Ascending (l'.map key))
    (hmem : ∀ a, a ∈ l ↔ a ∈ l') : l = l' := by
  have hpairs : ∀ {k : List α}, Ascending (k.map key) →
      k.Pairwise fun a b => compare (key a) (key b) = .lt := fun hk => List.pairwise_map.1 hk
  refine List.Perm.eq_of_pairwise (fun a b _ _ hab hba => ?_) (hpairs h) (hpairs h')
    ((List.perm_ext_iff_of_nodup (h.nodup.of_map key) (h'.nodup.of_map key)).2 hmem)
  have hgt := Std.OrientedCmp.gt_of_lt hab
  rw [hba] at hgt
  cases hgt

/-- Ascending lists with the same members are equal. -/
theorem eq_of_ascending [Std.TransOrd κ] [Std.LawfulEqOrd κ] {l l' : List κ} (h : Ascending l)
    (h' : Ascending l') (hmem : ∀ k, k ∈ l ↔ k ∈ l') : l = l' :=
  eq_of_ascending_map id (by rwa [List.map_id]) (by rwa [List.map_id]) hmem

namespace SortedMap

variable {α β ε : Type}

/-! ## 2. Equality -/

/-- **Maps with the same view are equal.** -/
theorem ext_get? [Std.TransOrd κ] [Std.LawfulEqOrd κ] {m n : SortedMap κ α}
    (h : ∀ k, m.get? k = n.get? k) : m = n := by
  refine ext_entries (eq_of_ascending_map Prod.fst m.ascending n.ascending ?_)
  rintro ⟨k, a⟩
  rw [← get?_eq_some_iff, ← get?_eq_some_iff, h]

/-- **A list of entries with distinct keys is what its map has.** -/
theorem get?_ofList_eq_some_iff [Std.TransOrd κ] [Std.LawfulEqOrd κ] {l : List (κ × α)}
    (h : (l.map Prod.fst).Nodup) {k : κ} {a : α} : (ofList l).get? k = some a ↔ (k, a) ∈ l := by
  induction l using List.reverseRecOn with
  | nil => simp [ofList]
  | append_singleton l last ih =>
    obtain ⟨k', a'⟩ := last
    rw [List.map_append, List.nodup_append] at h
    obtain ⟨hl, -, hlast⟩ := h
    have hinsert : ofList (l ++ [(k', a')]) = (ofList l).insert k' a' := by simp [ofList]
    rw [hinsert, get?_insert, List.mem_append, List.mem_singleton]
    by_cases hk : compare k k' = .eq
    · obtain rfl := Std.LawfulEqCmp.eq_of_compare hk
      have hnot : (k, a) ∉ l := by
        intro hmem
        exact hlast k (List.mem_map_of_mem hmem) k (by simp) rfl
      simp [hnot, eq_comm]
    · have hne : k ≠ k' := fun heq => hk (heq ▸ Std.ReflCmp.compare_self)
      simp [hk, hne, ih hl]

/-! ## 3. Conversions -/

/-- **A conversion gives a map exactly when every value converts to what the map has for it.** -/
theorem traverse_eq_ok_iff {f : κ → α → Except ε β} {m : SortedMap κ α} {n : SortedMap κ β} :
    m.traverse f = .ok n ↔ m.map f = n.map fun _ => Except.ok := by
  have hentries : m.traverse f = .ok n ↔ traverseEntries f m.entries = .ok n.entries := by
    unfold traverse
    split
    · rename_i e he
      simp [he]
    · rename_i bs hbs
      simp only [hbs, Except.ok.injEq]
      exact ⟨fun h => h ▸ rfl, fun h => ext_entries h⟩
  rw [hentries, traverseEntries_eq_ok_iff]
  exact ⟨fun h => ext_entries h, fun h => congrArg entries h⟩

/-- What a conversion does under one key. -/
theorem get?_of_traverse [Std.LawfulEqOrd κ] {f : κ → α → Except ε β} {m : SortedMap κ α}
    {n : SortedMap κ β} (h : m.traverse f = .ok n) (k : κ) :
    (m.get? k).map (f k) = (n.get? k).map Except.ok := by
  have hget := congrArg (fun m => m.get? k) (traverse_eq_ok_iff.1 h)
  simpa only [get?_map] using hget

/-- **A conversion fails with the fault of the smallest key whose value fails.** -/
theorem traverse_eq_error_iff [Std.TransOrd κ] [Std.LawfulEqOrd κ] {f : κ → α → Except ε β}
    {m : SortedMap κ α} {e : ε} :
    m.traverse f = .error e ↔ ∃ k a, m.get? k = some a ∧ f k a = .error e ∧
      ∀ l b, m.get? l = some b → compare l k = .lt → ∃ c, f l b = .ok c := by
  have hentries : m.traverse f = .error e ↔ traverseEntries f m.entries = .error e := by
    unfold traverse
    split
    · rename_i e' he
      simp [he]
    · rename_i bs hbs
      simp [hbs]
  rw [hentries, traverseEntries_eq_error_iff]
  have hpairs : m.entries.Pairwise fun x y => compare x.1 y.1 = .lt :=
    List.pairwise_map.1 m.ascending
  constructor
  · rintro ⟨before, k, a, after, heq, hfail, hbefore⟩
    refine ⟨k, a, get?_eq_some_iff.2 (heq ▸ by simp), hfail, fun l b hl hlt => ?_⟩
    rw [heq, List.pairwise_append, List.pairwise_cons] at hpairs
    -- what is listed from the key on is not smaller than the key
    rw [get?_eq_some_iff, heq, List.mem_append, List.mem_cons] at hl
    rcases hl with hmem | hself | hmem
    · exact hbefore _ hmem
    · cases hself
      simp at hlt
    · have hgt := Std.OrientedCmp.gt_of_lt (hpairs.2.1.1 _ hmem)
      rw [hlt] at hgt
      cases hgt
  · rintro ⟨k, a, hget, hfail, hsmaller⟩
    obtain ⟨before, after, heq⟩ := List.append_of_mem (get?_eq_some_iff.1 hget)
    refine ⟨before, k, a, after, heq, hfail, fun x hx => ?_⟩
    rw [heq, List.pairwise_append] at hpairs
    refine hsmaller x.1 x.2 (get?_eq_some_iff.2 ?_) (hpairs.2.2 x hx _ List.mem_cons_self)
    rw [heq]
    exact List.mem_append_left _ hx

end SortedMap

end FrameworkAdmin
