/-
# Maps in key order

Property dictionaries, their tables, and every store of the framework are finite maps whose
order is visible: listings, the first error of a conversion, and the answers of a wire form all
follow the keys.  A `SortedMap` is therefore the list of its entries with the proof that the
keys ascend strictly, so that two maps with the same entries are the same map.

The view is `get?`.  Section 3 gives one equation per operation through it, and after that
section nobody looks at the entries except to list them.

Keys are ordered by `compare`, which on strings is the order of code points and hence that of
their UTF-8 bytes.
-/

namespace FrameworkAdmin

/-! ## 1. Ascending keys -/

/-- Strictly ascending, hence without repetitions. -/
def Ascending {κ : Type} [Ord κ] (keys : List κ) : Prop :=
  keys.Pairwise (fun a b => compare a b = .lt)

/-- A finite map, listed in key order. -/
structure SortedMap (κ α : Type) [Ord κ] where
  entries : List (κ × α)
  ascending : Ascending (entries.map Prod.fst)

namespace SortedMap

section Entries

variable {κ α β ε : Type}

/-- Converts the values in key order and stops at the first that fails. -/
def traverseEntries (f : κ → α → Except ε β) : List (κ × α) → Except ε (List (κ × β))
  | [] => .ok []
  | (k, a) :: rest =>
    match f k a with
    | .error e => .error e
    | .ok b =>
      match traverseEntries f rest with
      | .error e => .error e
      | .ok bs => .ok ((k, b) :: bs)

theorem keys_of_traverseEntries {f : κ → α → Except ε β} {l : List (κ × α)} {bs : List (κ × β)}
    (h : traverseEntries f l = .ok bs) : bs.map Prod.fst = l.map Prod.fst := by
  induction l generalizing bs with
  | nil => cases h; rfl
  | cons e rest ih =>
    obtain ⟨k, a⟩ := e
    unfold traverseEntries at h
    split at h
    · cases h
    · split at h
      · cases h
      · rename_i hrest
        cases h
        simp [ih hrest]

end Entries

variable {κ : Type} [Ord κ] {α β ε : Type}

/-- Maps with the same entries are equal. -/
theorem ext_entries {m n : SortedMap κ α} (h : m.entries = n.entries) : m = n := by
  cases m; cases n; simp_all

instance [DecidableEq κ] [DecidableEq α] : DecidableEq (SortedMap κ α) := fun m n =>
  decidable_of_iff (m.entries = n.entries) ⟨ext_entries, fun h => h ▸ rfl⟩

/-! ## 2. Operations -/

/-- The map without entries. -/
def empty : SortedMap κ α := ⟨[], List.Pairwise.nil⟩

instance : EmptyCollection (SortedMap κ α) := ⟨empty⟩
instance : Inhabited (SortedMap κ α) := ⟨empty⟩

/-- The number of entries. -/
def size (m : SortedMap κ α) : Nat := m.entries.length

/-- There are no entries. -/
def isEmpty (m : SortedMap κ α) : Bool := m.entries.isEmpty

/-- The keys, ascending. -/
def keys (m : SortedMap κ α) : List κ := m.entries.map Prod.fst

/-- The values, in the order of their keys. -/
def values (m : SortedMap κ α) : List α := m.entries.map Prod.snd

/-- The value of the first entry with this key. -/
def lookup (k : κ) : List (κ × α) → Option α
  | [] => none
  | (l, a) :: rest => if compare k l = .eq then some a else lookup k rest

/-- The value under a key. -/
def get? (m : SortedMap κ α) (k : κ) : Option α := lookup k m.entries

/-- The key has a value. -/
def contains (m : SortedMap κ α) (k : κ) : Bool := (m.get? k).isSome

/-- Puts an entry where its key belongs, in place of an entry with that key. -/
def place (k : κ) (a : α) : List (κ × α) → List (κ × α)
  | [] => [(k, a)]
  | (l, b) :: rest =>
    match compare k l with
    | .lt => (k, a) :: (l, b) :: rest
    | .eq => (l, a) :: rest
    | .gt => (l, b) :: place k a rest

/-- The keys afterwards are the new one and the old ones. -/
theorem mem_keys_place [Std.LawfulEqOrd κ] {k x : κ} {a : α} {l : List (κ × α)}
    (h : x ∈ (place k a l).map Prod.fst) : x = k ∨ x ∈ l.map Prod.fst := by
  induction l with
  | nil => simpa [place] using h
  | cons e rest ih =>
    obtain ⟨l, b⟩ := e
    unfold place at h
    split at h
    · simpa using h
    · right; simpa using h
    · simp only [List.map_cons, List.mem_cons] at h ⊢
      rcases h with rfl | h
      · simp
      · rcases ih h with rfl | h <;> simp_all

theorem ascending_place [Std.TransOrd κ] [Std.LawfulEqOrd κ] (k : κ) (a : α)
    {l : List (κ × α)} (h : Ascending (l.map Prod.fst)) :
    Ascending ((place k a l).map Prod.fst) := by
  induction l with
  | nil => simp [place, Ascending]
  | cons e rest ih =>
    obtain ⟨l, b⟩ := e
    simp only [Ascending, List.map_cons, List.pairwise_cons] at h
    unfold place
    split
    · rename_i hkl
      simp only [Ascending, List.map_cons, List.pairwise_cons, List.mem_cons]
      refine ⟨?_, h⟩
      rintro x (rfl | hx)
      · exact hkl
      · exact Std.TransCmp.lt_trans hkl (h.1 x hx)
    · simpa [Ascending] using h
    · rename_i hkl
      simp only [Ascending, List.map_cons, List.pairwise_cons]
      refine ⟨fun x hx => ?_, ih h.2⟩
      rcases mem_keys_place hx with rfl | hx
      · exact Std.OrientedCmp.lt_of_gt hkl
      · exact h.1 x hx

/-- The map with `a` under `k`. -/
def insert [Std.TransOrd κ] [Std.LawfulEqOrd κ] (m : SortedMap κ α) (k : κ) (a : α) :
    SortedMap κ α :=
  ⟨place k a m.entries, ascending_place k a m.ascending⟩

/-- The value in the place of an entry with the key `k`, if it is taken.  The search ends where the
key belongs. -/
def displaced (k : κ) : List (κ × α) → Option α
  | [] => none
  | (l, b) :: rest =>
    match compare k l with
    | .lt => none
    | .eq => some b
    | .gt => displaced k rest

/-- The map with `a` under `k`, and the value that this replaces. -/
def exchange [Std.TransOrd κ] [Std.LawfulEqOrd κ] (m : SortedMap κ α) (k : κ) (a : α) :
    Option α × SortedMap κ α :=
  (displaced k m.entries, m.insert k a)

/-- The map without the key `k`. -/
def erase (m : SortedMap κ α) (k : κ) : SortedMap κ α where
  entries := m.entries.filter (fun e => compare k e.1 != .eq)
  ascending := m.ascending.sublist (List.filter_sublist.map _)

/-- The entries that satisfy a predicate. -/
def filter (m : SortedMap κ α) (p : κ → α → Bool) : SortedMap κ α where
  entries := m.entries.filter (fun e => p e.1 e.2)
  ascending := m.ascending.sublist (List.filter_sublist.map _)

/-- The same keys with other values. -/
def map (m : SortedMap κ α) (f : κ → α → β) : SortedMap κ β where
  entries := m.entries.map (fun e => (e.1, f e.1 e.2))
  ascending := by
    have h := m.ascending
    simpa [Ascending, List.map_map, Function.comp_def] using h

/-- The same map with the value under `k`, if there is one, replaced. -/
def modify (m : SortedMap κ α) (k : κ) (f : α → α) : SortedMap κ α :=
  m.map fun l a => if compare k l = .eq then f a else a

/-- Inserts the entries of a list in order, so that a later one replaces an earlier one with its
key. -/
def ofList [Std.TransOrd κ] [Std.LawfulEqOrd κ] (l : List (κ × α)) : SortedMap κ α :=
  l.foldl (fun m e => m.insert e.1 e.2) ∅

/-- Converts every value, or gives the fault of the smallest key whose value fails. -/
def traverse (m : SortedMap κ α) (f : κ → α → Except ε β) : Except ε (SortedMap κ β) :=
  match h : traverseEntries f m.entries with
  | .error e => .error e
  | .ok bs => .ok ⟨bs, keys_of_traverseEntries h ▸ m.ascending⟩

/-- A conversion of the values neither adds nor loses a key. -/
theorem keys_of_traverse {f : κ → α → Except ε β} {m : SortedMap κ α} {n : SortedMap κ β}
    (h : m.traverse f = .ok n) : n.keys = m.keys := by
  unfold traverse at h
  split at h
  · cases h
  · cases h
    exact keys_of_traverseEntries ‹_›

/-! ## 3. The view -/

@[simp] theorem get?_empty (k : κ) : (∅ : SortedMap κ α).get? k = none := rfl

theorem lookup_place [Std.TransOrd κ] [Std.LawfulEqOrd κ] (k : κ) (a : α) (l : List (κ × α))
    (x : κ) : lookup x (place k a l) = if compare x k = .eq then some a else lookup x l := by
  induction l with
  | nil => simp [place, lookup]
  | cons e rest ih =>
    obtain ⟨l, b⟩ := e
    unfold place
    split
    · rfl
    · rename_i hkl
      obtain rfl := Std.LawfulEqCmp.eq_of_compare hkl
      simp only [lookup]
      split <;> rfl
    · rename_i hkl
      simp only [lookup, ih]
      by_cases hxl : compare x l = .eq
      · obtain rfl := Std.LawfulEqCmp.eq_of_compare hxl
        have : compare x k ≠ .eq := fun h => by
          obtain rfl := Std.LawfulEqCmp.eq_of_compare h
          rw [hxl] at hkl
          cases hkl
        simp [this]
      · simp [hxl]

/-- After an insertion its key has the new value and every other key the old one. -/
theorem get?_insert [Std.TransOrd κ] [Std.LawfulEqOrd κ] (m : SortedMap κ α) (k : κ) (a : α)
    (x : κ) : (m.insert k a).get? x = if compare x k = .eq then some a else m.get? x :=
  lookup_place k a m.entries x

@[simp] theorem get?_insert_self [Std.TransOrd κ] [Std.LawfulEqOrd κ] (m : SortedMap κ α)
    (k : κ) (a : α) : (m.insert k a).get? k = some a := by
  simp [get?_insert]

theorem get?_insert_of_ne [Std.TransOrd κ] [Std.LawfulEqOrd κ] (m : SortedMap κ α) {k x : κ}
    (a : α) (h : x ≠ k) : (m.insert k a).get? x = m.get? x := by
  rw [get?_insert, if_neg]
  exact fun he => h (Std.LawfulEqCmp.eq_of_compare he)

theorem lookup_filter_ne [Std.LawfulEqOrd κ] (k x : κ) (l : List (κ × α)) :
    lookup x (l.filter (fun e => compare k e.1 != .eq)) =
      if compare k x = .eq then none else lookup x l := by
  induction l with
  | nil => simp [lookup]
  | cons e rest ih =>
    obtain ⟨l, b⟩ := e
    rw [List.filter_cons]
    by_cases hkl : compare k l = .eq
    · obtain rfl := Std.LawfulEqCmp.eq_of_compare hkl
      by_cases hkx : compare k x = .eq
      · simp [ih, hkx]
      · have : compare x k ≠ .eq := fun h => hkx (by
          obtain rfl := Std.LawfulEqCmp.eq_of_compare h
          exact h)
        simp [ih, hkx, lookup, this]
    · by_cases hxl : compare x l = .eq
      · obtain rfl := Std.LawfulEqCmp.eq_of_compare hxl
        simp [hkl, lookup]
      · simp [hkl, lookup, hxl, ih]

/-- After an erasure its key has no value and every other key the old one. -/
theorem get?_erase [Std.LawfulEqOrd κ] (m : SortedMap κ α) (k x : κ) :
    (m.erase k).get? x = if compare k x = .eq then none else m.get? x :=
  lookup_filter_ne k x m.entries

/-- Mapping the values maps the view. -/
theorem get?_map [Std.LawfulEqOrd κ] (m : SortedMap κ α) (f : κ → α → β) (x : κ) :
    (m.map f).get? x = (m.get? x).map (f x) := by
  show lookup x (m.entries.map (fun e => (e.1, f e.1 e.2))) = _
  unfold get?
  induction m.entries with
  | nil => rfl
  | cons e rest ih =>
    obtain ⟨l, b⟩ := e
    simp only [List.map_cons, lookup]
    split
    · rename_i h
      obtain rfl := Std.LawfulEqCmp.eq_of_compare h
      rfl
    · exact ih

/-- Under ascending keys, what is looked up is what is listed. -/
theorem lookup_eq_some_iff [Std.TransOrd κ] [Std.LawfulEqOrd κ] {k : κ} {a : α}
    {l : List (κ × α)} (h : Ascending (l.map Prod.fst)) :
    lookup k l = some a ↔ (k, a) ∈ l := by
  induction l with
  | nil => simp [lookup]
  | cons e rest ih =>
    obtain ⟨l, b⟩ := e
    simp only [Ascending, List.map_cons, List.pairwise_cons] at h
    rw [lookup, List.mem_cons, Prod.mk.injEq]
    by_cases hkl : compare k l = .eq
    · obtain rfl := Std.LawfulEqCmp.eq_of_compare hkl
      have hrest : (k, a) ∉ rest := fun hmem => by
        have hlt := h.1 k (List.mem_map_of_mem hmem)
        rw [hkl] at hlt
        cases hlt
      simp [hrest, eq_comm]
    · have hne : k ≠ l := fun heq => hkl (heq ▸ Std.ReflCmp.compare_self)
      simp [hkl, hne, ih h.2]

/-- A key has a value if and only if the two are an entry. -/
theorem get?_eq_some_iff [Std.TransOrd κ] [Std.LawfulEqOrd κ] {m : SortedMap κ α} {k : κ}
    {a : α} : m.get? k = some a ↔ (k, a) ∈ m.entries :=
  lookup_eq_some_iff m.ascending

/-- Under ascending keys, what is found where a key belongs is what is looked up. -/
theorem displaced_eq_lookup [Std.TransOrd κ] [Std.LawfulEqOrd κ] (k : κ) {l : List (κ × α)}
    (h : Ascending (l.map Prod.fst)) : displaced k l = lookup k l := by
  induction l with
  | nil => rfl
  | cons e rest ih =>
    obtain ⟨l, b⟩ := e
    simp only [Ascending, List.map_cons, List.pairwise_cons] at h
    rw [displaced, lookup]
    cases hkl : compare k l with
    | lt =>
      -- the keys behind are larger still
      have hnone : lookup k rest = none := Option.eq_none_iff_forall_ne_some.2 fun a ha => by
        have hlk := h.1 k (List.mem_map_of_mem ((lookup_eq_some_iff h.2).1 ha))
        rw [Std.OrientedCmp.gt_of_lt hkl] at hlk
        cases hlk
      simp [hnone]
    | eq => simp
    | gt => simpa using ih h.2

/-- **An exchange gives the value that the key has had.** -/
theorem exchange_eq [Std.TransOrd κ] [Std.LawfulEqOrd κ] (m : SortedMap κ α) (k : κ) (a : α) :
    m.exchange k a = (m.get? k, m.insert k a) := by
  rw [exchange, displaced_eq_lookup k m.ascending, get?]

theorem get?_filter_eq_some_iff [Std.TransOrd κ] [Std.LawfulEqOrd κ] {m : SortedMap κ α}
    {p : κ → α → Bool} {k : κ} {a : α} :
    (m.filter p).get? k = some a ↔ m.get? k = some a ∧ p k a = true := by
  rw [get?_eq_some_iff, get?_eq_some_iff, filter, List.mem_filter]

theorem mem_keys_iff [Std.TransOrd κ] [Std.LawfulEqOrd κ] {m : SortedMap κ α} {k : κ} :
    k ∈ m.keys ↔ ∃ a, m.get? k = some a := by
  simp [keys, get?_eq_some_iff]

theorem contains_eq_false_iff {m : SortedMap κ α} {k : κ} :
    m.contains k = false ↔ m.get? k = none := by
  simp [contains]

end SortedMap

end FrameworkAdmin
