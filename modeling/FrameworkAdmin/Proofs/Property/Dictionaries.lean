/-
# All of a dictionary or nothing

A dictionary is written into a table, and a table read into a dictionary, as a whole.  There are two
outcomes in either direction, and this module says exactly when each of them occurs and what it is.

* All values convert.  Then the result has the same names, and under each name what the value converts to.
* Some do not.  Then there is no result, and the fault is the one of the **smallest** name whose value
  fails, whichever order the dictionary was put together in.

What reading can fail on is a matter of the row.  What writing can fail on is said here without the
writer: a nested dictionary, and a vector with an item that is no scalar, of which the first such item is
named (`Value.Obstacle`).

On its way a table may be a list of rows, and lists have an order and can repeat a key.  The list of a
table does not repeat one, so in any order it gives the table back (`Table.ofRows_of_perm`), and a
dictionary whose values come back does so as a whole.
-/
import FrameworkAdmin.Proofs.Property.Tables

namespace FrameworkAdmin

/-! ## 1. Values without a row -/

namespace Value

/-- The value can be written: it is no dictionary, and no vector with anything but scalars in it. -/
def Tabular : Value → Prop
  | .scalar _ | .array _ _ => True
  | .vector items => ∀ item ∈ items, item.scalar?.isSome = true
  | .dictionary _ => False

/-- What stands in the way of writing a value, in the words of the fault. -/
inductive Obstacle : Value → String → Prop
  | dictionary (entries : List (String × Value)) : Obstacle (.dictionary entries) "Dictionary"
  | item (before : List Scalar) {item : Value} (hitem : item.scalar? = none) (after : List Value) :
      Obstacle (.vector (before.map .scalar ++ item :: after)) ("Vector of " ++ item.kindName)

theorem eq_scalar_of_scalar? {v : Value} {s : Scalar} (h : v.scalar? = some s) : v = .scalar s := by
  cases v with
  | scalar t =>
    cases h
    rfl
  | array e items => cases h
  | vector items => cases h
  | dictionary entries => cases h

/-- A vector is refused for its first item that is no scalar. -/
theorem vectorScalars_eq_error_iff {items : List Value} {v : Value} :
    vectorScalars items = .error v ↔ ∃ (before : List Scalar) (after : List Value),
      items = before.map .scalar ++ v :: after ∧ v.scalar? = none := by
  induction items with
  | nil => simp [vectorScalars]
  | cons first rest ih =>
    cases hfirst : first.scalar? with
    | some s =>
      obtain rfl := eq_scalar_of_scalar? hfirst
      have hrest : vectorScalars (.scalar s :: rest) = .error v ↔ vectorScalars rest = .error v := by
        rw [vectorScalars]
        cases vectorScalars rest <;> simp
      rw [hrest, ih]
      constructor
      · rintro ⟨before, after, rfl, hv⟩
        exact ⟨s :: before, after, rfl, hv⟩
      · rintro ⟨before, after, heq, hv⟩
        cases before with
        | nil =>
          cases heq
          cases hv
        | cons t before =>
          cases heq
          exact ⟨before, after, rfl, hv⟩
    | none =>
      have herror : vectorScalars (first :: rest) = .error first := by
        cases first with
        | scalar s => cases hfirst
        | array e as => rfl
        | vector vs => rfl
        | dictionary es => rfl
      rw [herror]
      constructor
      · intro h
        cases h
        exact ⟨[], rest, rfl, hfirst⟩
      · rintro ⟨before, after, heq, hv⟩
        cases before with
        | nil =>
          cases heq
          rfl
        | cons t before =>
          cases heq
          cases hfirst

/-- **Writing is refused exactly for an obstacle**, and the fault names it. -/
theorem write_eq_error_iff {key : String} {v : Value} {fault : Fault} :
    v.write key = .error fault ↔ ∃ what, v.Obstacle what ∧ fault = .unsupportedValue key what := by
  constructor
  · intro h
    cases v with
    | scalar s => cases h
    | array e items => cases h
    | vector items =>
      rw [write] at h
      split at h
      · cases h
      · rename_i item hitem
        obtain ⟨before, after, rfl, hnone⟩ := vectorScalars_eq_error_iff.1 hitem
        cases h
        exact ⟨_, .item before hnone after, rfl⟩
    | dictionary entries =>
      cases h
      exact ⟨_, .dictionary entries, rfl⟩
  · rintro ⟨what, hobstacle, rfl⟩
    cases hobstacle with
    | dictionary entries => rfl
    | item before hitem after => rw [write, vectorScalars_eq_error_iff.2 ⟨before, after, rfl, hitem⟩]

/-- A value can be written exactly when there is no obstacle in it. -/
theorem tabular_iff_forall_not_obstacle {v : Value} : v.Tabular ↔ ∀ what, ¬ v.Obstacle what := by
  constructor
  · intro htabular what hobstacle
    cases hobstacle with
    | dictionary entries => exact htabular
    | item before hitem after =>
      have hsome := htabular _ (List.mem_append_right _ List.mem_cons_self)
      rw [hitem] at hsome
      cases hsome
  · intro hclear
    cases v with
    | scalar s => trivial
    | array e items => trivial
    | dictionary entries => exact hclear _ (.dictionary entries)
    | vector items =>
      cases hscalars : vectorScalars items with
      | ok ss =>
        obtain rfl := vectorScalars_eq_ok_iff.1 hscalars
        intro item hitem
        obtain ⟨s, -, rfl⟩ := List.mem_map.1 hitem
        rfl
      | error item =>
        obtain ⟨before, after, rfl, hnone⟩ := vectorScalars_eq_error_iff.1 hscalars
        exact absurd (.item before hnone after) (hclear _)

end Value

namespace Row

variable {key : String} {v : Value} {fault : Fault}

theorem ofValue_eq_error_iff :
    ofValue key v = .error fault ↔ ∃ what, v.Obstacle what ∧ fault = .unsupportedValue key what := by
  rw [← Value.write_eq_error_iff, ofValue]
  cases v.write key <;> simp

/-- **A value has a row exactly when it can be written.** -/
theorem exists_ofValue_iff : (∃ row, ofValue key v = .ok row) ↔ v.Tabular := by
  rw [Value.tabular_iff_forall_not_obstacle]
  constructor
  · rintro ⟨row, hrow⟩ what hobstacle
    rw [ofValue_eq_error_iff.2 ⟨what, hobstacle, rfl⟩] at hrow
    cases hrow
  · intro hclear
    cases hrow : ofValue key v with
    | ok row => exact ⟨row, rfl⟩
    | error fault =>
      obtain ⟨what, hobstacle, -⟩ := ofValue_eq_error_iff.1 hrow
      exact absurd hobstacle (hclear what)

end Row

/-! ## 2. Tables out of rows -/

namespace Table

variable {t u : Table} {rows : List Row} {p : Properties} {fault : Fault}

/-- **Tables with the same rows under the same keys are equal.** -/
theorem ext_get? (h : ∀ key, t.get? key = u.get? key) : t = u := by
  obtain ⟨cells⟩ := t
  obtain ⟨cells'⟩ := u
  refine congrArg mk (SortedMap.ext_get? fun key => ?_)
  have hrow := congrArg (Option.map Row.toCells) (h key)
  simpa [get?, Option.map_map, Function.comp_def] using hrow

theorem get?_insert (t : Table) (row : Row) (key : String) :
    (t.insert row).get? key = if row.key = key then some row else t.get? key := by
  rw [get?, insert, SortedMap.get?_insert]
  by_cases hkey : row.key = key
  · subst hkey
    simp
  · have hne : compare key row.key ≠ .eq := fun heq => hkey (Std.LawfulEqCmp.eq_of_compare heq).symm
    rw [if_neg hne, if_neg hkey, get?]

theorem ofRows_append_singleton (rows : List Row) (row : Row) :
    ofRows (rows ++ [row]) = (ofRows rows).insert row := by
  rw [ofRows, List.foldl_append]
  rfl

/-- **What a list of rows has under a key is its last row with this key.** -/
theorem get?_ofRows (rows : List Row) (key : String) :
    (ofRows rows).get? key = rows.reverse.find? (·.key == key) := by
  induction rows using List.reverseRecOn with
  | nil => rfl
  | append_singleton rows row ih =>
    rw [ofRows_append_singleton, get?_insert, List.reverse_append, List.reverse_singleton,
      List.singleton_append, List.find?_cons]
    by_cases hkey : row.key = key
    · simp [hkey]
    · rw [if_neg hkey, beq_false_of_ne hkey]
      exact ih

/-- **The rows of a table give it back in any order.** -/
theorem ofRows_of_perm (h : rows.Perm t.rows) : ofRows rows = t := by
  have hmem : ∀ row, row ∈ rows.reverse ↔ t.get? row.key = some row := fun row => by
    rw [List.mem_reverse, h.mem_iff, mem_rows_iff]
  refine ext_get? fun key => ?_
  rw [get?_ofRows]
  cases hfound : rows.reverse.find? (·.key == key) with
  | some row =>
    obtain rfl : row.key = key := by simpa using List.find?_some hfound
    exact ((hmem row).1 (List.mem_of_find?_eq_some hfound)).symm
  | none =>
    cases hget : t.get? key with
    | none => rfl
    | some row =>
      obtain ⟨-, rfl⟩ := get?_eq_some_iff.1 hget
      have hnone := List.find?_eq_none.1 hfound row ((hmem row).2 hget)
      simp at hnone

/-! ## 3. The first failure -/

/-- Writing a dictionary fails with the fault of its smallest name whose value has no row. -/
theorem ofProperties_eq_error_iff :
    ofProperties p = .error fault ↔ ∃ name v, p.get? name = some v ∧ Row.ofValue name v = .error fault ∧
      ∀ smaller w, p.get? smaller = some w → compare smaller name = .lt →
        ∃ row, Row.ofValue smaller w = .ok row := by
  have hvalues : ofProperties p = .error fault ↔
      (p.traverse fun key v => (Row.ofValue key v).map Row.toCells) = .error fault := by
    unfold ofProperties
    cases p.traverse fun key v => (Row.ofValue key v).map Row.toCells <;> simp
  have herror : ∀ {r : Except Fault Row}, r.map Row.toCells = .error fault ↔ r = .error fault := by
    intro r
    cases r <;> simp [Except.map]
  have hok : ∀ {r : Except Fault Row}, (∃ cells, r.map Row.toCells = .ok cells) ↔ ∃ row, r = .ok row := by
    intro r
    cases r <;> simp [Except.map]
  rw [hvalues, SortedMap.traverse_eq_error_iff]
  simp only [herror, hok]

theorem exists_ofProperties_iff :
    (∃ t, ofProperties p = .ok t) ↔ ∀ name v, p.get? name = some v → v.Tabular := by
  constructor
  · rintro ⟨t, ht⟩ name v hv
    have hrow := get?_of_ofProperties ht name
    rw [hv, Option.map_some] at hrow
    obtain ⟨row, -, hofValue⟩ := Option.map_eq_some_iff.1 hrow.symm
    exact Row.exists_ofValue_iff.1 ⟨row, hofValue.symm⟩
  · intro htabular
    cases hwrite : ofProperties p with
    | ok t => exact ⟨t, rfl⟩
    | error fault =>
      obtain ⟨name, v, hv, hfault, -⟩ := ofProperties_eq_error_iff.1 hwrite
      obtain ⟨row, hrow⟩ := Row.exists_ofValue_iff.2 (htabular name v hv)
      rw [hfault] at hrow
      cases hrow

/-- Reading a table fails with the fault of its first row that cannot be read. -/
theorem toProperties_eq_error_iff :
    t.toProperties = .error fault ↔ ∃ row ∈ t.rows, row.toValue = .error fault ∧
      ∀ smaller ∈ t.rows, compare smaller.key row.key = .lt → ∃ v, smaller.toValue = .ok v := by
  have hmem : ∀ {key cells}, t.cells.get? key = some cells ↔ { cells with key } ∈ t.rows := by
    intro key cells
    rw [mem_rows_iff, get?_eq_some_iff]
    exact (and_iff_left rfl).symm
  rw [toProperties, SortedMap.traverse_eq_error_iff]
  constructor
  · rintro ⟨key, cells, hget, hfault, hsmaller⟩
    refine ⟨_, hmem.1 hget, hfault, fun row hrow hlt => ?_⟩
    exact hsmaller row.key row.toCells (hmem.2 hrow) hlt
  · rintro ⟨row, hrow, hfault, hsmaller⟩
    refine ⟨row.key, row.toCells, hmem.2 hrow, hfault, fun key cells hget hlt => ?_⟩
    exact hsmaller _ (hmem.1 hget) hlt

end Table

/-! ## 4. Dictionaries that come back -/

/-- Each value of the dictionary is what is read from its row. -/
def Properties.RoundTrips (p : Properties) : Prop :=
  ∀ name v, p.get? name = some v →
    ∃ row w, Row.ofValue name v = .ok row ∧ row.toValue = .ok w ∧ w.same v = true

theorem Value.sameEntries_of_keys_eq {as bs : List (String × Value)}
    (hkeys : as.map Prod.fst = bs.map Prod.fst)
    (hsame : ∀ key a b, (key, a) ∈ as → (key, b) ∈ bs → a.same b = true) :
    sameEntries as bs = true := by
  induction as generalizing bs with
  | nil =>
    obtain rfl := List.map_eq_nil_iff.1 hkeys.symm
    rfl
  | cons first as ih =>
    obtain ⟨key, a⟩ := first
    cases bs with
    | nil => cases hkeys
    | cons second bs =>
      obtain ⟨key', b⟩ := second
      obtain ⟨rfl, hrest⟩ := List.cons.inj hkeys
      have hhead := hsame key a b List.mem_cons_self List.mem_cons_self
      have htail := ih hrest fun k c d hc hd =>
        hsame k c d (List.mem_cons_of_mem _ hc) (List.mem_cons_of_mem _ hd)
      simp [sameEntries, hhead, htail]

/-- Dictionaries with the same names and equal values under them are equal. -/
theorem Properties.same_of_get? {p q : Properties} (hkeys : q.keys = p.keys)
    (hsame : ∀ name w v, q.get? name = some w → p.get? name = some v → w.same v = true) :
    q.same p = true :=
  Value.sameEntries_of_keys_eq hkeys fun name w v hw hv =>
    hsame name w v (SortedMap.get?_eq_some_iff.2 hw) (SortedMap.get?_eq_some_iff.2 hv)

/-- **A dictionary whose values come back comes back.** -/
theorem Properties.RoundTrips.exists_same {p : Properties} (h : p.RoundTrips) :
    ∃ t q, Table.ofProperties p = .ok t ∧ t.toProperties = .ok q ∧ q.same p = true := by
  obtain ⟨t, q, ht, hq, hback⟩ := exists_read h
  have hkeys : q.keys = p.keys := by
    rw [Table.keys_of_toProperties hq, Table.keys_of_ofProperties ht]
  refine ⟨t, q, ht, hq, same_of_get? hkeys fun name w v hw hv => ?_⟩
  have hname := hback name
  rw [hv, hw] at hname
  cases hname with
  | some hsame => exact hsame

/-! ## 5. Conversions -/

/-- **Dictionaries and tables are converted as a whole, with every name, or refused for the first name
that fails.**  Writing fails on nested dictionaries and on vectors of anything but scalars, and on nothing
else; reading fails on rows.  Where each value comes back from its row, the dictionary does so from the
rows of its table, in whichever order they arrive. -/
theorem Table.converts_whole :
    (∀ p : Properties,
      ((∃ t, ofProperties p = .ok t) ↔ ∀ name v, p.get? name = some v → v.Tabular) ∧
      (∀ t, ofProperties p = .ok t → t.keys = p.keys ∧
        ∀ name v, p.get? name = some v →
          ∃ row, t.get? name = some row ∧ Row.ofValue name v = .ok row) ∧
      ∀ fault, ofProperties p = .error fault ↔
        ∃ name v what, p.get? name = some v ∧ v.Obstacle what ∧
          fault = .unsupportedValue name what ∧
          ∀ smaller w, p.get? smaller = some w → compare smaller name = .lt → w.Tabular) ∧
    (∀ t : Table,
      ((∃ p, t.toProperties = .ok p) ↔ ∀ row ∈ t.rows, ∃ v, row.toValue = .ok v) ∧
      (∀ p, t.toProperties = .ok p → p.keys = t.keys ∧
        ∀ row ∈ t.rows, ∃ v, p.get? row.key = some v ∧ row.toValue = .ok v) ∧
      ∀ fault, t.toProperties = .error fault ↔
        ∃ row ∈ t.rows, row.toValue = .error fault ∧
          ∀ smaller ∈ t.rows, compare smaller.key row.key = .lt → ∃ v, smaller.toValue = .ok v) ∧
    ∀ p : Properties, p.RoundTrips →
      ∃ t, ofProperties p = .ok t ∧ ∀ rows : List Row, rows.Perm t.rows →
        ∃ q, (ofRows rows).toProperties = .ok q ∧ q.same p = true := by
  refine ⟨fun p => ⟨exists_ofProperties_iff, ?_, ?_⟩,
    fun t => ⟨exists_toProperties_iff, ?_, fun fault => toProperties_eq_error_iff⟩, ?_⟩
  · intro t ht
    refine ⟨keys_of_ofProperties ht, fun name v hv => ?_⟩
    have hrow := get?_of_ofProperties ht name
    rw [hv, Option.map_some] at hrow
    obtain ⟨row, hget, hofValue⟩ := Option.map_eq_some_iff.1 hrow.symm
    exact ⟨row, hget, hofValue.symm⟩
  · intro fault
    simp only [ofProperties_eq_error_iff, Row.ofValue_eq_error_iff, Row.exists_ofValue_iff]
    constructor
    · rintro ⟨name, v, hv, ⟨what, hobstacle, hfault⟩, hsmaller⟩
      exact ⟨name, v, what, hv, hobstacle, hfault, hsmaller⟩
    · rintro ⟨name, v, what, hv, hobstacle, hfault, hsmaller⟩
      exact ⟨name, v, hv, ⟨what, hobstacle, hfault⟩, hsmaller⟩
  · intro p hp
    refine ⟨keys_of_toProperties hp, fun row hrow => ?_⟩
    have hread := get?_of_toProperties hp row.key
    rw [mem_rows_iff.1 hrow, Option.map_some] at hread
    obtain ⟨v, hv, hvalue⟩ := Option.map_eq_some_iff.1 hread.symm
    exact ⟨v, hv, hvalue.symm⟩
  · intro p hp
    obtain ⟨t, q, ht, hq, hsame⟩ := hp.exists_same
    refine ⟨t, ht, fun rows hrows => ⟨q, ?_, hsame⟩⟩
    rw [ofRows_of_perm hrows]
    exact hq

/-- Both "z" and "b" fail, and the vector under "b" for its second item already. -/
example : Table.ofProperties (.ofList [("z", .dictionary []),
    ("b", .vector [.ofBool true, .array (.primitive .int) [], .dictionary []]),
    ("a", .ofBool true)]) = .error (.unsupportedValue "b" "Vector of int[]") := rfl

end FrameworkAdmin
