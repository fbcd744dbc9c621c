/-
# What a table keeps of the rows that entered it

A table is put together in different ways: row by row, from a list of rows, from its wire form, and from
these again row by row.  Of all of that only the rows matter that entered, in their order (`Table.Built`),
and of these only the last one with each key (`Row.last?`).  This is what is found under the key, what is
listed for it, and what is given back when the next row with this key takes its place.

So a table is known once it is known which row came last under each key (`Table.Built.eq_iff`), and rows
with different keys may have entered in any order.

A table keeps the columns of a row apart from its key.  Kept whole, under their keys, the rows make a map
that is built by the same steps (`Table.filed_exchange`); as it never holds a row under another key, nothing
is lost by that.
-/
import Mathlib.Data.List.Dedup
import FrameworkAdmin.Proofs.Record.WireForms
import FrameworkAdmin.Proofs.Text.Bytes

namespace FrameworkAdmin

/-! ## 1. The last row with a key -/

namespace Row

variable {key : String} {rows : List Row}

/-- The last row with this key. -/
def last? (key : String) (rows : List Row) : Option Row := (rows.filter (·.key == key)).getLast?

theorem last?_eq_find?_reverse (key : String) (rows : List Row) :
    last? key rows = rows.reverse.find? (·.key == key) := by
  rw [last?, List.getLast?_eq_head?_reverse, ← List.filter_reverse, List.head?_filter]

/-- There is a last row for every key among the rows. -/
theorem exists_last?_iff : (∃ row, last? key rows = some row) ↔ key ∈ rows.map (·.key) := by
  rw [← Option.isSome_iff_exists, last?, List.getLast?_isSome]
  simp [List.filter_eq_nil_iff]

/-- Two rows that follow each other can be exchanged if their keys differ. -/
theorem last?_swap {a b : Row} (hne : a.key ≠ b.key) (before after : List Row) (key : String) :
    last? key (before ++ b :: a :: after) = last? key (before ++ a :: b :: after) := by
  have hpair : [b, a].filter (·.key == key) = [a, b].filter (·.key == key) := by
    by_cases ha : a.key = key
    · have hb : b.key ≠ key := fun hb => hne (ha.trans hb.symm)
      simp [ha, hb]
    · simp [List.filter_cons, ha]
  have hsplit : ∀ x y : Row, before ++ x :: y :: after = before ++ [x, y] ++ after := by simp
  rw [last?, last?, hsplit, hsplit]
  simp only [List.filter_append, hpair]

end Row

/-! ## 2. Building a table -/

namespace Table

variable {t t' : Table} {rows rows' : List Row}

/-- The rows have entered the table, in this order and in whichever way. -/
inductive Built : List Row → Table → Prop
  | empty : Built [] ∅
  | listed (rows : List Row) : Built rows (ofRows rows)
  | read {w : Wire} {rows : List Row} {t : Table} (hrows : w.listOf? Row.ofWire? = some rows)
      (hread : ofWire? w = some t) : Built rows t
  | exchanged {rows : List Row} {t : Table} (h : Built rows t) (row : Row) :
      Built (rows ++ [row]) (t.exchange row).2

theorem exchange_eq (t : Table) (row : Row) : t.exchange row = (t.get? row.key, t.insert row) := by
  rw [exchange, SortedMap.exchange_eq]
  rfl

/-- **However a table is built, it is the one of the list of the rows.** -/
theorem Built.eq_ofRows (h : Built rows t) : t = ofRows rows := by
  induction h with
  | empty => rfl
  | listed rows => rfl
  | read hrows hread =>
    rw [ofWire?, hrows] at hread
    exact (Option.some.inj hread).symm
  | exchanged _ row ih => rw [exchange_eq, ofRows_append_singleton, ih]

/-- **What a table has under a key is the last row with it.** -/
theorem Built.get?_eq (h : Built rows t) (key : String) : t.get? key = Row.last? key rows := by
  rw [h.eq_ofRows, get?_ofRows, Row.last?_eq_find?_reverse]

/-- **Tables are equal when for every key the same row came last.** -/
theorem Built.eq_iff (h : Built rows t) (h' : Built rows' t') :
    t = t' ↔ ∀ key, Row.last? key rows = Row.last? key rows' := by
  simp only [← h.get?_eq, ← h'.get?_eq]
  exact ⟨fun heq key => heq ▸ rfl, ext_get?⟩

theorem Built.mem_rows_iff (h : Built rows t) {row : Row} :
    row ∈ t.rows ↔ Row.last? row.key rows = some row := by
  rw [Table.mem_rows_iff, h.get?_eq]

/-! ## 3. Listings -/

/-- The keys of a table are those of the rows, each of them once. -/
theorem Built.keys_perm (h : Built rows t) : t.keys.Perm (rows.map (·.key)).dedup := by
  refine (List.perm_ext_iff_of_nodup t.cells.ascending.nodup (List.nodup_dedup _)).2 fun key => ?_
  have hcells : (∃ cells, t.cells.get? key = some cells) ↔ ∃ row, t.get? key = some row := by
    simp [get?]
  show key ∈ t.cells.keys ↔ _
  rw [SortedMap.mem_keys_iff, hcells, h.get?_eq, Row.exists_last?_iff, List.mem_dedup]

theorem size_eq_length_keys (t : Table) : t.size = t.keys.length :=
  List.length_map _ |>.symm

/-- Rows with different keys all stay. -/
theorem Built.rows_perm (h : Built rows t) (hkeys : (rows.map (·.key)).Nodup) : t.rows.Perm rows := by
  have hnodup : t.rows.Nodup := t.ascending_keys.nodup.of_map _
  refine (List.perm_ext_iff_of_nodup hnodup (hkeys.of_map _)).2 fun row => ?_
  rw [h.eq_ofRows, mem_rows_ofRows_iff]
  constructor
  · rintro ⟨before, after, rfl, -⟩
    simp
  · intro hrow
    obtain ⟨before, after, rfl⟩ := List.append_of_mem hrow
    refine ⟨before, after, rfl, fun later hlater heq => ?_⟩
    -- a later row with the key of this one would repeat it
    rw [List.map_append, List.map_cons, List.nodup_append, List.nodup_cons] at hkeys
    exact hkeys.2.1.1 (heq ▸ List.mem_map_of_mem hlater)

/-! ## 4. Whole rows -/

/-- The rows under their keys. -/
def filed (t : Table) : SortedMap String Row := t.cells.map fun key c => { c with key }

theorem get?_filed (t : Table) (key : String) : t.filed.get? key = t.get? key :=
  SortedMap.get?_map _ _ _

theorem values_filed (t : Table) : t.filed.values = t.rows := by
  rw [filed, SortedMap.values, SortedMap.map, List.map_map]
  rfl

/-- **A row enters the map of the rows as it enters the table**, and takes the same place. -/
theorem filed_exchange (t : Table) (row : Row) :
    t.filed.exchange row.key row = ((t.exchange row).1, (t.exchange row).2.filed) := by
  rw [SortedMap.exchange_eq, exchange_eq, get?_filed]
  refine congrArg (Prod.mk _) (SortedMap.ext_get? fun key => ?_)
  rw [SortedMap.get?_insert, get?_filed, get?_filed, get?_insert]
  simp only [Std.LawfulEqCmp.compare_eq_iff_eq, eq_comm (b := row.key)]

theorem filed_insert (t : Table) (row : Row) : (t.insert row).filed = t.filed.insert row.key row := by
  have hstep := congrArg Prod.snd (filed_exchange t row)
  rw [SortedMap.exchange_eq, exchange_eq] at hstep
  exact hstep.symm

/-- **The map of the rows is built of the rows that entered**, each under its key. -/
theorem Built.filed_eq (h : Built rows t) :
    t.filed = SortedMap.ofList (rows.map fun row => (row.key, row)) := by
  rw [h.eq_ofRows, ofRows, SortedMap.ofList, List.foldl_map]
  exact (List.foldl_hom filed fun t row => (filed_insert t row).symm).symm

/-! ## 5. Tables of last rows -/

theorem ofWire?_toWire (t : Table) : ofWire? t.toWire = some t := Table.describes.read_write t

/-- **A table holds the last row with each key, under this key, and nothing else of what entered it.**
This is what is looked up in it, what an exchange gives back, and what every listing has, in the order of
the bytes of the keys.  Its listings give the table back; and tables are equal when for every key the same
row came last, so that rows with different keys may have come in any order. -/
theorem holds_last_rows (h : Built rows t) :
    (t.filed = SortedMap.ofList (rows.map fun row => (row.key, row)) ∧
      (∀ key, t.get? key = t.filed.get? key) ∧ t.rows = t.filed.values ∧
      ∀ key row, t.filed.get? key = some row → row.key = key) ∧
    ((∀ key, t.get? key = Row.last? key rows) ∧
      ∀ row, (t.exchange row).1 = t.get? row.key ∧
        ∀ key, (t.exchange row).2.get? key = if row.key = key then some row else t.get? key) ∧
    (t.rows.map (·.key) = t.keys ∧ t.keys.Perm (rows.map (·.key)).dedup ∧
      Ascending (t.keys.map Text.bytes) ∧ (∀ row, row ∈ t.rows ↔ Row.last? row.key rows = some row) ∧
      t.toWire = .list (t.rows.map Row.toWire) ∧
      t.size = t.rows.length ∧ t.size = (rows.map (·.key)).dedup.length) ∧
    (ofRows t.rows = t ∧ ofWire? t.toWire = some t) ∧
    (∀ rows' t', Built rows' t' → (t = t' ↔ ∀ key, Row.last? key rows = Row.last? key rows')) ∧
    (∀ before a b after, rows = before ++ a :: b :: after → a.key ≠ b.key →
      ofRows (before ++ b :: a :: after) = t) ∧
    ((rows.map (·.key)).Nodup → ∀ rows', rows'.Perm rows → ofRows rows' = t) := by
  refine ⟨⟨h.filed_eq, fun key => (get?_filed t key).symm, (values_filed t).symm, fun key row hrow => ?_⟩,
    ⟨h.get?_eq, fun row => ⟨?_, fun key => ?_⟩⟩,
    ⟨map_key_rows t, h.keys_perm, Text.ascending_bytes t.cells.ascending, fun row => h.mem_rows_iff,
      rfl, ?_, ?_⟩,
    ⟨ofRows_of_perm (.refl _), ofWire?_toWire t⟩, fun rows' t' h' => h.eq_iff h', ?_, ?_⟩
  · rw [get?_filed] at hrow
    exact (get?_eq_some_iff.1 hrow).2
  · rw [exchange_eq]
  · rw [exchange_eq, get?_insert]
  · rw [size_eq_length_keys, ← map_key_rows, List.length_map]
  · rw [size_eq_length_keys, h.keys_perm.length_eq]
  · rintro before a b after rfl hne
    exact ((Built.listed _).eq_iff h).2 (Row.last?_swap hne before after)
  · intro hkeys rows' hperm
    exact ofRows_of_perm (hperm.trans (h.rows_perm hkeys).symm)

/-- Two rows from the wire, of which the first is replaced: its key is listed behind "b" all the same. -/
theorem holds_last_rows_replaced :
    ∃ t, ofWire? (.list [.list [.text "é", .text "1", .text "Integer"],
        .list [.text "b", .text "x", .text "String"]]) = some t ∧
      (t.exchange ⟨⟨"2", "Integer"⟩, "é"⟩).1 = some ⟨⟨"1", "Integer"⟩, "é"⟩ ∧
      (t.exchange ⟨⟨"2", "Integer"⟩, "é"⟩).2.keys = ["b", "é"] ∧
      ∀ key, Row.last? key [⟨⟨"1", "Integer"⟩, "é"⟩, ⟨⟨"x", "String"⟩, "b"⟩, ⟨⟨"2", "Integer"⟩, "é"⟩] =
        Row.last? key [⟨⟨"2", "Integer"⟩, "é"⟩, ⟨⟨"x", "String"⟩, "b"⟩] := by
  refine ⟨ofRows [⟨⟨"1", "Integer"⟩, "é"⟩, ⟨⟨"x", "String"⟩, "b"⟩], rfl, rfl, rfl, ?_⟩
  have hread : Built _ (ofRows [⟨⟨"1", "Integer"⟩, "é"⟩, ⟨⟨"x", "String"⟩, "b"⟩]) :=
    .read (w := .list [.list [.text "é", .text "1", .text "Integer"],
      .list [.text "b", .text "x", .text "String"]]) rfl rfl
  obtain ⟨-, -, -, -, heq, -⟩ := holds_last_rows (hread.exchanged ⟨⟨"2", "Integer"⟩, "é"⟩)
  exact (heq _ _ (.listed [⟨⟨"2", "Integer"⟩, "é"⟩, ⟨⟨"x", "String"⟩, "b"⟩])).1 rfl

end Table

end FrameworkAdmin
