/-
# What a schema says about wire forms

A schema is data, and the readers and writers of the records do not look at it.  This module says what it
means, for wire forms in general:

* `Conforms`: a form that a reader of the schema must take.  A record may come as an object with more items
  than are declared, or as the list of its items, and a table in any order and with repetitions.
* `Exact`: a form that a writer of the schema may produce.  A record is an object with the declared items
  and no others, and a table is in the order of its index, without repetitions.
* `Reduces`: the exact form of a form that conforms.  Other items than the declared are dropped, and of the
  rows of a table with one index the last is kept.

All three follow the type of the item.  `Describes` puts them together into what it is for a schema to
describe a pair of a writer and a reader, and section 4 shows how such a pair for a record is made of those
for its items, so that no record has to be looked at as a whole.
-/
import Mathlib.Logic.Equiv.Defs
import FrameworkAdmin.Proofs.Lists
import FrameworkAdmin.Proofs.SortedMap
import FrameworkAdmin.Schema
import FrameworkAdmin.Wire

namespace FrameworkAdmin

/-! ## 1. Records and rows -/

namespace Wire

/-- The form of a record that has these items under these names: an object, which may have others besides,
or the bare list of the items. -/
inductive Holds (names : List String) : Wire → List Wire → Prop
  | object {fields : List (String × Wire)} {ws : List Wire}
      (h : List.Forall₂ (fun name w => fields.lookup name = some w) names ws) :
      Holds names (.object fields) ws
  | list {ws : List Wire} (h : ws.length = names.length) : Holds names (.list ws) ws

/-- The texts that an object has under these names. -/
def indexOf (names : List String) : Wire → List String
  | .object fields => names.filterMap fun name => (fields.lookup name).bind text?
  | _ => []

/-- What is kept of the rows of a table: of those with one index the last, in the order of the index. -/
structure LastRows (index : List String) (rows kept : List Wire) : Prop where
  ascending : Ascending (kept.map (indexOf index))
  mem_iff : ∀ row, row ∈ kept ↔ ∃ before after, rows = before ++ row :: after ∧
    ∀ later ∈ after, later.indexOf index ≠ row.indexOf index

/-- The second form is the first with lists of items in the place of some of its objects, at whatever
level. -/
inductive Unnames : Wire → Wire → Prop
  | same (w : Wire) : Unnames w w
  | list {ws ws' : List Wire} (h : List.Forall₂ Unnames ws ws') : Unnames (.list ws) (.list ws')
  | object {fields fields' : List (String × Wire)}
      (hnames : fields'.map Prod.fst = fields.map Prod.fst)
      (h : List.Forall₂ Unnames (fields.map Prod.snd) (fields'.map Prod.snd)) :
      Unnames (.object fields) (.object fields')
  | drop {fields : List (String × Wire)} {ws' : List Wire}
      (h : List.Forall₂ Unnames (fields.map Prod.snd) ws') : Unnames (.object fields) (.list ws')

variable {α β : Type} {w : Wire}

theorem items?_eq_some_iff {names : List String} {ws : List Wire} :
    w.items? names = some ws ↔ w.Holds names ws := by
  cases w with
  | object fields =>
    rw [items?, mapM_eq_some_iff]
    constructor
    · exact .object
    · rintro ⟨h⟩
      exact h
  | list items =>
    rw [items?]
    constructor
    · intro h
      split at h
      · obtain rfl := Option.some.inj h
        exact .list ‹_›
      · cases h
    · rintro ⟨⟩
      exact if_pos ‹_›
  | _ =>
    constructor
    · intro h
      cases h
    · rintro ⟨⟩

theorem lookup_of_mem {fields : List (String × Wire)} (hnames : (fields.map Prod.fst).Nodup)
    {name : String} (h : (name, w) ∈ fields) : fields.lookup name = some w := by
  obtain ⟨before, after, rfl⟩ := List.append_of_mem h
  refine List.lookup_eq_some_iff.2 ⟨before, after, rfl, fun field hfield => ?_⟩
  rw [List.map_append, List.map_cons, List.nodup_append] at hnames
  obtain ⟨-, -, hdiffer⟩ := hnames
  exact bne_iff_ne.2 (hdiffer _ (List.mem_map_of_mem hfield) _ List.mem_cons_self).symm

/-- An object with different names holds its fields. -/
theorem holds_object {fields : List (String × Wire)} (hnames : (fields.map Prod.fst).Nodup) :
    Holds (fields.map Prod.fst) (.object fields) (fields.map Prod.snd) := by
  refine .object (List.forall₂_map_left_iff.2 (List.forall₂_map_right_iff.2 ?_))
  exact List.forall₂_same.2 fun field hfield => lookup_of_mem hnames hfield

theorem listOf?_eq_some_iff {read : Wire → Option α} {l : List α} :
    w.listOf? read = some l ↔
      ∃ items, w = .list items ∧ List.Forall₂ (fun x a => read x = some a) items l := by
  cases w with
  | list items =>
    rw [listOf?, mapM_eq_some_iff]
    constructor
    · intro h
      exact ⟨items, rfl, h⟩
    · rintro ⟨_, ⟨⟩, h⟩
      exact h
  | _ => simp [listOf?]

theorem forall₂_unnames_refl (ws : List Wire) : List.Forall₂ Unnames ws ws :=
  List.forall₂_same.2 fun w _ => .same w

/-- An object without its names, or without those of its items, still holds what it held. -/
theorem Unnames.exists_holds {fields : List (String × Wire)} (h : (Wire.object fields).Unnames w)
    (hnames : (fields.map Prod.fst).Nodup) :
    ∃ ws, w.Holds (fields.map Prod.fst) ws ∧ List.Forall₂ Unnames (fields.map Prod.snd) ws := by
  cases h with
  | same _ => exact ⟨_, holds_object hnames, forall₂_unnames_refl _⟩
  | object hnames' hws => exact ⟨_, hnames' ▸ holds_object (hnames' ▸ hnames), hws⟩
  | drop hws =>
    refine ⟨_, .list ?_, hws⟩
    rw [← hws.length_eq, List.length_map, List.length_map]

/-- Texts are left as they are. -/
theorem eq_of_forall₂_unnames {l : List String} {ws : List Wire}
    (h : List.Forall₂ Unnames (l.map .text) ws) : ws = l.map .text := by
  induction l generalizing ws with
  | nil =>
    cases h
    rfl
  | cons s l ih =>
    obtain ⟨⟩ := h
    rename_i hs hl
    cases hs
    rw [ih hl, List.map_cons]

end Wire

/-! ## 2. What conforms, what is exact, and what reduces to what -/

/-- The types of the items, in order. -/
def Schema.itemTypes (s : Schema) : List ItemType := s.items.map (·.type)

/-- The integer fits into this many bits, one of them for the sign. -/
def InBits (bits : Nat) (i : Int) : Prop :=
  -((2 ^ (bits - 1) : Nat) : Int) ≤ i ∧ i < ((2 ^ (bits - 1) : Nat) : Int)

/-- The forms of the items that are no records and no tables. -/
inductive Plain : ItemType → Wire → Prop
  | string (s : String) : Plain .string (.text s)
  | integer {i : Int} (h : InBits 32 i) : Plain .integer (.integer i)
  | long {i : Int} (h : InBits 64 i) : Plain .long (.integer i)
  | strings (l : List String) : Plain .strings (.list (l.map .text))

/-- A form that is to be accepted for an item of a type. -/
inductive Conforms : ItemType → Wire → Prop
  | plain {ty : ItemType} {w : Wire} (h : Plain ty w) : Conforms ty w
  | record {shape : Schema} {w : Wire} {ws : List Wire} (hholds : w.Holds shape.itemNames ws)
      (hitems : List.Forall₂ Conforms shape.itemTypes ws) :
      Conforms (.record shape) w
  | table {shape : TableShape ItemType} {rows : List Wire}
      (hrows : ∀ row ∈ rows, Conforms (.record shape.row) row) :
      Conforms (.table shape) (.list rows)

/-- A form that may be produced for an item of a type. -/
inductive Exact : ItemType → Wire → Prop
  | plain {ty : ItemType} {w : Wire} (h : Plain ty w) : Exact ty w
  | record {shape : Schema} {ws : List Wire}
      (hitems : List.Forall₂ Exact shape.itemTypes ws) :
      Exact (.record shape) (.object (shape.itemNames.zip ws))
  | table {shape : TableShape ItemType} {rows : List Wire}
      (hrows : ∀ row ∈ rows, Exact (.record shape.row) row)
      (hindex : Ascending (rows.map (Wire.indexOf shape.index))) :
      Exact (.table shape) (.list rows)

/-- The relation holds between the forms of two lists in turn, each for its type. -/
inductive Each (R : ItemType → Wire → Wire → Prop) : List ItemType → List Wire → List Wire → Prop
  | nil : Each R [] [] []
  | cons {ty : ItemType} {w w' : Wire} {types : List ItemType} {ws ws' : List Wire}
      (head : R ty w w') (tail : Each R types ws ws') : Each R (ty :: types) (w :: ws) (w' :: ws')

/-- The exact form of a form that conforms. -/
inductive Reduces : ItemType → Wire → Wire → Prop
  | plain {ty : ItemType} {w : Wire} (h : Plain ty w) : Reduces ty w w
  | record {shape : Schema} {w : Wire} {ws ws' : List Wire} (hholds : w.Holds shape.itemNames ws)
      (hitems : Each Reduces shape.itemTypes ws ws') :
      Reduces (.record shape) w (.object (shape.itemNames.zip ws'))
  | table {shape : TableShape ItemType} {rows reduced kept : List Wire}
      -- the type of the rows is repeated, since the nested relation may not depend on the shape
      (hrows : Each Reduces (rows.map fun _ => .record shape.row) rows reduced)
      (hkept : Wire.LastRows shape.index reduced kept) :
      Reduces (.table shape) (.list rows) (.list kept)

/-! ## 3. Forms of single items -/

theorem Bounded.ofInt?_eq_some_iff {r : Range} {i : Int} {n : Bounded r} :
    Bounded.ofInt? r i = some n ↔ n.val = i := by
  constructor
  · exact Bounded.val_of_ofInt?
  · rintro rfl
    exact n.ofInt?_val

/-- The integers of a width are those that fit into it. -/
theorem inBits_iff {bits : Nat} {i : Int} :
    InBits bits i ↔ ∃ n : Bounded (.signed bits), n.val = i := by
  have hpos : 0 < 2 ^ (bits - 1) := Nat.two_pow_pos _
  constructor
  · rintro ⟨hlower, hupper⟩
    have habove : i ≤ ((2 ^ (bits - 1) - 1 : Nat) : Int) := by omega
    exact ⟨⟨i, hlower, habove⟩, rfl⟩
  · rintro ⟨n, rfl⟩
    have hlower : -((2 ^ (bits - 1) : Nat) : Int) ≤ n.val := n.lower
    have hupper : n.val ≤ ((2 ^ (bits - 1) - 1 : Nat) : Int) := n.upper
    exact ⟨hlower, by omega⟩

/-- The type is of items that are no records and no tables. -/
def ItemType.IsPlain : ItemType → Prop
  | .string | .integer | .long | .strings => True
  | .record _ | .table _ => False

section

variable {ty : ItemType} {w w' : Wire}

theorem conforms_iff_plain (h : ty.IsPlain) : Conforms ty w ↔ Plain ty w := by
  constructor
  · intro hw
    cases hw with
    | plain hw => exact hw
    | record _ _ | table _ => cases h
  · exact Conforms.plain

theorem reduces_iff_plain (h : ty.IsPlain) : Reduces ty w w' ↔ Plain ty w ∧ w = w' := by
  constructor
  · intro hw
    cases hw with
    | plain hw => exact ⟨hw, rfl⟩
    | record _ _ | table _ _ => cases h
  · rintro ⟨hw, rfl⟩
    exact .plain hw

end

/-- The type describes what is written and what is read. -/
structure Describes {α : Type} (ty : ItemType) (write : α → Wire) (read : Wire → Option α) : Prop where
  /-- Exact forms are written. -/
  exact : ∀ a, Exact ty (write a)
  /-- What is written is read back. -/
  read_write : ∀ a, read (write a) = some a
  /-- So is everything that has lists of items in the place of objects, whether at one level or at all. -/
  read_unnamed : ∀ a w, (write a).Unnames w → read w = some a
  /-- What conforms, and nothing else, is read. -/
  conforms_iff : ∀ w, Conforms ty w ↔ ∃ a, read w = some a
  /-- What has been read is written as the exact form of what it was read from. -/
  reduces_iff : ∀ w w', Reduces ty w w' ↔ ∃ a, read w = some a ∧ write a = w'

namespace Describes

variable {α β : Type} {ty : ItemType} {write : α → Wire} {read : Wire → Option α}

/-- A form without parts that is read if and only if it is written. -/
theorem plain (h : ty.IsPlain) (hread : ∀ w a, read w = some a ↔ write a = w)
    (hplain : ∀ w, Plain ty w ↔ ∃ a, write a = w)
    (hunnames : ∀ a w, (write a).Unnames w → write a = w) :
    Describes ty write read where
  exact a := .plain ((hplain _).2 ⟨a, rfl⟩)
  read_write a := (hread _ a).2 rfl
  read_unnamed a w hw := (hread w a).2 (hunnames a w hw)
  conforms_iff w := by
    rw [conforms_iff_plain h, hplain]
    simp only [hread]
  reduces_iff w w' := by
    rw [reduces_iff_plain h, hplain]
    simp only [hread]
    constructor
    · rintro ⟨⟨a, rfl⟩, rfl⟩
      exact ⟨a, rfl, rfl⟩
    · rintro ⟨a, rfl, rfl⟩
      exact ⟨⟨a, rfl⟩, rfl⟩

theorem string : Describes .string Wire.text Wire.text? := by
  refine plain trivial (fun w s => ?_) (fun w => ?_) fun | _, _, .same _ => rfl
  · cases w <;> simp [Wire.text?, eq_comm]
  · constructor
    · rintro ⟨s⟩
      exact ⟨s, rfl⟩
    · rintro ⟨s, rfl⟩
      exact .string s

theorem bounded {bits : Nat} (h : ty.IsPlain)
    (hplain : ∀ w, Plain ty w ↔ ∃ i, InBits bits i ∧ Wire.integer i = w) :
    Describes ty (fun n : Bounded (.signed bits) => Wire.integer n.val)
      (Wire.bounded? (.signed bits)) := by
  refine plain h (fun w n => ?_) (fun w => ?_) fun | _, _, .same _ => rfl
  · cases w with
    | integer i =>
      rw [Wire.bounded?, Bounded.ofInt?_eq_some_iff, Wire.integer.injEq]
    | _ => simp [Wire.bounded?]
  · rw [hplain]
    constructor
    · rintro ⟨i, hi, rfl⟩
      obtain ⟨n, rfl⟩ := inBits_iff.1 hi
      exact ⟨n, rfl⟩
    · rintro ⟨n, rfl⟩
      exact ⟨n.val, inBits_iff.2 ⟨n, rfl⟩, rfl⟩

theorem integer :
    Describes .integer (fun n : Bounded (.signed 32) => Wire.integer n.val)
      (Wire.bounded? (.signed 32)) := by
  refine bounded trivial fun w => ⟨?_, ?_⟩
  · rintro ⟨⟩
    exact ⟨_, ‹_›, rfl⟩
  · rintro ⟨i, h, rfl⟩
    exact .integer h

theorem long :
    Describes .long (fun n : Bounded (.signed 64) => Wire.integer n.val)
      (Wire.bounded? (.signed 64)) := by
  refine bounded trivial fun w => ⟨?_, ?_⟩
  · rintro ⟨⟩
    exact ⟨_, ‹_›, rfl⟩
  · rintro ⟨i, h, rfl⟩
    exact .long h

theorem strings : Describes .strings Wire.ofTexts Wire.texts? := by
  refine plain trivial (fun w l => ?_) (fun w => ?_) fun l w hw => ?_
  · have htext : ∀ w s, Wire.text? w = some s ↔ Wire.text s = w := fun w s => by
      cases w <;> simp [Wire.text?, eq_comm]
    rw [Wire.texts?, Wire.listOf?_eq_some_iff]
    simp only [htext, forall₂_map_eq_iff, Wire.ofTexts]
    constructor
    · rintro ⟨items, rfl, rfl⟩
      rfl
    · rintro rfl
      exact ⟨_, rfl, rfl⟩
  · constructor
    · rintro ⟨⟩
      exact ⟨_, rfl⟩
    · rintro ⟨l, rfl⟩
      exact .strings l
  · cases hw with
    | same _ => rfl
    | list hws => rw [Wire.eq_of_forall₂_unnames hws, Wire.ofTexts]

end Describes

/-! ## 4. Forms of records -/

/-- The types describe, in turn, the items that are written and read. -/
structure DescribesAll {α : Type} (types : List ItemType) (write : α → List Wire)
    (read : List Wire → Option α) : Prop where
  exact : ∀ a, List.Forall₂ Exact types (write a)
  read_unnamed : ∀ a ws, List.Forall₂ Wire.Unnames (write a) ws → read ws = some a
  conforms_iff : ∀ ws, List.Forall₂ Conforms types ws ↔ ∃ a, read ws = some a
  reduces_iff : ∀ ws ws', Each Reduces types ws ws' ↔ ∃ a, read ws = some a ∧ write a = ws'

/-- Reads the end of a list of items. -/
def readNil : List Wire → Option Unit
  | [] => some ()
  | _ :: _ => none

/-- Reads the first item of a list and then the others. -/
def readCons {α β : Type} (read : Wire → Option α) (readAll : List Wire → Option β) :
    List Wire → Option (α × β)
  | [] => none
  | w :: ws => (read w).bind fun a => (readAll ws).map fun b => (a, b)

namespace DescribesAll

variable {α β : Type} {ty : ItemType} {types : List ItemType} {write : α → Wire}
  {read : Wire → Option α} {writeAll : β → List Wire} {readAll : List Wire → Option β}

theorem readCons_eq_some_iff {w : Wire} {ws : List Wire} {a : α} {b : β} :
    readCons read readAll (w :: ws) = some (a, b) ↔ read w = some a ∧ readAll ws = some b := by
  rw [readCons, Option.bind_eq_some_iff]
  constructor
  · rintro ⟨a', ha, hb⟩
    obtain ⟨b', hb', heq⟩ := Option.map_eq_some_iff.1 hb
    rw [Prod.mk.injEq] at heq
    obtain ⟨rfl, rfl⟩ := heq
    exact ⟨ha, hb'⟩
  · rintro ⟨ha, hb⟩
    exact ⟨a, ha, by rw [hb, Option.map_some]⟩

theorem nil : DescribesAll [] (fun _ : Unit => []) readNil where
  exact _ := .nil
  read_unnamed _ _ := fun | .nil => rfl
  conforms_iff ws := by
    cases ws <;> simp [readNil]
  reduces_iff ws ws' := by
    constructor
    · rintro ⟨⟩
      exact ⟨(), rfl, rfl⟩
    · rintro ⟨_, hread, rfl⟩
      cases ws with
      | nil => exact .nil
      | cons _ _ => cases hread

theorem cons (head : Describes ty write read) (tail : DescribesAll types writeAll readAll) :
    DescribesAll (ty :: types) (fun p : α × β => write p.1 :: writeAll p.2)
      (readCons read readAll) where
  exact p := .cons (head.exact p.1) (tail.exact p.2)
  read_unnamed p ws := by
    rintro ⟨⟩
    exact readCons_eq_some_iff.2 ⟨head.read_unnamed p.1 _ ‹_›, tail.read_unnamed p.2 _ ‹_›⟩
  conforms_iff ws := by
    cases ws with
    | nil => simp [readCons]
    | cons w ws =>
      rw [List.forall₂_cons, head.conforms_iff, tail.conforms_iff, Prod.exists]
      simp only [readCons_eq_some_iff]
      exact exists_and_exists_comm
  reduces_iff ws ws' := by
    constructor
    · rintro ⟨⟩
      rename_i w w' ws ws' hw hws
      obtain ⟨a, ha, rfl⟩ := (head.reduces_iff w w').1 hw
      obtain ⟨b, hb, rfl⟩ := (tail.reduces_iff ws ws').1 hws
      exact ⟨(a, b), readCons_eq_some_iff.2 ⟨ha, hb⟩, rfl⟩
    · rintro ⟨⟨a, b⟩, hread, rfl⟩
      cases ws with
      | nil => cases hread
      | cons w ws =>
        obtain ⟨ha, hb⟩ := readCons_eq_some_iff.1 hread
        exact .cons ((head.reduces_iff _ _).2 ⟨a, ha, rfl⟩) ((tail.reduces_iff _ _).2 ⟨b, hb, rfl⟩)

/-- **A pair of a writer and a reader for the items is made one for the record**, under the declared
names. -/
theorem record {s : Schema} (h : DescribesAll s.itemTypes writeAll readAll)
    (hnames : s.itemNames.Nodup) :
    Describes (.record s) (fun b => .object (s.itemNames.zip (writeAll b)))
      (fun w => (w.items? s.itemNames).bind readAll) := by
  have hlength : ∀ b, (writeAll b).length = s.itemNames.length := fun b => by
    rw [← (h.exact b).length_eq, Schema.itemTypes, Schema.itemNames, List.length_map, List.length_map]
  have hfst : ∀ b, (s.itemNames.zip (writeAll b)).map Prod.fst = s.itemNames := fun b =>
    List.map_fst_zip (Nat.le_of_eq (hlength b).symm)
  have hsnd : ∀ b, (s.itemNames.zip (writeAll b)).map Prod.snd = writeAll b := fun b =>
    List.map_snd_zip (Nat.le_of_eq (hlength b))
  have hunnamed : ∀ b w, (Wire.object (s.itemNames.zip (writeAll b))).Unnames w →
      (w.items? s.itemNames).bind readAll = some b := fun b w hw => by
    -- with or without names, the form holds items that differ from the written ones in names only
    obtain ⟨ws, hholds, hws⟩ := hw.exists_holds ((hfst b).symm ▸ hnames)
    rw [hfst] at hholds
    rw [hsnd] at hws
    rw [Wire.items?_eq_some_iff.2 hholds]
    exact h.read_unnamed b ws hws
  exact {
    exact := fun b => .record (h.exact b)
    read_write := fun b => hunnamed b _ (.same _)
    read_unnamed := hunnamed
    conforms_iff := fun w => by
      constructor
      · rintro (⟨⟨⟩⟩ | ⟨hholds, hitems⟩)
        obtain ⟨b, hb⟩ := (h.conforms_iff _).1 hitems
        exact ⟨b, Option.bind_eq_some_iff.2 ⟨_, Wire.items?_eq_some_iff.2 hholds, hb⟩⟩
      · rintro ⟨b, hb⟩
        obtain ⟨ws, hws, hread⟩ := Option.bind_eq_some_iff.1 hb
        exact .record (Wire.items?_eq_some_iff.1 hws) ((h.conforms_iff _).2 ⟨b, hread⟩)
    reduces_iff := fun w w' => by
      constructor
      · rintro (⟨⟨⟩⟩ | ⟨hholds, hitems⟩)
        obtain ⟨b, hb, rfl⟩ := (h.reduces_iff _ _).1 hitems
        exact ⟨b, Option.bind_eq_some_iff.2 ⟨_, Wire.items?_eq_some_iff.2 hholds, hb⟩, rfl⟩
      · rintro ⟨b, hb, rfl⟩
        obtain ⟨ws, hws, hread⟩ := Option.bind_eq_some_iff.1 hb
        exact .record (Wire.items?_eq_some_iff.1 hws) ((h.reduces_iff _ _).2 ⟨b, hread, rfl⟩) }

end DescribesAll

/-- Values may be taken for others that they stand for. -/
theorem Describes.congr {α β : Type} {ty : ItemType} {write : α → Wire} {read : Wire → Option α}
    (h : Describes ty write read) {write' : β → Wire} {read' : Wire → Option β} (e : α ≃ β)
    (hwrite : ∀ a, write' (e a) = write a) (hread : ∀ w, read' w = (read w).map e) :
    Describes ty write' read' := by
  have hsome : ∀ w b, read' w = some b ↔ read w = some (e.symm b) := fun w b => by
    rw [hread, Option.map_eq_some_iff]
    constructor
    · rintro ⟨a, ha, rfl⟩
      rw [ha, e.symm_apply_apply]
    · intro hb
      exact ⟨_, hb, e.apply_symm_apply b⟩
  have hwrite' : ∀ b, write' b = write (e.symm b) := fun b => by
    rw [← hwrite, e.apply_symm_apply]
  exact {
    exact := fun b => hwrite' b ▸ h.exact _
    read_write := fun b => by rw [hsome, hwrite', h.read_write]
    read_unnamed := fun b w hw => (hsome w b).2 (h.read_unnamed _ w (hwrite' b ▸ hw))
    conforms_iff := fun w => by
      rw [h.conforms_iff]
      constructor
      · rintro ⟨a, ha⟩
        exact ⟨e a, by rw [hsome, e.symm_apply_apply, ha]⟩
      · rintro ⟨b, hb⟩
        exact ⟨_, (hsome w b).1 hb⟩
    reduces_iff := fun w w' => by
      rw [h.reduces_iff]
      constructor
      · rintro ⟨a, ha, rfl⟩
        exact ⟨e a, by rw [hsome, e.symm_apply_apply, ha], hwrite a⟩
      · rintro ⟨b, hb, rfl⟩
        exact ⟨_, (hsome w b).1 hb, (hwrite' b).symm⟩ }

/-! ## 5. Forms of tables -/

/-- Only one list is what is kept of the rows. -/
theorem Wire.LastRows.unique {index : List String} {rows kept kept' : List Wire}
    (h : LastRows index rows kept) (h' : LastRows index rows kept') : kept = kept' :=
  eq_of_ascending_map (Wire.indexOf index) h.ascending h'.ascending fun row =>
    (h.mem_iff row).trans (h'.mem_iff row).symm

namespace Describes

variable {α τ : Type} {ty : ItemType} {write : α → Wire} {read : Wire → Option α} {rows : List Wire}

theorem forall_conforms_iff (h : Describes ty write read) :
    (∀ row ∈ rows, Conforms ty row) ↔
      ∃ as, List.Forall₂ (fun row a => read row = some a) rows as := by
  induction rows with
  | nil => simp
  | cons row rows ih =>
    rw [List.forall_mem_cons, h.conforms_iff, ih]
    constructor
    · rintro ⟨⟨a, ha⟩, as, has⟩
      exact ⟨a :: as, .cons ha has⟩
    · rintro ⟨_, ⟨⟩⟩
      exact ⟨⟨_, ‹_›⟩, _, ‹_›⟩

theorem each_reduces_iff (h : Describes ty write read) {reduced : List Wire} :
    Each Reduces (rows.map fun _ => ty) rows reduced ↔
      ∃ as, List.Forall₂ (fun row a => read row = some a) rows as ∧ as.map write = reduced := by
  induction rows generalizing reduced with
  | nil =>
    constructor
    · rintro ⟨⟩
      exact ⟨[], .nil, rfl⟩
    · rintro ⟨_, ⟨⟩, rfl⟩
      exact .nil
  | cons row rows ih =>
    constructor
    · rintro ⟨⟩
      rename_i row' rows' hrow hrows
      obtain ⟨a, ha, rfl⟩ := (h.reduces_iff row row').1 hrow
      obtain ⟨as, has, rfl⟩ := ih.1 hrows
      exact ⟨a :: as, .cons ha has, rfl⟩
    · rintro ⟨_, ⟨⟩, rfl⟩
      exact .cons ((h.reduces_iff _ _).2 ⟨_, ‹_›, rfl⟩) (ih.2 ⟨_, ‹_›, rfl⟩)

/-- **A pair of a writer and a reader for the rows is made one for the table**, if a table is what is kept of
its rows. -/
theorem table {shape : TableShape ItemType} (h : Describes (.record shape.row) write read)
    {rowsOf : τ → List α} {ofRows : List α → τ} (hrowsOf : ∀ t, ofRows (rowsOf t) = t)
    (hofRows : ∀ as, Wire.LastRows shape.index (as.map write) ((rowsOf (ofRows as)).map write)) :
    Describes (.table shape) (fun t => .list ((rowsOf t).map write))
      (fun w => (w.listOf? read).map ofRows) := by
  have hunnamed : ∀ t w, (Wire.list ((rowsOf t).map write)).Unnames w →
      (w.listOf? read).map ofRows = some t := fun t w hw => by
    obtain ⟨ws, rfl, hws⟩ :
        ∃ ws, w = .list ws ∧ List.Forall₂ Wire.Unnames ((rowsOf t).map write) ws := by
      cases hw with
      | same _ => exact ⟨_, rfl, Wire.forall₂_unnames_refl _⟩
      | list hws => exact ⟨_, rfl, hws⟩
    have hrows := (List.forall₂_map_left_iff.1 hws).imp fun a row hrow => h.read_unnamed a row hrow
    rw [Wire.listOf?_eq_some_iff.2 ⟨ws, rfl, hrows.flip⟩, Option.map_some, hrowsOf]
  exact {
    exact := fun t => by
      have hascending := (hofRows (rowsOf t)).ascending
      rw [hrowsOf] at hascending
      refine .table (fun row hrow => ?_) hascending
      obtain ⟨a, -, rfl⟩ := List.mem_map.1 hrow
      exact h.exact a
    read_write := fun t => hunnamed t _ (.same _)
    read_unnamed := hunnamed
    conforms_iff := fun w => by
      constructor
      · rintro (⟨⟨⟩⟩ | _ | ⟨hrows⟩)
        obtain ⟨as, has⟩ := h.forall_conforms_iff.1 hrows
        exact ⟨ofRows as, Option.map_eq_some_iff.2
          ⟨as, Wire.listOf?_eq_some_iff.2 ⟨_, rfl, has⟩, rfl⟩⟩
      · rintro ⟨t, ht⟩
        obtain ⟨as, has, -⟩ := Option.map_eq_some_iff.1 ht
        obtain ⟨rows, rfl, hrows⟩ := Wire.listOf?_eq_some_iff.1 has
        exact .table (h.forall_conforms_iff.2 ⟨as, hrows⟩)
    reduces_iff := fun w w' => by
      constructor
      · rintro (⟨⟨⟩⟩ | _ | ⟨hrows, hkept⟩)
        obtain ⟨as, has, rfl⟩ := h.each_reduces_iff.1 hrows
        exact ⟨ofRows as, Option.map_eq_some_iff.2
          ⟨as, Wire.listOf?_eq_some_iff.2 ⟨_, rfl, has⟩, rfl⟩,
          congrArg _ ((hofRows as).unique hkept)⟩
      · rintro ⟨t, ht, rfl⟩
        obtain ⟨as, has, rfl⟩ := Option.map_eq_some_iff.1 ht
        obtain ⟨rows, rfl, hrows⟩ := Wire.listOf?_eq_some_iff.1 has
        exact .table (h.each_reduces_iff.2 ⟨as, hrows, rfl⟩) (hofRows as) }

end Describes

end FrameworkAdmin
