/-
# Values through a table

Two questions about one pass, which is to write a value into a row and to read the row again.

**Which values survive it?**  `Value.Faithful` is the answer: no NaN anywhere, and in a list only
separable scalars, of one kind if the list is a vector.  The condition is exact: a value that does not
meet it has a row, and the row is read as something else or not at all.

**What happens to a value that came out of a table?**  It can always be written again, and what
comes back then is the value without its empty strings (`Value.withoutEmpty`), which a further pass
does not change.  `Tag.Gives` describes the values that reading can give.  They need not be
faithful, since a blank piece is read as an empty string.
-/
import FrameworkAdmin.Property.Table
import FrameworkAdmin.Proofs.Property.Columns
import FrameworkAdmin.Proofs.Property.Tags

namespace FrameworkAdmin

/-! ## 1. Rows -/

/-- What a value is written as. -/
theorem Row.ofValue_eq_ok_iff {key : String} {v : Value} {row : Row} :
    Row.ofValue key v = .ok row ↔
      ∃ text tag, v.write key = .ok (text, tag) ∧ row = { key, value := text, type := tag.text } := by
  unfold Row.ofValue
  cases v.write key with
  | error f => simp
  | ok p =>
    obtain ⟨text, tag⟩ := p
    simp only [Except.ok.injEq, Prod.mk.injEq]
    constructor
    · rintro rfl
      exact ⟨text, tag, ⟨rfl, rfl⟩, rfl⟩
    · rintro ⟨_, _, ⟨rfl, rfl⟩, rfl⟩
      rfl

/-- The tag of a row that was written is the tag it is read with. -/
@[simp] theorem Row.toValue_mk (key text : String) (tag : Tag) :
    Row.toValue { key, value := text, type := tag.text } = tag.readValue text := by
  simp [Row.toValue, Value.read, Tag.read_text]

/-- The items of a vector that can be written. -/
theorem Value.vectorScalars_eq_ok_iff {items : List Value} {ss : List Scalar} :
    vectorScalars items = .ok ss ↔ items = ss.map .scalar := by
  induction items generalizing ss with
  | nil => simp [vectorScalars, eq_comm]
  | cons v items ih =>
    cases v with
    | scalar s =>
      rw [vectorScalars]
      cases h : vectorScalars items with
      | error u =>
        have hne : ∀ ts : List Scalar, items ≠ ts.map .scalar := fun ts hts => by simp [ih.2 hts] at h
        cases ss <;> simp [hne]
      | ok ts =>
        obtain rfl := ih.1 h
        cases ss with
        | nil => simp
        | cons t ts' =>
          simp only [Except.ok.injEq, List.cons.injEq, List.map_cons, Value.scalar.injEq]
          exact and_congr_right fun _ =>
            ⟨congrArg _, fun heq => Except.ok.inj ((ih.2 rfl).symm.trans (ih.2 heq))⟩
    | array e as => cases ss <;> simp [vectorScalars]
    | vector vs => cases ss <;> simp [vectorScalars]
    | dictionary es => cases ss <;> simp [vectorScalars]

@[simp] theorem Value.filterMap_scalar? (ss : List Scalar) :
    (ss.map Value.scalar).filterMap Value.scalar? = ss := by
  induction ss with
  | nil => rfl
  | cons s ss ih => simp [Value.scalar?, ih]

/-! ## 2. Faithful values -/

namespace Value

/-- A value that its row gives back: no NaN, and in a list only separable scalars; in a vector these
have the kind of the first. -/
def Faithful : Value → Prop
  | .scalar s => s.isNaN = false
  | .array e items => ∀ s ∈ boxAll e items, s.isNaN = false ∧ s.Separable
  | .vector items =>
    ∀ s ∈ scalars (.vector items),
      s.isNaN = false ∧ s.Separable ∧ s.kind = vectorKind (scalars (.vector items))
  | .dictionary _ => False

instance : (v : Value) → Decidable v.Faithful
  | .scalar s => inferInstanceAs (Decidable (s.isNaN = false))
  | .array e items =>
    inferInstanceAs (Decidable (∀ s ∈ boxAll e items, s.isNaN = false ∧ s.Separable))
  | .vector items =>
    inferInstanceAs (Decidable (∀ s ∈ scalars (.vector items),
      s.isNaN = false ∧ s.Separable ∧ s.kind = vectorKind (scalars (.vector items))))
  | .dictionary _ => inferInstanceAs (Decidable False)

/-- A scalar is read back settled, whatever stands in it. -/
theorem readValue_scalar (s : Scalar) :
    (Tag.scalar s.kind).readValue (String.ofList s.text) = .ok (.scalar s.settled) := by
  have h : (ElementKind.scalar s.kind).readToken s.text = .ok (s.kind.settle s.value) :=
    ElementKind.readToken_eq_ok_iff.2 (s.kind.read_write s.value)
  simp only [Tag.readValue, Scalar.read, String.toList_ofList, h]
  rfl

theorem readValue_array_eq_ok_iff {e : ElementKind} {text : String} {v : Value} :
    (Tag.array e).readValue text = .ok v ↔
      ∃ as, e.readTokens (tokens text) = .ok as ∧ v = .array e as := by
  rw [Tag.readValue]
  cases e.readTokens (tokens text) <;> simp [eq_comm]

theorem readValue_vector_eq_ok_iff {k : ScalarKind} {text : String} {v : Value} :
    (Tag.vector k).readValue text = .ok v ↔
      ∃ as, (ElementKind.scalar k).readTokens (tokens text) = .ok as ∧
        v = .vector ((boxAll (.scalar k) as).map .scalar) := by
  rw [Tag.readValue]
  cases (ElementKind.scalar k).readTokens (tokens text) with
  | error f => simp
  | ok as =>
    simp only [Except.ok.injEq, exists_eq_left', boxAll, List.map_map]
    exact eq_comm

/-- A list of scalars comes back whole from a column that is read as one kind exactly when all of
them are separable and of this kind, and none is a NaN. -/
theorem sameScalars_iff_separable (e : ElementKind) (ss : List Scalar) :
    (∃ as, e.readTokens (tokens (joinTexts (ss.map Scalar.text))) = .ok as ∧
        sameScalars (boxAll e as) ss = true) ↔
      ∀ s ∈ ss, s.isNaN = false ∧ s.Separable ∧ s.kind = e.boxed := by
  constructor
  · rintro ⟨as, hread, hsame⟩
    exact separable_of_readTokens hread hsame
  · intro h
    obtain ⟨as, rfl⟩ := exists_boxAll fun s hs => (h s hs).2.2
    obtain ⟨hread, hsame⟩ := readTokens_of_separable fun s hs => ⟨(h s hs).1, (h s hs).2.1⟩
    rw [map_text_boxAll]
    exact ⟨_, hread, hsame⟩

/-- A scalar comes back unless it is a NaN. -/
theorem scalar_comesBack_iff (s : Scalar) :
    (∃ w, (Tag.scalar s.kind).readValue (String.ofList s.text) = .ok w ∧
        same w (.scalar s) = true) ↔ s.isNaN = false := by
  rw [readValue_scalar]
  constructor
  · rintro ⟨w, hw, hsame⟩
    obtain rfl := Except.ok.inj hw
    rw [same] at hsame
    exact Scalar.isNaN_of_same hsame
  · intro hnan
    refine ⟨_, rfl, ?_⟩
    rw [same]
    exact Scalar.same_of_agrees s.agrees_settled hnan

/-- An array comes back when its scalars do. -/
theorem array_comesBack_iff (e : ElementKind) (items : List e.boxed.Carrier) :
    (∃ w, (Tag.array e).readValue (joinTexts (items.map e.boxed.write)) = .ok w ∧
        same w (.array e items) = true) ↔
      ∀ s ∈ boxAll e items, s.isNaN = false ∧ s.Separable := by
  have hlist := sameScalars_iff_separable e (boxAll e items)
  rw [map_text_boxAll] at hlist
  constructor
  · rintro ⟨w, hw, hsame⟩ s hs
    obtain ⟨as, hread, rfl⟩ := readValue_array_eq_ok_iff.1 hw
    simp only [same, BEq.rfl, Bool.true_and] at hsame
    have hall := hlist.1 ⟨as, hread, hsame⟩ s hs
    exact ⟨hall.1, hall.2.1⟩
  · intro hall
    have hkind : ∀ s ∈ boxAll e items, s.kind = e.boxed := by
      intro s hs
      obtain ⟨a, -, rfl⟩ := List.mem_map.1 hs
      rfl
    obtain ⟨as, hread, hsame⟩ := hlist.2 fun s hs => ⟨(hall s hs).1, (hall s hs).2, hkind s hs⟩
    refine ⟨_, readValue_array_eq_ok_iff.2 ⟨as, hread, rfl⟩, ?_⟩
    simpa [same] using hsame

/-- A vector comes back when its scalars do and have the kind that it is read with. -/
theorem vector_comesBack_iff (k : ScalarKind) (ss : List Scalar) :
    (∃ w, (Tag.vector k).readValue (joinTexts (ss.map Scalar.text)) = .ok w ∧
        same w (.vector (ss.map .scalar)) = true) ↔
      ∀ s ∈ ss, s.isNaN = false ∧ s.Separable ∧ s.kind = k := by
  refine Iff.trans ?_ (sameScalars_iff_separable (.scalar k) ss)
  constructor
  · rintro ⟨w, hw, hsame⟩
    obtain ⟨as, hread, rfl⟩ := readValue_vector_eq_ok_iff.1 hw
    rw [same, sameItems_map_scalar] at hsame
    exact ⟨as, hread, hsame⟩
  · rintro ⟨as, hread, hsame⟩
    refine ⟨_, readValue_vector_eq_ok_iff.2 ⟨as, hread, rfl⟩, ?_⟩
    rw [same, sameItems_map_scalar]
    exact hsame

end Value

/-- **A value comes back from its row exactly when it is faithful.** -/
theorem Row.toValue_same_iff_faithful {key : String} {v : Value} {row : Row}
    (h : Row.ofValue key v = .ok row) :
    (row.key = key ∧ ∃ w, row.toValue = .ok w ∧ w.same v = true) ↔ v.Faithful := by
  obtain ⟨text, tag, hwrite, rfl⟩ := Row.ofValue_eq_ok_iff.1 h
  rw [Row.toValue_mk, and_iff_right rfl]
  cases v with
  | scalar s =>
    obtain ⟨rfl, rfl⟩ := Prod.mk.inj (Except.ok.inj hwrite)
    exact Value.scalar_comesBack_iff s
  | array e items =>
    obtain ⟨rfl, rfl⟩ := Prod.mk.inj (Except.ok.inj hwrite)
    exact Value.array_comesBack_iff e items
  | vector items =>
    rw [Value.write] at hwrite
    cases hss : Value.vectorScalars items with
    | error u => simp [hss] at hwrite
    | ok ss =>
      rw [hss] at hwrite
      obtain ⟨rfl, rfl⟩ := Prod.mk.inj (Except.ok.inj hwrite)
      obtain rfl := Value.vectorScalars_eq_ok_iff.1 hss
      rw [Value.Faithful, Value.scalars, Value.filterMap_scalar?]
      exact Value.vector_comesBack_iff _ ss
  | dictionary entries => cases hwrite

/-- Two strings that come back, and two in whose place two others come back. -/
theorem Row.toValue_same_iff_faithful_strings :
    (Row.ofValue "names" (.ofStrings ["a b", "c"]) =
        .ok { key := "names", value := "a b,c", type := "Array of String" } ∧
      ∃ w, Row.toValue { key := "names", value := "a b,c", type := "Array of String" } = .ok w ∧
        w.same (.ofStrings ["a b", "c"]) = true) ∧
    Row.ofValue "names" (.ofStrings ["a,b", ""]) =
        .ok { key := "names", value := "a,b,", type := "Array of String" } ∧
      ¬ ∃ w, Row.toValue { key := "names", value := "a,b,", type := "Array of String" } = .ok w ∧
        w.same (.ofStrings ["a,b", ""]) = true := by
  have hgood : Row.ofValue "names" (.ofStrings ["a b", "c"]) =
      .ok { key := "names", value := "a b,c", type := "Array of String" } := rfl
  have hbad : Row.ofValue "names" (.ofStrings ["a,b", ""]) =
      .ok { key := "names", value := "a,b,", type := "Array of String" } := rfl
  refine ⟨⟨hgood, ?_⟩, hbad, ?_⟩
  · exact ((Row.toValue_same_iff_faithful hgood).2 (by decide)).2
  · intro hback
    have hfaithful := (Row.toValue_same_iff_faithful hbad).1 ⟨rfl, hback⟩
    exact absurd hfaithful (by decide)

/-! ## 3. Values out of a table -/

/-- What reading with a tag can give. -/
def Tag.Gives : Tag → Value → Prop
  | .scalar k, v => ∃ a, v = .scalar ⟨k, a⟩
  | .array e, v => ∃ as, v = .array e as ∧ ∀ a ∈ as, Listed (e.boxed.write a)
  | .vector k, v =>
    ∃ as, v = .vector ((Value.boxAll (.scalar k) as).map .scalar) ∧
      ∀ a ∈ as, Listed ((ElementKind.scalar k).boxed.write a)

theorem Tag.gives_of_readValue {tag : Tag} {text : String} {v : Value}
    (h : tag.readValue text = .ok v) : tag.Gives v := by
  cases tag with
  | scalar k =>
    rw [readValue] at h
    cases hs : Scalar.read k text with
    | error f => simp [hs] at h
    | ok s =>
      obtain rfl : Value.scalar s = v := by simpa [hs] using h
      rw [Scalar.read] at hs
      split at hs
      · rename_i a _
        exact ⟨a, by rw [Except.ok.inj hs]⟩
      · cases hs
  | array e =>
    obtain ⟨as, hread, rfl⟩ := Value.readValue_array_eq_ok_iff.1 h
    exact ⟨as, rfl, ElementKind.listed_write_of_readTokens hread⟩
  | vector k =>
    obtain ⟨as, hread, rfl⟩ := Value.readValue_vector_eq_ok_iff.1 h
    exact ⟨as, rfl, ElementKind.listed_write_of_readTokens hread⟩

namespace Value

/-- The value without the empty strings of a list of strings. -/
def withoutEmpty : Value → Value
  | .array (.scalar .string) items => .array (.scalar .string) (items.filter (· != ""))
  | .vector items => .vector (items.filter (·.string? != some ""))
  | v => v

/-- Values of one shape whose scalars agree, one by one. -/
inductive Agrees : Value → Value → Prop
  | scalar {s t : Scalar} (h : s.Agrees t) : Agrees (.scalar s) (.scalar t)
  | array {e : ElementKind} {as bs : List e.boxed.Carrier}
      (h : List.Forall₂ Scalar.Agrees (boxAll e as) (boxAll e bs)) :
      Agrees (.array e as) (.array e bs)
  | vector {ss ts : List Scalar} (h : List.Forall₂ Scalar.Agrees ss ts) :
      Agrees (.vector (ss.map .scalar)) (.vector (ts.map .scalar))

/-- A list agrees with its settled form. -/
theorem agrees_map_settle (e : ElementKind) (as : List e.boxed.Carrier) :
    List.Forall₂ Scalar.Agrees (boxAll e as) (boxAll e (as.map e.boxed.settle)) := by
  rw [boxAll, boxAll, List.map_map, List.forall₂_map_left_iff, List.forall₂_map_right_iff,
    List.forall₂_same]
  exact fun a _ => Scalar.agrees_settled ⟨e.boxed, a⟩

theorem isEmpty_write_string (s : String) : (ScalarKind.write .string s).isEmpty = (s == "") := by
  rw [Bool.eq_iff_iff]
  simp [ScalarKind.write]

theorem isEmpty_write {k : ScalarKind} {a : k.Carrier} (hk : k ≠ .string) :
    (k.write a).isEmpty = false := by
  rw [List.isEmpty_eq_false_iff]
  intro hnil
  exact hk (congrArg Scalar.kind (ScalarKind.write_eq_nil_iff.1 hnil))

theorem withoutEmpty_array (e : ElementKind) (as : List e.boxed.Carrier) :
    withoutEmpty (.array e as) = .array e (e.nonEmpty as) := by
  have hother (hk : e.boxed ≠ .string) : e.nonEmpty as = as := by
    refine List.filter_eq_self.2 fun a _ => ?_
    rw [isEmpty_write hk]
    rfl
  by_cases hk : e.boxed = .string
  · cases e with
    | scalar k =>
      obtain rfl : k = .string := hk
      refine congrArg _ (List.filter_congr fun a _ => ?_)
      exact congrArg not (isEmpty_write_string a).symm
    | primitive k => cases k <;> cases hk
  · rw [hother hk]
    cases e with
    | scalar k => cases k <;> first | rfl | exact absurd rfl hk
    | primitive k => rfl

theorem withoutEmpty_vector (e : ElementKind) (as : List e.boxed.Carrier) :
    withoutEmpty (.vector ((boxAll e as).map .scalar)) =
      .vector ((boxAll e (e.nonEmpty as)).map .scalar) := by
  have hone (k : ScalarKind) (a : k.Carrier) :
      ((Value.scalar ⟨k, a⟩).string? != some "") = !(k.write a).isEmpty := by
    by_cases hk : k = .string
    · subst hk
      rw [isEmpty_write_string]
      rfl
    · rw [isEmpty_write hk]
      cases k <;> first | rfl | exact absurd rfl hk
  rw [withoutEmpty, boxAll, List.map_map, List.filter_map, boxAll, List.map_map]
  have hall := List.filter_congr (l := as) fun a _ => hone e.boxed a
  exact congrArg (fun l => Value.vector (l.map fun a => .scalar ⟨e.boxed, a⟩)) hall

end Value

/-- Writing `v` gives a row of this type, and reading the row gives `w`. -/
def Row.Carries (key : String) (v : Value) (type : String) (w : Value) : Prop :=
  ∃ row, Row.ofValue key v = .ok row ∧ row.key = key ∧ row.type = type ∧ row.toValue = .ok w

namespace Row

theorem carries_scalar (key : String) (s : Scalar) :
    Carries key (.scalar s) (Tag.scalar s.kind).text (.scalar s.settled) := by
  refine ⟨_, rfl, rfl, rfl, ?_⟩
  rw [toValue_mk]
  exact Value.readValue_scalar s

theorem carries_array (key : String) {e : ElementKind} {as : List e.boxed.Carrier}
    (h : ∀ a ∈ as, Listed (e.boxed.write a)) :
    Carries key (.array e as) (Tag.array e).text
      (.array e ((e.nonEmpty as).map e.boxed.settle)) := by
  refine ⟨_, rfl, rfl, rfl, ?_⟩
  rw [toValue_mk]
  exact Value.readValue_array_eq_ok_iff.2 ⟨_, ElementKind.readTokens_joinTexts h, rfl⟩

/-- A vector is tagged with the kind of its first scalar; the empty one has none to be tagged with. -/
theorem carries_vector (key : String) {k : ScalarKind}
    {as : List (ElementKind.scalar k).boxed.Carrier}
    (h : ∀ a ∈ as, Listed ((ElementKind.scalar k).boxed.write a)) :
    Carries key (.vector ((Value.boxAll (.scalar k) as).map .scalar))
      (Tag.vector (if as = [] then .string else k)).text
      (.vector ((Value.boxAll (.scalar k) (((ElementKind.scalar k).nonEmpty as).map
        (ElementKind.scalar k).boxed.settle)).map .scalar)) := by
  have hkind : Value.vectorKind (Value.boxAll (.scalar k) as) = if as = [] then .string else k := by
    cases as <;> rfl
  have hwrite : Value.write key (.vector ((Value.boxAll (.scalar k) as).map .scalar)) =
      .ok (Value.joinTexts (as.map (ElementKind.scalar k).boxed.write),
        .vector (if as = [] then .string else k)) := by
    rw [Value.write, Value.vectorScalars_eq_ok_iff.2 rfl]
    simp only [Value.map_text_boxAll, hkind]
  refine ⟨_, ofValue_eq_ok_iff.2 ⟨_, _, hwrite, rfl⟩, rfl, rfl, ?_⟩
  rw [toValue_mk]
  by_cases hnil : as = []
  · subst hnil
    rfl
  · rw [if_neg hnil]
    exact Value.readValue_vector_eq_ok_iff.2 ⟨_, ElementKind.readTokens_joinTexts h, rfl⟩

end Row

/-- **What a tag gives can be written, and comes back without its empty strings; after that it does
not change any more.** -/
theorem Tag.Gives.carries {tag : Tag} {v : Value} (h : tag.Gives v) (key : String) :
    ∃ type w, Row.Carries key v type w ∧
      (v = .vector [] → type = "Vector of String") ∧ (v ≠ .vector [] → type = tag.text) ∧
      v.withoutEmpty.Agrees w ∧ ∀ again, ∃ type', Row.Carries again w type' w := by
  cases tag with
  | scalar k =>
    obtain ⟨a, rfl⟩ := h
    refine ⟨_, _, Row.carries_scalar key _, by simp, fun _ => rfl,
      .scalar (Scalar.agrees_settled _), fun again => ?_⟩
    have hsettled : Scalar.settled (Scalar.settled ⟨k, a⟩) = Scalar.settled ⟨k, a⟩ :=
      congrArg (Scalar.mk k) (k.settle_settle a)
    have hagain := Row.carries_scalar again (Scalar.settled ⟨k, a⟩)
    rw [hsettled] at hagain
    exact ⟨_, hagain⟩
  | array e =>
    obtain ⟨as, rfl, hlisted⟩ := h
    refine ⟨_, _, Row.carries_array key hlisted, by simp, fun _ => rfl, ?_,
      fun again => ?_⟩
    · rw [Value.withoutEmpty_array]
      exact .array (Value.agrees_map_settle e _)
    · have hagain := Row.carries_array again (ElementKind.listed_write_settled hlisted)
      rw [e.nonEmpty_settled, e.map_settle_settle] at hagain
      exact ⟨_, hagain⟩
  | vector k =>
    obtain ⟨as, rfl, hlisted⟩ := h
    have hnil : Value.vector ((Value.boxAll (.scalar k) as).map .scalar) = .vector [] ↔ as = [] := by
      simp [Value.boxAll]
    refine ⟨_, _, Row.carries_vector key hlisted, ?_, ?_, ?_, fun again => ?_⟩
    · intro hempty
      rw [if_pos (hnil.1 hempty)]
      rfl
    · intro hempty
      rw [if_neg (mt hnil.2 hempty)]
    · rw [Value.withoutEmpty_vector]
      exact .vector (Value.agrees_map_settle (.scalar k) _)
    · have hagain := Row.carries_vector again (ElementKind.listed_write_settled hlisted)
      rw [ElementKind.nonEmpty_settled, ElementKind.map_settle_settle] at hagain
      exact ⟨_, hagain⟩

/-- **Everything that is read from a table has a normal form, and one pass reaches it.** -/
theorem Value.read_normalForm {tagText text : String} {v : Value}
    (h : Value.read tagText text = .ok v) (key : String) :
    ∃ tag row w, Tag.read tagText = .ok tag ∧
      Row.ofValue key v = .ok row ∧ row.key = key ∧
      (v = .vector [] → row.type = "Vector of String") ∧ (v ≠ .vector [] → row.type = tag.text) ∧
      row.toValue = .ok w ∧ v.withoutEmpty.Agrees w ∧
      ∀ again, ∃ row', Row.ofValue again w = .ok row' ∧ row'.key = again ∧ row'.toValue = .ok w := by
  cases htag : Tag.read tagText with
  | error f => simp [Value.read, htag] at h
  | ok tag =>
    have hvalue : tag.readValue text = .ok v := by simpa [Value.read, htag] using h
    obtain ⟨type, w, ⟨row, hrow, hkey, rfl, hw⟩, hempty, htype, hagrees, hagain⟩ :=
      (Tag.gives_of_readValue hvalue).carries key
    refine ⟨tag, row, w, rfl, hrow, hkey, hempty, htype, hw, hagrees, fun again => ?_⟩
    obtain ⟨-, row', hrow', hkey', -, hw'⟩ := hagain again
    exact ⟨row', hrow', hkey', hw'⟩

/-- A blank piece is read as an empty string, and a lavish tag is written with its words alone. -/
theorem Value.read_normalForm_strings :
    Value.read "Array of\tString x" "a, ,,b " = .ok (.ofStrings ["a", "", "b"]) ∧
    ∃ tag row w, Tag.read "Array of\tString x" = .ok tag ∧
      Row.ofValue "names" (.ofStrings ["a", "", "b"]) = .ok row ∧ row.key = "names" ∧
      (Value.ofStrings ["a", "", "b"] = .vector [] → row.type = "Vector of String") ∧
      (Value.ofStrings ["a", "", "b"] ≠ .vector [] → row.type = tag.text) ∧
      row.toValue = .ok w ∧ (Value.ofStrings ["a", "", "b"]).withoutEmpty.Agrees w ∧
      ∀ again, ∃ row', Row.ofValue again w = .ok row' ∧ row'.key = again ∧
        row'.toValue = .ok w :=
  have h : Value.read "Array of\tString x" "a, ,,b " = .ok (.ofStrings ["a", "", "b"]) := rfl
  ⟨h, Value.read_normalForm h "names"⟩

end FrameworkAdmin
