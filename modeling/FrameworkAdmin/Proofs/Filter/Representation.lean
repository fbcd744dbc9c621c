/-
# Filters see values, not their representation

A decimal has many scales, a zero two signs, and a list of scalars can be held in an array, unboxed or
boxed, or in a vector.  A filter notices none of this.

* It asks a value only about its scalars, so how a list holds them cannot matter.
* It asks a scalar only for its order to a text, whose other end is a number as well.  Equal numbers stand
  in the same order to every third one, be they decimals (`Decimal.compare_congr`) or floats
  (`Binary.compare?_congr`), also where a float is widened first.  All other kinds have equal values only
  where they have identical ones.

What a table gives back is equal to what went in, if at other scales, and hence is selected alike.
-/
import FrameworkAdmin.Proofs.Filter.Comparisons
import FrameworkAdmin.Proofs.Filter.Spelling
import FrameworkAdmin.Proofs.Property.Dictionaries

namespace FrameworkAdmin

/-! ## 1. Equal floats -/

namespace Binary

variable {f : Format}

theorem same_signed_iff {s t : Bool} {a b : Fin (f.infinity + 1)} :
    (signed s a).same (signed t b) = true ↔ signedRank s a = signedRank t b := by
  simp [same, compare?]

/-- Floats are equal when they are one, or two zeros. -/
theorem eq_or_zero_of_same {x y : Binary f} (h : x.same y = true) :
    x = y ∨ ∃ s t, x = .signed s 0 ∧ y = .signed t 0 := by
  cases x with
  | nan => cases h
  | signed s a =>
    cases y with
    | nan => cases h
    | signed t b =>
      have hrank := same_signed_iff.1 h
      unfold signedRank at hrank
      by_cases hst : s = t
      · subst hst
        have hab : a = b := Fin.ext (by split at hrank <;> omega)
        exact Or.inl (hab ▸ rfl)
      · -- a number that is its own opposite
        have hzero : a.val = 0 ∧ b.val = 0 := by
          cases s <;> cases t <;>
            simp only [reduceCtorEq, if_true, if_false, not_true] at hrank hst <;> omega
        exact Or.inr ⟨s, t, congrArg _ (Fin.ext hzero.1), congrArg _ (Fin.ext hzero.2)⟩

theorem signedRank_zero (negative : Bool) : signedRank negative (0 : Fin (f.infinity + 1)) = 0 := by
  cases negative <;> rfl

/-- **Equal floats are ordered alike.** -/
theorem compare?_congr {x y : Binary f} (h : x.same y = true) (z : Binary f) :
    x.compare? z = y.compare? z := by
  rcases eq_or_zero_of_same h with rfl | ⟨s, t, rfl, rfl⟩
  · rfl
  · cases z with
    | nan => rfl
    | signed u c => rw [compare?, compare?, signedRank_zero, signedRank_zero]

/-- A zero of either sign is a zero in every format. -/
theorem convert_zero (hf : f.infinity ≠ 0) (g : Format) (negative : Bool) :
    (signed negative (0 : Fin (f.infinity + 1))).convert g = .signed negative 0 := by
  have hunits : f.units 0 = 0 := by simp [Format.units]
  have hfinite : (0 : Fin (f.infinity + 1)).val ≠ f.infinity := fun h => hf h.symm
  rw [convert, if_neg hfinite, Fin.val_zero, hunits, Format.nearest_zero]
  simp [ofRank]

/-- **Equal floats stay equal in another format.** -/
theorem same_convert (hf : f.infinity ≠ 0) (g : Format) {x y : Binary f} (h : x.same y = true) :
    (x.convert g).same (y.convert g) = true := by
  rcases eq_or_zero_of_same h with rfl | ⟨s, t, rfl, rfl⟩
  · exact same_self (by rw [isNaN_convert]; exact isNaN_of_same h)
  · rw [convert_zero hf, convert_zero hf, same_signed_iff, signedRank_zero, signedRank_zero]

end Binary

/-! ## 2. Equal scalars -/

namespace Scalar

variable {s t : Scalar}

/-- No item of a filter tells the scalars apart. -/
structure Indistinct (s t : Scalar) : Prop where
  satisfies : ∀ op text, s.satisfies op text = t.satisfies op text
  fitsParts : ∀ parts, s.fitsParts parts = t.fitsParts parts

theorem orderFloat?_congr {x y : Binary .double} (h : x.same y = true) (cs : List Char) :
    orderFloat? x cs = orderFloat? y cs := by
  unfold orderFloat?
  cases Binary.read .double cs with
  | ok z => exact Binary.compare?_congr h z
  | error e => rfl

/-- Equal scalars stand in one order to every text. -/
theorem order?_congr (h : s.same t = true) (text : String) : s.order? text = t.order? text := by
  obtain ⟨k, a⟩ := s
  obtain ⟨l, b⟩ := t
  obtain rfl : k = l := kind_eq_of_same h
  rw [same_mk] at h
  cases k with
  | float => exact orderFloat?_congr (Binary.same_convert (by decide) .double h) _
  | double => exact orderFloat?_congr h _
  | bigDecimal =>
    simp only [order?]
    cases Decimal.read (Text.trim text.toList) with
    | ok e => exact congrArg some (Decimal.compare_congr h e)
    | error e => rfl
  | _ => rw [eq_of_beq h]

/-- **No item tells equal scalars apart.** -/
theorem indistinct_of_same (h : s.same t = true) : s.Indistinct t := by
  have horder := order?_congr h
  obtain ⟨k, a⟩ := s
  obtain ⟨l, b⟩ := t
  obtain rfl : k = l := kind_eq_of_same h
  rw [same_mk] at h
  cases k with
  | float | double | bigDecimal =>
    -- the kinds with equal values that are not identical are none of those `~=` treats apart
    refine ⟨fun op text => ?_, fun parts => rfl⟩
    rw [satisfies_eq (by simp), satisfies_eq (by simp), horder]
  | _ =>
    rw [eq_of_beq h]
    exact ⟨fun op text => rfl, fun parts => rfl⟩

end Scalar

/-! ## 3. Values that are alike -/

namespace Value

variable {v w : Value}

/-- The value is an array of some kind or a vector. -/
def IsList : Value → Prop
  | .array _ _ | .vector _ => True
  | .scalar _ | .dictionary _ => False

/-- The values are equal, or they are lists of equal scalars, whichever way each of them is held. -/
inductive Alike (v w : Value) : Prop
  | same (h : v.same w = true)
  | lists (hv : v.IsList) (hw : w.IsList)
      (h : List.Forall₂ (fun s t : Scalar => s.same t = true) v.scalars w.scalars)

theorem sameItems_iff {vs ws : List Value} :
    sameItems vs ws = true ↔ List.Forall₂ (fun v w => v.same w = true) vs ws := by
  induction vs generalizing ws with
  | nil => cases ws <;> simp [sameItems]
  | cons v vs ih => cases ws <;> simp [sameItems, ih]

theorem scalar?_rel_of_same (h : v.same w = true) :
    Option.Rel (fun s t : Scalar => s.same t = true) v.scalar? w.scalar? := by
  cases v <;> cases w <;> first | exact .some h | exact .none | cases h

/-- Equal values hold equal scalars. -/
theorem scalars_of_same (h : v.same w = true) :
    List.Forall₂ (fun s t : Scalar => s.same t = true) v.scalars w.scalars := by
  cases v with
  | scalar s =>
    cases w with
    | scalar t => exact .cons h .nil
    | _ => cases h
  | array e as =>
    cases w with
    | array f bs => exact sameScalars_iff.1 (Bool.and_eq_true_iff.1 h).2
    | _ => cases h
  | vector vs =>
    cases w with
    | vector ws => exact List.rel_filterMap (@scalar?_rel_of_same) (sameItems_iff.1 h)
    | _ => cases h
  | dictionary entries =>
    cases w with
    | dictionary others => exact .nil
    | _ => cases h

/-- **Values that are alike hold scalars that no item tells apart.** -/
theorem Alike.scalars (h : v.Alike w) : List.Forall₂ Scalar.Indistinct v.scalars w.scalars := by
  have hsame : List.Forall₂ (fun s t : Scalar => s.same t = true) v.scalars w.scalars := by
    cases h with
    | same h => exact scalars_of_same h
    | lists _ _ h => exact h
  exact hsame.imp fun _ _ => Scalar.indistinct_of_same

end Value

/-! ## 4. Dictionaries that are alike -/

namespace Properties

variable {p q : Properties}

/-- What relates the values under each key relates the values that are found under each name. -/
theorem attribute?_rel {R : Value → Value → Prop} (h : ∀ key, Option.Rel R (p.get? key) (q.get? key))
    (name : String) : Option.Rel R (p.attribute? name) (q.attribute? name) := by
  -- the keys of the second dictionary are those of the first
  have hback : ∀ {key w}, q.get? key = some w → ∃ v, p.get? key = some v := by
    intro key w hw
    have hkey := h key
    rw [hw] at hkey
    cases hv : p.get? key with
    | some v => exact ⟨v, rfl⟩
    | none =>
      rw [hv] at hkey
      cases hkey
  cases hp : p.attribute? name with
  | none =>
    have hq : q.attribute? name = none := by
      refine attribute?_eq_none_iff.2 fun key w hw => ?_
      obtain ⟨v, hv⟩ := hback hw
      exact attribute?_eq_none_iff.1 hp key v hv
    rw [hq]
    exact .none
  | some v =>
    obtain ⟨key, hv, hname, hleast⟩ := attribute?_eq_some_iff.1 hp
    have hkey := h key
    rw [hv] at hkey
    cases hw : q.get? key with
    | none =>
      rw [hw] at hkey
      cases hkey
    | some w =>
      rw [hw] at hkey
      have hq : q.attribute? name = some w := by
        refine attribute?_eq_some_iff.2 ⟨key, hw, hname, fun other u hu hother => ?_⟩
        obtain ⟨v', hv'⟩ := hback hu
        exact hleast other v' hv' hother
      rw [hq]
      exact hkey

/-- Items are answered alike where the values that are found are alike. -/
theorem AnswersAlike.of_attribute?_rel {a b : String}
    (h : Option.Rel Value.Alike (p.attribute? a) (q.attribute? b)) : AnswersAlike p a q b := by
  have hholds : ∀ condition : Scalar → Bool,
      (∀ s t : Scalar, s.Indistinct t → condition s = condition t) →
      p.holds a condition = q.holds b condition := by
    intro condition hcondition
    unfold holds
    generalize p.attribute? a = v at h
    generalize q.attribute? b = w at h
    cases h with
    | some hvw => exact any_congr_of_forall₂ hvw.scalars hcondition
    | none => rfl
  refine ⟨?_, fun op text => hholds _ fun s t hst => hst.satisfies op text,
    fun parts => hholds _ fun s t hst => hst.fitsParts parts⟩
  generalize p.attribute? a = v at h
  generalize q.attribute? b = w at h
  cases h <;> rfl

/-- The dictionaries have the same keys, with values that are alike. -/
def Alike (p q : Properties) : Prop := ∀ key, Option.Rel Value.Alike (p.get? key) (q.get? key)

namespace Alike

theorem empty : Alike ∅ ∅ := fun _ => .none

/-- Dictionaries that are alike stay so when values that are alike are put under one key. -/
theorem insert (h : p.Alike q) (key : String) {v w : Value} (hvw : v.Alike w) :
    Alike (p.insert key v) (q.insert key w) := by
  intro name
  rw [SortedMap.get?_insert, SortedMap.get?_insert]
  split
  · exact .some hvw
  · exact h name

/-- **Dictionaries that are alike answer every item alike.** -/
theorem answersAlike (h : p.Alike q) (name : String) : AnswersAlike p name q name :=
  .of_attribute?_rel (attribute?_rel h name)

end Alike

/-- **What comes back from a table is alike to what went in.** -/
theorem RoundTrips.exists_alike (h : p.RoundTrips) :
    ∃ t q, Table.ofProperties p = .ok t ∧ t.toProperties = .ok q ∧ q.Alike p := by
  obtain ⟨t, q, ht, hq, hback⟩ := exists_read h
  refine ⟨t, q, ht, hq, fun key => ?_⟩
  have hkey := hback key
  generalize p.get? key = v at hkey
  generalize q.get? key = w at hkey
  cases hkey with
  | some hsame => exact .some (.same hsame)
  | none => exact .none

end Properties

/-! ## 5. Filters -/

namespace Filter

/-- **Filters depend on the values of properties and not on their representation.**  Dictionaries with the
same keys are selected alike if under each key stand equal values or lists of equal scalars; so a dictionary
whose values come back from their rows is selected as what its table is read as. -/
theorem selects_of_alike :
    (∀ p q : Properties, p.Alike q → ∀ f : Filter, f.selects p = f.selects q) ∧
    ∀ p : Properties, p.RoundTrips →
      ∃ t q, Table.ofProperties p = .ok t ∧ t.toProperties = .ok q ∧
        ∀ f : Filter, f.selects q = f.selects p := by
  have halike : ∀ p q : Properties, p.Alike q → ∀ f : Filter, f.selects p = f.selects q :=
    fun p q h => Properties.selects_congr h.answersAlike
  refine ⟨halike, fun p hp => ?_⟩
  obtain ⟨t, q, ht, hq, hqp⟩ := hp.exists_alike
  exact ⟨t, q, ht, hq, halike q p hqp⟩

/-- Two lists of flags, zeros of either sign and 1.5 at two scales; and a thousand that has an exponent in
the dictionary and none in the table. -/
theorem selects_of_alike_scales :
    selects (.and [.compare "flags" .equal "false", .not (.compare "offset" .atMost "-1"),
          .compare "ratio" .atMost "1.5"])
        (.ofList [("flags", .array (.primitive .boolean) [true, false]),
          ("offset", .ofDouble (.signed true 0)),
          ("ratio", .scalar ⟨.bigDecimal, 15, 1, by decide, by decide⟩)]) =
      selects (.and [.compare "flags" .equal "false", .not (.compare "offset" .atMost "-1"),
          .compare "ratio" .atMost "1.5"])
        (.ofList [("flags", .vector [.ofBool true, .ofBool false]),
          ("offset", .ofDouble (.signed false 0)),
          ("ratio", .scalar ⟨.bigDecimal, 1500, 3, by decide, by decide⟩)]) ∧
    ∃ t q, Table.ofProperties (.ofList [("size", .scalar ⟨.bigDecimal, 1, -3, by decide, by decide⟩)]) =
        .ok t ∧ t.toProperties = .ok q ∧
      selects (.compare "size" .equal "1000") q = selects (.compare "size" .equal "1000")
        (.ofList [("size", .scalar ⟨.bigDecimal, 1, -3, by decide, by decide⟩)]) := by
  obtain ⟨halike, hback⟩ := selects_of_alike
  constructor
  · refine halike _ _ (((Properties.Alike.empty.insert "flags" (.lists ?_ ?_ ?_)).insert "offset"
      (.same ?_)).insert "ratio" (.same ?_)) _
    · trivial
    · trivial
    · exact .cons (by decide) (.cons (by decide) .nil)
    · decide
    · decide
  · have hroundTrips : Properties.RoundTrips
        (.ofList [("size", .scalar ⟨.bigDecimal, 1, -3, by decide, by decide⟩)]) := by
      intro name v hv
      have hentry := (SortedMap.get?_ofList_eq_some_iff (by decide)).1 hv
      obtain ⟨rfl, rfl⟩ := Prod.mk.inj (List.mem_singleton.1 hentry)
      exact ⟨_, _, rfl, rfl, by decide⟩
    obtain ⟨t, q, ht, hq, hsame⟩ := hback _ hroundTrips
    exact ⟨t, q, ht, hq, hsame _⟩

end Filter
end FrameworkAdmin
