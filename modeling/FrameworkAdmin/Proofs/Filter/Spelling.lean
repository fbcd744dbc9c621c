/-
# Names in any spelling

Attributes are found without regard to the case of the letters of ASCII, and this holds on both sides.

* In a filter the case of an attribute never matters, since all spellings of a name are looked up alike.
* In a dictionary it matters in one way.  The keys are told apart by case and stand in the order of their
  spellings, so where two of them are one name, spelling them anew can bring the other one to the front.
  If no two keys are one name (`Properties.CaseDistinct`), there is one key to be found for a name, wherever
  it stands, and the keys can be spelled at will.

What both come from is an induction over the filter (`Filter.selects_of_recased`).  A filter learns nothing
of a dictionary but the answers to its items, so where the items are answered alike, it selects alike.
-/
import FrameworkAdmin.Proofs.Filter.Attributes
import FrameworkAdmin.Proofs.SortedMap

namespace FrameworkAdmin

/-! ## 1. Texts -/

namespace Text

/-- One text is the other with letters of ASCII made small or capital.  A character without case is both of
its forms. -/
def Recased (a b : String) : Prop :=
  List.Forall₂ (fun c d : Char => d = c.toLower ∨ d = c.toUpper) a.toList b.toList

theorem toNat_toLower (c : Char) :
    c.toLower.toNat = if 65 ≤ c.toNat ∧ c.toNat ≤ 90 then c.toNat + 32 else c.toNat := by
  by_cases h : 65 ≤ c.toNat ∧ c.toNat ≤ 90
  · rw [if_pos h]
    have hval : c.val.toNat ≤ 90 := h.2
    have hcapital : c.val ≥ 'A'.val ∧ c.val ≤ 'Z'.val := h
    unfold Char.toLower
    rw [dif_pos hcapital]
    show (c.val + 32).toNat = c.val.toNat + 32
    rw [UInt32.toNat_add]
    simp
    omega
  · rw [if_neg h, toLower_eq_self (by omega)]

theorem toNat_toUpper (c : Char) :
    c.toUpper.toNat = if 97 ≤ c.toNat ∧ c.toNat ≤ 122 then c.toNat - 32 else c.toNat := by
  by_cases h : 97 ≤ c.toNat ∧ c.toNat ≤ 122
  · rw [if_pos h]
    have hval : 97 ≤ c.val.toNat ∧ c.val.toNat ≤ 122 := h
    have hsmall : 'a'.val ≤ c.val ∧ c.val ≤ 'z'.val := h
    unfold Char.toUpper
    rw [dif_pos hsmall]
    show (c.val + _).toNat = c.val.toNat - 32
    rw [UInt32.toNat_add]
    simp
    omega
  · have hother : ¬('a'.val ≤ c.val ∧ c.val ≤ 'z'.val) := h
    rw [if_neg h]
    unfold Char.toUpper
    rw [dif_neg hother]

/-- Characters are alike in small letters exactly if one is a form of the other. -/
theorem toLower_eq_toLower_iff {c d : Char} :
    c.toLower = d.toLower ↔ d = c.toLower ∨ d = c.toUpper := by
  simp only [← Char.toNat_inj, toNat_toLower, toNat_toUpper]
  split <;> split <;> split <;> omega

/-- **Names are compared up to the case of their letters.** -/
theorem sameIgnoringAsciiCase_iff_recased {a b : String} :
    sameIgnoringAsciiCase a b = true ↔ Recased a b := by
  rw [sameIgnoringAsciiCase_iff, Recased, ← List.forall₂_eq_eq_eq, List.forall₂_map_left_iff,
    List.forall₂_map_right_iff]
  simp only [toLower_eq_toLower_iff]

namespace Recased

variable {a b c : String}

theorem refl (a : String) : Recased a a :=
  sameIgnoringAsciiCase_iff_recased.1 (sameIgnoringAsciiCase_refl a)

theorem symm (h : Recased a b) : Recased b a := by
  rw [← sameIgnoringAsciiCase_iff_recased, sameIgnoringAsciiCase_iff] at *
  exact h.symm

theorem trans (hab : Recased a b) (hbc : Recased b c) : Recased a c := by
  rw [← sameIgnoringAsciiCase_iff_recased, sameIgnoringAsciiCase_iff] at *
  exact hab.trans hbc

end Recased

end Text

/-! ## 2. Filters -/

/-- Whatever an item asks about `a` in the one dictionary and about `b` in the other has one answer. -/
structure Properties.AnswersAlike (p : Properties) (a : String) (q : Properties) (b : String) : Prop where
  present : (p.attribute? a).isSome = (q.attribute? b).isSome
  compare : ∀ op text, (p.holds a fun s => s.satisfies op text) = q.holds b fun s => s.satisfies op text
  substring : ∀ parts, (p.holds a fun s => s.fitsParts parts) = q.holds b fun s => s.fitsParts parts

theorem Properties.AnswersAlike.of_attribute?_eq {p q : Properties} {a b : String}
    (h : p.attribute? a = q.attribute? b) : AnswersAlike p a q b := by
  refine ⟨congrArg _ h, fun op text => ?_, fun parts => ?_⟩
  · rw [holds, holds, h]
  · rw [holds, holds, h]

namespace Filter

mutual

/-- One filter is the other with letters of its attributes made small or capital. -/
inductive Recased : Filter → Filter → Prop
  | and {fs gs : List Filter} (h : RecasedAll fs gs) : Recased (.and fs) (.and gs)
  | or {fs gs : List Filter} (h : RecasedAll fs gs) : Recased (.or fs) (.or gs)
  | not {f g : Filter} (h : Recased f g) : Recased (.not f) (.not g)
  | compare {a b : String} (h : Text.Recased a b) (op : Comparison) (value : String) :
      Recased (.compare a op value) (.compare b op value)
  | present {a b : String} (h : Text.Recased a b) : Recased (.present a) (.present b)
  | substring {a b : String} (h : Text.Recased a b) (parts : List String) :
      Recased (.substring a parts) (.substring b parts)

/-- The filters of two lists are recased one by one. -/
inductive RecasedAll : List Filter → List Filter → Prop
  | nil : RecasedAll [] []
  | cons {f g : Filter} {fs gs : List Filter} (h : Recased f g) (hs : RecasedAll fs gs) :
      RecasedAll (f :: fs) (g :: gs)

end

section

variable {p q : Properties}

mutual

/-- **Where items are answered alike, whole filters are.** -/
theorem selects_of_recased (hitems : ∀ a b, Text.Recased a b → Properties.AnswersAlike p a q b) :
    ∀ {f g : Filter}, Recased f g → selects f p = selects g q
  | _, _, .and h => by
    rw [selects, selects, allSelect_of_recased hitems h]
  | _, _, .or h => by
    rw [selects, selects, anySelects_of_recased hitems h]
  | _, _, .not h => by
    rw [selects, selects, selects_of_recased hitems h]
  | _, _, .compare h op value => by
    rw [selects, selects, (hitems _ _ h).compare]
  | _, _, .present h => by
    rw [selects, selects, (hitems _ _ h).present]
  | _, _, .substring h parts => by
    rw [selects, selects, (hitems _ _ h).substring]

theorem allSelect_of_recased (hitems : ∀ a b, Text.Recased a b → Properties.AnswersAlike p a q b) :
    ∀ {fs gs : List Filter}, RecasedAll fs gs → allSelect fs p = allSelect gs q
  | _, _, .nil => rfl
  | _, _, .cons h hs => by
    rw [allSelect, allSelect, selects_of_recased hitems h, allSelect_of_recased hitems hs]

theorem anySelects_of_recased (hitems : ∀ a b, Text.Recased a b → Properties.AnswersAlike p a q b) :
    ∀ {fs gs : List Filter}, RecasedAll fs gs → anySelects fs p = anySelects gs q
  | _, _, .nil => rfl
  | _, _, .cons h hs => by
    rw [anySelects, anySelects, selects_of_recased hitems h, anySelects_of_recased hitems hs]

end

end

mutual

theorem recased_refl : ∀ f : Filter, Recased f f
  | .and fs => .and (recasedAll_refl fs)
  | .or fs => .or (recasedAll_refl fs)
  | .not f => .not (recased_refl f)
  | .compare a op value => .compare (Text.Recased.refl a) op value
  | .present a => .present (Text.Recased.refl a)
  | .substring a parts => .substring (Text.Recased.refl a) parts

theorem recasedAll_refl : ∀ fs : List Filter, RecasedAll fs fs
  | [] => .nil
  | f :: fs => .cons (recased_refl f) (recasedAll_refl fs)

end

end Filter

/-! ## 3. Dictionaries -/

namespace Properties

open Text

variable {p q : Properties} {a b key name : String} {v : Value} {spell : String → String}

/-- All spellings of a name are looked up alike. -/
theorem attribute?_of_recased (h : Recased a b) (p : Properties) : p.attribute? a = p.attribute? b :=
  attribute?_congr (sameIgnoringAsciiCase_iff_recased.2 h) p

/-- **Dictionaries that answer alike under each name are selected alike.** -/
theorem selects_congr (h : ∀ a, AnswersAlike p a q a) (f : Filter) : f.selects p = f.selects q := by
  refine Filter.selects_of_recased (fun a b hab => ?_) (Filter.recased_refl f)
  have hb := AnswersAlike.of_attribute?_eq (attribute?_of_recased hab q)
  exact ⟨(h a).present.trans hb.present, fun op text => ((h a).compare op text).trans (hb.compare op text),
    fun parts => ((h a).substring parts).trans (hb.substring parts)⟩

/-- No two keys are spellings of one name. -/
def CaseDistinct (p : Properties) : Prop := ∀ k ∈ p.keys, ∀ l ∈ p.keys, Recased k l → k = l

/-- The dictionary with each key `k` spelled `spell k`. -/
def respelled (p : Properties) (spell : String → String) : Properties :=
  .ofList (p.entries.map fun e => (spell e.1, e.2))

theorem mem_keys_of_get? (h : p.get? key = some v) : key ∈ p.keys :=
  SortedMap.mem_keys_iff.2 ⟨v, h⟩

/-- Where no two keys are one name, any key that goes by the name is the one that is found. -/
theorem CaseDistinct.attribute?_eq_some_iff (h : p.CaseDistinct) :
    p.attribute? name = some v ↔ ∃ key, p.get? key = some v ∧ Recased key name := by
  constructor
  · intro hname
    obtain ⟨key, hget, hkey, -⟩ := Properties.attribute?_eq_some_iff.1 hname
    exact ⟨key, hget, sameIgnoringAsciiCase_iff_recased.1 hkey⟩
  · rintro ⟨key, hget, hkey⟩
    refine attribute?_of_unique hget (sameIgnoringAsciiCase_iff_recased.2 hkey) ?_
    intro other w hother hname
    have hrecased := (sameIgnoringAsciiCase_iff_recased.1 hname).trans hkey.symm
    exact h other (mem_keys_of_get? hother) key (mem_keys_of_get? hget) hrecased

/-- Keys that are different names stay different however they are spelled. -/
theorem CaseDistinct.get?_respelled_iff (h : p.CaseDistinct) (hspell : ∀ k ∈ p.keys, Recased k (spell k)) :
    (p.respelled spell).get? name = some v ↔ ∃ key, p.get? key = some v ∧ spell key = name := by
  have hnodup : ((p.entries.map fun e => (spell e.1, e.2)).map Prod.fst).Nodup := by
    have hkeys : (p.entries.map fun e => (spell e.1, e.2)).map Prod.fst = p.keys.map spell := by
      simp [SortedMap.keys]
    rw [hkeys]
    refine List.Nodup.map_on (fun k hk l hl heq => ?_) (Ascending.nodup p.ascending)
    exact h k hk l hl ((heq ▸ hspell k hk : Recased k (spell l)).trans (hspell l hl).symm)
  rw [respelled, SortedMap.get?_ofList_eq_some_iff hnodup, List.mem_map]
  constructor
  · rintro ⟨⟨key, w⟩, hmem, heq⟩
    obtain ⟨rfl, rfl⟩ := Prod.mk.inj heq
    exact ⟨key, SortedMap.get?_eq_some_iff.2 hmem, rfl⟩
  · rintro ⟨key, hget, rfl⟩
    exact ⟨(key, v), SortedMap.get?_eq_some_iff.1 hget, rfl⟩

/-- **Where no two keys are one name, look-up does not notice how they are spelled.** -/
theorem CaseDistinct.attribute?_respelled (h : p.CaseDistinct)
    (hspell : ∀ k ∈ p.keys, Recased k (spell k)) (name : String) :
    (p.respelled spell).attribute? name = p.attribute? name := by
  have hdistinct : (p.respelled spell).CaseDistinct := by
    intro k hk l hl hkl
    obtain ⟨v, hv⟩ := SortedMap.mem_keys_iff.1 hk
    obtain ⟨w, hw⟩ := SortedMap.mem_keys_iff.1 hl
    obtain ⟨k', hk', rfl⟩ := (h.get?_respelled_iff hspell).1 hv
    obtain ⟨l', hl', rfl⟩ := (h.get?_respelled_iff hspell).1 hw
    have hk'mem := mem_keys_of_get? hk'
    have hl'mem := mem_keys_of_get? hl'
    -- the two keys were spellings of one name before
    have hbefore := ((hspell k' hk'mem).trans hkl).trans (hspell l' hl'mem).symm
    rw [h k' hk'mem l' hl'mem hbefore]
  refine Option.ext fun v => ?_
  rw [hdistinct.attribute?_eq_some_iff, h.attribute?_eq_some_iff]
  constructor
  · rintro ⟨key, hget, hkey⟩
    obtain ⟨k, hk, rfl⟩ := (h.get?_respelled_iff hspell).1 hget
    exact ⟨k, hk, (hspell k (mem_keys_of_get? hk)).trans hkey⟩
  · rintro ⟨key, hget, hkey⟩
    refine ⟨spell key, (h.get?_respelled_iff hspell).2 ⟨key, hget, rfl⟩, ?_⟩
    exact (hspell key (mem_keys_of_get? hget)).symm.trans hkey

end Properties

/-! ## 4. Both sides -/

namespace Filter

/-- **The case of letters in names does not show**: neither in the attributes of a filter, nor in the keys
of a dictionary of which no two are one name. -/
theorem selects_in_any_spelling :
    (∀ f g : Filter, Recased f g → ∀ p : Properties, f.selects p = g.selects p) ∧
    ∀ (p : Properties) (spell : String → String), p.CaseDistinct →
      (∀ k ∈ p.keys, Text.Recased k (spell k)) →
        ∀ f : Filter, f.selects p = f.selects (p.respelled spell) := by
  constructor
  · intro f g hfg p
    refine selects_of_recased (fun a b hab => ?_) hfg
    exact .of_attribute?_eq (Properties.attribute?_of_recased hab p)
  · intro p spell hp hspell f
    refine Properties.selects_congr (fun a => ?_) f
    exact .of_attribute?_eq (hp.attribute?_respelled hspell a).symm

/-- An attribute in capitals, and two keys that change places when they are spelled in capitals or not. -/
theorem selects_in_any_spelling_ports :
    selects (.and [.not (.present "host"), .compare "Port" .atLeast "8000"])
        (.ofList [("a", .ofBool true), ("port", .ofInteger ⟨8080, by decide, by decide⟩)]) =
      selects (.and [.not (.present "HOST"), .compare "pORT" .atLeast "8000"])
        (.ofList [("a", .ofBool true), ("port", .ofInteger ⟨8080, by decide, by decide⟩)]) ∧
    selects (.compare "Port" .equal "8080")
        (.ofList [("a", .ofBool true), ("port", .ofInteger ⟨8080, by decide, by decide⟩)]) =
      selects (.compare "Port" .equal "8080")
        (.ofList [("PORT", .ofInteger ⟨8080, by decide, by decide⟩), ("a", .ofBool true)]) := by
  obtain ⟨hfilter, hkeys⟩ := selects_in_any_spelling
  have hrecased {a b : String} (h : Text.sameIgnoringAsciiCase a b = true) : Text.Recased a b :=
    Text.sameIgnoringAsciiCase_iff_recased.1 h
  refine ⟨hfilter _ _ (.and (.cons (.not (.present ?_)) (.cons (.compare ?_ _ _) .nil))) _,
    hkeys _ (fun k => if k = "port" then "PORT" else k) ?_ ?_ _⟩
  · exact hrecased (by decide)
  · exact hrecased (by decide)
  · intro k hk l hl hkl
    have hsame := Text.sameIgnoringAsciiCase_iff_recased.2 hkl
    clear hkl
    revert k l
    decide
  · intro k hk
    refine hrecased ?_
    revert k
    decide

/-- Two keys of one name change places when they are spelled anew, and the other one is found. -/
example :
    selects (.compare "ab" .equal "x") (.ofList [("Ab", .ofString "x"), ("aB", .ofString "y")]) = true ∧
    selects (.compare "ab" .equal "x") (.ofList [("ab", .ofString "x"), ("AB", .ofString "y")]) = false := by
  decide

end Filter
end FrameworkAdmin
