/-
# Looking an attribute up

Names of attributes agree up to the case of ASCII letters.  The keys of a dictionary are told apart by
case, so several of them can go by the name of one attribute, and the look-up takes the first in key
order (`attribute?_eq_some_iff`).  Since capitals come before small letters there, the spelling in small
letters is the last to be found.
-/
import FrameworkAdmin.Filter.Matching
import FrameworkAdmin.Proofs.Filter.Printing

namespace FrameworkAdmin

/-! ## 1. Spellings of a name -/

namespace Text

theorem sameIgnoringAsciiCase_iff {a b : String} : sameIgnoringAsciiCase a b = true ↔
    a.toList.map Char.toLower = b.toList.map Char.toLower := by
  simp [sameIgnoringAsciiCase]

theorem sameIgnoringAsciiCase_refl (a : String) : sameIgnoringAsciiCase a a = true :=
  sameIgnoringAsciiCase_iff.2 rfl

/-- Only the letters `A` to `Z` change when they are made small. -/
theorem toLower_eq_self {c : Char} (h : c.toNat < 65 ∨ 90 < c.toNat) : c.toLower = c := by
  unfold Char.toLower
  rw [dif_neg]
  rintro ⟨hle, hge⟩
  have hle' : 65 ≤ c.toNat := hle
  have hge' : c.toNat ≤ 90 := hge
  omega

/-- Characters that no spelling of a letter can be are as rare in all spellings of a name. -/
theorem forall_of_sameIgnoringAsciiCase {a b : String} (h : sameIgnoringAsciiCase a b = true)
    {p : Char → Bool} (hp : ∀ c, p c = true → c.toLower = c)
    (hb : ∀ c ∈ b.toList, p c.toLower = false) : ∀ c ∈ a.toList, p c = false := by
  intro c hc
  by_contra hpc
  rw [Bool.not_eq_false] at hpc
  have hmem : c.toLower ∈ b.toList.map Char.toLower := by
    rw [← sameIgnoringAsciiCase_iff.1 h]
    exact List.mem_map_of_mem hc
  obtain ⟨d, hd, heq⟩ := List.mem_map.1 hmem
  have hfalse := hb d hd
  rw [heq, hp c hpc, hpc] at hfalse
  cases hfalse

end Text

namespace Filter

open Text

/-- The characters that cannot stand in every place of an attribute. -/
def unfitForAttribute (c : Char) : Bool :=
  endsAttribute c || isBlank c || c == '&' || c == '|' || c == '!'

theorem toLower_of_unfitForAttribute {c : Char} (h : unfitForAttribute c = true) :
    c.toLower = c := by
  simp only [unfitForAttribute, endsAttribute, Bool.or_eq_true, beq_iff_eq] at h
  rcases h with (((h | h) | rfl) | rfl) | rfl
  · rcases h with ((((rfl | rfl) | rfl) | rfl) | rfl) | rfl <;> decide
  · apply toLower_eq_self
    simp only [isBlank, Bool.or_eq_true, Bool.and_eq_true, decide_eq_true_eq, beq_iff_eq] at h
    omega
  all_goals decide

/-- All spellings of an attribute without unfit characters are attributes. -/
theorem isAttribute_of_sameIgnoringAsciiCase {a b : String}
    (h : sameIgnoringAsciiCase a b = true)
    (hne : b.toList ≠ []) (hb : b.toList.all (fun c => !unfitForAttribute c.toLower) = true) :
    IsAttribute a := by
  have hfit := forall_of_sameIgnoringAsciiCase h (fun _ => toLower_of_unfitForAttribute)
    (by simpa using hb)
  simp only [unfitForAttribute, Bool.or_eq_false_iff, beq_eq_false_iff_ne] at hfit
  refine ⟨⟨?_, fun c hc => (hfit c hc).1.1.1.1, fun c hc => ?_, fun c hc => ?_⟩, fun c hc => ?_⟩
  · intro hnil
    have hletters := sameIgnoringAsciiCase_iff.1 h
    rw [hnil, List.map_nil] at hletters
    exact hne (List.map_eq_nil_iff.1 hletters.symm)
  · exact (hfit c (List.mem_of_mem_head? hc)).1.1.1.2
  · obtain ⟨⟨⟨-, hand⟩, hor⟩, hnot⟩ := hfit c (List.mem_of_mem_head? hc)
    exact ⟨hand, hor, hnot⟩
  · exact (hfit c (List.mem_of_mem_getLast? hc)).1.1.1.2

end Filter

/-! ## 2. Look-up -/

/-- Under ascending keys, the first entry of a kind is the least. -/
theorem find?_eq_some_iff_of_ascending {α : Type} {p : String → Bool} {k : String} {a : α}
    {l : List (String × α)} (h : Ascending (l.map Prod.fst)) :
    l.find? (fun e => p e.1) = some (k, a) ↔
      (k, a) ∈ l ∧ p k = true ∧ ∀ other b, (other, b) ∈ l → p other = true →
        compare other k ≠ .lt := by
  induction l with
  | nil => simp
  | cons e rest ih =>
    obtain ⟨l, b⟩ := e
    simp only [Ascending, List.map_cons, List.pairwise_cons] at h
    by_cases hl : p l = true
    · simp only [List.find?_cons, hl, Option.some.injEq]
      constructor
      · rintro heq
        obtain ⟨rfl, rfl⟩ := Prod.mk.inj heq
        refine ⟨List.mem_cons_self, hl, fun other c hmem _ hlt => ?_⟩
        rcases List.mem_cons.1 hmem with heq | hmem
        · obtain ⟨rfl, rfl⟩ := Prod.mk.inj heq
          simp at hlt
        · have hgt := Std.OrientedCmp.gt_of_lt (h.1 other (List.mem_map_of_mem hmem))
          rw [hlt] at hgt
          cases hgt
      · rintro ⟨hmem, -, hleast⟩
        rcases List.mem_cons.1 hmem with heq | hmem
        · exact heq.symm
        · exact absurd (h.1 k (List.mem_map_of_mem hmem)) (hleast l b List.mem_cons_self hl)
    · simp only [List.find?_cons, hl, ih h.2]
      constructor
      · rintro ⟨hmem, hk, hleast⟩
        refine ⟨List.mem_cons_of_mem _ hmem, hk, fun other c hc hother => ?_⟩
        rcases List.mem_cons.1 hc with heq | hc
        · obtain ⟨rfl, rfl⟩ := Prod.mk.inj heq
          exact absurd hother hl
        · exact hleast other c hc hother
      · rintro ⟨hmem, hk, hleast⟩
        refine ⟨?_, hk, fun other c hc => hleast other c (List.mem_cons_of_mem _ hc)⟩
        rcases List.mem_cons.1 hmem with heq | hmem
        · obtain ⟨rfl, rfl⟩ := Prod.mk.inj heq
          exact absurd hk hl
        · exact hmem

namespace Properties

open Text

/-- The look-up is the same for all spellings of a name. -/
theorem attribute?_congr {a b : String} (h : sameIgnoringAsciiCase a b = true) (p : Properties) :
    p.attribute? a = p.attribute? b := by
  rw [sameIgnoringAsciiCase_iff] at h
  simp only [attribute?, sameIgnoringAsciiCase, h]

/-- **The look-up takes the first key that goes by the name.** -/
theorem attribute?_eq_some_iff {p : Properties} {name : String} {v : Value} :
    p.attribute? name = some v ↔
      ∃ key, p.get? key = some v ∧ sameIgnoringAsciiCase key name = true ∧
        ∀ other w, p.get? other = some w → sameIgnoringAsciiCase other name = true →
          compare other key ≠ .lt := by
  have hfind := fun key => find?_eq_some_iff_of_ascending (k := key) (a := v)
    (p := fun k => sameIgnoringAsciiCase k name) p.ascending
  simp only [SortedMap.get?_eq_some_iff]
  rw [attribute?, Option.map_eq_some_iff]
  constructor
  · rintro ⟨⟨key, w⟩, hkey, rfl⟩
    exact ⟨key, (hfind key).1 hkey⟩
  · rintro ⟨key, hkey⟩
    exact ⟨(key, v), (hfind key).2 hkey, rfl⟩

/-- A key that is the only one to go by the name is found. -/
theorem attribute?_of_unique {p : Properties} {key name : String} {v : Value}
    (hget : p.get? key = some v) (hkey : sameIgnoringAsciiCase key name = true)
    (honly : ∀ other w, p.get? other = some w → sameIgnoringAsciiCase other name = true →
      other = key) : p.attribute? name = some v := by
  refine attribute?_eq_some_iff.2 ⟨key, hget, hkey, fun other w hother hname => ?_⟩
  rw [honly other w hother hname, Std.compare_self]
  decide

theorem attribute?_eq_none_iff {p : Properties} {name : String} :
    p.attribute? name = none ↔
      ∀ key v, p.get? key = some v → sameIgnoringAsciiCase key name = false := by
  simp only [attribute?, Option.map_eq_none_iff, List.find?_eq_none, SortedMap.get?_eq_some_iff]
  constructor
  · intro h key v hmem
    simpa using h (key, v) hmem
  · rintro h ⟨key, v⟩ hmem
    simpa using h key v hmem

end Properties
end FrameworkAdmin
