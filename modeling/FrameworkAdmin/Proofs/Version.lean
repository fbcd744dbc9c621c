/-
# Versions are read back from their text

A version is written with all three numbers, and with its qualifier unless that is empty.  The reader
takes the numbers from between the points and the qualifier from behind the third, whatever is in it; it
refuses a qualifier with other characters than letters, digits, `_` and `-`.  So a version comes back from
its text exactly when its qualifier is `Legible`, and the versions that have been read are
(`legible_of_read`).

The points apart, a text of such a version has no characters but those of qualifiers (`mem_text`): no blank,
which would be trimmed, and no other separator.  That is why such a text can be put behind any name and a
separator, and still be found again.
-/
import FrameworkAdmin.Proofs.Number.Integers
import FrameworkAdmin.Proofs.Text.Ends
import FrameworkAdmin.Version

namespace FrameworkAdmin
namespace Version

variable {v w : Version} {s : String}

/-! ## 1. Qualifiers -/

/-- The qualifier has no characters but those of qualifiers. -/
def Legible (v : Version) : Prop := ∀ c ∈ v.qualifier.toList, isQualifierChar c = true

/-- A version that was read, or that was made of numbers only. -/
inductive Obtained : Version → Prop
  | ofText {s : String} {v : Version} (h : read s = .ok v) : Obtained v
  | ofNumbers (major minor micro : Part) : Obtained ⟨major, minor, micro, ""⟩

theorem legible_of_readQualifier {rest : Option (List Char)} {q : String}
    (h : readQualifier rest = .ok q) : ∀ c ∈ q.toList, isQualifierChar c = true := by
  rw [readQualifier] at h
  split at h
  · rename_i hall
    obtain rfl := Except.ok.inj h
    rw [String.toList_ofList]
    exact List.all_eq_true.1 hall
  · cases h

theorem legible_of_readParts {cs : List Char} (h : readParts cs = .ok v) : v.Legible := by
  simp only [readParts, bind, Except.bind, pure, Except.pure] at h
  repeat' split at h
  all_goals cases h
  exact legible_of_readQualifier ‹_›

theorem legible_of_read (h : read s = .ok v) : v.Legible := by
  rw [read] at h
  split at h
  · obtain rfl := Except.ok.inj h
    intro c hc
    cases hc
  · split at h
    · rename_i hparts
      obtain rfl := Except.ok.inj h
      exact legible_of_readParts hparts
    · cases h

theorem Obtained.legible (h : v.Obtained) : v.Legible := by
  cases h with
  | ofText h => exact legible_of_read h
  | ofNumbers major minor micro =>
    intro c hc
    cases hc

/-! ## 2. Characters -/

theorem isQualifierChar_of_isDigit {c : Char} (h : c.isDigit = true) : isQualifierChar c = true := by
  simp [isQualifierChar, Char.isAlphanum, h]

/-- A character that lies between two others lies between their numbers. -/
theorem toNat_between {low high c : Char} (hlow : c.val ≥ low.val) (hhigh : c.val ≤ high.val) :
    low.toNat ≤ c.toNat ∧ c.toNat ≤ high.toNat :=
  ⟨UInt32.le_iff_toNat_le.1 hlow, UInt32.le_iff_toNat_le.1 hhigh⟩

/-- The characters of qualifiers lie between the minus sign and the last letter. -/
theorem toNat_of_isQualifierChar {c : Char} (h : isQualifierChar c = true) :
    45 ≤ c.toNat ∧ c.toNat ≤ 122 := by
  rw [isQualifierChar, Bool.or_eq_true, Bool.or_eq_true, beq_iff_eq, beq_iff_eq] at h
  rcases h with (halphanum | rfl) | rfl
  · rcases Bool.or_eq_true_iff.1 halphanum with halpha | hdigit
    · rcases Bool.or_eq_true_iff.1 halpha with hupper | hlower
      · obtain ⟨hlow, hhigh⟩ := of_decide_eq_true hupper
        obtain ⟨hlow, hhigh⟩ := toNat_between hlow hhigh
        exact ⟨le_trans (by decide) hlow, le_trans hhigh (by decide)⟩
      · obtain ⟨hlow, hhigh⟩ := Bool.and_eq_true_iff.1 hlower
        obtain ⟨hlow, hhigh⟩ := toNat_between (of_decide_eq_true hlow) (of_decide_eq_true hhigh)
        exact ⟨le_trans (by decide) hlow, le_trans hhigh (by decide)⟩
    · obtain ⟨hlow, hhigh⟩ := Bool.and_eq_true_iff.1 hdigit
      obtain ⟨hlow, hhigh⟩ := toNat_between (of_decide_eq_true hlow) (of_decide_eq_true hhigh)
      exact ⟨le_trans (by decide) hlow, le_trans hhigh (by decide)⟩
  · decide
  · decide

theorem isBlank_of_isQualifierChar {c : Char} (h : isQualifierChar c = true) :
    Text.isBlank c = false := by
  obtain ⟨hlow, hhigh⟩ := toNat_of_isQualifierChar h
  simp only [Text.isBlank, Bool.or_eq_false_iff, Bool.and_eq_false_iff, decide_eq_false_iff_not,
    beq_eq_false_iff_ne]
  omega

theorem part_mem {p : Part} {c : Char} (h : c ∈ p.text) : isQualifierChar c = true := by
  rcases isDigit_or_of_mem_integerText h with hdigit | rfl
  · exact isQualifierChar_of_isDigit hdigit
  · decide

theorem toList_text (v : Version) :
    v.text.toList = v.major.text ++ '.' :: (v.minor.text ++ '.' :: (v.micro.text ++
      if v.qualifier.isEmpty then [] else '.' :: v.qualifier.toList)) := by
  rw [text, String.toList_ofList]
  split <;> simp

theorem mem_text (h : v.Legible) {c : Char} (hc : c ∈ v.text.toList) :
    isQualifierChar c = true ∨ c = '.' := by
  rw [toList_text] at hc
  simp only [List.mem_append, List.mem_cons] at hc
  rcases hc with hc | rfl | hc | rfl | hc | hc
  · exact Or.inl (part_mem hc)
  · exact Or.inr rfl
  · exact Or.inl (part_mem hc)
  · exact Or.inr rfl
  · exact Or.inl (part_mem hc)
  · split at hc
    · cases hc
    · rcases List.mem_cons.1 hc with rfl | hc
      · exact Or.inr rfl
      · exact Or.inl (h c hc)

/-! ## 3. Reading back -/

theorem text_ne_point {p : Part} : ∀ c ∈ p.text, (c == '.') = false := by
  intro c hc
  rcases isDigit_or_of_mem_integerText hc with hdigit | rfl
  · exact beq_eq_false_iff_ne.2 (ne_of_isDigit hdigit (by decide))
  · decide

theorem readPart_text_cons (place : Place) (p : Part) (rest : List Char) :
    readPart place (some (p.text ++ '.' :: rest)) = .ok (p, some rest) := by
  simp only [readPart, Text.cut_append_cons text_ne_point (by decide : ('.' == '.') = true),
    Bounded.read_text]

theorem readPart_text (place : Place) (p : Part) : readPart place (some p.text) = .ok (p, none) := by
  simp only [readPart, Text.cut_of_forall text_ne_point, Bounded.read_text]

theorem readQualifier_toList {q : String} (h : ∀ c ∈ q.toList, isQualifierChar c = true) :
    readQualifier (some q.toList) = .ok q := by
  rw [readQualifier, Option.getD_some, if_pos (List.all_eq_true.2 h), String.ofList_toList]

theorem readParts_text (h : v.Legible) : readParts v.text.toList = .ok v := by
  obtain ⟨major, minor, micro, qualifier⟩ := v
  rw [toList_text, readParts, readPart_text_cons]
  simp only [bind, Except.bind, readPart_text_cons]
  by_cases hempty : qualifier.isEmpty = true
  · obtain rfl := String.isEmpty_iff.1 hempty
    rw [if_pos hempty, List.append_nil, readPart_text]
    rfl
  · rw [if_neg hempty, readPart_text_cons]
    simp only [readQualifier_toList h]
    rfl

/-- **A version with a legible qualifier is read back from its text.** -/
theorem read_text (h : v.Legible) : read v.text = .ok v := by
  have htrim : Text.trim v.text.toList = v.text.toList := by
    refine Text.trim_eq_self_iff.2 (Text.trimmed_of_forall fun c hc => ?_)
    rcases mem_text h hc with hqualifier | rfl
    · exact isBlank_of_isQualifierChar hqualifier
    · decide
  have hne : v.text.toList.isEmpty = false := by
    rw [toList_text]
    cases v.major.text <;> rfl
  rw [read, htrim, hne, readParts_text h]
  rfl

/-- Different versions have different texts. -/
theorem text_injective (hv : v.Legible) (hw : w.Legible) (h : v.text = w.text) : v = w := by
  have hread := read_text hv
  rw [h, read_text hw] at hread
  exact (Except.ok.inj hread).symm

end Version
end FrameworkAdmin
