/-
# The canonical text of a version

Many texts are read as one version: numbers may have zeros or a plus sign in front, parts may be left out,
blanks may stand around.  The text that a version is written as is the canonical one of them.  Reading a text
and writing the result takes every text to its canonical one, and doing so again changes nothing, because what
has been read comes back from its text (`read_text` in `Proofs/Version.lean`).

So two versions that have been read can be compared in three ways that come to the same: by their canonical
texts, as they are, and by the order, in which only equal versions are level (`eq_iff_not_precedes`).  The
order is described by `Precedes`, number by number and then by the bytes of the qualifier.
-/
import FrameworkAdmin.Proofs.Text.Bytes
import FrameworkAdmin.Proofs.Version

namespace FrameworkAdmin
namespace Version

variable {v w : Version}

/-! ## 1. The order -/

/-- The version comes before another: it is smaller in the first of the three numbers in which they differ,
or in the bytes of its qualifier if they differ in none. -/
def Precedes (v w : Version) : Prop :=
  v.major.val < w.major.val ∨ v.major.val = w.major.val ∧
    (v.minor.val < w.minor.val ∨ v.minor.val = w.minor.val ∧
      (v.micro.val < w.micro.val ∨ v.micro.val = w.micro.val ∧
        Ord.compare (Text.bytes v.qualifier) (Text.bytes w.qualifier) = .lt))

theorem compare_eq_lt_iff : v.compare w = .lt ↔ v.Precedes w := by
  simp only [compare, Precedes, Ordering.then_eq_lt, Int.compare_eq_lt,
    Std.LawfulEqCmp.compare_eq_iff_eq, Text.compare_bytes]

theorem compare_eq_eq_iff : v.compare w = .eq ↔ v = w := by
  obtain ⟨major, minor, micro, qualifier⟩ := v
  obtain ⟨major', minor', micro', qualifier'⟩ := w
  simp only [compare, Ordering.then_eq_eq, Std.LawfulEqCmp.compare_eq_iff_eq, Version.mk.injEq]
  exact and_congr Bounded.ext_iff.symm
    (and_congr Bounded.ext_iff.symm (and_congr_left' Bounded.ext_iff.symm))

/-- Each version comes after the versions that come before it. -/
theorem compare_swap (v w : Version) : (v.compare w).swap = w.compare v := by
  simp only [compare, Ordering.swap_then]
  rw [← Std.OrientedCmp.eq_swap, ← Std.OrientedCmp.eq_swap, ← Std.OrientedCmp.eq_swap,
    ← Std.OrientedCmp.eq_swap]

/-- **Versions are equal exactly when neither comes before the other.** -/
theorem eq_iff_not_precedes : v = w ↔ ¬ v.Precedes w ∧ ¬ w.Precedes v := by
  rw [← compare_eq_eq_iff, ← compare_eq_lt_iff, ← compare_eq_lt_iff, ← compare_swap v w]
  cases v.compare w <;> simp

/-! ## 2. Qualifiers -/

/-- A letter or a digit of ASCII, or one of the two marks. -/
def Plain (c : Char) : Prop :=
  ('A' ≤ c ∧ c ≤ 'Z') ∨ ('a' ≤ c ∧ c ≤ 'z') ∨ ('0' ≤ c ∧ c ≤ '9') ∨ c = '_' ∨ c = '-'

theorem isQualifierChar_iff {c : Char} : isQualifierChar c = true ↔ Plain c := by
  have hclasses : isQualifierChar c =
      (((decide ('A' ≤ c ∧ c ≤ 'Z') || ('a' ≤ c && c ≤ 'z')) || ('0' ≤ c && c ≤ '9')) || c == '_' ||
        c == '-') := rfl
  simp only [hclasses, Bool.or_eq_true, Bool.and_eq_true, decide_eq_true_eq, beq_iff_eq, Plain, or_assoc]

/-- **The versions that can be read** are those with plain qualifiers. -/
theorem exists_read_iff : (∃ s, read s = .ok v) ↔ ∀ c ∈ v.qualifier.toList, Plain c := by
  simp only [← isQualifierChar_iff]
  exact ⟨fun ⟨_, h⟩ => legible_of_read h, fun h => ⟨v.text, read_text h⟩⟩

/-! ## 3. Canonical texts -/

/-- **The text of a version that has been read is canonical**: it is read as the version again, so reading
and writing it changes nothing, and its qualifier is plain; and of two such versions the texts are equal
exactly when the versions are, and these exactly when neither comes before the other. -/
theorem text_canonical {s t : String} (hv : read s = .ok v) (hw : read t = .ok w) :
    (read v.text = .ok v ∧ (read v.text).map text = .ok v.text) ∧
    (∀ c ∈ v.qualifier.toList, Plain c) ∧
    (v.text = w.text ↔ v = w) ∧
    (v = w ↔ ¬ v.Precedes w ∧ ¬ w.Precedes v) ∧
    (v.compare w = .lt ↔ v.Precedes w) := by
  have hback : read v.text = .ok v := read_text (legible_of_read hv)
  refine ⟨⟨hback, ?_⟩, exists_read_iff.1 ⟨s, hv⟩, ⟨?_, congrArg text⟩, eq_iff_not_precedes,
    compare_eq_lt_iff⟩
  · rw [hback]
    rfl
  · exact text_injective (legible_of_read hv) (legible_of_read hw)

/-- Zeros in front are dropped from a number and kept in a qualifier, where they decide the order. -/
theorem text_canonical_zeros :
    read " 01.+2.0.007\n" = .ok ⟨⟨1, by decide, by decide⟩, ⟨2, by decide, by decide⟩, .zero, "007"⟩ ∧
    read "1.2.00.07" = .ok ⟨⟨1, by decide, by decide⟩, ⟨2, by decide, by decide⟩, .zero, "07"⟩ ∧
    read "1.2.0.007" = read " 01.+2.0.007\n" ∧
    Precedes ⟨⟨1, by decide, by decide⟩, ⟨2, by decide, by decide⟩, .zero, "007"⟩
      ⟨⟨1, by decide, by decide⟩, ⟨2, by decide, by decide⟩, .zero, "07"⟩ := by
  have hv : read " 01.+2.0.007\n" =
      .ok ⟨⟨1, by decide, by decide⟩, ⟨2, by decide, by decide⟩, .zero, "007"⟩ := by decide
  have hw : read "1.2.00.07" =
      .ok ⟨⟨1, by decide, by decide⟩, ⟨2, by decide, by decide⟩, .zero, "07"⟩ := by decide
  obtain ⟨⟨hback, -⟩, -, -, -, horder⟩ := text_canonical hv hw
  exact ⟨hv, hw, hback.trans hv.symm, horder.1 (by decide)⟩

end Version
end FrameworkAdmin
