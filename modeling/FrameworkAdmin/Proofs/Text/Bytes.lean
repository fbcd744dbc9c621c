/-
# Texts in the order of their bytes

Texts are compared here character by character, by code point.  Where listings and orders are said to go by
the bytes of the texts in UTF-8, this is the same order: of two characters the smaller one has the smaller
bytes, and the comparison is decided in them, whatever stands behind (`compare_utf8EncodeChar`).  So the
first character in which two texts differ decides both comparisons alike (`compare_bytes`).

Characters have one to four bytes.  One with fewer bytes starts with a smaller byte; of two with equally
many, the bytes are the digits of the code point in base 64, the most significant first.
-/
import Mathlib.Tactic.SplitIfs
import FrameworkAdmin.SortedMap

namespace FrameworkAdmin
namespace Text

/-- The bytes of a text in UTF-8. -/
def bytes (s : String) : List UInt8 := s.toUTF8.data.toList

theorem bytes_eq_flatMap (s : String) : bytes s = s.toList.flatMap String.utf8EncodeChar := by
  obtain ⟨cs, rfl⟩ : ∃ cs, s = String.ofList cs := ⟨s.toList, String.ofList_toList.symm⟩
  rw [bytes, String.toUTF8, String.toByteArray_ofList, List.utf8Encode,
    List.toList_data_toByteArray, String.toList_ofList]

/-- Bytes are ordered by their numbers. -/
theorem compare_byte_eq_lt_iff {m n : Nat} (hm : m < 256) (hn : n < 256) :
    compare (UInt8.ofNat m) (UInt8.ofNat n) = .lt ↔ m < n := by
  rw [show compare (UInt8.ofNat m) (UInt8.ofNat n) = compareOfLessAndEq _ _ from rfl,
    compareOfLessAndEq_eq_lt, UInt8.lt_iff_toNat_lt, UInt8.toNat_ofNat_of_lt' hm,
    UInt8.toNat_ofNat_of_lt' hn]

theorem compare_byte_eq_eq_iff {m n : Nat} (hm : m < 256) (hn : n < 256) :
    compare (UInt8.ofNat m) (UInt8.ofNat n) = .eq ↔ m = n := by
  rw [Std.LawfulEqCmp.compare_eq_iff_eq, ← UInt8.toNat_inj, UInt8.toNat_ofNat_of_lt' hm,
    UInt8.toNat_ofNat_of_lt' hn]

/-- **A smaller character is smaller in its bytes already.** -/
theorem compare_utf8EncodeChar {c d : Char} (h : c < d) (xs ys : List UInt8) :
    compare (String.utf8EncodeChar c ++ xs) (String.utf8EncodeChar d ++ ys) = .lt := by
  have hlt : c.val.toNat < d.val.toNat := h
  have hlimit : d.val.toNat < 1114112 := by
    rcases d.valid with hlow | ⟨-, hhigh⟩ <;> omega
  -- each digit is what is left of the digits so far
  have hsecond : ∀ n : Nat, n / 4096 = n / 64 / 64 := fun n => by omega
  have hthird : ∀ n : Nat, n / 262144 = n / 64 / 64 / 64 := fun n => by omega
  simp only [String.utf8EncodeChar, hsecond, hthird]
  split_ifs
  all_goals try omega
  all_goals
    simp (disch := omega) only [List.cons_append, List.nil_append, List.compare_cons_cons,
      Ordering.then_eq_lt, compare_byte_eq_lt_iff, compare_byte_eq_eq_iff]
    omega

/-- Texts that begin alike are compared behind that. -/
theorem compare_append_left (p xs ys : List UInt8) : compare (p ++ xs) (p ++ ys) = compare xs ys := by
  induction p with
  | nil => rfl
  | cons b p ih => simp [ih]

theorem compare_flatMap_of_lt {cs ds : List Char} (h : cs < ds) :
    compare (cs.flatMap String.utf8EncodeChar) (ds.flatMap String.utf8EncodeChar) = .lt := by
  induction h with
  | nil =>
    rename_i d ds
    obtain ⟨b, bs, hbytes⟩ := List.exists_cons_of_ne_nil (String.utf8EncodeChar_ne_nil (c := d))
    simp [hbytes]
  | rel hcd => exact compare_utf8EncodeChar hcd _ _
  | cons _ ih => simpa [compare_append_left] using ih

/-- **The order of texts is that of their bytes.** -/
theorem compare_bytes (s t : String) : compare (bytes s) (bytes t) = compare s t := by
  have hlt : ∀ {s t : String}, compare s t = .lt → compare (bytes s) (bytes t) = .lt := by
    intro s t h
    rw [bytes_eq_flatMap, bytes_eq_flatMap]
    have hchars : s < t := compareOfLessAndEq_eq_lt.1 h
    exact compare_flatMap_of_lt hchars
  cases h : compare s t with
  | lt => exact hlt h
  | eq =>
    obtain rfl := Std.LawfulEqCmp.eq_of_compare h
    exact Std.ReflCmp.compare_self
  | gt => exact Std.OrientedCmp.gt_of_lt (hlt (Std.OrientedCmp.lt_of_gt h))

/-- Keys that ascend do so in their bytes. -/
theorem ascending_bytes {keys : List String} (h : Ascending keys) : Ascending (keys.map bytes) :=
  List.pairwise_map.2 (h.imp fun {s t} hlt => (compare_bytes s t).trans hlt)

end Text
end FrameworkAdmin
