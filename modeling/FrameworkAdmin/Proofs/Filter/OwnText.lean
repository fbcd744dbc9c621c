/-
# A scalar is found by its own text

The text of a scalar is what a table shows of it, and a filter built from that text should select the
dictionary that the scalar came from.  Three pieces that know nothing of each other have to fit for this:
the writer of the scalar, the escaping and reading of filter values, and the comparison, which trims the text
and reads it once more at a type of its own.

They fit except in two places (`Scalar.MeetsOwnText`).  The text of a float is the shortest one that reads
back at 32 bits, and floats are compared at 64, where it may be another number.  And a blank character is
trimmed away before it is compared.

Everything about the scalar is `satisfies_equal_own_text_iff`; the other signs follow from the way in which
they cohere with `=`.
-/
import FrameworkAdmin.Proofs.Filter.Comparisons
import FrameworkAdmin.Proofs.Filter.Printing
import FrameworkAdmin.Proofs.Property.Scalars

namespace FrameworkAdmin

/-! ## 1. Scalars and their texts -/

namespace Scalar

/-- The text of the scalar is still the scalar where the two are compared: a float is the same number when
its text is read at 64 bits, and a character is no blank. -/
def MeetsOwnText : Scalar → Prop
  | ⟨.float, x⟩ => ∃ y, Binary.read .double x.text = .ok y ∧ (x.convert .double).same y = true
  | ⟨.character, c⟩ => Text.isBlank c = false
  | _ => True

variable {s : Scalar}

/-- The text as it reaches the comparison. -/
def ownText (s : Scalar) : String := String.ofList s.text

/-- Blanks at the ends are all that trimming can take, and only strings and characters have any. -/
theorem trim_text (h : s.kind.isTextual = false) : Text.trim s.ownText.toList = s.text := by
  rw [ownText, String.toList_ofList]
  exact Text.trim_eq_self_iff.2 (ScalarKind.listed_write h s.value).2

/-- An integer of at most 64 bits is read from its text at 64 bits. -/
theorem orderInteger?_text {r : Range} (hbelow : r.below ≤ (Range.signed 64).below)
    (habove : r.above ≤ (Range.signed 64).above) (n : Bounded r) :
    orderInteger? n.val n.text = some .eq := by
  have hlower := n.lower
  have hupper := n.upper
  let wide : Bounded (.signed 64) := ⟨n.val, by omega, by omega⟩
  have hread : Bounded.read (.signed 64) n.text = .ok wide := Bounded.read_text wide
  rw [orderInteger?, hread]
  exact congrArg some Std.compare_self

/-- The order of a float to its text is the one to the number that is read at 64 bits. -/
theorem orderFloat?_eq_some_eq_iff {x : Binary .double} {cs : List Char} :
    orderFloat? x cs = some .eq ↔ ∃ y, Binary.read .double cs = .ok y ∧ x.same y = true := by
  unfold orderFloat?
  cases Binary.read .double cs <;> simp [Binary.same]

/-- **A scalar equals its own text exactly if the text is still the scalar.** -/
theorem satisfies_equal_own_text_iff (hnan : s.isNaN = false) :
    s.satisfies .equal s.ownText = true ↔ s.MeetsOwnText := by
  have hread := ScalarKind.read_write s.kind s.value
  have htrim := trim_text (s := s)
  rw [satisfies_equal_iff]
  obtain ⟨k, a⟩ := s
  cases k with
  | string => simp [order?, ownText, text, ScalarKind.write, MeetsOwnText]
  | integer | long | byte | short =>
    simp only [order?, htrim rfl, MeetsOwnText, iff_true]
    exact orderInteger?_text (by decide) (by decide) a
  | float =>
    simp only [order?, htrim rfl, MeetsOwnText]
    exact orderFloat?_eq_some_eq_iff
  | double =>
    simp only [order?, htrim rfl, MeetsOwnText, iff_true]
    exact orderFloat?_eq_some_eq_iff.2 ⟨a, hread, Binary.same_self hnan⟩
  | character =>
    simp only [order?, ownText, text, ScalarKind.write, String.toList_ofList, Text.trim_singleton,
      MeetsOwnText]
    cases Text.isBlank a <;> simp
  | boolean =>
    simp only [order?, htrim rfl, MeetsOwnText, iff_true]
    exact if_pos (beq_iff_eq.2 (Except.ok.inj hread))
  | bigDecimal =>
    have hsame : a.settled.compare a = .eq := beq_iff_eq.1 (Decimal.same_settled a)
    have hdecimal : Decimal.read (text ⟨.bigDecimal, a⟩) = .ok a.settled := hread
    simp only [order?, htrim rfl, MeetsOwnText, iff_true, hdecimal]
    rw [← Decimal.compare_swap, hsame]
    rfl
  | bigInteger =>
    have hinteger : Integer.read (text ⟨.bigInteger, a⟩) = .ok a := hread
    simp only [order?, htrim rfl, MeetsOwnText, iff_true, hinteger]
    exact congrArg some Std.compare_self

/-- The other signs accept the text of such a scalar with `=`. -/
theorem satisfies_own_text (hnan : s.isNaN = false) (h : s.MeetsOwnText) (op : Comparison) :
    s.satisfies op s.ownText = true := by
  have hequal := (satisfies_equal_own_text_iff hnan).2 h
  cases op with
  | equal => exact hequal
  | approximate => exact approximate_of_equal hequal
  | atLeast => exact (equal_iff_atLeast_and_atMost.1 hequal).1
  | atMost => exact (equal_iff_atLeast_and_atMost.1 hequal).2

/-- Approximation does not bring the other scalars nearer to their texts. -/
theorem satisfies_approximate_own_text_iff (hnan : s.isNaN = false) :
    s.satisfies .approximate s.ownText = true ↔ s.MeetsOwnText := by
  refine ⟨fun h => ?_, fun h => satisfies_own_text hnan h .approximate⟩
  by_cases hstring : s.kind = .string
  · obtain ⟨k, a⟩ := s
    obtain rfl : k = .string := hstring
    trivial
  by_cases hcharacter : s.kind = .character
  · obtain ⟨k, c⟩ := s
    obtain rfl : k = .character := hcharacter
    have horder := isSome_order?_of_satisfies h
    simp only [order?, ownText, text, ScalarKind.write, String.toList_ofList, Text.trim_singleton]
      at horder
    show Text.isBlank c = false
    cases hblank : Text.isBlank c with
    | false => rfl
    | true =>
      rw [hblank] at horder
      cases horder
  rw [satisfies_eq fun _ => ⟨hstring, hcharacter⟩] at h
  have hsigns : Comparison.approximate.accepts = Comparison.equal.accepts := by
    funext o
    cases o <;> rfl
  rw [← satisfies_equal_own_text_iff hnan, satisfies_eq (by simp), ← hsigns]
  exact h

/-- A float is on one side of its text, if it does not equal it. -/
theorem atLeast_or_atMost_own_text (hnan : s.isNaN = false) (hk : s.kind = .float) :
    s.satisfies .atLeast s.ownText = true ∨ s.satisfies .atMost s.ownText = true := by
  refine atLeast_or_atMost (by simp [hk]) hnan ?_
  have htrim := trim_text (s := s) (by rw [hk]; rfl)
  obtain ⟨k, x⟩ := s
  obtain rfl : k = .float := hk
  show ∃ y, Binary.read .double (Text.trim (ownText ⟨.float, x⟩).toList) = .ok y ∧ y.isNaN = false
  rw [htrim]
  exact Binary.exists_read_text ScalarKind.single_depth_le .double hnan

end Scalar

/-! ## 2. Filters -/

namespace Filter

open Text

section

variable {a key : String} {p : Properties} {v : Value} {s : Scalar}

theorem selects_compare (hget : p.get? key = some v) (hkey : sameIgnoringAsciiCase key a = true)
    (honly : ∀ other w, p.get? other = some w → sameIgnoringAsciiCase other a = true → other = key)
    (op : Comparison) (value : String) :
    selects (.compare a op value) p = v.scalars.any fun s => s.satisfies op value := by
  rw [selects, Properties.holds, Properties.attribute?_of_unique hget hkey honly]

/-- **A scalar is found by its own text.**  The filter of an attribute, a sign and the escaped text of a scalar
can be read, and it selects every dictionary with this scalar under the attribute if the text is still the
scalar where the two are compared.  A float is found by `>=` or by `<=` even where it is not. -/
theorem selects_own_text (ha : IsAttribute a) (hget : p.get? key = some v)
    (hkey : sameIgnoringAsciiCase key a = true)
    (honly : ∀ other w, p.get? other = some w → sameIgnoringAsciiCase other a = true → other = key)
    (hmem : s ∈ v.scalars) (hnan : s.isNaN = false) :
    (∀ op : Comparison,
      read (String.ofList ('(' :: (a.toList ++ (op.sign ++ (escape s.text ++ [')']))))) =
        .ok (.compare a op s.ownText)) ∧
    (s.MeetsOwnText → ∀ op, selects (.compare a op s.ownText) p = true) ∧
    (s.kind = .float → selects (.compare a .atLeast s.ownText) p = true ∨
      selects (.compare a .atMost s.ownText) p = true) := by
  have hselects {op : Comparison} (h : s.satisfies op s.ownText = true) :
      selects (.compare a op s.ownText) p = true := by
    rw [selects_compare hget hkey honly]
    exact List.any_eq_true.2 ⟨s, hmem, h⟩
  refine ⟨fun op => ?_, fun h op => hselects (Scalar.satisfies_own_text hnan h op), fun hk => ?_⟩
  · have hread := read_text (wellFormed_compare ha op s.ownText)
    rwa [Filter.text, chars, Scalar.ownText, String.toList_ofList] at hread
  · exact (Scalar.atLeast_or_atMost_own_text hnan hk).imp hselects hselects

/-- The float 1.5 behind a zero, under a name in capitals. -/
theorem selects_own_text_weights :
    selects (.compare "weights" .atMost "1.5") (SortedMap.ofList [("WEIGHTS",
      .array (.primitive .float) [Binary.ofBits .single 0, Binary.ofBits .single 0x3fc00000])]) = true := by
  have hattr : IsAttribute "weights" :=
    isAttribute_of_sameIgnoringAsciiCase (sameIgnoringAsciiCase_refl _) (by decide) (by decide)
  have hmeets : Scalar.MeetsOwnText ⟨.float, Binary.ofBits .single 0x3fc00000⟩ :=
    ⟨Binary.ofBits .double 0x3ff8000000000000, by decide +kernel, by decide +kernel⟩
  have htext : Scalar.ownText ⟨.float, Binary.ofBits .single 0x3fc00000⟩ = "1.5" := by decide +kernel
  have hget : (SortedMap.ofList [("WEIGHTS", Value.array (.primitive .float)
      [Binary.ofBits .single 0, Binary.ofBits .single 0x3fc00000])]).get? "WEIGHTS" = some _ := rfl
  rw [← htext]
  refine (selects_own_text hattr hget (by decide) (fun other w hother _ => ?_)
    (List.mem_cons_of_mem _ List.mem_cons_self) rfl).2.1 hmeets .atMost
  exact congrArg Prod.fst (List.mem_singleton.1 (SortedMap.get?_eq_some_iff.1 hother))

/-- The float 0.1 and the blank character are not found by their texts. -/
theorem selects_own_text_missed :
    IsAttribute "a" ∧
    (Scalar.isNaN ⟨.float, Binary.ofBits .single 0x3dcccccd⟩ = false ∧
      Scalar.ownText ⟨.float, Binary.ofBits .single 0x3dcccccd⟩ = "0.1" ∧
      read "(a=0.1)" = .ok (.compare "a" .equal "0.1") ∧
      selects (.compare "a" .equal "0.1")
        (SortedMap.ofList [("a", .scalar ⟨.float, Binary.ofBits .single 0x3dcccccd⟩)]) = false) ∧
    (Scalar.ownText ⟨.character, ' '⟩ = " " ∧
      read "(a= )" = .ok (.compare "a" .equal " ") ∧
      selects (.compare "a" .equal " ") (SortedMap.ofList [("a", .scalar ⟨.character, ' '⟩)]) = false) := by
  refine ⟨?_, ⟨rfl, by decide +kernel, rfl, by decide +kernel⟩, ⟨by decide, rfl, by decide⟩⟩
  exact isAttribute_of_sameIgnoringAsciiCase (sameIgnoringAsciiCase_refl _) (by decide) (by decide)

/-- **A scalar that stands alone is found by `=` and by `~=` only if its text is still the scalar.** -/
theorem selects_own_text_alone_iff (hget : p.get? key = some (.scalar s))
    (hkey : sameIgnoringAsciiCase key a = true)
    (honly : ∀ other w, p.get? other = some w → sameIgnoringAsciiCase other a = true → other = key)
    (hnan : s.isNaN = false) :
    (selects (.compare a .equal s.ownText) p = true ↔ s.MeetsOwnText) ∧
      (selects (.compare a .approximate s.ownText) p = true ↔ s.MeetsOwnText) := by
  rw [selects_compare hget hkey honly, selects_compare hget hkey honly, Value.scalars]
  simp only [List.any_cons, List.any_nil, Bool.or_false]
  exact ⟨Scalar.satisfies_equal_own_text_iff hnan, Scalar.satisfies_approximate_own_text_iff hnan⟩

end

end Filter
end FrameworkAdmin
