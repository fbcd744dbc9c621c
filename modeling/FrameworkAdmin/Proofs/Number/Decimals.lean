/-
# Decimals are read back from their text, up to their scale

A decimal is written in one of three layouts and read by one reader, which puts the digits around a
point together, counts those behind it and takes the exponent off.  So reading gives back the digits
in every layout, and the scale in all but one: where zeros were filled in before the point, they are
read as digits, and the scale that is left is zero.  Zero itself is written without its scale.

`settled` is the decimal that comes back, and the three statements about it are all that is used
elsewhere:

* `read_text`: the text of `d` is read as `settled d`, whatever the digits and the scale;
* `text_settled`: its text is the same, so a second reading changes nothing more;
* `same_settled`: it is the same number.

No scale is too large.  The exponent is read with 128 bits and then subtracted from the number of
places, and what is left is the scale again (`read_text` at the scientific layout).
-/
import FrameworkAdmin.Number.Decimal
import FrameworkAdmin.Proofs.Number.DecimalOrder
import FrameworkAdmin.Proofs.Number.Integers
import FrameworkAdmin.Proofs.Text.Ends

namespace FrameworkAdmin

/-! ## 1. Digits with a sign -/

/-- A text with a minus sign in front of it, or without one. -/
def signed (negative : Bool) (cs : List Char) : List Char := if negative then '-' :: cs else cs

/-- A natural number with a sign. -/
def signedValue (negative : Bool) (n : Nat) : Int := if negative then -(n : Int) else n

theorem signedValue_mul (negative : Bool) (m n : Nat) :
    signedValue negative (m * n) = signedValue negative m * n := by
  cases negative with
  | false => exact Int.natCast_mul m n
  | true =>
    show -((m * n : Nat) : Int) = -(m : Int) * n
    rw [Int.natCast_mul, Int.neg_mul]

theorem signed_append (negative : Bool) (cs ds : List Char) :
    signed negative (cs ++ ds) = signed negative cs ++ ds := by
  cases negative <;> rfl

theorem mem_signed {negative : Bool} {c : Char} {cs : List Char} (h : c ∈ signed negative cs) :
    c = '-' ∨ c ∈ cs := by
  cases negative with
  | false => exact Or.inr h
  | true => exact List.mem_cons.1 h

theorem signed_ne_nil {negative : Bool} {cs : List Char} (h : cs ≠ []) :
    signed negative cs ≠ [] := by
  cases negative with
  | false => exact h
  | true => exact List.cons_ne_nil _ _

/-- A sign and digits are none of the characters that a reader looks for. -/
theorem not_of_mem_signed {p : Char → Bool} (hminus : p '-' = false)
    (hdigit : ∀ c, c.isDigit = true → p c = false) {negative : Bool} {cs : List Char}
    (h : AllDigits cs) : ∀ c ∈ signed negative cs, p c = false := by
  intro c hc
  rcases mem_signed hc with rfl | hc
  · exact hminus
  · exact hdigit c (h c hc)

/-- Digits with a sign are an integer. -/
theorem Integer.read_signed (negative : Bool) {cs : List Char} (hne : cs ≠ [])
    (h : AllDigits cs) : Integer.read (signed negative cs) =
      .ok (signedValue negative (digitsValue cs)) := by
  cases negative with
  | false => exact Integer.read_of_allDigits hne h
  | true => exact Integer.read_minus_of_allDigits hne h

namespace Decimal

/-! ## 2. What the reader makes of digits, a point and an exponent -/

/-- The two letters in front of an exponent. -/
def isExponentMark (c : Char) : Bool := c == 'e' || c == 'E'

theorem isExponentMark_of_isDigit (c : Char) (h : c.isDigit = true) :
    isExponentMark c = false := by
  have he : c ≠ 'e' := ne_of_isDigit h (by decide)
  have hE : c ≠ 'E' := ne_of_isDigit h (by decide)
  simp [isExponentMark, he, hE]

variable {negative : Bool} {base ds : List Char} {places : Nat}

/-- There is no exponent among the digits. -/
theorem not_isExponentMark (h : Positional base ds places) :
    ∀ c ∈ signed negative base, isExponentMark c = false := by
  intro c hc
  rcases mem_signed hc with rfl | hc
  · decide
  rcases h.isDigit_or_eq hc with hc | rfl
  · exact isExponentMark_of_isDigit c hc
  · decide

/-- The point is taken out from among the digits and those behind it are counted. -/
theorem unpoint_of_positional (h : Positional base ds places) :
    unpoint (signed negative base) = (signed negative ds, places) := by
  have hpoint : ∀ c, c.isDigit = true → (c == '.') = false := fun c hc => by
    simpa using ne_of_isDigit hc (by decide)
  cases h with
  | whole _ h => rw [unpoint, Text.cut_of_forall (not_of_mem_signed (by decide) hpoint h)]
  | @point whole fraction _ hf h =>
    obtain ⟨hwhole, hfraction⟩ := allDigits_append.1 h
    have hcount : fraction.filter (· != '_') = fraction := by
      refine List.filter_eq_self.2 fun c hc => ?_
      simpa using ne_of_isDigit (hfraction c hc) (by decide)
    rw [unpoint, signed_append,
      Text.cut_append_cons (not_of_mem_signed (by decide) hpoint hwhole) (by decide)]
    cases fraction with
    | nil => exact absurd rfl hf
    | cons c cs => simp only [hcount, signed_append]

/-- **Digits at a power of ten are the number they look like**, if the scale is within 64 bits. -/
theorem readScaled_of_positional (h : Positional base ds places) (cs : List Char)
    {exponent : Int} {scale : Bounded (.signed 64)} (hscale : scale.val = places - exponent) :
    readScaled cs (signed negative base) exponent =
      .ok ⟨signedValue negative (digitsValue ds), scale⟩ := by
  have hread := Integer.read_signed negative h.digits_ne_nil h.allDigits
  have hof : Bounded.ofInt? (.signed 64) (places - exponent) = some scale := by
    rw [← hscale, Bounded.ofInt?_val]
  rw [readScaled, if_neg (by simpa using signed_ne_nil h.base_ne_nil), unpoint_of_positional h]
  simp only [hof, hread]
  rfl

/-- Without an exponent the scale is the number of places. -/
theorem read_of_positional (h : Positional base ds places) {scale : Bounded (.signed 64)}
    (hscale : scale.val = places) :
    read (signed negative base) = .ok ⟨signedValue negative (digitsValue ds), scale⟩ := by
  have hcut : Text.cut (fun c => c == 'e' || c == 'E') (signed negative base) =
      (signed negative base, none) := Text.cut_of_forall (not_isExponentMark h)
  rw [read, hcut]
  exact readScaled_of_positional h _ (by omega)

/-- With an exponent it is that number less the exponent. -/
theorem read_of_exponent (h : Positional base ds places) {mark : Char}
    (hmark : isExponentMark mark = true) {text : List Char} {exponent : Bounded (.signed 128)}
    (htext : Bounded.read (.signed 128) text = .ok exponent) {scale : Bounded (.signed 64)}
    (hscale : scale.val = places - exponent.val) :
    read (signed negative base ++ mark :: text) =
      .ok ⟨signedValue negative (digitsValue ds), scale⟩ := by
  have hcut : Text.cut (fun c => c == 'e' || c == 'E') (signed negative base ++ mark :: text) =
      (signed negative base, some text) :=
    Text.cut_append_cons (not_isExponentMark h) hmark text
  rw [read, hcut]
  simp only [htext]
  exact readScaled_of_positional h _ hscale

/-! ## 3. What is read back -/

/-- The scale of a decimal without places. -/
def noPlaces : Bounded (.signed 64) := ⟨0, by decide, by decide⟩

/-- The decimal that is read from the text of `d`: zeros that are filled in before the point are
digits of it, and zero has no scale. -/
def settled (d : Decimal) : Decimal :=
  if d.coefficient = 0 then ⟨0, noPlaces⟩
  else if -trailingZeroLimit ≤ d.scale.val ∧ d.scale.val ≤ 0 then
    ⟨d.coefficient * 10 ^ (-d.scale.val).toNat, noPlaces⟩
  else d

/-- An exponent with its sign is read with 128 bits. -/
theorem read_exponentText (e : Int)
    (he : -((Range.signed 64).below : Int) ≤ e ∧ e ≤ (Range.signed 64).below) :
    ∃ b : Bounded (.signed 128), b.val = e ∧
      Bounded.read (.signed 128) ((if e < 0 then '-' else '+') :: digits e.natAbs) = .ok b := by
  have hrange : -((Range.signed 128).below : Int) ≤ e ∧ e ≤ (Range.signed 128).above := by
    simp only [Range.signed] at he ⊢
    omega
  refine ⟨⟨e, hrange.1, hrange.2⟩, rfl, ?_⟩
  by_cases hneg : e < 0
  · rw [if_pos hneg]
    refine Bounded.read_minus_of_allDigits (digits_ne_nil _) (allDigits_digits _) (by decide) ?_
    rw [digitsValue_digits]
    show e = _
    omega
  · rw [if_neg hneg]
    refine Bounded.read_plus_of_allDigits (digits_ne_nil _) (allDigits_digits _) ?_
    rw [digitsValue_digits]
    show e = _
    omega

/-- The text of a decimal is that of its magnitude with a sign. -/
theorem text_eq (d : Decimal) :
    d.text = signed (decide (d.coefficient < 0))
      (magnitudeText d.coefficient.natAbs
        (if d.coefficient.natAbs = 0 then 0 else d.scale.val)) := by
  unfold text signed
  by_cases h : d.coefficient < 0 <;> simp [h]

theorem signedValue_natAbs (i : Int) : signedValue (decide (i < 0)) i.natAbs = i := by
  unfold signedValue
  by_cases h : i < 0
  · simp only [h, decide_true, if_true]
    omega
  · simp only [h, decide_false, Bool.false_eq_true, if_false]
    omega

theorem scale_bounds (d : Decimal) :
    -((Range.signed 64).below : Int) ≤ d.scale.val ∧
      d.scale.val < (Range.signed 64).below := by
  have hl := d.scale.lower
  have hu := d.scale.upper
  simp only [Range.signed] at hl hu ⊢
  omega

/-- The scientific layout is a spelling and an exponent, and they name the scale. -/
theorem read_scientific (negative : Bool) (n : Nat) {scale : Bounded (.signed 64)}
    (hscale : scale.val - (digits n).length > leadingZeroLimit) :
    read (signed negative (scientific (digits n) ((digits n).length - 1 - scale.val))) =
      .ok ⟨signedValue negative n, scale⟩ := by
  have hbounds := scale_bounds ⟨0, scale⟩
  have hlen := length_digits_pos n
  have hvalue := digitsValue_digits n
  have hds := allDigits_digits n
  unfold leadingZeroLimit at hscale
  simp only at hbounds
  obtain ⟨b, hb, hread⟩ := read_exponentText ((digits n).length - 1 - scale.val) (by omega)
  unfold scientific
  rw [signed_append]
  match hdigits : digits n with
  | [] => exact absurd hdigits (digits_ne_nil n)
  | [d] =>
    rw [hdigits] at hread hds hvalue hb
    have hpos : Positional [d] [d] 0 := .whole (by simp) hds
    rw [← hvalue]
    exact read_of_exponent hpos (by decide) hread (by simp at hb; omega)
  | d :: c :: rest =>
    rw [hdigits] at hread hds hvalue hb
    have hpos : Positional ([d] ++ '.' :: (c :: rest)) ([d] ++ c :: rest) (c :: rest).length :=
      .point (by simp) (by simp) hds
    rw [← hvalue]
    exact read_of_exponent hpos (by decide) hread (by simp at hb ⊢; omega)

/-- **The text of a decimal is read as the settled decimal.** -/
theorem read_text (d : Decimal) : read d.text = .ok d.settled := by
  have hbounds := scale_bounds d
  have hsign := signedValue_natAbs d.coefficient
  rw [text_eq, settled]
  by_cases hzero : d.coefficient = 0
  · rw [if_pos hzero, hzero]
    rfl
  rw [if_neg hzero, if_neg (by omega : ¬ d.coefficient.natAbs = 0)]
  have hnat : d.coefficient.natAbs ≠ 0 := by omega
  generalize decide (d.coefficient < 0) = negative at hsign
  unfold magnitudeText
  simp only
  split
  · -- scientific: the scale is positive, so nothing is settled
    rename_i hsci
    rw [read_scientific negative _ hsci, hsign, if_neg]
    unfold leadingZeroLimit at hsci
    omega
  split
  · -- a bare exponent stands for the zeros
    rename_i hexp
    unfold trailingZeroLimit at hexp
    obtain ⟨b, hb, hread⟩ := read_exponentText (-d.scale.val) (by omega)
    have hpos : Positional (digits d.coefficient.natAbs) _ 0 :=
      .whole (digits_ne_nil _) (allDigits_digits _)
    have htext : (if -d.scale.val < 0 then '-' else '+') :: digits (-d.scale.val).natAbs =
        '+' :: digits (-d.scale.val).toNat := by
      rw [if_neg (by omega)]
      congr 2
      omega
    rw [htext] at hread
    have hscale : d.scale.val = (0 : Nat) - b.val := by omega
    rw [signed_append, read_of_exponent hpos (by decide) hread hscale, digitsValue_digits, hsign,
      if_neg]
    unfold trailingZeroLimit
    omega
  split
  · -- zeros are filled in
    rename_i hexp hfill
    have hpos : Positional
        (digits d.coefficient.natAbs ++ List.replicate (-d.scale.val).toNat '0') _ 0 :=
      .whole (by simp [digits_ne_nil]) (allDigits_append.2 ⟨allDigits_digits _, allDigits_zeros _⟩)
    have hscale : noPlaces.val = (0 : Nat) := rfl
    rw [read_of_positional hpos hscale, digitsValue_append_zeros, digitsValue_digits,
      if_pos ⟨by omega, hfill⟩, signedValue_mul, hsign, Int.natCast_pow]
    rfl
  · -- the point stands among the digits
    rename_i hpoint
    have hplaces : 0 < d.scale.val.toNat := by omega
    have hscale : d.scale.val = d.scale.val.toNat := by omega
    obtain ⟨ds, hpos, hval⟩ := positional_fixedPoint d.coefficient.natAbs hplaces
    rw [read_of_positional hpos hscale, hval, hsign, if_neg]
    omega

theorem isDigit_or_of_mem_scientific {ds : List Char} (hds : AllDigits ds) {exponent : Int}
    {c : Char} (h : c ∈ scientific ds exponent) :
    c.isDigit = true ∨ c ∈ ['-', '+', '.', 'e', 'E'] := by
  unfold scientific at h
  rcases List.mem_append.1 h with h | h
  · match ds with
    | [] => simp at h
    | [d] => exact Or.inl (hds c h)
    | d :: e :: rest =>
      rcases List.mem_cons.1 h with rfl | h
      · exact Or.inl (hds c List.mem_cons_self)
      rcases List.mem_cons.1 h with rfl | h
      · simp
      · exact Or.inl (hds c (List.mem_cons_of_mem _ h))
  · rcases List.mem_cons.1 h with rfl | h
    · simp
    rcases List.mem_cons.1 h with rfl | h
    · split <;> simp
    · exact Or.inl (isDigit_of_mem_digits h)

/-- A decimal is written with digits, a sign, a point and an exponent. -/
theorem isDigit_or_of_mem_text {d : Decimal} {c : Char} (h : c ∈ d.text) :
    c.isDigit = true ∨ c ∈ ['-', '+', '.', 'e', 'E'] := by
  rw [text_eq] at h
  rcases mem_signed h with rfl | h
  · simp
  generalize (if d.coefficient.natAbs = 0 then 0 else d.scale.val) = scale at h
  generalize d.coefficient.natAbs = n at h
  have hdigit {m : Nat} (hm : c ∈ digits m) : c.isDigit = true ∨ c ∈ ['-', '+', '.', 'e', 'E'] :=
    Or.inl (isDigit_of_mem_digits hm)
  have hother (hc : c ∈ ['-', '+', '.', 'e', 'E']) :
      c.isDigit = true ∨ c ∈ ['-', '+', '.', 'e', 'E'] := Or.inr hc
  unfold magnitudeText at h
  simp only at h
  split at h
  · exact isDigit_or_of_mem_scientific (allDigits_digits n) h
  split at h
  · rcases List.mem_append.1 h with h | h
    · exact hdigit h
    rcases List.mem_cons.1 h with rfl | h
    · exact hother (by simp)
    rcases List.mem_cons.1 h with rfl | h
    · exact hother (by simp)
    · exact hdigit h
  split at h
  · rcases List.mem_append.1 h with h | h
    · exact hdigit h
    · exact Or.inl (allDigits_zeros _ c h)
  · obtain ⟨ds, hpos, -⟩ := positional_fixedPoint n (by omega : 0 < scale.toNat)
    rcases hpos.isDigit_or_eq h with h | rfl
    · exact Or.inl h
    · exact hother (by simp)

/-! ## 4. The text and the number stay the same -/

/-- A decimal with zeros filled in has the digits and the zeros as its text. -/
theorem magnitudeText_of_filled {n : Nat} {scale : Int} (h : -trailingZeroLimit ≤ scale)
    (h0 : scale ≤ 0) :
    magnitudeText n scale = digits n ++ List.replicate (-scale).toNat '0' := by
  unfold magnitudeText
  simp only
  rw [if_neg, if_neg (by omega), if_pos h0]
  unfold leadingZeroLimit
  omega

/-- **A settled decimal has the text of the decimal it was settled from.** -/
theorem text_settled (d : Decimal) : d.settled.text = d.text := by
  rw [settled]
  split
  · rename_i hzero
    rw [text_eq, text_eq, hzero]
    rfl
  split
  · rename_i hzero hfill
    obtain ⟨hlow, hhigh⟩ := hfill
    have hpow : (0 : Int) < 10 ^ (-d.scale.val).toNat := Int.pow_pos (by decide)
    have hneg : d.coefficient * 10 ^ (-d.scale.val).toNat < 0 ↔ d.coefficient < 0 :=
      ⟨fun h => Int.neg_of_mul_neg_left h hpow, fun h => Int.mul_neg_of_neg_of_pos h hpow⟩
    have habs : (d.coefficient * 10 ^ (-d.scale.val).toNat).natAbs =
        d.coefficient.natAbs * 10 ^ (-d.scale.val).toNat := by
      rw [Int.natAbs_mul, Int.natAbs_pow]
      rfl
    have hnat : d.coefficient.natAbs ≠ 0 := by omega
    have hne : d.coefficient.natAbs * 10 ^ (-d.scale.val).toNat ≠ 0 :=
      Nat.mul_ne_zero hnat (Nat.pos_iff_ne_zero.1 (Nat.pow_pos (by decide)))
    rw [text_eq, text_eq]
    simp only [hneg, habs, if_neg hne, if_neg hnat]
    rw [magnitudeText_of_filled hlow hhigh, magnitudeText_of_filled (by decide) (by decide),
      digits_mul_pow hnat]
    simp [noPlaces]
  · rfl

/-- **Settling changes no number.** -/
theorem same_settled (d : Decimal) : d.settled.same d = true := by
  rw [settled]
  split
  · rename_i hzero
    rw [same, compare_eq, hzero, Int.zero_mul, Int.zero_mul, Std.compare_self]
    rfl
  split
  · -- the zeros that were filled in are those that the scale has left out
    rename_i hfill
    have hup : (0 - d.scale.val).toNat = (-d.scale.val).toNat := by omega
    have hdown : (d.scale.val - 0).toNat = 0 := by omega
    rw [same, compare_eq]
    simp only [noPlaces, hup, hdown, Int.pow_zero, Int.mul_one, Std.compare_self]
    rfl
  · exact same_self d

end Decimal
end FrameworkAdmin
