/-
# Floating-point numbers are read back from their text

The text of a float is the shortest decimal that rounds to it, and the reader rounds a decimal to
the nearest float.  So the text of `x` is read as `x` itself: not merely as an equal number, but as
the same datum, the sign of a zero included.  This is `Binary.read_text`, and it needs three things.

* **Rounding is about the fraction, not about its numerator and denominator** (`nearest_mul`), and it
  leaves the numbers of the format alone (`nearest_units`).  The second fact is why the search for
  short digits always has a last candidate, the exact expansion.
* **The search keeps what it is looking for** (`shorten_spec`): whatever number of digits it stops
  at, they round back, and they are at most one unit above the expansion cut at that place.
* **The reader computes what it would compute without its guard.**  The guard on the power of the
  leading digit is a matter of size only.  Upwards the expansion is bounded by `units_lt`; downwards
  a format must not reach deeper than the guard does, which is the hypothesis
  `f.depth ≤ 2 ^ f.exponentBits` and true of both formats.
-/
import FrameworkAdmin.Number.Binary.Literal
import FrameworkAdmin.Proofs.Number.Integers
import Mathlib.Data.List.Induction

namespace FrameworkAdmin

/-! ## 1. Rounding -/

namespace Format

/-- Only the fraction counts. -/
theorem divNearest_mul (a b : Nat) {k : Nat} (hk : 0 < k) :
    divNearest (a * k) (b * k) = divNearest a b := by
  have hlt : 2 * (a % b * k) < b * k ↔ 2 * (a % b) < b := by
    rw [← Nat.mul_assoc]
    exact Nat.mul_lt_mul_right hk
  have hgt : b * k < 2 * (a % b * k) ↔ b < 2 * (a % b) := by
    rw [← Nat.mul_assoc]
    exact Nat.mul_lt_mul_right hk
  unfold divNearest
  simp only [Nat.mul_div_mul_right a b hk, Nat.mul_mod_mul_right, hlt, hgt]

/-- A whole quotient is its own nearest integer. -/
theorem divNearest_of_mul (q : Nat) {b : Nat} (hb : 0 < b) : divNearest (q * b) b = q := by
  unfold divNearest
  simp only [Nat.mul_div_cancel q hb, Nat.mul_mod_left, Nat.mul_zero, if_pos hb]

/-- **Rounding is about the fraction.** -/
theorem nearest_mul (f : Format) (num den : Nat) {k : Nat} (hk : 0 < k) :
    f.nearest (num * k) (den * k) = f.nearest num den := by
  have hscaled : num * k * 2 ^ f.depth = num * 2 ^ f.depth * k := Nat.mul_right_comm ..
  have hden (s : Nat) : den * k * 2 ^ s = den * 2 ^ s * k := Nat.mul_right_comm ..
  unfold nearest
  simp only [hscaled, hden, Nat.mul_div_mul_right _ _ hk, divNearest_mul _ _ hk]

theorem nearest_zero (f : Format) (den : Nat) : f.nearest 0 den = 0 := by
  have hdiv (b : Nat) : divNearest 0 b = 0 := by
    unfold divNearest
    simp
  unfold nearest
  simp [hdiv]

/-- A magnitude as its fraction of the smallest number. -/
theorem nearest_units_aux (f : Format) (significand shift : Nat)
    (hlog : (significand * 2 ^ shift).log2 - f.trailing = shift) :
    f.nearest (significand * 2 ^ shift) (2 ^ f.depth) =
      min f.infinity (shift * 2 ^ f.trailing + significand) := by
  have hpos : 0 < 2 ^ f.depth := Nat.two_pow_pos _
  have hden : 0 < 2 ^ f.depth * 2 ^ shift := Nat.mul_pos hpos (Nat.two_pow_pos _)
  have hscaled : significand * 2 ^ shift * 2 ^ f.depth =
      significand * (2 ^ f.depth * 2 ^ shift) := by
    rw [Nat.mul_assoc, Nat.mul_comm (2 ^ shift)]
  unfold nearest
  simp only [Nat.mul_div_cancel _ hpos, hlog]
  rw [hscaled, divNearest_of_mul _ hden]

/-- **The numbers of a format are not rounded.** -/
theorem nearest_units (f : Format) {rank : Nat} (hrank : rank ≤ f.infinity) :
    f.nearest (f.units rank) (2 ^ f.depth) = rank := by
  have hsplit : 2 ^ f.trailing * (rank / 2 ^ f.trailing) + rank % 2 ^ f.trailing = rank :=
    Nat.div_add_mod ..
  have hfraction : rank % 2 ^ f.trailing < 2 ^ f.trailing := Nat.mod_lt _ (Nat.two_pow_pos _)
  unfold units
  simp only
  split
  · -- subnormal: the fraction is the rank
    rename_i hzero
    rw [hzero, Nat.mul_zero, Nat.zero_add] at hsplit
    have hlog : (rank % 2 ^ f.trailing * 2 ^ 0).log2 - f.trailing = 0 := by
      rw [Nat.pow_zero, Nat.mul_one]
      by_cases hnil : rank % 2 ^ f.trailing = 0
      · simp [hnil]
      · have := (Nat.log2_lt hnil).2 hfraction
        omega
    have h := nearest_units_aux f _ 0 hlog
    rw [Nat.pow_zero, Nat.mul_one, Nat.zero_mul, Nat.zero_add, hsplit] at h
    rw [hsplit, h, Nat.min_eq_right hrank]
  · -- normal: the leading digit stands `exponent - 1` places above the last
    rename_i hexponent
    obtain ⟨e, he⟩ := Nat.exists_eq_succ_of_ne_zero hexponent
    rw [he] at hsplit ⊢
    have hlog : ((2 ^ f.trailing + rank % 2 ^ f.trailing) * 2 ^ e).log2 = f.trailing + e := by
      have hlow : 2 ^ f.trailing * 2 ^ e ≤ (2 ^ f.trailing + rank % 2 ^ f.trailing) * 2 ^ e :=
        Nat.mul_le_mul_right _ (Nat.le_add_right _ _)
      have hhigh : (2 ^ f.trailing + rank % 2 ^ f.trailing) * 2 ^ e <
          (2 ^ f.trailing + 2 ^ f.trailing) * 2 ^ e :=
        Nat.mul_lt_mul_of_pos_right (Nat.add_lt_add_left hfraction _) (Nat.two_pow_pos _)
      have hne : (2 ^ f.trailing + rank % 2 ^ f.trailing) * 2 ^ e ≠ 0 :=
        Nat.ne_of_gt (Nat.lt_of_lt_of_le (Nat.mul_pos (Nat.two_pow_pos _) (Nat.two_pow_pos _)) hlow)
      refine (Nat.log2_eq_iff hne).2 ⟨?_, ?_⟩
      · rwa [Nat.pow_add]
      · rw [Nat.pow_succ, Nat.pow_add, Nat.mul_right_comm, Nat.mul_two]
        exact hhigh
    have h := nearest_units_aux f (2 ^ f.trailing + rank % 2 ^ f.trailing) e (by omega)
    have hsum : e * 2 ^ f.trailing + (2 ^ f.trailing + rank % 2 ^ f.trailing) = rank := by
      rw [Nat.succ_eq_add_one, Nat.mul_add, Nat.mul_one, Nat.mul_comm] at hsplit
      omega
    rw [hsum] at h
    rw [Nat.succ_eq_add_one, Nat.add_sub_cancel, h, Nat.min_eq_right hrank]

/-- **A bound on the finite numbers of a format**, as multiples of the smallest. -/
theorem units_lt (f : Format) {rank : Nat} (hrank : rank < f.infinity) :
    f.units rank < 2 ^ (f.trailing + (2 ^ f.exponentBits - 2)) := by
  have hfraction : rank % 2 ^ f.trailing < 2 ^ f.trailing := Nat.mod_lt _ (Nat.two_pow_pos _)
  have hexponent : rank / 2 ^ f.trailing < 2 ^ f.exponentBits - 1 :=
    (Nat.div_lt_iff_lt_mul (Nat.two_pow_pos _)).2 hrank
  unfold units
  simp only
  split
  · exact Nat.lt_of_lt_of_le hfraction (Nat.pow_le_pow_right (by decide) (Nat.le_add_right _ _))
  · rename_i hne
    generalize rank / 2 ^ f.trailing = exponent at hexponent hne
    calc (2 ^ f.trailing + rank % 2 ^ f.trailing) * 2 ^ (exponent - 1)
        < (2 ^ f.trailing + 2 ^ f.trailing) * 2 ^ (exponent - 1) :=
          Nat.mul_lt_mul_of_pos_right (Nat.add_lt_add_left hfraction _) (Nat.two_pow_pos _)
      _ = 2 ^ (f.trailing + 1 + (exponent - 1)) := by
          rw [← Nat.mul_two, ← Nat.pow_succ, ← Nat.pow_add]
      _ ≤ 2 ^ (f.trailing + (2 ^ f.exponentBits - 2)) :=
          Nat.pow_le_pow_right (by decide) (by omega)

end Format
namespace Binary

variable {f : Format}

/-! ## 2. The search for the shortest digits -/

/-- The exact expansion rounds back. -/
theorem readsBack_expansion {rank : Nat} (hrank : rank ≤ f.infinity) :
    readsBack f rank (expansion f rank) 0 = true := by
  have hten : 10 ^ f.depth = 2 ^ f.depth * 5 ^ f.depth := by
    rw [← Nat.mul_pow]
  unfold readsBack expansion
  rw [Nat.pow_zero, Nat.mul_one, hten, f.nearest_mul _ _ (Nat.pow_pos (by decide)),
    f.nearest_units hrank]
  exact beq_self_eq_true rank

/-- **What the search stops at rounds back**, drops no more digits than it may, and is at most one
unit above the expansion cut at that place. -/
theorem shorten_spec {rank m : Nat} (hm : readsBack f rank m 0 = true) (most : Nat) :
    readsBack f rank (shorten f rank m most).1 (shorten f rank m most).2 = true ∧
      (shorten f rank m most).2 ≤ most ∧
      (shorten f rank m most).1 ≤ m / 10 ^ (shorten f rank m most).2 + 1 := by
  induction most with
  | zero =>
    rw [shorten]
    exact ⟨hm, Nat.le_refl _, by simp⟩
  | succ dropped ih =>
    obtain ⟨hback, hle, hcut⟩ := ih
    -- whichever neighbour is tried first, both are at most one unit above the cut
    have htry : ∀ near far, near ≤ m / 10 ^ (dropped + 1) + 1 → far ≤ m / 10 ^ (dropped + 1) + 1 →
        ∀ r, r = (if readsBack f rank near (dropped + 1) then (near, dropped + 1)
          else if readsBack f rank far (dropped + 1) then (far, dropped + 1)
          else shorten f rank m dropped) →
        readsBack f rank r.1 r.2 = true ∧ r.2 ≤ dropped + 1 ∧ r.1 ≤ m / 10 ^ r.2 + 1 := by
      intro near far hnear hfar r hr
      split at hr
      · rw [hr]
        exact ⟨‹_›, Nat.le_refl _, hnear⟩
      split at hr
      · rw [hr]
        exact ⟨‹_›, Nat.le_refl _, hfar⟩
      · rw [hr]
        exact ⟨hback, Nat.le_succ_of_le hle, hcut⟩
    refine htry _ _ ?_ ?_ _ (shorten.eq_2 f rank m dropped)
    · split <;> omega
    · split <;> omega

/-- **The expansion of a finite number stays below the guard of the reader.** -/
theorem expansion_lt {rank : Nat} (hrank : rank < f.infinity) :
    expansion f rank < 10 ^ (f.depth + 2 ^ f.exponentBits - 1) := by
  have hone : 1 ≤ 2 ^ f.exponentBits := Nat.one_le_two_pow
  have hdepth : f.trailing ≤ f.depth := Nat.le_add_left _ _
  calc expansion f rank
      < 2 ^ (f.trailing + (2 ^ f.exponentBits - 2)) * 5 ^ f.depth :=
        Nat.mul_lt_mul_of_pos_right (f.units_lt hrank) (Nat.pow_pos (by decide))
    _ ≤ 2 ^ (f.depth + 2 ^ f.exponentBits - 1) * 5 ^ (f.depth + 2 ^ f.exponentBits - 1) :=
        Nat.mul_le_mul (Nat.pow_le_pow_right (by decide) (by omega))
          (Nat.pow_le_pow_right (by decide) (by omega))
    _ = 10 ^ (f.depth + 2 ^ f.exponentBits - 1) := by rw [← Nat.mul_pow]

/-- What is known of the shortest digits of a positive finite number. -/
theorem shortest_spec {rank : Nat} (hpos : 0 < rank) (hrank : rank < f.infinity) :
    f.nearest ((shortest f rank).1 * 10 ^ (shortest f rank).2) (10 ^ f.depth) = rank ∧
      (shortest f rank).1 ≠ 0 ∧
      (digits (shortest f rank).1).length + (shortest f rank).2 ≤
        f.depth + 2 ^ f.exponentBits := by
  have hexp := expansion_lt hrank
  have htwo : 2 ≤ 2 ^ f.exponentBits := by
    have hfinite : 0 < (2 ^ f.exponentBits - 1) * 2 ^ f.trailing := Nat.lt_of_le_of_lt (Nat.zero_le _) hrank
    have := Nat.pos_of_mul_pos_right hfinite
    omega
  obtain ⟨hback, hdropped, hcut⟩ := shorten_spec (readsBack_expansion (Nat.le_of_lt hrank))
    ((digits (expansion f rank)).length - 1)
  change readsBack f rank (shortest f rank).1 (shortest f rank).2 = true at hback
  change (shortest f rank).2 ≤ _ at hdropped
  change (shortest f rank).1 ≤ _ / 10 ^ (shortest f rank).2 + 1 at hcut
  generalize (shortest f rank).1 = c at *
  generalize (shortest f rank).2 = dropped at *
  have hnearest : f.nearest (c * 10 ^ dropped) (10 ^ f.depth) = rank := eq_of_beq hback
  refine ⟨hnearest, ?_, ?_⟩
  · rintro rfl
    rw [Nat.zero_mul, f.nearest_zero] at hnearest
    omega
  · generalize hbound : f.depth + 2 ^ f.exponentBits = bound at *
    have hlen : (digits (expansion f rank)).length ≤ bound - 1 :=
      (length_digits_le_iff (by omega)).2 hexp
    have hlenpos := length_digits_pos (expansion f rank)
    have hdiv : expansion f rank / 10 ^ dropped < 10 ^ (bound - 1 - dropped) := by
      rw [Nat.div_lt_iff_lt_mul (Nat.pow_pos (by decide)), ← Nat.pow_add]
      rwa [Nat.sub_add_cancel (by omega)]
    have hc : c < 10 ^ (bound - dropped) := by
      have hstep : bound - dropped = bound - 1 - dropped + 1 := by omega
      rw [hstep, Nat.pow_succ]
      generalize expansion f rank / 10 ^ dropped = cut at hcut hdiv
      omega
    have := (length_digits_le_iff (by omega)).2 hc
    omega

/-! ## 3. Reading digits with a point -/

/-- A run of digits is taken whole when no digit follows it. -/
theorem takeWhile_digits {ds : List Char} (h : AllDigits ds) (rest : List Char)
    (hrest : ∀ c ∈ rest.head?, c.isDigit = false) :
    (ds ++ rest).takeWhile Char.isDigit = ds ∧ (ds ++ rest).dropWhile Char.isDigit = rest := by
  rw [List.takeWhile_append_of_pos h, List.dropWhile_append_of_pos h]
  cases rest with
  | nil => simp
  | cons c cs =>
    have hc : c.isDigit = false := hrest c rfl
    simp [hc]

/-- Digits with a point are a literal whose exponent counts the places. -/
theorem readLiteral_of_positional {base ds : List Char} {places : Nat}
    (h : Positional base ds places) :
    readLiteral base = some (digitsValue ds, -(places : Int)) := by
  cases h with
  | whole hne h =>
    obtain ⟨htake, hdrop⟩ := takeWhile_digits h [] (by simp)
    rw [List.append_nil] at htake hdrop
    simp [readLiteral, htake, hdrop, readFraction, hne]
  | @point whole fraction hw _ h =>
    obtain ⟨hwhole, hfraction⟩ := allDigits_append.1 h
    obtain ⟨htake, hdrop⟩ := takeWhile_digits hwhole ('.' :: fraction) (by simp)
    obtain ⟨htake', hdrop'⟩ := takeWhile_digits hfraction [] (by simp)
    rw [List.append_nil] at htake' hdrop'
    simp [readLiteral, htake, hdrop, readFraction, htake', hdrop', hw]

/-- Within the guard the rank is the nearest one. -/
theorem rankOf_eq_nearest {significand places : Nat} (hne : significand ≠ 0)
    (hup : (digits significand).length ≤ 2 ^ f.exponentBits + places)
    (hdown : places ≤ (digits significand).length + 2 ^ f.exponentBits) :
    rankOf f significand (-(places : Int)) = f.nearest significand (10 ^ places) := by
  have hreach : reach f = (2 ^ f.exponentBits : Nat) := by
    unfold reach
    simp
  unfold rankOf leadingPower
  rw [if_neg hne, if_neg (by omega), if_neg (by omega)]
  have hpos : (-(places : Int)).toNat = 0 := by omega
  have hneg : (-(-(places : Int))).toNat = places := by omega
  rw [hpos, hneg, Nat.pow_zero, Nat.mul_one]

/-! ## 4. The text of a number -/

/-- A run is what is left of it without the zeros at its end, and those zeros. -/
theorem exists_append_zeros (ds : List Char) :
    ∃ kept k, ds = kept ++ List.replicate k '0' ∧
      ds.reverse.dropWhile (· == '0') = kept.reverse := by
  induction ds using List.reverseRecOn with
  | nil => exact ⟨[], 0, rfl, rfl⟩
  | append_singleton ds c ih =>
    by_cases hc : c = '0'
    · obtain ⟨kept, k, hds, hdrop⟩ := ih
      refine ⟨kept, k + 1, ?_, ?_⟩
      · rw [hds, hc, List.append_assoc, ← List.replicate_succ']
      · simpa [hc] using hdrop
    · exact ⟨ds ++ [c], 0, by simp, by simp [hc]⟩

/-- **Trimming takes zeros off the end of the run**, and the point with them if nothing is left
behind it. -/
theorem positional_trimFraction {base ds : List Char} {places : Nat}
    (h : Positional base ds places) (hplaces : 0 < places) :
    ∃ kept left k, Positional (trimFraction base) kept left ∧
      ds = kept ++ List.replicate k '0' ∧ places = left + k := by
  cases h with
  | whole _ _ => exact absurd hplaces (Nat.lt_irrefl 0)
  | @point whole fraction hw _ h =>
    obtain ⟨kept, k, hkept, hdrop⟩ := exists_append_zeros fraction
    have hreverse : (whole ++ '.' :: fraction).reverse =
        fraction.reverse ++ '.' :: whole.reverse := by simp
    have hlen : fraction.length = kept.length + k := by
      rw [hkept, List.length_append, List.length_replicate]
    rw [hkept, ← List.append_assoc, allDigits_append] at h
    unfold trimFraction
    rw [hreverse, List.dropWhile_append, hdrop]
    cases hlast : kept.reverse with
    | nil =>
      obtain rfl : kept = [] := List.reverse_eq_nil_iff.1 hlast
      refine ⟨whole, 0, k, ?_, by simp [hkept], by simpa using hlen⟩
      have hwhole : Positional whole whole 0 := .whole hw (by simpa using h.1)
      simpa using hwhole
    | cons c cs =>
      have hkeptne : kept ≠ [] := by
        rintro rfl
        simp at hlast
      have hmem : c ∈ kept := List.mem_reverse.1 (hlast ▸ List.mem_cons_self)
      have hc : c ≠ '.' := ne_of_isDigit (h.1 c (List.mem_append_right _ hmem)) (by decide)
      have htext : ((c :: cs) ++ '.' :: whole.reverse).reverse = whole ++ '.' :: kept := by
        rw [← hlast]
        simp
      refine ⟨whole ++ kept, kept.length, k, ?_, by rw [hkept, List.append_assoc], hlen⟩
      have hpos : Positional (whole ++ '.' :: kept) (whole ++ kept) kept.length :=
        .point hw hkeptne h.1
      rw [← htext] at hpos
      simpa [hc] using hpos

/-- **The text of a positive finite number is digits with a point whose nearest rank it is.** -/
theorem positional_magnitudeText {rank : Nat} (hpos : 0 < rank) (hrank : rank < f.infinity)
    (hf : f.depth ≤ 2 ^ f.exponentBits) :
    ∃ ds places, Positional (magnitudeText f rank) ds places ∧
      rankOf f (digitsValue ds) (-(places : Int)) = rank := by
  obtain ⟨hnearest, hc, hlen⟩ := shortest_spec hpos hrank
  have hlenpos := length_digits_pos (shortest f rank).1
  unfold magnitudeText
  rw [if_neg (Nat.ne_of_gt hpos)]
  simp only
  generalize (shortest f rank).1 = c at *
  generalize (shortest f rank).2 = dropped at *
  split
  · -- all digits stand before the point
    rename_i hle
    have hne : c * 10 ^ (dropped - f.depth) ≠ 0 :=
      Nat.mul_ne_zero hc (Nat.ne_of_gt (Nat.pow_pos (by decide)))
    have hscale : c * 10 ^ (dropped - f.depth) * 10 ^ f.depth = c * 10 ^ dropped := by
      rw [Nat.mul_assoc, ← Nat.pow_add, Nat.sub_add_cancel hle]
    refine ⟨_, 0, .whole (by simp [digits_ne_nil])
      (allDigits_append.2 ⟨allDigits_digits c, allDigits_zeros (dropped - f.depth)⟩), ?_⟩
    rw [digitsValue_append_zeros, digitsValue_digits, rankOf_eq_nearest hne]
    · rw [← f.nearest_mul _ _ (Nat.pow_pos (by decide : 0 < 10)), hscale, Nat.pow_zero,
        Nat.one_mul, hnearest]
    · rw [length_digits_mul_pow hc]
      omega
    · omega
  · -- the point stands among the digits, or before them
    rename_i hlt
    obtain ⟨ds, hfixed, hvalue⟩ := positional_fixedPoint c (by omega : 0 < f.depth - dropped)
    obtain ⟨kept, left, k, htrim, hds, hplaces⟩ :=
      positional_trimFraction hfixed (by omega)
    have hkept : digitsValue kept * 10 ^ k = c := by
      rw [← digitsValue_append_zeros, ← hds, hvalue]
    have hne : digitsValue kept ≠ 0 := by
      intro hzero
      rw [hzero, Nat.zero_mul] at hkept
      exact hc hkept.symm
    have hlength : (digits c).length = (digits (digitsValue kept)).length + k := by
      rw [← hkept, length_digits_mul_pow hne]
    refine ⟨kept, left, htrim, ?_⟩
    rw [rankOf_eq_nearest hne (by omega) (by omega),
      ← f.nearest_mul _ _ (Nat.pow_pos (by decide : 0 < 10))]
    have hnum : digitsValue kept * 10 ^ (k + dropped) = c * 10 ^ dropped := by
      rw [Nat.pow_add, ← Nat.mul_assoc, hkept]
    have hden : 10 ^ left * 10 ^ (k + dropped) = 10 ^ f.depth := by
      rw [← Nat.pow_add]
      congr 1
      omega
    rw [hnum, hden, hnearest]

/-! ## 5. Reading back -/

theorem ofRank_val (negative : Bool) (rank : Fin (f.infinity + 1)) :
    ofRank f negative rank.val = .signed negative rank := by
  have hle : rank.val ≤ f.infinity := Nat.le_of_lt_succ rank.isLt
  simp [ofRank, Nat.min_eq_right hle]

/-- The text of a magnitude is read as that magnitude with the sign that was seen. -/
theorem readUnsigned_body (hf : f.depth ≤ 2 ^ f.exponentBits) (negative : Bool)
    (rank : Fin (f.infinity + 1)) :
    readUnsigned f negative
        (if rank.val = f.infinity then ['i', 'n', 'f'] else magnitudeText f rank.val) =
      .ok (.signed negative rank) := by
  rw [← ofRank_val]
  split
  · rename_i hinf
    rw [hinf]
    rfl
  rename_i hfinite
  have hlt : rank.val < f.infinity := Nat.lt_of_le_of_ne (Nat.le_of_lt_succ rank.isLt) hfinite
  unfold readUnsigned
  by_cases hzero : rank.val = 0
  · rw [hzero]
    rfl
  · obtain ⟨ds, places, hpos, hrank⟩ :=
      positional_magnitudeText (Nat.pos_of_ne_zero hzero) hlt hf
    rw [readLiteral_of_positional hpos]
    simp only [hrank]

/-- A magnitude is written with a digit or a letter in front, and with no sign. -/
theorem exists_body_cons (hf : f.depth ≤ 2 ^ f.exponentBits) (rank : Fin (f.infinity + 1)) :
    ∃ c cs, (if rank.val = f.infinity then ['i', 'n', 'f'] else magnitudeText f rank.val) =
      c :: cs ∧ c ≠ '+' ∧ c ≠ '-' := by
  split
  · exact ⟨'i', ['n', 'f'], rfl, by decide, by decide⟩
  rename_i hfinite
  have hlt : rank.val < f.infinity := Nat.lt_of_le_of_ne (Nat.le_of_lt_succ rank.isLt) hfinite
  by_cases hzero : rank.val = 0
  · rw [hzero]
    exact ⟨'0', [], rfl, by decide, by decide⟩
  · obtain ⟨ds, places, hpos, -⟩ :=
      positional_magnitudeText (Nat.pos_of_ne_zero hzero) hlt hf
    obtain ⟨c, cs, hcs, hc⟩ := hpos.exists_digit_cons
    exact ⟨c, cs, hcs, ne_of_isDigit hc (by decide), ne_of_isDigit hc (by decide)⟩

/-- A float is written with digits, a sign, a point and the letters of three names. -/
theorem isDigit_or_of_mem_text (hf : f.depth ≤ 2 ^ f.exponentBits) {x : Binary f} {c : Char}
    (h : c ∈ x.text) : c.isDigit = true ∨ c ∈ ['-', '.', 'i', 'n', 'f', 'N', 'a'] := by
  cases x with
  | nan =>
    right
    revert h
    simp only [text, List.mem_cons, List.not_mem_nil, or_false]
    rintro (rfl | rfl | rfl) <;> simp
  | signed negative rank =>
    have hbody : c = '-' ∨
        c ∈ (if rank.val = f.infinity then ['i', 'n', 'f'] else magnitudeText f rank.val) := by
      unfold text at h
      cases negative with
      | true => exact List.mem_cons.1 h
      | false => exact Or.inr h
    rcases hbody with rfl | hbody
    · simp
    split at hbody
    · right
      simp only [List.mem_cons, List.not_mem_nil, or_false] at hbody ⊢
      rcases hbody with rfl | rfl | rfl <;> simp
    · rename_i hfinite
      have hlt : rank.val < f.infinity :=
        Nat.lt_of_le_of_ne (Nat.le_of_lt_succ rank.isLt) hfinite
      by_cases hzero : rank.val = 0
      · rw [hzero] at hbody
        obtain rfl := List.mem_singleton.1 hbody
        exact Or.inl (by decide)
      · obtain ⟨ds, places, hpos, -⟩ :=
          positional_magnitudeText (Nat.pos_of_ne_zero hzero) hlt hf
        rcases hpos.isDigit_or_eq hbody with hc | rfl
        · exact Or.inl hc
        · simp

/-- The sign stands in front of the magnitude, and no magnitude is mistaken for one. -/
theorem read_signed_text (hf : f.depth ≤ 2 ^ f.exponentBits) (g : Format) (negative : Bool)
    (rank : Fin (f.infinity + 1)) :
    read g (text (.signed negative rank)) = readUnsigned g negative
      (if rank.val = f.infinity then ['i', 'n', 'f'] else magnitudeText f rank.val) := by
  obtain ⟨c, cs, hbody, hplus, hminus⟩ := exists_body_cons hf rank
  unfold text
  simp only [hbody]
  cases negative with
  | true => rfl
  | false =>
    rw [if_neg Bool.false_ne_true]
    unfold read
    split
    · simp_all
    · simp_all
    · simp_all
    · rfl

/-- **A float is read back from its text**, as the same datum: the sign of a zero is kept, and a NaN
is read as a NaN. -/
theorem read_text (hf : f.depth ≤ 2 ^ f.exponentBits) (x : Binary f) : read f x.text = .ok x := by
  cases x with
  | nan => rfl
  | signed negative rank => rw [read_signed_text hf, readUnsigned_body hf]

/-- Every format can read the text of a number, and reads a number, perhaps another one. -/
theorem exists_read_text (hf : f.depth ≤ 2 ^ f.exponentBits) (g : Format) {x : Binary f}
    (hx : x.isNaN = false) : ∃ y, read g x.text = .ok y ∧ y.isNaN = false := by
  cases x with
  | nan => cases hx
  | signed negative rank =>
    rw [read_signed_text hf]
    split
    · exact ⟨ofRank g negative g.infinity, rfl, rfl⟩
    rename_i hfinite
    have hlt : rank.val < f.infinity := Nat.lt_of_le_of_ne (Nat.le_of_lt_succ rank.isLt) hfinite
    unfold readUnsigned
    by_cases hzero : rank.val = 0
    · rw [hzero]
      exact ⟨_, rfl, rfl⟩
    · obtain ⟨ds, places, hpos, -⟩ :=
        positional_magnitudeText (Nat.pos_of_ne_zero hzero) hlt hf
      rw [readLiteral_of_positional hpos]
      exact ⟨_, rfl, rfl⟩

end Binary
end FrameworkAdmin
