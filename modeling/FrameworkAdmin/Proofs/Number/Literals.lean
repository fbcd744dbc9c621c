/-
# Which texts are integers

An integer is written as one digit or more, with a sign in front or without one (`IntegerLiteral`).  The
three readers of numbers that take integers agree on these texts and on no others.  Bounded integers
accept nothing else (`Bounded.read_eq_ok_iff`), provided the value is in range, and natural numbers have
no minus sign, not even before a zero.  The other two accept more, say underscores, a point or an
exponent; but a literal is the number that it looks like for them as well (`Integer.read_of_literal`,
`Decimal.read_of_literal`).
-/
import FrameworkAdmin.Proofs.Number.Decimals

namespace FrameworkAdmin

/-! ## 1. The texts -/

/-- One digit or more, with this value. -/
def Numeral (ds : List Char) (i : Int) : Prop := ds ≠ [] ∧ AllDigits ds ∧ (digitsValue ds : Int) = i

/-- A numeral with a sign or without one, and its value. -/
inductive IntegerLiteral : List Char → Int → Prop
  | bare {ds : List Char} {i : Int} (h : Numeral ds i) : IntegerLiteral ds i
  | plus {ds : List Char} {i : Int} (h : Numeral ds i) : IntegerLiteral ('+' :: ds) i
  | minus {ds : List Char} {i : Int} (h : Numeral ds i) : IntegerLiteral ('-' :: ds) (-i)

variable {cs ds : List Char} {i : Int}

/-- A numeral starts with no sign. -/
theorem Numeral.head_ne (h : Numeral ds i) {c : Char} (hc : c.isDigit = false) : ds.head? ≠ some c := by
  obtain ⟨d, ds, rfl, hd⟩ := exists_digit_cons h.1 h.2.1
  intro heq
  exact ne_of_isDigit hd hc (Option.some.inj heq)

/-- There are no other characters in it. -/
theorem Numeral.notMem (h : Numeral ds i) {c : Char} (hc : c.isDigit = false) : c ∉ ds := fun hmem =>
  ne_of_isDigit (h.2.1 c hmem) hc rfl

theorem IntegerLiteral.ne_nil (h : IntegerLiteral cs i) : cs ≠ [] := by
  cases h with
  | bare h => exact h.1
  | plus h => exact List.cons_ne_nil _ _
  | minus h => exact List.cons_ne_nil _ _

/-- There is nothing but digits and a sign. -/
theorem IntegerLiteral.isDigit_or (h : IntegerLiteral cs i) {c : Char} (hc : c ∈ cs) :
    c.isDigit = true ∨ c = '+' ∨ c = '-' := by
  cases h with
  | bare h => exact Or.inl (h.2.1 c hc)
  | plus h =>
    rcases List.mem_cons.1 hc with rfl | hc
    · exact Or.inr (Or.inl rfl)
    · exact Or.inl (h.2.1 c hc)
  | minus h =>
    rcases List.mem_cons.1 hc with rfl | hc
    · exact Or.inr (Or.inr rfl)
    · exact Or.inl (h.2.1 c hc)

/-- Other characters do not occur in it. -/
theorem IntegerLiteral.ne_of_mem (h : IntegerLiteral cs i) {c d : Char} (hc : c ∈ cs)
    (hd : d.isDigit = false) (hplus : d ≠ '+') (hminus : d ≠ '-') : c ≠ d := by
  rcases h.isDigit_or hc with hdigit | rfl | rfl
  · exact ne_of_isDigit hdigit hd
  · exact hplus.symm
  · exact hminus.symm

/-! ## 2. Bounded integers -/

namespace Bounded

variable {r : Range} {a : Bounded r}

/-- What has been added up is the value of digits. -/
theorem of_readUpTo {limit : Nat} {beyond : Misread} {n m : { n : Nat // n ≤ limit }}
    (h : readUpTo limit beyond n cs = .ok m) : AllDigits cs ∧ m.val = Nat.ofDigitChars 10 cs n := by
  induction cs generalizing n with
  | nil =>
    obtain rfl : n = m := Except.ok.inj h
    exact ⟨fun c hc => (List.not_mem_nil hc).elim, by simp⟩
  | cons c cs ih =>
    rw [readUpTo] at h
    split at h
    · rename_i hc
      split at h
      · obtain ⟨hcs, hval⟩ := ih h
        exact ⟨allDigits_cons.2 ⟨hc, hcs⟩, hval.trans Nat.ofDigitChars_cons.symm⟩
      · cases h
    · cases h

theorem numeral_of_readUpward (hne : cs ≠ []) (h : readUpward r cs = .ok a) : Numeral cs a.val := by
  rw [readUpward] at h
  split at h
  · rename_i n hn hread
    obtain ⟨hdigits, hval⟩ := of_readUpTo hread
    obtain rfl := Except.ok.inj h
    exact ⟨hne, hdigits, congrArg Int.ofNat hval.symm⟩
  · cases h

theorem numeral_of_readDownward (hne : cs ≠ []) (h : readDownward r cs = .ok a) :
    Numeral cs (-a.val) := by
  rw [readDownward] at h
  split at h
  · rename_i n hn hread
    obtain ⟨hdigits, hval⟩ := of_readUpTo hread
    obtain rfl := Except.ok.inj h
    exact ⟨hne, hdigits, by rw [Int.neg_neg]; exact congrArg Int.ofNat hval.symm⟩
  · cases h

theorem literal_of_read (h : read r cs = .ok a) :
    IntegerLiteral cs a.val ∧ (r.below = 0 → cs.head? ≠ some '-') := by
  unfold read at h
  split at h
  · cases h
  · split at h
    · cases h
    · rename_i hne
      exact ⟨.plus (numeral_of_readUpward (by simpa using hne) h), by simp⟩
  · split at h
    · cases h
    · rename_i hne
      simp only [Bool.or_eq_true, List.isEmpty_iff, beq_iff_eq, not_or] at hne
      have hliteral := IntegerLiteral.minus (numeral_of_readDownward hne.1 h)
      rw [Int.neg_neg] at hliteral
      exact ⟨hliteral, fun hbelow => absurd hbelow hne.2⟩
  · have hnumeral := numeral_of_readUpward (List.cons_ne_nil _ _) h
    exact ⟨.bare hnumeral, fun _ => hnumeral.head_ne (by decide)⟩

theorem read_of_literal (h : IntegerLiteral cs a.val) (hsign : r.below = 0 → cs.head? ≠ some '-') :
    read r cs = .ok a := by
  generalize hi : a.val = i at h
  cases h with
  | bare h => exact read_of_allDigits h.1 h.2.1 (hi.trans h.2.2.symm)
  | plus h => exact read_plus_of_allDigits h.1 h.2.1 (hi.trans h.2.2.symm)
  | minus h =>
    refine read_minus_of_allDigits h.1 h.2.1 (fun hbelow => hsign hbelow rfl) ?_
    rw [hi, h.2.2]

/-- **A bounded integer is read from its literals and from nothing else.**  Where the range has no
negative numbers there is no minus sign. -/
theorem read_eq_ok_iff : read r cs = .ok a ↔
    IntegerLiteral cs a.val ∧ (r.below = 0 → cs.head? ≠ some '-') :=
  ⟨literal_of_read, fun ⟨h, hsign⟩ => read_of_literal h hsign⟩

end Bounded

/-! ## 3. Numbers of any size -/

/-- A plus sign in front of digits changes nothing. -/
theorem Integer.read_plus_of_allDigits (hne : ds ≠ []) (h : AllDigits ds) :
    Integer.read ('+' :: ds) = .ok (digitsValue ds : Int) := by
  have hmag := readMagnitude_of_allDigits hne h
  obtain ⟨c, ds, rfl, hc⟩ := exists_digit_cons hne h
  have hplus : c ≠ '+' := ne_of_isDigit hc (by decide)
  have hunder : c ≠ '_' := ne_of_isDigit hc (by decide)
  have hsigned : readMagnitude ('+' :: c :: ds) = readMagnitude (c :: ds) := by
    unfold readMagnitude
    simp [hplus, hunder]
  unfold Integer.read
  split
  · simp_all
  · simp_all
  · rw [hsigned, hmag]
    rfl

/-- **A literal is the integer that it looks like**, however large. -/
theorem Integer.read_of_literal (h : IntegerLiteral cs i) : Integer.read cs = .ok i := by
  cases h with
  | bare h => exact (read_of_allDigits h.1 h.2.1).trans (congrArg Except.ok h.2.2)
  | plus h => exact (read_plus_of_allDigits h.1 h.2.1).trans (congrArg Except.ok h.2.2)
  | minus h =>
    exact (read_minus_of_allDigits h.1 h.2.1).trans (congrArg (fun i => Except.ok (-i)) h.2.2)

/-- **A literal is a decimal without places.** -/
theorem Decimal.read_of_literal (h : IntegerLiteral cs i) :
    Decimal.read cs = .ok ⟨i, Decimal.noPlaces⟩ := by
  have hmark : ∀ c ∈ cs, (c == 'e' || c == 'E') = false := fun c hc => by
    simp [h.ne_of_mem hc (d := 'e'), h.ne_of_mem hc (d := 'E')]
  have hpoint : ∀ c ∈ cs, (c == '.') = false := fun c hc => by
    simpa using h.ne_of_mem hc (by decide) (by decide) (by decide)
  have hunpoint : unpoint cs = (cs, 0) := by rw [unpoint, Text.cut_of_forall hpoint]
  rw [Decimal.read, Text.cut_of_forall hmark]
  simp only [readScaled, List.isEmpty_iff, h.ne_nil, if_false, hunpoint]
  rw [Integer.read_of_literal h]
  rfl

end FrameworkAdmin
