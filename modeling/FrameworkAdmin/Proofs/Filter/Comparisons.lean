/-
# The four operators agree with each other

An item compares a scalar with a text by one of four signs, and each sign is tested on its own: two kinds
leave the common path for `~=`, and a boolean has no order at all.  What ties the signs together is stated
here for every scalar and every text:

* what `=` accepts `~=` accepts, and `=` is `>=` and `<=` at once;
* a text that can be read at the type of the comparison (`ScalarKind.Comparable`) lies on one side of the
  scalar, so that `>=` or `<=` accepts it; one that cannot be read is accepted by no sign.  Booleans, which
  have no sides, are the exception to the first half, and NaNs, which no text equals;
* `~=` sees neither blanks nor the case of letters in a string (`Respelled`);
* what counts of an integer is the number, not the kind that holds it: between the bounded kinds this is so
  for every text, and for a literal of 64 bits the kinds without bounds and the decimals join them, all
  with the answer of arithmetic (`satisfies_iff_relates`).

All but the third come down to `Scalar.order?`: which texts it has an order for (`isSome_order?_iff`), and
that for an integer this is the order of the numbers.
-/
import FrameworkAdmin.Filter.Matching
import FrameworkAdmin.Proofs.Filter.Attributes
import FrameworkAdmin.Proofs.Number.DecimalOrder
import FrameworkAdmin.Proofs.Number.Literals

namespace FrameworkAdmin

/-- The relation between numbers that the sign stands for. -/
def Comparison.Relates : Comparison → Int → Int → Prop
  | .equal, i, j => i = j
  | .approximate, i, j => i = j
  | .atLeast, i, j => j ≤ i
  | .atMost, i, j => i ≤ j

theorem Comparison.accepts_compare_iff {op : Comparison} {i j : Int} :
    op.accepts (Ord.compare i j) = true ↔ op.Relates i j := by
  rcases Int.lt_trichotomy i j with h | rfl | h
  · rw [Int.compare_eq_lt.2 h]
    cases op <;> simp [accepts, Relates] <;> omega
  · rw [Std.compare_self]
    cases op <;> simp [accepts, Relates]
  · rw [Int.compare_eq_gt.2 h]
    cases op <;> simp [accepts, Relates] <;> omega

/-- The text can be read at the type that scalars of this kind are compared at, and not as a NaN. -/
def ScalarKind.Comparable (k : ScalarKind) (text : String) : Prop :=
  let trimmed := Text.trim text.toList
  match k with
  | .string => True
  | .integer => ∃ n, Bounded.read (.signed 64) trimmed = .ok n
  | .long => ∃ n, Bounded.read (.signed 64) trimmed = .ok n
  | .float => ∃ y, Binary.read .double trimmed = .ok y ∧ y.isNaN = false
  | .double => ∃ y, Binary.read .double trimmed = .ok y ∧ y.isNaN = false
  | .byte => ∃ n, Bounded.read (.signed 64) trimmed = .ok n
  | .short => ∃ n, Bounded.read (.signed 64) trimmed = .ok n
  | .character => ∃ c, trimmed = [c]
  | .boolean => True
  | .bigDecimal => ∃ d, Decimal.read trimmed = .ok d
  | .bigInteger => ∃ i, Integer.read trimmed = .ok i

/-- A float is a NaN in every format or in none. -/
theorem Binary.isNaN_convert {f : Format} (g : Format) (x : Binary f) : (x.convert g).isNaN = x.isNaN := by
  cases x with
  | nan => rfl
  | signed negative rank =>
    unfold Binary.convert
    dsimp only
    split <;> rfl

namespace Scalar

variable {s t : Scalar} {op : Comparison} {text : String}

/-! ## 1. The order behind the signs -/

/-- The signs read off one order, but `~=` treats strings and characters apart. -/
theorem satisfies_eq (h : op = .approximate → s.kind ≠ .string ∧ s.kind ≠ .character) :
    s.satisfies op text = (s.order? text).any op.accepts := by
  unfold satisfies
  split
  · exact absurd rfl (h rfl).1
  · exact absurd rfl (h rfl).2
  · cases s.order? text <;> rfl

theorem satisfies_equal_iff : s.satisfies .equal text = true ↔ s.order? text = some .eq := by
  rw [satisfies_eq (by simp)]
  rcases s.order? text with _ | _ | _ | _ <;> simp [Comparison.accepts]

theorem satisfies_atLeast_iff :
    s.satisfies .atLeast text = true ↔ s.order? text = some .eq ∨ s.order? text = some .gt := by
  rw [satisfies_eq (by simp)]
  rcases s.order? text with _ | _ | _ | _ <;> simp [Comparison.accepts]

theorem satisfies_atMost_iff :
    s.satisfies .atMost text = true ↔ s.order? text = some .eq ∨ s.order? text = some .lt := by
  rw [satisfies_eq (by simp)]
  rcases s.order? text with _ | _ | _ | _ <;> simp [Comparison.accepts]

/-- **What equals is approximately equal.** -/
theorem approximate_of_equal (h : s.satisfies .equal text = true) :
    s.satisfies .approximate text = true := by
  -- strings and characters leave the common path for `~=`, the other kinds compare orders
  by_cases hs : s.kind = .string
  · obtain ⟨k, a⟩ := s
    obtain rfl : k = .string := hs
    have hcompare : compare a text = .eq := Option.some.inj (satisfies_equal_iff.1 h)
    obtain rfl : a = text := Std.LawfulEqCmp.eq_of_compare hcompare
    exact beq_self_eq_true _
  by_cases hc : s.kind = .character
  · obtain ⟨k, c⟩ := s
    obtain rfl : k = .character := hc
    have horder := satisfies_equal_iff.1 h
    simp only [order?, satisfies] at horder ⊢
    split at horder
    · rename_i d htrim
      obtain rfl : c = d := Std.LawfulEqCmp.eq_of_compare (Option.some.inj horder)
      exact beq_self_eq_true _
    · cases horder
  rw [satisfies_eq fun _ => ⟨hs, hc⟩, satisfies_equal_iff.1 h]
  rfl

/-- **Equality is the two inequalities at once.** -/
theorem equal_iff_atLeast_and_atMost : s.satisfies .equal text = true ↔
    s.satisfies .atLeast text = true ∧ s.satisfies .atMost text = true := by
  rw [satisfies_equal_iff, satisfies_atLeast_iff, satisfies_atMost_iff]
  rcases s.order? text with _ | _ | _ | _ <;> simp

/-! ## 2. Texts that can be read -/

theorem isSome_orderInteger?_iff {i : Int} {cs : List Char} :
    (orderInteger? i cs).isSome = true ↔ ∃ n, Bounded.read (.signed 64) cs = .ok n := by
  unfold orderInteger?
  cases Bounded.read (.signed 64) cs <;> simp

theorem isSome_orderFloat?_iff {x : Binary .double} {cs : List Char} :
    (orderFloat? x cs).isSome = true ↔
      x.isNaN = false ∧ ∃ y, Binary.read .double cs = .ok y ∧ y.isNaN = false := by
  unfold orderFloat?
  cases Binary.read .double cs with
  | error e => simp
  | ok y => cases x <;> cases y <;> simp [Binary.compare?, Binary.isNaN]

/-- **A scalar has an order to exactly the texts that can be read**, if it is no NaN. -/
theorem isSome_order?_iff (hs : s.kind ≠ .boolean) :
    (s.order? text).isSome = true ↔ s.isNaN = false ∧ s.kind.Comparable text := by
  obtain ⟨k, a⟩ := s
  cases k with
  | string => simp [order?, isNaN, ScalarKind.Comparable]
  | integer | long | byte | short =>
    simp [order?, isNaN, ScalarKind.Comparable, isSome_orderInteger?_iff]
  | float => simp [order?, isNaN, ScalarKind.Comparable, isSome_orderFloat?_iff, Binary.isNaN_convert]
  | double => simp [order?, isNaN, ScalarKind.Comparable, isSome_orderFloat?_iff]
  | character =>
    simp only [order?, isNaN, ScalarKind.Comparable, true_and]
    split
    · rename_i d htrim
      simp [htrim]
    · rename_i hnot
      simpa using hnot
  | boolean => exact absurd rfl hs
  | bigDecimal =>
    simp only [order?, isNaN, ScalarKind.Comparable, true_and]
    cases Decimal.read (Text.trim text.toList) <;> simp
  | bigInteger =>
    simp only [order?, isNaN, ScalarKind.Comparable, true_and]
    cases Integer.read (Text.trim text.toList) <;> simp

/-- **A text that can be read lies on one side of the scalar.** -/
theorem atLeast_or_atMost (hs : s.kind ≠ .boolean) (hnan : s.isNaN = false)
    (h : s.kind.Comparable text) :
    s.satisfies .atLeast text = true ∨ s.satisfies .atMost text = true := by
  have hsome := (isSome_order?_iff hs).2 ⟨hnan, h⟩
  rw [satisfies_atLeast_iff, satisfies_atMost_iff]
  rcases horder : s.order? text with _ | _ | _ | _
  · rw [horder] at hsome
    cases hsome
  · exact Or.inr (Or.inr rfl)
  · exact Or.inl (Or.inl rfl)
  · exact Or.inl (Or.inr rfl)

/-- Whatever the sign, nothing is accepted without an order. -/
theorem isSome_order?_of_satisfies (h : s.satisfies op text = true) :
    (s.order? text).isSome = true := by
  unfold satisfies at h
  split at h
  · rfl
  · split at h
    · rename_i d htrim
      simp only [order?, htrim]
      rfl
    · cases h
  · cases horder : s.order? text with
    | none =>
      rw [horder] at h
      cases h
    | some o => rfl

/-- **No sign accepts a text that cannot be read.** -/
theorem satisfies_of_not_comparable (hs : s.kind ≠ .boolean) (h : ¬s.kind.Comparable text) :
    s.satisfies op text = false := by
  rw [← Bool.not_eq_true]
  intro haccepted
  exact h ((isSome_order?_iff hs).1 (isSome_order?_of_satisfies haccepted)).2

end Scalar

/-! ## 3. Spelling -/

namespace Text

/-- One text becomes the other when blanks are put in or taken out and letters of ASCII change their case. -/
inductive Respelled : List Char → List Char → Prop
  | nil : Respelled [] []
  | insert {c : Char} {cs ds : List Char} (hc : isBlank c = true) (h : Respelled cs ds) :
      Respelled cs (c :: ds)
  | remove {c : Char} {cs ds : List Char} (hc : isBlank c = true) (h : Respelled cs ds) :
      Respelled (c :: cs) ds
  | letter {c d : Char} {cs ds : List Char} (hc : c.toLower = d.toLower) (h : Respelled cs ds) :
      Respelled (c :: cs) (d :: ds)

/-- What holds of the capital letters of ASCII and of every character that is small already holds of all. -/
theorem forall_of_capitals {P : Char → Prop} (hcapital : ∀ n, 65 ≤ n → n < 91 → P (Char.ofNat n))
    (hother : ∀ c : Char, c.toLower = c → P c) (c : Char) : P c := by
  by_cases hc : 65 ≤ c.toNat ∧ c.toNat < 91
  · have h := hcapital c.toNat hc.1 hc.2
    rwa [Char.ofNat_toNat] at h
  · exact hother c (toLower_eq_self (by omega))

theorem isBlank_toLower (c : Char) : isBlank c.toLower = isBlank c :=
  forall_of_capitals (P := fun c => isBlank c.toLower = isBlank c) (by decide)
    (fun _ h => congrArg isBlank h) c

theorem lowerCase_toLower (c : Char) : lowerCase c.toLower = lowerCase c :=
  forall_of_capitals (P := fun c => lowerCase c.toLower = lowerCase c) (by decide)
    (fun _ h => congrArg lowerCase h) c

end Text

namespace Scalar

variable {s t : Scalar} {op : Comparison} {text : String}

/-- What a character contributes to the normal form of a string. -/
theorem normalize_eq (a : String) :
    normalize a = a.toList.flatMap fun c => if Text.isBlank c then [] else Text.lowerCase c := by
  unfold normalize
  induction a.toList with
  | nil => rfl
  | cons c cs ih =>
    rw [List.flatMap_cons, ← ih]
    cases hc : Text.isBlank c <;> simp [hc]

/-- **Spelling does not reach the normal form.** -/
theorem normalize_congr {a b : String} (h : Text.Respelled a.toList b.toList) :
    normalize a = normalize b := by
  rw [normalize_eq, normalize_eq]
  generalize a.toList = cs at h
  generalize b.toList = ds at h
  induction h with
  | nil => rfl
  | insert hc _ ih => rw [List.flatMap_cons, if_pos hc, List.nil_append, ih]
  | remove hc _ ih => rw [List.flatMap_cons, if_pos hc, List.nil_append, ih]
  | @letter c d _ _ hc _ ih =>
    have hblank : Text.isBlank c = Text.isBlank d := by
      rw [← Text.isBlank_toLower c, hc, Text.isBlank_toLower]
    have hlower : Text.lowerCase c = Text.lowerCase d := by
      rw [← Text.lowerCase_toLower c, hc, Text.lowerCase_toLower]
    rw [List.flatMap_cons, List.flatMap_cons, hblank, hlower, ih]

/-! ## 4. Integers of all kinds -/

/-- The number that a scalar of a bounded integer kind holds. -/
def bounded? : Scalar → Option Int
  | ⟨.byte, n⟩ => some n.val
  | ⟨.short, n⟩ => some n.val
  | ⟨.integer, n⟩ => some n.val
  | ⟨.long, n⟩ => some n.val
  | _ => none

/-- The scalar is this integer, whatever kind it has and, if it is a decimal, whatever scale. -/
def Holds (s : Scalar) (i : Int) : Prop :=
  s.bounded? = some i ∨ s = ⟨.bigInteger, i⟩ ∨ ∃ d : Decimal, d.Denotes i ∧ s = ⟨.bigDecimal, d⟩

/-- A bounded integer is compared like any other: its kind does not show. -/
theorem satisfies_of_bounded? {i : Int} (h : s.bounded? = some i) :
    s.satisfies op text = (orderInteger? i (Text.trim text.toList)).any op.accepts := by
  obtain ⟨k, a⟩ := s
  cases k <;> cases h <;> exact satisfies_eq (by simp)

/-- **The order to an integer literal is the order of the numbers.** -/
theorem satisfies_iff_relates {i : Int} {m : Bounded (.signed 64)} (h : s.Holds i)
    (hliteral : IntegerLiteral (Text.trim text.toList) m.val) :
    s.satisfies op text = true ↔ op.Relates i m.val := by
  rw [← Comparison.accepts_compare_iff]
  rcases h with h | rfl | ⟨d, hd, rfl⟩
  · have hread := Bounded.read_of_literal hliteral fun hbelow => absurd hbelow (by decide)
    rw [satisfies_of_bounded? h, orderInteger?, hread]
    rfl
  · rw [satisfies_eq (by simp), order?]
    simp only [Integer.read_of_literal hliteral, Option.any_some]
  · rw [satisfies_eq (by simp), order?]
    have hcompare := Decimal.compare_of_denotes hd (e := ⟨m.val, Decimal.noPlaces⟩) rfl
    simp only [Decimal.read_of_literal hliteral, Option.any_some, hcompare]

/-- **The four operators cohere**: `=` implies `~=` and is `>=` and `<=` at once, every text that can be read
is on one side of a scalar and no other text is accepted, `~=` ignores the spelling of strings, and the kinds
of integers answer alike, by the order of the integers. -/
theorem operators_cohere :
    (∀ (s : Scalar) (text : String), s.satisfies .equal text = true →
      s.satisfies .approximate text = true) ∧
    (∀ (s : Scalar) (text : String), s.satisfies .equal text = true ↔
      s.satisfies .atLeast text = true ∧ s.satisfies .atMost text = true) ∧
    (∀ (s : Scalar) (text : String), s.kind ≠ .boolean →
      (s.isNaN = false → s.kind.Comparable text →
        s.satisfies .atLeast text = true ∨ s.satisfies .atMost text = true) ∧
      (¬s.kind.Comparable text → ∀ op, s.satisfies op text = false)) ∧
    (∀ a b text other : String, Text.Respelled a.toList b.toList →
      Text.Respelled text.toList other.toList →
      satisfies ⟨.string, a⟩ .approximate text = satisfies ⟨.string, b⟩ .approximate other) ∧
    (∀ (s t : Scalar) (i : Int), s.bounded? = some i → t.bounded? = some i →
      ∀ op text, s.satisfies op text = t.satisfies op text) ∧
    (∀ (s : Scalar) (i : Int) (text : String) (m : Bounded (.signed 64)), s.Holds i →
      IntegerLiteral (Text.trim text.toList) m.val →
      ∀ op : Comparison, s.satisfies op text = true ↔ op.Relates i m.val) := by
  refine ⟨fun s text => approximate_of_equal, fun s text => equal_iff_atLeast_and_atMost,
    fun s text hs => ⟨atLeast_or_atMost hs, fun h op => satisfies_of_not_comparable hs h⟩, ?_, ?_,
    fun s i text m h hliteral op => satisfies_iff_relates h hliteral⟩
  · intro a b text other hab htext
    exact congrArg₂ (· == ·) (normalize_congr hab) (normalize_congr htext)
  · intro s t i hs ht op text
    rw [satisfies_of_bounded? hs, satisfies_of_bounded? ht]

/-- Numbers of four kinds against numerals and words, and a string that is spelled in two ways. -/
theorem operators_cohere_mixed :
    satisfies ⟨.bigInteger, 5⟩ .approximate "5" = true ∧
    (satisfies ⟨.bigInteger, 5⟩ .atLeast "7" = true ∨ satisfies ⟨.bigInteger, 5⟩ .atMost "7" = true) ∧
    satisfies ⟨.bigInteger, 5⟩ .atMost "five" = false ∧
    satisfies ⟨.string, "a b"⟩ .approximate "ab" = satisfies ⟨.string, "aB"⟩ .approximate "a\tb" ∧
    satisfies ⟨.byte, ⟨5, by decide, by decide⟩⟩ .atLeast "x" =
      satisfies ⟨.long, ⟨5, by decide, by decide⟩⟩ .atLeast "x" ∧
    (satisfies ⟨.bigDecimal, ⟨50, ⟨1, by decide, by decide⟩⟩⟩ .atLeast " +4" = true ↔ (4 : Int) ≤ 5) := by
  obtain ⟨happrox, -, hsides, hspelling, hbounded, hliteral⟩ := operators_cohere
  refine ⟨happrox _ _ (by decide), (hsides _ _ (by decide)).1 rfl ⟨7, by decide⟩,
    (hsides _ _ (by decide)).2 ?_ _, hspelling _ _ _ _ ?_ ?_, hbounded _ _ 5 rfl rfl _ _,
    hliteral _ 5 _ ⟨4, by decide, by decide⟩ (Or.inr (Or.inr ⟨_, ?_, rfl⟩)) ?_ .atLeast⟩
  · rintro ⟨i, hi⟩
    cases hi
  · exact .letter rfl (.remove (by decide) (.letter (by decide) .nil))
  · exact .letter rfl (.insert (by decide) (.letter rfl .nil))
  · show (50 : Int) * 10 ^ 0 = 5 * 10 ^ 1
    decide
  · show IntegerLiteral ['+', '4'] 4
    exact .plus ⟨by decide, by simp [AllDigits], by decide⟩

end Scalar
end FrameworkAdmin
