/-
# Scalars are read back from their text

What a text column keeps of a scalar, kind by kind.

* `ScalarKind.settle` is the value that comes back: `read_write` holds of every value of every kind.
  Ten kinds give back the value itself, and a decimal the same number (`Scalar.agrees_settled`).  Only
  a NaN is not the same as itself, which is why agreement is the finer of the two relations.
* A list needs more than that, since its elements stand between separators and are trimmed.
  `Listed` is the property of a text to pass that treatment unharmed, and nine kinds write nothing
  else (`listed_write`).  Strings and characters are the other two.
* What was read from a token is written as a text of the same sort (`listed_write_of_read`), which is
  what makes a second pass over a list lose nothing that the first one kept.
-/
import FrameworkAdmin.Property.Column
import FrameworkAdmin.Proofs.Number.Decimals
import FrameworkAdmin.Proofs.Number.Floats
import FrameworkAdmin.Proofs.Number.Integers
import FrameworkAdmin.Proofs.Text.Ends

namespace FrameworkAdmin

/-! ## 1. Reading back -/

namespace ScalarKind

/-- The value that is read from the text of a value. -/
def settle : (k : ScalarKind) → k.Carrier → k.Carrier
  | .bigDecimal, d => d.settled
  | _, a => a

theorem single_depth_le : Format.single.depth ≤ 2 ^ Format.single.exponentBits := by decide

theorem double_depth_le : Format.double.depth ≤ 2 ^ Format.double.exponentBits := by decide

/-- **A value of any kind is read back from its text, settled.** -/
theorem read_write (k : ScalarKind) (a : k.Carrier) : k.read (k.write a) = .ok (k.settle a) := by
  cases k with
  | string => exact congrArg Except.ok String.ofList_toList
  | integer => exact Bounded.read_text a
  | long => exact Bounded.read_text a
  | float => exact Binary.read_text single_depth_le a
  | double => exact Binary.read_text double_depth_le a
  | byte => exact Bounded.read_text a
  | short => exact Bounded.read_text a
  | character => rfl
  | boolean => cases a <;> rfl
  | bigDecimal => exact Decimal.read_text a
  | bigInteger => exact Integer.read_integerText a

/-- Settling changes no text. -/
@[simp] theorem write_settle (k : ScalarKind) (a : k.Carrier) : k.write (k.settle a) = k.write a := by
  cases k with
  | bigDecimal => exact Decimal.text_settled a
  | _ => rfl

/-- A settled value stays as it is. -/
@[simp] theorem settle_settle (k : ScalarKind) (a : k.Carrier) :
    k.settle (k.settle a) = k.settle a := by
  have h := read_write k (k.settle a)
  rw [write_settle, read_write] at h
  exact (Except.ok.inj h).symm

end ScalarKind

/-! ## 2. Sameness -/

namespace Binary

variable {f : Format}

theorem same_self {x : Binary f} (h : x.isNaN = false) : x.same x = true := by
  cases x with
  | nan => cases h
  | signed negative rank => simp [same, compare?, Std.compare_self]

theorem isNaN_of_same {x y : Binary f} (h : x.same y = true) : y.isNaN = false := by
  cases y with
  | nan => cases x <;> cases h
  | signed negative rank => rfl

end Binary

namespace Scalar

theorem same_mk {k : ScalarKind} {a b : k.Carrier} : same ⟨k, a⟩ ⟨k, b⟩ = k.same a b := by
  simp [same]

theorem kind_eq_of_same {s t : Scalar} (h : s.same t = true) : s.kind = t.kind := by
  obtain ⟨k, a⟩ := s
  obtain ⟨l, b⟩ := t
  by_cases hkl : k = l
  · exact hkl
  · simp [same, hkl] at h

theorem same_self {s : Scalar} (h : s.isNaN = false) : s.same s = true := by
  obtain ⟨k, a⟩ := s
  refine same_mk.trans ?_
  cases k with
  | float => exact Binary.same_self h
  | double => exact Binary.same_self h
  | bigDecimal => exact Decimal.same_self a
  | _ => exact beq_self_eq_true _

/-- Nothing is the same as a NaN. -/
theorem isNaN_of_same {s t : Scalar} (h : s.same t = true) : t.isNaN = false := by
  obtain ⟨k, a⟩ := s
  obtain ⟨l, b⟩ := t
  obtain rfl : k = l := kind_eq_of_same h
  rw [same_mk] at h
  cases k with
  | float => exact Binary.isNaN_of_same h
  | double => exact Binary.isNaN_of_same h
  | _ => rfl

/-- Two scalars agree when they are one, or two decimals of the same number.  Unlike sameness this
holds of a NaN and itself, and tells the two zeros of a float apart. -/
def Agrees (s t : Scalar) : Prop :=
  s = t ∨ ∃ d e : Decimal, s = ⟨.bigDecimal, d⟩ ∧ t = ⟨.bigDecimal, e⟩ ∧ e.same d = true

/-- A NaN is the only scalar that agrees with a scalar and is not the same. -/
theorem same_of_agrees {s t : Scalar} (h : s.Agrees t) (hs : s.isNaN = false) :
    t.same s = true := by
  rcases h with rfl | ⟨d, e, rfl, rfl, hde⟩
  · exact same_self hs
  · exact same_mk.trans hde

/-- The scalar with its value settled. -/
def settled (s : Scalar) : Scalar := ⟨s.kind, s.kind.settle s.value⟩

/-- **A scalar agrees with its settled form**, a NaN included. -/
theorem agrees_settled (s : Scalar) : s.Agrees s.settled := by
  obtain ⟨k, a⟩ := s
  cases k with
  | bigDecimal => exact Or.inr ⟨a, _, rfl, rfl, Decimal.same_settled a⟩
  | _ => exact Or.inl rfl

end Scalar

/-! ## 3. Texts that survive in a list -/

/-- A text that is neither cut nor trimmed as an element of a list. -/
def Listed (cs : List Char) : Prop := separator ∉ cs ∧ Text.Trimmed cs

instance (cs : List Char) : Decidable (Listed cs) :=
  inferInstanceAs (Decidable (separator ∉ cs ∧ Text.Trimmed cs))

theorem isBlank_of_isDigit {c : Char} (h : c.isDigit = true) : Text.isBlank c = false := by
  simp only [Char.isDigit, Bool.and_eq_true, decide_eq_true_eq, ge_iff_le, UInt32.le_iff_toNat_le]
    at h
  obtain ⟨hlow, hhigh⟩ := h
  have hnat : c.toNat = c.val.toNat := rfl
  simp only [show ('0' : Char).val.toNat = 48 from rfl, show ('9' : Char).val.toNat = 57 from rfl]
    at hlow hhigh
  simp only [Text.isBlank, hnat, Bool.or_eq_false_iff, Bool.and_eq_false_iff, decide_eq_false_iff_not,
    beq_eq_false_iff_ne]
  omega

/-- A character that a list neither cuts at nor trims. -/
def isInner (c : Char) : Bool := c != separator && !Text.isBlank c

/-- A number is a listed text, whatever the other characters are that it is written with. -/
theorem listed_of_digits {cs : List Char} (others : List Char) (hothers : others.all isInner = true)
    (h : ∀ c ∈ cs, c.isDigit = true ∨ c ∈ others) : Listed cs := by
  have hinner : ∀ c ∈ cs, c ≠ separator ∧ Text.isBlank c = false := fun c hc => by
    rcases h c hc with hd | ho
    · exact ⟨ne_of_isDigit hd (by decide), isBlank_of_isDigit hd⟩
    · simpa [isInner] using List.all_eq_true.1 hothers c ho
  exact ⟨fun hmem => (hinner _ hmem).1 rfl, Text.trimmed_of_forall fun c hc => (hinner c hc).2⟩

theorem listed_integerText (i : Int) : Listed (integerText i) :=
  listed_of_digits ['-'] (by decide) fun _ hc =>
    (isDigit_or_of_mem_integerText hc).imp_right List.mem_singleton.2

theorem listed_binaryText {f : Format} (hf : f.depth ≤ 2 ^ f.exponentBits) (x : Binary f) :
    Listed x.text :=
  listed_of_digits _ (by decide) fun _ hc => Binary.isDigit_or_of_mem_text hf hc

/-- Only strings and characters can bring separators or blanks into a list. -/
def ScalarKind.isTextual : ScalarKind → Bool
  | .string | .character => true
  | _ => false

namespace ScalarKind

theorem listed_write {k : ScalarKind} (hk : k.isTextual = false) (a : k.Carrier) :
    Listed (k.write a) := by
  cases k with
  | string => cases hk
  | character => cases hk
  | integer => exact listed_integerText a.val
  | long => exact listed_integerText a.val
  | byte => exact listed_integerText a.val
  | short => exact listed_integerText a.val
  | bigInteger => exact listed_integerText a
  | float => exact listed_binaryText single_depth_le a
  | double => exact listed_binaryText double_depth_le a
  | boolean => cases a <;> decide
  | bigDecimal => exact listed_of_digits _ (by decide) fun _ hc => Decimal.isDigit_or_of_mem_text hc

theorem listed_singleton {c : Char} : Listed [c] ↔ c ≠ separator ∧ Text.isBlank c = false := by
  simp [Listed, Text.Trimmed, Text.StartsClear, Text.EndsClear, ne_comm]

/-- **What is read from a listed token is written as a listed text.** -/
theorem listed_write_of_read {k : ScalarKind} {token : List Char} (ht : Listed token)
    {a : k.Carrier} (h : k.read token = .ok a) : Listed (k.write a) := by
  cases k with
  | string =>
    obtain rfl : String.ofList token = a := Except.ok.inj h
    simpa [write] using ht
  | character =>
    cases token with
    | nil => cases h
    | cons c cs =>
      obtain rfl : c = a := Except.ok.inj h
      refine listed_singleton.2 ⟨?_, Text.startsClear_cons.1 ht.2.1⟩
      exact fun heq => ht.1 (heq ▸ List.mem_cons_self)
  | _ => exact listed_write rfl a

/-- Nothing is written as the empty text except the empty string. -/
theorem write_eq_nil_iff {k : ScalarKind} {a : k.Carrier} :
    k.write a = [] ↔ (⟨k, a⟩ : Scalar) = ⟨.string, ""⟩ := by
  constructor
  · intro hnil
    have h := read_write k a
    rw [hnil] at h
    cases k with
    | string =>
      obtain rfl : "" = a := Except.ok.inj h
      rfl
    | boolean => cases a <;> cases hnil
    | _ => cases h
  · intro h
    cases h
    rfl

end ScalarKind

namespace Scalar

/-- A scalar that a list gives back as its own element: a string with something in it, without
separators and without blanks at its ends; a character that is neither a separator nor a blank; or
any other value. -/
def Separable : Scalar → Prop
  | ⟨.string, s⟩ => s ≠ "" ∧ separator ∉ s.toList ∧ Text.Trimmed s.toList
  | ⟨.character, c⟩ => c ≠ separator ∧ Text.isBlank c = false
  | _ => True

/-- **The separable scalars are those with a listed text that is not empty.** -/
theorem separable_iff {s : Scalar} : s.Separable ↔ s.text ≠ [] ∧ Listed s.text := by
  obtain ⟨k, a⟩ := s
  have hempty : k.write a ≠ [] ↔ (⟨k, a⟩ : Scalar) ≠ ⟨.string, ""⟩ :=
    not_congr ScalarKind.write_eq_nil_iff
  show _ ↔ k.write a ≠ [] ∧ Listed (k.write a)
  rw [hempty]
  cases k with
  | string => simp [Separable, Listed, ScalarKind.write]
  | character => simp [Separable, ScalarKind.write, ScalarKind.listed_singleton]
  | _ => simp [Separable, ScalarKind.listed_write rfl a]

instance (s : Scalar) : Decidable s.Separable :=
  decidable_of_iff (s.text ≠ [] ∧ Listed s.text) separable_iff.symm

/-- Sameness does not turn a listed text into one that is not. -/
theorem listed_text_of_same {s t : Scalar} (h : s.same t = true) (hs : Listed s.text) :
    Listed t.text := by
  obtain ⟨k, a⟩ := s
  obtain ⟨l, b⟩ := t
  obtain rfl : k = l := kind_eq_of_same h
  rw [same_mk] at h
  cases k with
  | string => exact beq_iff_eq.1 h ▸ hs
  | character => exact beq_iff_eq.1 h ▸ hs
  | _ => exact ScalarKind.listed_write rfl b

end Scalar
end FrameworkAdmin
