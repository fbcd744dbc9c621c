/-
# Blank characters

Everything this library reads from text meets blanks somewhere: a type tag is a row of words,
a list element is trimmed before it is read, a filter may be spaced out.  The rule is the same
in all of them: a blank is a character with the Unicode property `White_Space`.

The set is spelled out because no shorter description gives it.  It is larger than the ASCII
blanks (no-break space, the quads and the ideographic space are in it) and smaller than "looks
empty" (the zero-width characters and the information separators are not).

Three functions use it, all on lists of characters so that their laws are inductions:

* `trimStart`, `trimEnd` and `trim` drop blanks from the ends;
* `words` cuts a text into its maximal runs of characters that are not blank.
-/

namespace FrameworkAdmin
namespace Text

/-! ## 1. The set -/

/-- Membership in the Unicode property `White_Space`. -/
def isBlank (c : Char) : Bool :=
  let n := c.toNat
  (0x09 ≤ n && n ≤ 0x0D) || n == 0x20 || n == 0x85 || n == 0xA0 || n == 0x1680 ||
    (0x2000 ≤ n && n ≤ 0x200A) || n == 0x2028 || n == 0x2029 || n == 0x202F ||
    n == 0x205F || n == 0x3000

/-! ## 2. Trimming -/

/-- The text without its leading blanks. -/
def trimStart (cs : List Char) : List Char := cs.dropWhile isBlank

/-- The text without its trailing blanks. -/
def trimEnd : List Char → List Char
  | [] => []
  | c :: cs =>
    match trimEnd cs with
    | [] => if isBlank c then [] else [c]
    | d :: ds => c :: d :: ds

/-- The text without the blanks at either end. -/
def trim (cs : List Char) : List Char := trimEnd (trimStart cs)

@[simp] theorem trimStart_nil : trimStart [] = [] := rfl
@[simp] theorem trimEnd_nil : trimEnd [] = [] := rfl
@[simp] theorem trim_nil : trim [] = [] := rfl

/-- Nothing is left of a text exactly when it is all blank. -/
theorem trimEnd_eq_nil_iff {cs : List Char} : trimEnd cs = [] ↔ ∀ c ∈ cs, isBlank c = true := by
  induction cs with
  | nil => simp
  | cons c cs ih =>
    rw [trimEnd]
    cases h : trimEnd cs with
    | nil => cases hc : isBlank c <;> simp_all
    | cons d ds =>
      have : ¬ ∀ x ∈ cs, isBlank x = true := fun hall => by simp [ih.2 hall] at h
      simp_all

/-! ## 3. Words -/

/-- A word begins here: the text has a first character, and it is no blank. -/
def startsWord : List Char → Bool
  | [] => false
  | c :: _ => !isBlank c

/-- Puts a character in front of the first word. -/
def extendFirst (c : Char) : List (List Char) → List (List Char)
  | [] => [[c]]
  | w :: ws => (c :: w) :: ws

/-- The maximal runs of characters that are not blank, in order. -/
def words : List Char → List (List Char)
  | [] => []
  | c :: cs =>
    if isBlank c then words cs
    else if startsWord cs then extendFirst c (words cs)
    else [c] :: words cs

@[simp] theorem words_nil : words [] = [] := rfl

/-- Blanks in front of a text do not change its words. -/
theorem words_cons_of_isBlank {c : Char} (h : isBlank c = true) (cs : List Char) :
    words (c :: cs) = words cs := by
  simp only [words, h, if_true]

/-- A character that is no blank extends the word after it. -/
theorem words_cons_of_startsWord {c : Char} (h : isBlank c = false) {cs : List Char}
    (hcs : startsWord cs = true) : words (c :: cs) = extendFirst c (words cs) := by
  simp only [words, h, hcs, if_true, Bool.false_eq_true, if_false]

/-- A character that is no blank is a word of its own before a blank or the end. -/
theorem words_cons_of_not_startsWord {c : Char} (h : isBlank c = false) {cs : List Char}
    (hcs : startsWord cs = false) : words (c :: cs) = [c] :: words cs := by
  simp only [words, h, hcs, Bool.false_eq_true, if_false]

end Text
end FrameworkAdmin
