/-
# Why a text is not a number

Every reader of this library that turns characters into a number or a character answers with a
`Misread` when it cannot.  The causes are few and shared: a bounded integer, an unbounded one
and the digits of a decimal all fail on the same stray character.  `Misread.message` is the only
place where their wording lives.
-/

namespace FrameworkAdmin

/-- The reason why a text could not be read. -/
inductive Misread where
  /-- An integer was expected and the text has no digits to look at. -/
  | emptyInteger
  /-- A character that cannot stand where it stands in an integer. -/
  | strayCharacter
  /-- The digits so far exceed the largest value of the type. -/
  | tooLarge
  /-- The digits so far fall below the smallest value of the type. -/
  | tooSmall
  /-- A floating-point number was expected and the text is empty. -/
  | emptyFloat
  /-- The text is not a floating-point literal. -/
  | malformedFloat
  /-- A decimal was expected and nothing stands before its exponent. -/
  | emptyDecimal
  /-- The scale of the decimal written as `text` does not fit in 64 bits. -/
  | scaleOverflow (text : String)
  /-- A character was expected and the text is empty. -/
  | emptyCharacter
deriving DecidableEq, Repr

/-- The wording of each cause. -/
def Misread.message : Misread → String
  | .emptyInteger => "cannot parse integer from empty string"
  | .strayCharacter => "invalid digit found in string"
  | .tooLarge => "number too large to fit in target type"
  | .tooSmall => "number too small to fit in target type"
  | .emptyFloat => "cannot parse float from empty string"
  | .malformedFloat => "invalid float literal"
  | .emptyDecimal => "Failed to parse empty string"
  | .scaleOverflow text => "Exponent overflow when parsing '" ++ text ++ "'"
  | .emptyCharacter => "empty value"

end FrameworkAdmin
