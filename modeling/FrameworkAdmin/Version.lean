/-
# Versions

A version has three numbers and a qualifier, `major.minor.micro.qualifier`.  Reading allows
parts to be left out from the right: missing numbers are zero, a missing qualifier is empty, and
a text of blanks only is 0.0.0.  Only the first three points separate; the qualifier takes the
rest, and must then consist of ASCII letters, digits, `_` and `-`.

Versions are ordered by their numbers in turn and then by the qualifier, so that the empty
qualifier comes first.  Writing leaves out an empty qualifier and nothing else.
-/
import FrameworkAdmin.Number.Bounded
import FrameworkAdmin.Text.Blank
import FrameworkAdmin.Text.Pieces

namespace FrameworkAdmin

/-! ## 1. The type -/

/-- A number of a version. -/
abbrev Version.Part := Bounded (.unsigned 32)

/-- The version of a package. -/
structure Version where
  major : Version.Part
  minor : Version.Part
  micro : Version.Part
  qualifier : String
deriving DecidableEq, Repr

namespace Version

/-- Zero as a part. -/
def Part.zero : Part := ⟨0, by decide, by decide⟩

/-- The version of a text without parts. -/
def zero : Version := ⟨.zero, .zero, .zero, ""⟩

/-- The order by numbers, then by qualifier. -/
def compare (v w : Version) : Ordering :=
  (Ord.compare v.major.val w.major.val).then <|
    (Ord.compare v.minor.val w.minor.val).then <|
      (Ord.compare v.micro.val w.micro.val).then (Ord.compare v.qualifier w.qualifier)

/-- The versions in ascending order; equal ones keep their places. -/
def sort (l : List Version) : List Version := l.mergeSort fun v w => v.compare w != .gt

/-! ## 2. Text -/

/-- The text of a version; an empty qualifier is left out. -/
def text (v : Version) : String :=
  let numbers := v.major.text ++ '.' :: (v.minor.text ++ '.' :: v.micro.text)
  String.ofList
    (if v.qualifier.isEmpty then numbers else numbers ++ '.' :: v.qualifier.toList)

/-- The places of the numbers. -/
inductive Place where
  | major
  | minor
  | micro
deriving DecidableEq, Repr

/-- The name of a place in a message. -/
def Place.name : Place → String
  | .major => "major"
  | .minor => "minor"
  | .micro => "micro"

/-- What is wrong with a text that should be a version. -/
inductive Flaw where
  | badNumber (place : Place) (part : String) (cause : Misread)
  | badQualifier (qualifier : String)
deriving DecidableEq, Repr

/-- The wording of each flaw. -/
def Flaw.message : Flaw → String
  | .badNumber place part cause =>
    place.name ++ " component '" ++ part ++ "': " ++ cause.message
  | .badQualifier qualifier => "qualifier '" ++ qualifier ++ "' has invalid characters"

/-- The reason why a text is no version. -/
structure VersionFault where
  text : String
  flaw : Flaw
deriving DecidableEq, Repr

/-- The wording of a fault. -/
def VersionFault.message (f : VersionFault) : String :=
  "invalid version '" ++ f.text ++ "': " ++ f.flaw.message

/-- The characters of qualifiers. -/
def isQualifierChar (c : Char) : Bool := c.isAlphanum || c == '_' || c == '-'

/-- Reads the number at the front and gives back what follows the point after it.  Where the
text has already ended the number is zero. -/
def readPart (place : Place) : Option (List Char) → Except Flaw (Part × Option (List Char))
  | none => .ok (.zero, none)
  | some cs =>
    let (part, rest) := Text.cut (· == '.') cs
    match Bounded.read (.unsigned 32) part with
    | .ok n => .ok (n, rest)
    | .error e => .error (.badNumber place (String.ofList part) e)

/-- Reads the qualifier. -/
def readQualifier (rest : Option (List Char)) : Except Flaw String :=
  let cs := rest.getD []
  if cs.all isQualifierChar then .ok (String.ofList cs)
  else .error (.badQualifier (String.ofList cs))

/-- Reads the parts of a text in order. -/
def readParts (cs : List Char) : Except Flaw Version := do
  let (major, rest) ← readPart .major (some cs)
  let (minor, rest) ← readPart .minor rest
  let (micro, rest) ← readPart .micro rest
  let qualifier ← readQualifier rest
  return ⟨major, minor, micro, qualifier⟩

/-- Reads a version from text, blanks around it being allowed. -/
def read (s : String) : Except VersionFault Version :=
  let trimmed := Text.trim s.toList
  if trimmed.isEmpty then .ok zero
  else
    match readParts trimmed with
    | .ok v => .ok v
    | .error flaw => .error ⟨s, flaw⟩

end Version

end FrameworkAdmin
