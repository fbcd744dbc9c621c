/-
# Wildcards

Between the wildcards of a value stand its **parts**.  A text fits them if the first part begins it,
the last one ends it, and the others occur in between, in order and without overlap.  The search takes
the earliest occurrence of each part, which never spoils a later one.

What is left of the text is not carried along.  It is cut out of the whole text anew for each part,
between two offsets: `pos`, behind what was found so far, and `limit`, where the last part begins.
Offsets count the bytes of UTF-8.  Nothing in them keeps such a cut from going wrong: an offset can lie
inside a character or beyond the end, two of them can be in the wrong order, and the difference of two
lengths can fall below zero.  `slice?` and `minus?` say when, and a text that does not fit comes with the
reason why (`Miss`), so that "the offsets are always sound" is a statement about those reasons.
-/
import FrameworkAdmin.Filter.Parser

namespace FrameworkAdmin
namespace Wildcard

open FrameworkAdmin.Filter (byteLength)

/-! ## 1. Offsets -/

/-- What follows the first `n` bytes of a text, unless there are fewer or the last of them belongs to a
character that goes on. -/
def dropBytes? : List Char → Nat → Option (List Char)
  | cs, 0 => some cs
  | [], _ + 1 => none
  | c :: cs, n + 1 => if c.utf8Size ≤ n + 1 then dropBytes? cs (n + 1 - c.utf8Size) else none

/-- The first `n` bytes of a text, unless there are fewer or the last of them belongs to a character that
goes on. -/
def takeBytes? : List Char → Nat → Option (List Char)
  | _, 0 => some []
  | [], _ + 1 => none
  | c :: cs, n + 1 =>
    if c.utf8Size ≤ n + 1 then (takeBytes? cs (n + 1 - c.utf8Size)).map (c :: ·) else none

/-- The text between two offsets.  There is none if they are in the wrong order or if one of them is no
boundary between characters. -/
def slice? (cs : List Char) (start stop : Nat) : Option (List Char) :=
  if start ≤ stop then (dropBytes? cs start).bind fun rest => takeBytes? rest (stop - start)
  else none

/-- The offset of the earliest occurrence of a part; the empty part occurs at the start. -/
def find? (part : List Char) : List Char → Option Nat
  | [] => if part.isEmpty then some 0 else none
  | c :: cs =>
    if part.isPrefixOf (c :: cs) then some 0 else (find? part cs).map (c.utf8Size + ·)

/-! ## 2. The search -/

/-- Why a text does not fit its parts. -/
inductive Miss where
  /-- There are fewer than two parts, so that there was no wildcard. -/
  | tooFewParts
  /-- The first and the last part are together longer than the text. -/
  | tooShort
  /-- The text does not begin with the first part, or does not end with the last. -/
  | otherEnds
  /-- A part does not occur in what is left of the text. -/
  | absent
  /-- A length was taken from a smaller one. -/
  | underflow
  /-- What is left was asked for at offsets with no text between them. -/
  | badSlice (start stop : Nat)
  /-- The parts in the middle ran into the last one. -/
  | overrun
deriving DecidableEq, Repr

/-- The difference of two lengths. -/
def minus? (m n : Nat) : Except Miss Nat := if n ≤ m then .ok (m - n) else .error .underflow

/-- Looks for the parts one after the other between `pos` and `limit`, and gives back the offset behind
the last of them. -/
def search (cs : List Char) (limit : Nat) : Nat → List (List Char) → Except Miss Nat
  | pos, [] => .ok pos
  | pos, part :: parts =>
    match slice? cs pos limit with
    | none => .error (.badSlice pos limit)
    | some rest =>
      match find? part rest with
      | none => .error .absent
      | some found => search cs limit (pos + (found + byteLength part)) parts

/-- Fits the text to a first part, parts in the middle, and a last part. -/
def fit (first : List Char) (middle : List (List Char)) (last cs : List Char) : Except Miss Unit :=
  if byteLength cs < byteLength first + byteLength last then .error .tooShort
  else if !(first.isPrefixOf cs && last.isSuffixOf cs) then .error .otherEnds
  else do
    let limit ← minus? (byteLength cs) (byteLength last)
    let pos ← search cs limit (byteLength first) middle
    if pos ≤ limit then .ok () else .error .overrun

/-- Fits the text to its parts, of which there must be two at least. -/
def attempt : List (List Char) → List Char → Except Miss Unit
  | first :: second :: parts, cs =>
    fit first (second :: parts).dropLast ((second :: parts).getLast (by simp)) cs
  | _, _ => .error .tooFewParts

/-- The text is the parts in order with anything between them. -/
def covers (parts : List (List Char)) (cs : List Char) : Bool := (attempt parts cs).isOk

end Wildcard
end FrameworkAdmin
