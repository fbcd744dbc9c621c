/-
# Reading filters

    filter  ::=  "(" body ")"
    body    ::=  "&" filter+  |  "|" filter+  |  "!" filter  |  item
    item    ::=  attribute ("=" | "~=" | ">=" | "<=") value

Blanks may stand around every filter, after its parenthesis and after `&`, `|` and `!`, but not
inside an item: the blanks of a value belong to it, and those around an attribute are trimmed
away.  In a value a backslash takes the special meaning from the character after it, and `*` is
a wildcard, which only `=` admits.

Each reader takes the rest of the text and gives back what it read and the rest after that, or a
`Stop`: the reason, and the text from the place on where the reader gave up.  A reader never
looks behind that place, so its position is found from the length of what is left
(`Stop.position`), and no reader carries a position along.

Parentheses may be nested `depthLimit` deep.  The nesting that is still allowed is the argument
on which `filter` recurses.
-/
import FrameworkAdmin.Filter.Basic
import FrameworkAdmin.Text.Blank

namespace FrameworkAdmin
namespace Filter

/-! ## 1. Faults -/

/-- What a reader missed, or met where it cannot stand. -/
inductive Reason where
  | tooDeep
  | missingOpen
  | missingClose
  | missingOperand
  | missingAttribute
  | missingEquals (sign : Char)
  | missingComparison
  | unterminatedValue
  | unescapedOpen
  | danglingEscape
  | misplacedWildcard
  | trailingCharacters
deriving DecidableEq, Repr

/-- The wording of each reason. -/
def Reason.message : Reason → String
  | .tooDeep => "filter nested too deeply"
  | .missingOpen => "expected '('"
  | .missingClose => "expected ')'"
  | .missingOperand => "expected at least one operand"
  | .missingAttribute => "missing attribute name"
  | .missingEquals sign => "expected '=' after '" ++ sign.toString ++ "'"
  | .missingComparison => "expected comparison operator"
  | .unterminatedValue => "unterminated value"
  | .unescapedOpen => "unescaped '(' in value"
  | .danglingEscape => "dangling escape"
  | .misplacedWildcard => "wildcards are only allowed with '='"
  | .trailingCharacters => "trailing characters"

/-- Where a reader gave up: the reason, and the text from there on. -/
structure Stop where
  reason : Reason
  rest : List Char
deriving DecidableEq, Repr

/-- The length of a text in UTF-8. -/
def byteLength : List Char → Nat
  | [] => 0
  | c :: cs => c.utf8Size + byteLength cs

/-- The offset in bytes at which a reader of `cs` gave up. -/
def Stop.position (s : Stop) (cs : List Char) : Nat := byteLength cs - byteLength s.rest

/-- The reason why a text is no filter, and the offset in bytes. -/
structure SyntaxFault where
  filter : String
  position : Nat
  reason : Reason
deriving DecidableEq, Repr

/-- The wording of a fault. -/
def SyntaxFault.message (f : SyntaxFault) : String :=
  "invalid filter '" ++ f.filter ++ "' at " ++ toString f.position ++ ": " ++ f.reason.message

/-! ## 2. Items -/

/-- What a reader found, and the text after it. -/
abbrev Reading (α : Type) := Except Stop (α × List Char)

/-- The characters that end an attribute. -/
def endsAttribute (c : Char) : Bool :=
  c == '=' || c == '~' || c == '<' || c == '>' || c == '(' || c == ')'

/-- Reads the sign of a comparison. -/
def comparison : List Char → Reading Comparison
  | '=' :: cs => .ok (.equal, cs)
  | '~' :: '=' :: cs => .ok (.approximate, cs)
  | '~' :: cs => .error ⟨.missingEquals '~', cs⟩
  | '>' :: '=' :: cs => .ok (.atLeast, cs)
  | '>' :: cs => .error ⟨.missingEquals '>', cs⟩
  | '<' :: '=' :: cs => .ok (.atMost, cs)
  | '<' :: cs => .error ⟨.missingEquals '<', cs⟩
  | _ :: cs => .error ⟨.missingComparison, cs⟩
  | [] => .error ⟨.missingComparison, []⟩

/-- The texts between the wildcards of a value: the first one, and those after a wildcard. -/
structure Runs where
  first : List Char
  more : List (List Char)
deriving DecidableEq, Repr

/-- One more character at the front. -/
def Runs.extend (c : Char) (r : Runs) : Runs := { r with first := c :: r.first }

/-- One more wildcard at the front. -/
def Runs.star (r : Runs) : Runs := ⟨[], r.first :: r.more⟩

/-- Reads a value up to its closing parenthesis, which is left over. -/
def runs : List Char → Reading Runs
  | [] => .error ⟨.unterminatedValue, []⟩
  | ['\\'] => .error ⟨.danglingEscape, []⟩
  | '\\' :: c :: cs =>
    match runs cs with
    | .ok (r, rest) => .ok (r.extend c, rest)
    | .error s => .error s
  | c :: cs =>
    if c = ')' then .ok (⟨[], []⟩, c :: cs)
    else if c = '(' then .error ⟨.unescapedOpen, c :: cs⟩
    else
      match runs cs with
      | .ok (r, rest) => .ok (if c = '*' then r.star else r.extend c, rest)
      | .error s => .error s

/-- The item with these parts.  A single wildcard asks for presence only. -/
def ofRuns (attr : String) (op : Comparison) (r : Runs) : Option Filter :=
  match r with
  | ⟨value, []⟩ => some (.compare attr op (String.ofList value))
  | ⟨first, more⟩ =>
    if op ≠ .equal then none
    else if first = [] ∧ more = [[]] then some (.present attr)
    else some (.substring attr ((first :: more).map String.ofList))

/-- Reads an item up to its closing parenthesis. -/
def item (cs : List Char) : Reading Filter :=
  let attr := Text.trim (cs.takeWhile fun c => !endsAttribute c)
  let rest := cs.dropWhile fun c => !endsAttribute c
  if attr.isEmpty then .error ⟨.missingAttribute, rest⟩
  else
    match comparison rest with
    | .error s => .error s
    | .ok (op, rest) =>
      match runs rest with
      | .error s => .error s
      | .ok (r, rest) =>
        match ofRuns (String.ofList attr) op r with
        | some f => .ok (f, rest)
        | none => .error ⟨.misplacedWildcard, rest⟩

/-! ## 3. Composites -/

/-- Reads filters as long as a parenthesis opens, at most `count` of them. -/
def many (filter : List Char → Reading Filter) : Nat → List Char → Reading (List Filter)
  | count + 1, '(' :: cs =>
    match filter ('(' :: cs) with
    | .error s => .error s
    | .ok (f, rest) =>
      match many filter count rest with
      | .error s => .error s
      | .ok (fs, rest) => .ok (f :: fs, rest)
  | _, cs => .ok ([], cs)

/-- Reads the operands of `&` and `|`.  Each has at least one character, so their number is
bounded by that of the text. -/
def operands (filter : List Char → Reading Filter) (cs : List Char) : Reading (List Filter) :=
  match many filter cs.length (Text.trimStart cs) with
  | .ok ([], rest) => .error ⟨.missingOperand, rest⟩
  | r => r

/-- Reads what stands between the parentheses of a filter. -/
def body (filter : List Char → Reading Filter) : List Char → Reading Filter
  | '&' :: cs =>
    match operands filter cs with
    | .ok (fs, rest) => .ok (.and fs, rest)
    | .error s => .error s
  | '|' :: cs =>
    match operands filter cs with
    | .ok (fs, rest) => .ok (.or fs, rest)
    | .error s => .error s
  | '!' :: cs =>
    match filter (Text.trimStart cs) with
    | .ok (f, rest) => .ok (.not f, rest)
    | .error s => .error s
  | cs => item cs

/-- Reads the closing parenthesis of a filter and the blanks around it. -/
def close (f : Filter) (cs : List Char) : Reading Filter :=
  match Text.trimStart cs with
  | ')' :: rest => .ok (f, Text.trimStart rest)
  | rest => .error ⟨.missingClose, rest⟩

/-- Reads a filter in which parentheses are nested at most `depth` deep. -/
def filter : Nat → List Char → Reading Filter
  | 0, cs => .error ⟨.tooDeep, cs⟩
  | depth + 1, '(' :: cs =>
    match body (filter depth) (Text.trimStart cs) with
    | .ok (f, rest) => close f rest
    | .error s => .error s
  | _ + 1, cs => .error ⟨.missingOpen, cs⟩

/-! ## 4. Texts -/

/-- How deep parentheses may be nested. -/
def depthLimit : Nat := 256

/-- Reads a text that holds one filter and blanks around it, and nothing else. -/
def readAll (cs : List Char) : Except Stop Filter :=
  match filter depthLimit (Text.trimStart cs) with
  | .ok (f, []) => .ok f
  | .ok (_, rest) => .error ⟨.trailingCharacters, rest⟩
  | .error s => .error s

/-- Reads a filter from text. -/
def read (s : String) : Except SyntaxFault Filter :=
  match readAll s.toList with
  | .ok f => .ok f
  | .error stop => .error ⟨s, stop.position s.toList, stop.reason⟩

end Filter
end FrameworkAdmin
