/-
# Filters

A filter selects property dictionaries.  It is built with `&`, `|` and `!` from items, and an
item compares an attribute with a value, asks for its presence, or matches its text against
parts between wildcards:

    (&(service.factoryPid=org.example.http)(|(port>=8000)(!(host=*))))

`Filter.text` writes a filter.  Four characters would be read as something else inside a value
and get a backslash in front; attributes are written as they are.  The reader in
`Filter/Parser.lean` gives back exactly the filters that are well formed in the sense that it
could have produced them.
-/
import FrameworkAdmin.Text.Pieces

namespace FrameworkAdmin

/-! ## 1. The type -/

/-- How an item compares. -/
inductive Comparison where
  | equal
  | approximate
  | atLeast
  | atMost
deriving DecidableEq, Repr

/-- The sign between attribute and value. -/
def Comparison.sign : Comparison → List Char
  | .equal => ['=']
  | .approximate => ['~', '=']
  | .atLeast => ['>', '=']
  | .atMost => ['<', '=']

/-- A condition on a property dictionary.  The parts of a `substring` are the texts between its
wildcards, of which the first and the last may be empty. -/
inductive Filter where
  | and (operands : List Filter)
  | or (operands : List Filter)
  | not (operand : Filter)
  | compare (attr : String) (op : Comparison) (value : String)
  | present (attr : String)
  | substring (attr : String) (parts : List String)

namespace Filter

instance : Inhabited Filter := ⟨.and []⟩

/-! ## 2. Equality -/

mutual

/-- Equality, as a function. -/
def beq : Filter → Filter → Bool
  | .and fs, .and gs => beqAll fs gs
  | .or fs, .or gs => beqAll fs gs
  | .not f, .not g => beq f g
  | .compare a o v, .compare b p w => a == b && o == p && v == w
  | .present a, .present b => a == b
  | .substring a ps, .substring b qs => a == b && ps == qs
  | _, _ => false

/-- Equality of lists of filters, as a function. -/
def beqAll : List Filter → List Filter → Bool
  | [], [] => true
  | f :: fs, g :: gs => beq f g && beqAll fs gs
  | _, _ => false

end

mutual

theorem eq_of_beq : ∀ {f g : Filter}, beq f g = true → f = g
  | .and _, .and _, h => congrArg _ (eq_of_beqAll h)
  | .or _, .or _, h => congrArg _ (eq_of_beqAll h)
  | .not _, .not _, h => congrArg _ (eq_of_beq h)
  | .compare _ _ _, .compare _ _ _, h => by simpa [beq, and_assoc] using h
  | .present _, .present _, h => by simpa [beq] using h
  | .substring _ _, .substring _ _, h => by simpa [beq] using h

theorem eq_of_beqAll : ∀ {fs gs : List Filter}, beqAll fs gs = true → fs = gs
  | [], [], _ => rfl
  | f :: fs, g :: gs, h => by
    simp only [beqAll, Bool.and_eq_true] at h
    rw [eq_of_beq h.1, eq_of_beqAll h.2]

end

mutual

theorem beq_self : ∀ f : Filter, beq f f = true
  | .and fs => beqAll_self fs
  | .or fs => beqAll_self fs
  | .not f => beq_self f
  | .compare _ _ _ => by simp [beq]
  | .present _ => by simp [beq]
  | .substring _ _ => by simp [beq]

theorem beqAll_self : ∀ fs : List Filter, beqAll fs fs = true
  | [] => rfl
  | f :: fs => by simp [beqAll, beq_self f, beqAll_self fs]

end

instance : DecidableEq Filter := fun f g =>
  decidable_of_iff (beq f g = true) ⟨eq_of_beq, fun h => h ▸ beq_self f⟩

/-! ## 3. Text -/

/-- The characters that have a meaning inside a value. -/
def isSpecial (c : Char) : Bool := c == '\\' || c == '*' || c == '(' || c == ')'

/-- A value with a backslash before every special character. -/
def escape : List Char → List Char
  | [] => []
  | c :: cs => if isSpecial c then '\\' :: c :: escape cs else c :: escape cs

mutual

/-- The characters of a filter. -/
def chars : Filter → List Char
  | .and fs => '(' :: '&' :: (charsAll fs ++ [')'])
  | .or fs => '(' :: '|' :: (charsAll fs ++ [')'])
  | .not f => '(' :: '!' :: (chars f ++ [')'])
  | .compare a op v => '(' :: (a.toList ++ (op.sign ++ (escape v.toList ++ [')'])))
  | .present a => '(' :: (a.toList ++ ['=', '*', ')'])
  | .substring a ps =>
    '(' :: (a.toList ++ '=' :: (Text.join '*' (ps.map fun p => escape p.toList) ++ [')']))

/-- The characters of filters that follow each other. -/
def charsAll : List Filter → List Char
  | [] => []
  | f :: fs => chars f ++ charsAll fs

end

/-- The text of a filter. -/
def text (f : Filter) : String := String.ofList f.chars

end Filter

end FrameworkAdmin
