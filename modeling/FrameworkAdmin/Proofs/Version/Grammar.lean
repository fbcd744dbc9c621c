/-
# Which texts are versions

A version is documented as `major[.minor[.micro[.qualifier]]]`, with numbers of one digit or more and a
qualifier of one character or more.  The reader takes all of these texts for the versions that they look
like, blanks around them not counting, and it takes two sorts of texts besides:

* a plus sign may stand in front of a number, because the numbers are read like any others;
* a point may follow the third number with nothing behind it, because only the characters of a qualifier
  are looked at, and none of them is wrong.

Both grammars are one `Form`, which differs in what it takes for a number and for a qualifier.  The reader
accepts exactly the wider one (`readParts_eq_ok_iff`), and what it adds is told from the text alone: a plus
sign somewhere, or a point at the end (`documented_iff`).
-/
import FrameworkAdmin.Proofs.Number.Literals
import FrameworkAdmin.Proofs.Version

namespace FrameworkAdmin
namespace Version

open Text

/-! ## 1. The grammar -/

/-- The text of a version in parts: nothing, or up to three numbers and a qualifier with points in
between.  Missing numbers are zero and a missing qualifier is empty. -/
inductive Form (IsNumber : List Char → Int → Prop) (IsQualifier : List Char → Prop) :
    List Char → Version → Prop
  | empty : Form IsNumber IsQualifier [] zero
  | major {a : List Char} {major : Part} (ha : IsNumber a major.val) :
      Form IsNumber IsQualifier a ⟨major, .zero, .zero, ""⟩
  | minor {a b : List Char} {major minor : Part} (ha : IsNumber a major.val)
      (hb : IsNumber b minor.val) :
      Form IsNumber IsQualifier (a ++ '.' :: b) ⟨major, minor, .zero, ""⟩
  | micro {a b c : List Char} {major minor micro : Part} (ha : IsNumber a major.val)
      (hb : IsNumber b minor.val) (hc : IsNumber c micro.val) :
      Form IsNumber IsQualifier (a ++ '.' :: (b ++ '.' :: c)) ⟨major, minor, micro, ""⟩
  | qualifier {a b c q : List Char} {major minor micro : Part} (ha : IsNumber a major.val)
      (hb : IsNumber b minor.val) (hc : IsNumber c micro.val) (hq : IsQualifier q) :
      Form IsNumber IsQualifier (a ++ '.' :: (b ++ '.' :: (c ++ '.' :: q)))
        ⟨major, minor, micro, String.ofList q⟩

/-- A run of the characters of qualifiers. -/
def QualifierRun (q : List Char) : Prop := ∀ c ∈ q, isQualifierChar c = true

/-- A text that is documented to be this version. -/
def Documented : List Char → Version → Prop := Form Numeral fun q => q ≠ [] ∧ QualifierRun q

/-- A number, with a plus sign in front of it or without one. -/
def PlusNumeral (cs : List Char) (i : Int) : Prop := Numeral cs i ∨ ∃ ds, cs = '+' :: ds ∧ Numeral ds i

/-- A text that is taken for this version. -/
def Tolerated : List Char → Version → Prop := Form PlusNumeral QualifierRun

/-! ## 2. Reading -/

variable {place : Place} {cs ds : List Char} {i : Int} {n : Part} {v : Version}

theorem PlusNumeral.literal (h : PlusNumeral cs i) : IntegerLiteral cs i := by
  rcases h with h | ⟨ds, rfl, h⟩
  · exact .bare h
  · exact .plus h

theorem readNumber_eq_ok_iff : Bounded.read (.unsigned 32) cs = .ok n ↔ PlusNumeral cs n.val := by
  rw [Bounded.read_eq_ok_iff]
  constructor
  · rintro ⟨hliteral, hsign⟩
    generalize n.val = i at hliteral
    cases hliteral with
    | bare h => exact Or.inl h
    | plus h => exact Or.inr ⟨_, rfl, h⟩
    | minus h => exact absurd rfl (hsign rfl)
  · intro h
    refine ⟨h.literal, fun _ => ?_⟩
    rcases h with h | ⟨ds, rfl, -⟩
    · exact h.head_ne (by decide)
    · simp

/-- No point belongs to a number. -/
theorem PlusNumeral.ne_point (h : PlusNumeral cs i) : ∀ c ∈ cs, (c == '.') = false := fun c hc => by
  simpa using h.literal.ne_of_mem hc (by decide) (by decide) (by decide)

/-- The number at the front is the whole text, or it ends at a point. -/
theorem readPart_some_eq_ok_iff {rest : Option (List Char)} :
    readPart place (some cs) = .ok (n, rest) ↔
      (PlusNumeral cs n.val ∧ rest = none) ∨
      ∃ part tail, cs = part ++ '.' :: tail ∧ PlusNumeral part n.val ∧ rest = some tail := by
  constructor
  · intro h
    rw [readPart] at h
    simp only at h
    split at h
    · rename_i m hread
      obtain ⟨rfl, rfl⟩ := Prod.mk.inj (Except.ok.inj h)
      rw [readNumber_eq_ok_iff] at hread
      cases hcut : (cut (· == '.') cs).2 with
      | none =>
        rw [fst_cut_of_none hcut] at hread
        exact Or.inl ⟨hread, rfl⟩
      | some tail =>
        obtain ⟨c, hc, hcs⟩ := exists_of_cut hcut
        obtain rfl := beq_iff_eq.1 hc
        exact Or.inr ⟨_, tail, hcs, hread, rfl⟩
    · cases h
  · rintro (⟨h, rfl⟩ | ⟨part, tail, rfl, h, rfl⟩)
    · simp only [readPart, cut_of_forall h.ne_point, readNumber_eq_ok_iff.2 h]
    · simp only [readPart, cut_append_cons h.ne_point (by decide : ('.' == '.') = true),
        readNumber_eq_ok_iff.2 h]

theorem readQualifier_eq_ok_iff {rest : Option (List Char)} {q : String} :
    readQualifier rest = .ok q ↔ QualifierRun (rest.getD []) ∧ q = String.ofList (rest.getD []) := by
  rw [readQualifier]
  split
  · rename_i hall
    have hrun : QualifierRun (rest.getD []) := List.all_eq_true.1 hall
    simp [hrun, eq_comm]
  · rename_i hall
    have hrun : ¬ QualifierRun (rest.getD []) := fun hrun => hall (List.all_eq_true.2 hrun)
    simp [hrun]

/-- The parts are read one after the other, each from what the one before it has left. -/
theorem readParts_steps : readParts cs = .ok v ↔ ∃ r₁ r₂ r₃,
    readPart .major (some cs) = .ok (v.major, r₁) ∧ readPart .minor r₁ = .ok (v.minor, r₂) ∧
      readPart .micro r₂ = .ok (v.micro, r₃) ∧ readQualifier r₃ = .ok v.qualifier := by
  simp only [readParts, bind, Except.bind, pure, Except.pure]
  constructor
  · intro h
    repeat' split at h
    all_goals cases h
    exact ⟨_, _, _, ‹_›, ‹_›, ‹_›, ‹_›⟩
  · rintro ⟨r₁, r₂, r₃, h₁, h₂, h₃, hq⟩
    simp only [h₁, h₂, h₃, hq]

/-- **The reader accepts the tolerated texts and no others.** -/
theorem readParts_eq_ok_iff (hne : cs ≠ []) : readParts cs = .ok v ↔ Tolerated cs v := by
  rw [readParts_steps]
  constructor
  · rintro ⟨r₁, r₂, r₃, h₁, h₂, h₃, hq⟩
    obtain ⟨major, minor, micro, qualifier⟩ := v
    obtain ⟨hrun, rfl⟩ := readQualifier_eq_ok_iff.1 hq
    rcases readPart_some_eq_ok_iff.1 h₁ with ⟨ha, rfl⟩ | ⟨a, tail, rfl, ha, rfl⟩
    · cases h₂
      cases h₃
      exact .major ha
    rcases readPart_some_eq_ok_iff.1 h₂ with ⟨hb, rfl⟩ | ⟨b, tail, rfl, hb, rfl⟩
    · cases h₃
      exact .minor ha hb
    rcases readPart_some_eq_ok_iff.1 h₃ with ⟨hc, rfl⟩ | ⟨c, tail, rfl, hc, rfl⟩
    · exact .micro ha hb hc
    · exact .qualifier ha hb hc hrun
  · have hempty : readQualifier none = .ok "" := rfl
    have hlast {place : Place} {part : List Char} {n : Part} (h : PlusNumeral part n.val) :
        readPart place (some part) = .ok (n, none) := readPart_some_eq_ok_iff.2 (Or.inl ⟨h, rfl⟩)
    have hpoint {place : Place} {part : List Char} {n : Part} (h : PlusNumeral part n.val)
        (tail : List Char) : readPart place (some (part ++ '.' :: tail)) = .ok (n, some tail) :=
      readPart_some_eq_ok_iff.2 (Or.inr ⟨part, tail, rfl, h, rfl⟩)
    intro h
    cases h with
    | empty => exact absurd rfl hne
    | major ha => exact ⟨_, _, _, hlast ha, rfl, rfl, hempty⟩
    | minor ha hb => exact ⟨_, _, _, hpoint ha _, hlast hb, rfl, hempty⟩
    | micro ha hb hc => exact ⟨_, _, _, hpoint ha _, hpoint hb _, hlast hc, hempty⟩
    | qualifier ha hb hc hq =>
      exact ⟨_, _, _, hpoint ha _, hpoint hb _, hpoint hc _, readQualifier_eq_ok_iff.2 ⟨hq, rfl⟩⟩

theorem read_eq_ok_iff {s : String} : read s = .ok v ↔ Tolerated (trim s.toList) v := by
  rw [read]
  split
  · rename_i hempty
    rw [List.isEmpty_iff.1 hempty]
    constructor
    · intro h
      obtain rfl := Except.ok.inj h
      exact .empty
    · intro h
      generalize hnil : ([] : List Char) = cs at h
      cases h with
      | empty => rfl
      | major ha => exact absurd hnil.symm ha.literal.ne_nil
      | minor _ _ => simp at hnil
      | micro _ _ _ => simp at hnil
      | qualifier _ _ _ _ => simp at hnil
  · rename_i hne
    rw [← readParts_eq_ok_iff (by simpa using hne)]
    cases readParts (trim s.toList) <;> simp

/-! ## 3. What is documented -/

/-- The last character of a text with something behind a point is the last one of that. -/
theorem getLast?_append_point {a b : List Char} (hb : b ≠ []) :
    (a ++ '.' :: b).getLast? = b.getLast? := by
  obtain ⟨c, b, rfl⟩ := List.exists_cons_of_ne_nil hb
  rw [List.getLast?_append, List.getLast?_cons_cons, List.getLast?_eq_some_getLast hb, Option.some_or]

/-- Neither a plus sign nor a point belongs to a qualifier. -/
theorem QualifierRun.notMem {q : List Char} (h : QualifierRun q) {c : Char}
    (hc : isQualifierChar c = false) : c ∉ q := fun hmem => by
  rw [h c hmem] at hc
  cases hc

theorem Documented.plus_notMem (h : Documented cs v) : '+' ∉ cs := by
  have hdigit : ('+' : Char).isDigit = false := by decide
  cases h with
  | empty => exact List.not_mem_nil
  | major ha => exact ha.notMem hdigit
  | minor ha hb => simp [ha.notMem hdigit, hb.notMem hdigit]
  | micro ha hb hc => simp [ha.notMem hdigit, hb.notMem hdigit, hc.notMem hdigit]
  | qualifier ha hb hc hq =>
    have hplus := hq.2.notMem (c := '+') (by decide)
    simp [ha.notMem hdigit, hb.notMem hdigit, hc.notMem hdigit, hplus]

/-- No part that is there is empty, and so none is missing behind a point. -/
theorem Documented.getLast?_ne (h : Documented cs v) : cs.getLast? ≠ some '.' := by
  have hnumeral {ds : List Char} {i : Int} (h : Numeral ds i) : ds.getLast? ≠ some '.' := fun hlast =>
    h.notMem (by decide) (List.mem_of_getLast? hlast)
  cases h with
  | empty => simp
  | major ha => exact hnumeral ha
  | minor ha hb =>
    rw [getLast?_append_point hb.1]
    exact hnumeral hb
  | micro ha hb hc =>
    rw [getLast?_append_point (by simp), getLast?_append_point hc.1]
    exact hnumeral hc
  | qualifier ha hb hc hq =>
    rw [getLast?_append_point (by simp), getLast?_append_point (by simp),
      getLast?_append_point hq.1]
    exact fun hlast => hq.2.notMem (by decide) (List.mem_of_getLast? hlast)

theorem Documented.tolerated (h : Documented cs v) : Tolerated cs v := by
  cases h with
  | empty => exact .empty
  | major ha => exact .major (Or.inl ha)
  | minor ha hb => exact .minor (Or.inl ha) (Or.inl hb)
  | micro ha hb hc => exact .micro (Or.inl ha) (Or.inl hb) (Or.inl hc)
  | qualifier ha hb hc hq => exact .qualifier (Or.inl ha) (Or.inl hb) (Or.inl hc) hq.2

/-- Without a plus sign a number is a numeral. -/
theorem PlusNumeral.numeral (h : PlusNumeral cs i) (hplus : '+' ∉ cs) : Numeral cs i := by
  rcases h with h | ⟨ds, rfl, -⟩
  · exact h
  · exact absurd List.mem_cons_self hplus

/-- **The documented texts** are those tolerated ones that have no plus sign and do not end in a point. -/
theorem documented_iff :
    Documented cs v ↔ Tolerated cs v ∧ '+' ∉ cs ∧ cs.getLast? ≠ some '.' := by
  refine ⟨fun h => ⟨h.tolerated, h.plus_notMem, h.getLast?_ne⟩, ?_⟩
  rintro ⟨h, hplus, hlast⟩
  cases h with
  | empty => exact .empty
  | major ha => exact .major (ha.numeral hplus)
  | minor ha hb =>
    simp only [List.mem_append, List.mem_cons, not_or] at hplus
    exact .minor (ha.numeral hplus.1) (hb.numeral hplus.2.2)
  | micro ha hb hc =>
    simp only [List.mem_append, List.mem_cons, not_or] at hplus
    exact .micro (ha.numeral hplus.1) (hb.numeral hplus.2.2.1) (hc.numeral hplus.2.2.2.2)
  | qualifier ha hb hc hq =>
    simp only [List.mem_append, List.mem_cons, not_or] at hplus
    refine .qualifier (ha.numeral hplus.1) (hb.numeral hplus.2.2.1) (hc.numeral hplus.2.2.2.2.1)
      ⟨?_, hq⟩
    rintro rfl
    refine hlast ?_
    rw [getLast?_append_point (by simp), getLast?_append_point (by simp)]
    simp

/-- **Reading a version.**  A text is taken for a version if and only if, blanks around it apart, it is a
tolerated text of that version; and it is a documented text of it if and only if it is taken for it, has no
plus sign, and does not end in a point. -/
theorem read_iff_tolerated (s : String) (v : Version) :
    (read s = .ok v ↔ Tolerated (trim s.toList) v) ∧
    (Documented (trim s.toList) v ↔
      read s = .ok v ∧ '+' ∉ trim s.toList ∧ (trim s.toList).getLast? ≠ some '.') := by
  refine ⟨read_eq_ok_iff, ?_⟩
  rw [read_eq_ok_iff]
  exact documented_iff

/-- A point at the end and a plus sign are tolerated, and no version is documented to look like that. -/
theorem read_undocumented :
    (read "1.2.3." = read "1.2.3" ∧ (read "1.2.3.").isOk = true ∧
      ∀ v, ¬ Documented (trim "1.2.3.".toList) v) ∧
    (read "+1" = read "1" ∧ (read "+1").isOk = true ∧ ∀ v, ¬ Documented (trim "+1".toList) v) :=
  ⟨⟨by decide, by decide, fun _ h => h.getLast?_ne (by decide)⟩,
    ⟨by decide, by decide, fun _ h => h.plus_notMem (by decide)⟩⟩

end Version
end FrameworkAdmin
