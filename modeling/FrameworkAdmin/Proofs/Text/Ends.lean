/-
# The ends of texts

Three readers decide by the ends of a text: trimming takes blanks off them, cutting leaves pieces
without the character that was cut at, and words are the runs between blanks.  This module says what
each of the three leaves behind, and which texts it leaves alone.

* `StartsClear` and `EndsClear` say that no blank stands at one end, `Trimmed` that none stands at
  either.  `trimmed_trim` and `trim_eq_self_iff` tie them to `trim`, whose definition nobody needs
  to open afterwards.
* `Blanks` is a run of blanks.  A run in front of a text is skipped (`trimStart_append`), and
  `blanks_append_trimStart` splits a text at the end of the run in front of it.
* `cut_of_forall` and `cut_append_cons` are the two ways in which a cut at one character ends.
* `words_join`: words without blanks are read back from the text with spaces between them.
-/
import Mathlib.Data.List.TakeWhile
import FrameworkAdmin.Text.Blank
import FrameworkAdmin.Text.Pieces

namespace FrameworkAdmin
namespace Text

/-! ## 1. Clear ends -/

/-- No blank stands at the start. -/
def StartsClear (cs : List Char) : Prop := ∀ c ∈ cs.head?, isBlank c = false

/-- No blank stands at the end. -/
def EndsClear (cs : List Char) : Prop := ∀ c ∈ cs.getLast?, isBlank c = false

/-- No blank stands at either end. -/
def Trimmed (cs : List Char) : Prop := StartsClear cs ∧ EndsClear cs

-- the quantifiers range over all characters, so what is decided is spelled out
instance (cs : List Char) : Decidable (StartsClear cs) :=
  decidable_of_iff (cs.head?.all (!isBlank ·) = true) (by simp [StartsClear, Option.all_eq_true])

instance (cs : List Char) : Decidable (EndsClear cs) :=
  decidable_of_iff (cs.getLast?.all (!isBlank ·) = true) (by simp [EndsClear, Option.all_eq_true])

instance (cs : List Char) : Decidable (Trimmed cs) :=
  inferInstanceAs (Decidable (StartsClear cs ∧ EndsClear cs))

@[simp] theorem startsClear_nil : StartsClear [] := by simp [StartsClear]

@[simp] theorem startsClear_cons {c : Char} {cs : List Char} :
    StartsClear (c :: cs) ↔ isBlank c = false := by
  simp [StartsClear]

/-- A text without blanks has none at its ends. -/
theorem trimmed_of_forall {cs : List Char} (h : ∀ c ∈ cs, isBlank c = false) : Trimmed cs :=
  ⟨fun c hc => h c (List.mem_of_mem_head? hc), fun c hc => h c (List.mem_of_getLast? hc)⟩

/-! ## 2. Trimming -/

theorem trimStart_of_startsClear {cs : List Char} (h : StartsClear cs) : trimStart cs = cs := by
  cases cs with
  | nil => rfl
  | cons c cs => simp [trimStart, startsClear_cons.1 h]

theorem startsClear_trimStart (cs : List Char) : StartsClear (trimStart cs) := by
  induction cs with
  | nil => simp
  | cons c cs ih =>
    cases hc : isBlank c with
    | true => simpa [trimStart, hc] using ih
    | false => simp [trimStart, hc]

/-- What `trimEnd` makes of a text, one character at a time. -/
theorem trimEnd_cons (c : Char) (cs : List Char) :
    trimEnd (c :: cs) =
      if trimEnd cs = [] then if isBlank c then [] else [c] else c :: trimEnd cs := by
  rw [trimEnd]
  cases trimEnd cs <;> simp

/-- Only the end is taken off. -/
theorem trimEnd_isPrefix (cs : List Char) : trimEnd cs <+: cs := by
  induction cs with
  | nil => exact List.prefix_refl _
  | cons c cs ih =>
    rw [trimEnd_cons]
    split
    · split
      · exact List.nil_prefix
      · exact List.cons_prefix_cons.2 ⟨rfl, List.nil_prefix⟩
    · exact List.cons_prefix_cons.2 ⟨rfl, ih⟩

theorem endsClear_trimEnd (cs : List Char) : EndsClear (trimEnd cs) := by
  induction cs with
  | nil => simp [EndsClear]
  | cons c cs ih =>
    rw [trimEnd_cons]
    split
    · cases hc : isBlank c <;> simp [EndsClear, hc]
    · rename_i hne
      rw [EndsClear, List.getLast?_cons_of_ne_nil hne]
      exact ih

theorem trimEnd_of_endsClear {cs : List Char} (h : EndsClear cs) : trimEnd cs = cs := by
  induction cs with
  | nil => rfl
  | cons c cs ih =>
    rw [trimEnd_cons]
    cases cs with
    | nil => simp_all [EndsClear]
    | cons d ds =>
      have hds : trimEnd (d :: ds) = d :: ds := ih (by simpa [EndsClear] using h)
      simp [hds]

/-- The first character stays the first, if anything is left. -/
theorem mem_head?_of_trimEnd {cs : List Char} {c : Char} (h : c ∈ (trimEnd cs).head?) :
    c ∈ cs.head? := by
  obtain ⟨tail, htail⟩ := trimEnd_isPrefix cs
  rw [← htail, List.head?_append, Option.mem_def.1 h]
  rfl

theorem startsClear_trimEnd {cs : List Char} (h : StartsClear cs) : StartsClear (trimEnd cs) :=
  fun c hc => h c (mem_head?_of_trimEnd hc)

/-- A text that starts with no blank does not trim away. -/
theorem trimEnd_ne_nil {cs : List Char} (hne : cs ≠ []) (h : StartsClear cs) :
    trimEnd cs ≠ [] := by
  obtain ⟨c, cs, rfl⟩ := List.exists_cons_of_ne_nil hne
  intro hnil
  have hc := trimEnd_eq_nil_iff.1 hnil c List.mem_cons_self
  rw [startsClear_cons.1 h] at hc
  cases hc

/-- **Trimming leaves no blank at either end.** -/
theorem trimmed_trim (cs : List Char) : Trimmed (trim cs) :=
  ⟨startsClear_trimEnd (startsClear_trimStart cs), endsClear_trimEnd _⟩

/-- **Trimming leaves a text alone exactly when no blank stands at its ends.** -/
theorem trim_eq_self_iff {cs : List Char} : trim cs = cs ↔ Trimmed cs := by
  constructor
  · intro h
    rw [← h]
    exact trimmed_trim cs
  · rintro ⟨hs, he⟩
    rw [trim, trimStart_of_startsClear hs, trimEnd_of_endsClear he]

theorem trim_singleton (c : Char) : trim [c] = if isBlank c then [] else [c] := by
  cases hc : isBlank c <;> simp [trim, trimStart, trimEnd, hc]

theorem mem_of_mem_trim {c : Char} {cs : List Char} (h : c ∈ trim cs) : c ∈ cs :=
  List.dropWhile_subset isBlank ((trimEnd_isPrefix _).subset h)

/-! ## 3. Runs of blanks -/

/-- Every character is a blank. -/
def Blanks (cs : List Char) : Prop := ∀ c ∈ cs, isBlank c = true

@[simp] theorem blanks_nil : Blanks [] := by simp [Blanks]

/-- The blanks in front of a text, and the text after them. -/
theorem blanks_append_trimStart (cs : List Char) :
    ∃ ws, Blanks ws ∧ cs = ws ++ trimStart cs := by
  refine ⟨cs.takeWhile isBlank, ?_, List.takeWhile_append_dropWhile.symm⟩
  intro c hc
  exact List.all_eq_true.1 List.all_takeWhile c hc

/-- Blanks in front of a text are skipped. -/
theorem trimStart_append {ws cs : List Char} (hws : Blanks ws) (hcs : StartsClear cs) :
    trimStart (ws ++ cs) = cs := by
  rw [trimStart, List.dropWhile_append_of_pos hws]
  exact trimStart_of_startsClear hcs

/-- What is left after the blanks in front is the end of the text. -/
theorem trimStart_isSuffix (cs : List Char) : trimStart cs <:+ cs := List.dropWhile_suffix _

/-! ## 4. Pieces -/

/-- No piece contains the separator. -/
theorem not_mem_of_mem_pieces {sep : Char} {cs p : List Char} (h : p ∈ pieces sep cs) :
    sep ∉ p := by
  induction cs generalizing p with
  | nil =>
    rw [pieces_nil, List.mem_singleton] at h
    simp [h]
  | cons c cs ih =>
    obtain ⟨q, qs, hq⟩ := List.exists_cons_of_ne_nil (pieces_ne_nil sep cs)
    by_cases hc : c = sep
    · rw [hc, pieces_cons_self, List.mem_cons] at h
      rcases h with rfl | h
      · exact List.not_mem_nil
      · exact ih h
    · rw [pieces_cons_of_ne hc hq, List.mem_cons] at h
      rcases h with rfl | h
      · have hq' : sep ∉ q := ih (hq ▸ List.mem_cons_self)
        simp [Ne.symm hc, hq']
      · exact ih (hq ▸ List.mem_cons_of_mem _ h)

/-! ## 5. Cuts -/

/-- A text in which no character qualifies is not cut. -/
theorem cut_of_forall {p : Char → Bool} {cs : List Char} (h : ∀ c ∈ cs, p c = false) :
    cut p cs = (cs, none) := by
  have hall : ∀ c ∈ cs, (!p c) = true := fun c hc => by simp [h c hc]
  rw [cut, List.takeWhile_eq_self_iff.2 hall, List.dropWhile_eq_nil_iff.2 hall]

/-- The first character that qualifies is where a text is cut. -/
theorem cut_append_cons {p : Char → Bool} {cs : List Char} (h : ∀ c ∈ cs, p c = false)
    {c : Char} (hc : p c = true) (rest : List Char) :
    cut p (cs ++ c :: rest) = (cs, some rest) := by
  have hall : ∀ c ∈ cs, (!p c) = true := fun c hc => by simp [h c hc]
  rw [cut, List.takeWhile_append_of_pos hall, List.dropWhile_append_of_pos hall]
  simp [hc]

/-- A text that was not cut is the part before the cut. -/
theorem fst_cut_of_none {p : Char → Bool} {cs : List Char} (h : (cut p cs).2 = none) :
    (cut p cs).1 = cs := by
  simp only [cut] at h ⊢
  split at h
  · rename_i hnil
    have happ := List.takeWhile_append_dropWhile (p := fun c => !p c) (l := cs)
    rwa [hnil, List.append_nil] at happ
  · cases h

/-- A text that was cut is put together again by the character at which it was cut. -/
theorem exists_of_cut {p : Char → Bool} {cs rest : List Char} (h : (cut p cs).2 = some rest) :
    ∃ c, p c = true ∧ cs = (cut p cs).1 ++ c :: rest := by
  simp only [cut] at h ⊢
  split at h
  · cases h
  · rename_i c tail htail
    obtain rfl := Option.some.inj h
    have happ := List.takeWhile_append_dropWhile (p := fun c => !p c) (l := cs)
    have hhead := List.head_dropWhile_not (fun c => !p c) (l := cs) (by simp [htail])
    rw [htail] at happ
    simp only [htail, List.head_cons, Bool.not_eq_false'] at hhead
    exact ⟨c, hhead, happ.symm⟩

/-! ## 6. Words -/

/-- A word without blanks is the first word of a text in which a blank follows it. -/
theorem words_append_cons {w : List Char} (hne : w ≠ []) (hw : ∀ c ∈ w, isBlank c = false)
    {b : Char} (hb : isBlank b = true) (cs : List Char) :
    words (w ++ b :: cs) = w :: words cs := by
  induction w with
  | nil => exact absurd rfl hne
  | cons c w ih =>
    have hc : isBlank c = false := hw c List.mem_cons_self
    cases w with
    | nil =>
      rw [List.cons_append, List.nil_append,
        words_cons_of_not_startsWord hc (by simp [startsWord, hb]), words_cons_of_isBlank hb]
    | cons d w =>
      have hd : isBlank d = false := hw d (by simp)
      have hds := ih (by simp) fun x hx => hw x (List.mem_cons_of_mem _ hx)
      rw [List.cons_append, words_cons_of_startsWord hc (by simp [startsWord, hd]), hds]
      rfl

/-- A text without blanks is one word. -/
theorem words_of_forall {w : List Char} (hne : w ≠ []) (hw : ∀ c ∈ w, isBlank c = false) :
    words w = [w] := by
  induction w with
  | nil => exact absurd rfl hne
  | cons c w ih =>
    have hc : isBlank c = false := hw c List.mem_cons_self
    cases w with
    | nil => rw [words_cons_of_not_startsWord hc rfl, words_nil]
    | cons d w =>
      have hd : isBlank d = false := hw d (by simp)
      rw [words_cons_of_startsWord hc (by simp [startsWord, hd]),
        ih (by simp) fun x hx => hw x (List.mem_cons_of_mem _ hx)]
      rfl

/-- **Words with spaces between them are read back.** -/
theorem words_join {ws : List (List Char)}
    (h : ∀ w ∈ ws, w ≠ [] ∧ ∀ c ∈ w, isBlank c = false) : words (join ' ' ws) = ws := by
  induction ws with
  | nil => rfl
  | cons w ws ih =>
    obtain ⟨hne, hw⟩ := h w List.mem_cons_self
    cases ws with
    | nil => exact words_of_forall hne hw
    | cons v vs =>
      rw [join, words_append_cons hne hw (by decide),
        ih fun u hu => h u (List.mem_cons_of_mem _ hu)]

end Text
end FrameworkAdmin
