/-
# Tags are read back from their text

A tag is written as words with spaces between them and read as words, so all that reading it back
needs is that a word is neither empty nor contains a blank.  That is a property of the names of the
kinds, and the only place where the two tables of names are gone through.
-/
import FrameworkAdmin.Property.Tag
import FrameworkAdmin.Proofs.Text.Ends

namespace FrameworkAdmin

/-- A text that is one word: something, without blanks. -/
def IsWord (s : String) : Prop := s.toList ≠ [] ∧ ∀ c ∈ s.toList, Text.isBlank c = false

instance (s : String) : Decidable (IsWord s) :=
  decidable_of_iff (s.toList ≠ [] ∧ s.toList.all (!Text.isBlank ·) = true) (by simp [IsWord])

theorem ScalarKind.isWord_name (k : ScalarKind) : IsWord k.name := by
  cases k <;> decide

theorem PrimitiveKind.isWord_name (k : PrimitiveKind) : IsWord k.name := by
  cases k <;> decide

theorem ElementKind.isWord_name (e : ElementKind) : IsWord e.name := by
  cases e with
  | scalar k => exact k.isWord_name
  | primitive k => exact k.isWord_name

/-- No kind is called like one of the two words that begin a longer tag. -/
theorem ScalarKind.name_ne_shape (k : ScalarKind) : k.name ≠ "Array" ∧ k.name ≠ "Vector" := by
  cases k <;> decide

namespace Tag

theorem isWord_of_mem_words {t : Tag} {w : String} (h : w ∈ t.words) : IsWord w := by
  have harray : IsWord "Array" := by decide
  have hvector : IsWord "Vector" := by decide
  have hof : IsWord "of" := by decide
  cases t with
  | scalar k =>
    obtain rfl := List.mem_singleton.1 h
    exact k.isWord_name
  | array e =>
    simp only [words, List.mem_cons, List.not_mem_nil, or_false] at h
    rcases h with rfl | rfl | rfl
    · exact harray
    · exact hof
    · exact e.isWord_name
  | vector k =>
    simp only [words, List.mem_cons, List.not_mem_nil, or_false] at h
    rcases h with rfl | rfl | rfl
    · exact hvector
    · exact hof
    · exact k.isWord_name

/-- The words of a tag are found in its text. -/
theorem words_text (t : Tag) : (Text.words t.text.toList).map String.ofList = t.words := by
  have htext : t.text.toList = Text.join ' ' (t.words.map String.toList) := by
    rw [text, String.toList_intercalate]
    cases t <;> simp [words, Text.join]
  have hwords : ∀ w ∈ t.words.map String.toList, w ≠ [] ∧ ∀ c ∈ w, Text.isBlank c = false := by
    intro w hw
    obtain ⟨s, hs, rfl⟩ := List.mem_map.1 hw
    exact isWord_of_mem_words hs
  rw [htext, Text.words_join hwords, List.map_map]
  simp

/-- Words that begin with those of a tag are read as the tag, whatever follows. -/
theorem ofWords_append (tag : String) (t : Tag) (rest : List String) :
    ofWords tag (t.words ++ rest) = .ok t := by
  cases t with
  | scalar k =>
    obtain ⟨harray, hvector⟩ := k.name_ne_shape
    simp [words, ofWords, ofScalarKind, harray, hvector]
  | array e => simp [words, ofWords, ofArrayKind]
  | vector k =>
    have h : ElementKind.ofName? k.name = some (.scalar k) := ElementKind.ofName?_name (.scalar k)
    simp [words, ofWords, ofVectorKind, h]

/-- **A tag is read back from its text.** -/
theorem read_text (t : Tag) : read t.text = .ok t := by
  have h := ofWords_append t.text t []
  rwa [List.append_nil, ← words_text] at h

end Tag
end FrameworkAdmin
