/-
# Which texts are tags, and what is wrong with the others

A text is read as a tag by its words, and nothing is looked at beyond the words of the tag.  So there is
little to choose from, and `Tag.Outcome` lists it: the words begin with those of a tag, or their shape is
not that of one (`Tag.Misshapen`), or a word stands in the place of a kind and is none that can stand there.
The list is complete (`exists_outcome`) and each entry is what the reader answers (`Outcome.ofWords_eq`).
Since the reader answers once, no two entries can meet on one text, and each fault has an exact condition.

A tag that cannot be read is at fault itself, whatever value stands beside it, and a value beside a tag
that can be read is at fault only in its elements.
-/
import FrameworkAdmin.Proofs.Property.Columns
import FrameworkAdmin.Proofs.Property.Tags

namespace FrameworkAdmin

/-! ## 1. Names of kinds -/

namespace ScalarKind

variable {word : String} {k : ScalarKind}

theorem ofName?_eq_some_iff : ofName? word = some k ↔ k.name = word :=
  ⟨name_of_ofName?, fun h => h ▸ ofName?_name k⟩

theorem ofName?_eq_none_iff : ofName? word = none ↔ ∀ k : ScalarKind, k.name ≠ word := by
  simp only [Option.eq_none_iff_forall_ne_some, ne_eq, ofName?_eq_some_iff]

end ScalarKind

namespace ElementKind

variable {word : String} {e : ElementKind}

/-- An element kind has the name that it was found by. -/
theorem name_of_ofName? (h : ofName? word = some e) : e.name = word := by
  unfold ofName? at h
  split at h
  · rename_i k hk
    cases h
    exact ScalarKind.name_of_ofName? hk
  · obtain ⟨k, hk, rfl⟩ := Option.map_eq_some_iff.1 h
    exact PrimitiveKind.name_of_ofName? hk

theorem ofName?_eq_some_iff : ofName? word = some e ↔ e.name = word :=
  ⟨name_of_ofName?, fun h => h ▸ ofName?_name e⟩

theorem ofName?_eq_none_iff : ofName? word = none ↔ ∀ e : ElementKind, e.name ≠ word := by
  simp only [Option.eq_none_iff_forall_ne_some, ne_eq, ofName?_eq_some_iff]

end ElementKind

namespace Tag

/-! ## 2. Outcomes -/

/-- The words of a text. -/
def wordsOf (text : String) : List String := (Text.words text.toList).map String.ofList

/-- The first word of every tag but a bare kind. -/
def IsShape (word : String) : Prop := word = "Array" ∨ word = "Vector"

/-- What is wrong with the shape of these words. -/
inductive Misshapen : List String → TagFlaw → Prop
  | empty : Misshapen [] .empty
  | missingOf {shape : String} {rest : List String} (hshape : IsShape shape)
      (hrest : rest.head? ≠ some "of") : Misshapen (shape :: rest) .missingOf
  | missingArrayKind : Misshapen ["Array", "of"] .missingArrayKind
  | missingVectorKind : Misshapen ["Vector", "of"] .missingVectorKind

/-- What comes of reading these words, which are those of the text `tag`. -/
inductive Outcome (tag : String) : List String → Except Fault Tag → Prop
  | tag (t : Tag) (rest : List String) : Outcome tag (t.words ++ rest) (.ok t)
  | misshapen {words : List String} {flaw : TagFlaw} (h : Misshapen words flaw) :
      Outcome tag words (.error (.malformedTag tag flaw))
  | misplaced (k : PrimitiveKind) (rest : List String) :
      Outcome tag ("Vector" :: "of" :: k.name :: rest) (.error (.misplacedElement k.name))
  | unknownElement {shape word : String} (hshape : IsShape shape)
      (hword : ∀ e : ElementKind, e.name ≠ word) (rest : List String) :
      Outcome tag (shape :: "of" :: word :: rest) (.error (.unknownElement word))
  | unknownScalar {word : String} (hshape : ¬IsShape word) (hword : ∀ k : ScalarKind, k.name ≠ word)
      (rest : List String) : Outcome tag (word :: rest) (.error (.unknownScalar word))

variable {tag : String} {words : List String} {r : Except Fault Tag}

/-- Without `of` the kind is not looked for. -/
theorem ofWords_missingOf {shape : String} {rest : List String} (hshape : IsShape shape)
    (hrest : rest.head? ≠ some "of") :
    ofWords tag (shape :: rest) = .error (.malformedTag tag .missingOf) := by
  have hof : ∀ more, rest ≠ "of" :: more := by
    rintro more rfl
    exact hrest rfl
  rcases hshape with rfl | rfl
  · simp only [ofWords, if_true]
    split
    · exact absurd rfl (hof _)
    · exact absurd rfl (hof _)
    · rfl
  · simp only [ofWords, if_true, if_neg (show "Vector" ≠ "Array" by decide)]
    split
    · exact absurd rfl (hof _)
    · exact absurd rfl (hof _)
    · rfl

/-- **What is listed is what the reader answers.** -/
theorem Outcome.ofWords_eq (h : Outcome tag words r) : ofWords tag words = r := by
  cases h with
  | tag t rest => exact ofWords_append tag t rest
  | misshapen h =>
    cases h with
    | empty => rfl
    | missingOf hshape hrest => exact ofWords_missingOf hshape hrest
    | missingArrayKind => rfl
    | missingVectorKind => rfl
  | misplaced k rest =>
    have hname : ElementKind.ofName? k.name = some (.primitive k) :=
      ElementKind.ofName?_name (.primitive k)
    simp [ofWords, ofVectorKind, hname]
  | unknownElement hshape hword rest =>
    have hnone := ElementKind.ofName?_eq_none_iff.2 hword
    rcases hshape with rfl | rfl
    · simp [ofWords, ofArrayKind, hnone]
    · simp [ofWords, ofVectorKind, hnone]
  | unknownScalar hshape hword rest =>
    rw [IsShape, not_or] at hshape
    have hnone := ScalarKind.ofName?_eq_none_iff.2 hword
    simp [ofWords, ofScalarKind, hshape.1, hshape.2, hnone]

/-- The outcomes after a word that asks for a kind. -/
theorem exists_outcome_of_isShape {shape : String} (hshape : IsShape shape) (rest : List String) :
    ∃ r, Outcome tag (shape :: rest) r := by
  by_cases hof : rest.head? = some "of"
  swap
  · exact ⟨_, .misshapen (.missingOf hshape hof)⟩
  obtain ⟨more, rfl⟩ := List.head?_eq_some_iff.1 hof
  cases more with
  | nil =>
    rcases hshape with rfl | rfl
    · exact ⟨_, .misshapen .missingArrayKind⟩
    · exact ⟨_, .misshapen .missingVectorKind⟩
  | cons word more =>
    cases hname : ElementKind.ofName? word with
    | none => exact ⟨_, .unknownElement hshape (ElementKind.ofName?_eq_none_iff.1 hname) more⟩
    | some e =>
      obtain rfl := ElementKind.name_of_ofName? hname
      rcases hshape with rfl | rfl
      · exact ⟨_, .tag (.array e) more⟩
      · cases e with
        | scalar k => exact ⟨_, .tag (.vector k) more⟩
        | primitive k => exact ⟨_, .misplaced k more⟩

/-- **The list of outcomes is complete.** -/
theorem exists_outcome (tag : String) (words : List String) : ∃ r, Outcome tag words r := by
  cases words with
  | nil => exact ⟨_, .misshapen .empty⟩
  | cons first rest =>
    by_cases hshape : IsShape first
    · exact exists_outcome_of_isShape hshape rest
    · cases hname : ScalarKind.ofName? first with
      | none => exact ⟨_, .unknownScalar hshape (ScalarKind.ofName?_eq_none_iff.1 hname) rest⟩
      | some k =>
        obtain rfl := ScalarKind.name_of_ofName? hname
        exact ⟨_, .tag (.scalar k) rest⟩

theorem wordsOf_text (t : Tag) : wordsOf t.text = t.words := words_text t

/-- **Reading is the outcome of the words.** -/
theorem read_eq_iff : read tag = r ↔ Outcome tag (wordsOf tag) r := by
  constructor
  · rintro rfl
    obtain ⟨r, hr⟩ := exists_outcome tag (wordsOf tag)
    have heq : read tag = r := hr.ofWords_eq
    exact heq ▸ hr
  · exact Outcome.ofWords_eq

/-! ## 3. Each outcome and its condition -/

namespace Outcome

/-- **The words begin with those of the tag that is read.** -/
theorem ok_iff {t : Tag} : Outcome tag words (.ok t) ↔ t.words <+: words := by
  constructor
  · intro h
    cases h
    exact List.prefix_append _ _
  · rintro ⟨rest, rfl⟩
    exact .tag t rest

theorem malformedTag_iff {whole : String} {flaw : TagFlaw} :
    Outcome tag words (.error (.malformedTag whole flaw)) ↔ whole = tag ∧ Misshapen words flaw := by
  constructor
  · intro h
    cases h with
    | misshapen h => exact ⟨rfl, h⟩
  · rintro ⟨rfl, h⟩
    exact .misshapen h

theorem misplacedElement_iff {word : String} :
    Outcome tag words (.error (.misplacedElement word)) ↔
      (∃ k : PrimitiveKind, k.name = word) ∧ ["Vector", "of", word] <+: words := by
  constructor
  · intro h
    cases h with
    | misplaced k rest => exact ⟨⟨k, rfl⟩, rest, rfl⟩
  · rintro ⟨⟨k, rfl⟩, rest, rfl⟩
    exact .misplaced k rest

theorem unknownElement_iff {word : String} :
    Outcome tag words (.error (.unknownElement word)) ↔ (∀ e : ElementKind, e.name ≠ word) ∧
      (["Array", "of", word] <+: words ∨ ["Vector", "of", word] <+: words) := by
  constructor
  · intro h
    cases h with
    | unknownElement hshape hword rest =>
      refine ⟨hword, ?_⟩
      rcases hshape with rfl | rfl
      · exact .inl ⟨rest, rfl⟩
      · exact .inr ⟨rest, rfl⟩
  · rintro ⟨hword, ⟨rest, rfl⟩ | ⟨rest, rfl⟩⟩
    · exact .unknownElement (.inl rfl) hword rest
    · exact .unknownElement (.inr rfl) hword rest

theorem unknownScalar_iff {word : String} :
    Outcome tag words (.error (.unknownScalar word)) ↔ words.head? = some word ∧ ¬IsShape word ∧
      ∀ k : ScalarKind, k.name ≠ word := by
  constructor
  · intro h
    cases h with
    | unknownScalar hshape hword rest => exact ⟨rfl, hshape, hword⟩
  · rintro ⟨hhead, hshape, hword⟩
    obtain ⟨rest, rfl⟩ := List.head?_eq_some_iff.1 hhead
    exact .unknownScalar hshape hword rest

theorem isTagFault {fault : Fault} (h : Outcome tag words (.error fault)) : fault.isTagFault = true := by
  cases h <;> rfl

end Outcome

/-- Words have the wrong shape if there are none, or if `Array` or `Vector` is not followed by `of` and one
more word. -/
theorem exists_misshapen_iff : (∃ flaw, Misshapen words flaw) ↔
    words = [] ∨ (words[0]? = some "Array" ∨ words[0]? = some "Vector") ∧
      (words[1]? ≠ some "of" ∨ words[2]? = none) := by
  constructor
  · rintro ⟨flaw, h⟩
    cases h with
    | empty => exact .inl rfl
    | @missingOf shape rest hshape hrest =>
      refine .inr ⟨?_, .inl ?_⟩
      · simpa [IsShape] using hshape
      · simpa [List.head?_eq_getElem?] using hrest
    | missingArrayKind => exact .inr ⟨.inl rfl, .inr rfl⟩
    | missingVectorKind => exact .inr ⟨.inr rfl, .inr rfl⟩
  · rintro (rfl | ⟨hfirst, hrest⟩)
    · exact ⟨_, .empty⟩
    cases words with
    | nil => simp at hfirst
    | cons shape rest =>
      have hshape : IsShape shape := by simpa [IsShape] using hfirst
      by_cases hof : rest.head? = some "of"
      swap
      · exact ⟨_, .missingOf hshape hof⟩
      obtain ⟨more, rfl⟩ := List.head?_eq_some_iff.1 hof
      obtain rfl : more = [] := by simpa using hrest
      rcases hshape with rfl | rfl
      · exact ⟨_, .missingArrayKind⟩
      · exact ⟨_, .missingVectorKind⟩

/-- **A tag that cannot be read is at fault itself.** -/
theorem isTagFault_of_read {fault : Fault} (h : read tag = .error fault) : fault.isTagFault = true :=
  (read_eq_iff.1 h).isTagFault

/-! ## 4. Tags beside values -/

theorem not_isTagFault_of_isElementFault {fault : Fault} (h : fault.isElementFault = true) :
    fault.isTagFault = false := by
  cases fault <;> first | rfl | cases h

/-- **The fault of a value is that of its tag, or the tag is read and an element is at fault.** -/
theorem readValue_or_read_of_error {text : String} {fault : Fault}
    (h : Value.read tag text = .error fault) :
    read tag = .error fault ∨
      (∃ t, read tag = .ok t) ∧ fault.isElementFault = true ∧ fault.isTagFault = false := by
  unfold Value.read at h
  split at h
  · rename_i t ht
    have helement := isElementFault_of_readValue h
    exact .inr ⟨⟨t, ht⟩, helement, not_isTagFault_of_isElementFault helement⟩
  · rename_i htag
    cases h
    exact .inl htag

/-- **The words of a text decide whether it is a tag, which one, and what is wrong with it otherwise.**  The
words after those of the tag do not count.  Beside a text that is no tag every value is refused with the
fault of the tag, and beside a tag only for an element. -/
theorem read_decided_by_words (tag : String) :
    (∀ t, read tag = .ok t ↔ wordsOf t.text <+: wordsOf tag) ∧
    ((∃ whole flaw, read tag = .error (.malformedTag whole flaw)) ↔
      wordsOf tag = [] ∨ ((wordsOf tag)[0]? = some "Array" ∨ (wordsOf tag)[0]? = some "Vector") ∧
        ((wordsOf tag)[1]? ≠ some "of" ∨ (wordsOf tag)[2]? = none)) ∧
    (∀ whole flaw, read tag = .error (.malformedTag whole flaw) ↔
      whole = tag ∧ Misshapen (wordsOf tag) flaw) ∧
    (∀ word, read tag = .error (.misplacedElement word) ↔
      (∃ k : PrimitiveKind, k.name = word) ∧ ["Vector", "of", word] <+: wordsOf tag) ∧
    (∀ word, read tag = .error (.unknownElement word) ↔ (∀ e : ElementKind, e.name ≠ word) ∧
      (["Array", "of", word] <+: wordsOf tag ∨ ["Vector", "of", word] <+: wordsOf tag)) ∧
    (∀ word, read tag = .error (.unknownScalar word) ↔ (wordsOf tag).head? = some word ∧
      ¬(word = "Array" ∨ word = "Vector") ∧ ∀ k : ScalarKind, k.name ≠ word) ∧
    (∀ fault, read tag = .error fault → fault.isTagFault = true) ∧
    ∀ text,
      ((∃ fault, Value.read tag text = .error fault ∧ fault.isTagFault = true) ↔
        ∀ t, read tag ≠ .ok t) ∧
      ∀ fault, Value.read tag text = .error fault → read tag = .error fault ∨
        (∃ t, read tag = .ok t) ∧ fault.isElementFault = true ∧ fault.isTagFault = false := by
  refine ⟨fun t => ?_, ?_, fun whole flaw => read_eq_iff.trans Outcome.malformedTag_iff,
    fun word => read_eq_iff.trans Outcome.misplacedElement_iff,
    fun word => read_eq_iff.trans Outcome.unknownElement_iff,
    fun word => read_eq_iff.trans Outcome.unknownScalar_iff, fun fault => isTagFault_of_read,
    fun text => ⟨?_, fun fault => readValue_or_read_of_error⟩⟩
  · rw [wordsOf_text]
    exact read_eq_iff.trans Outcome.ok_iff
  · simp only [read_eq_iff, Outcome.malformedTag_iff, ← exists_misshapen_iff, exists_and_left,
      exists_eq_left]
  · constructor
    · rintro ⟨fault, hfault, hstage⟩ t ht
      rcases readValue_or_read_of_error hfault with htag | ⟨-, -, helement⟩
      · rw [ht] at htag
        cases htag
      · rw [hstage] at helement
        cases helement
    · intro hnone
      cases htag : read tag with
      | ok t => exact absurd htag (hnone t)
      | error fault =>
        refine ⟨fault, ?_, isTagFault_of_read htag⟩
        rw [Value.read, htag]

/-- A tag with a word too many is still a tag, beside which only the value can be refused. -/
theorem read_decided_by_words_trailing :
    read "Array\tof  long integers" = .ok (.array (.primitive .long)) ∧
    (read "Vector of long" = .error (.misplacedElement "long") ∧
      (Fault.misplacedElement "long").isTagFault = true) ∧
    Value.read "Array\tof  long integers" "1,two" =
      .error (.unreadable (.primitive .long) "two" .strayCharacter) ∧
    (Fault.unreadable (.primitive .long) "two" .strayCharacter).isTagFault = false := by
  obtain ⟨htag, -, -, -, -, -, -, hvalue⟩ := read_decided_by_words "Array\tof  long integers"
  obtain ⟨-, -, -, -, -, -, hfault, -⟩ := read_decided_by_words "Vector of long"
  have hread := (htag (.array (.primitive .long))).2 ⟨["integers"], rfl⟩
  have hunreadable : Value.read "Array\tof  long integers" "1,two" =
      .error (.unreadable (.primitive .long) "two" .strayCharacter) := rfl
  refine ⟨hread, ⟨rfl, hfault _ rfl⟩, hunreadable, ?_⟩
  rcases (hvalue _).2 _ hunreadable with htag | ⟨-, -, hstage⟩
  · rw [hread] at htag
    cases htag
  · exact hstage

end Tag
end FrameworkAdmin
