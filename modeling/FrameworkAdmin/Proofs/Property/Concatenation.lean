/-
# Lists one after another

The text of a list has no frame around it: elements stand between separators and that is all.  So two
lists can be put one behind the other on either side of the codec, with a separator between their texts,
and nothing that happens on one side of the separator is noticed on the other.

* Reading cuts at the separator whatever stands around it (`tokens_append`), an empty piece beside it is
  dropped, and the elements are read from left to right.  Hence the list of the whole text is the one list
  and then the other, and the fault of the whole text is the first that either of them has.
* Writing puts a separator between neighbours (`joinTexts_append`), so there is one between two lists unless
  one of them has no elements.  A vector is tagged by its first scalar, so the second list says the kind
  only if the first is empty.

Which fault that is, is said without the reader: it names the first token that its kind cannot read
(`readValue_eq_error_iff`).  Strings and booleans read everything.
-/
import FrameworkAdmin.Proofs.Property.Dictionaries

namespace FrameworkAdmin

/-! ## 1. Texts -/

namespace Text

/-- **A separator cuts two texts apart, whatever they are.** -/
theorem pieces_append_separator (sep : Char) (cs ds : List Char) :
    pieces sep (cs ++ sep :: ds) = pieces sep cs ++ pieces sep ds := by
  induction cs with
  | nil => exact pieces_cons_self sep ds
  | cons c cs ih =>
    rw [List.cons_append]
    by_cases hc : c = sep
    · rw [hc, pieces_cons_self, pieces_cons_self, ih, List.cons_append]
    · obtain ⟨p, ps, hps⟩ := List.exists_cons_of_ne_nil (pieces_ne_nil sep cs)
      have hboth : pieces sep (cs ++ sep :: ds) = p :: (ps ++ pieces sep ds) := by
        rw [ih, hps, List.cons_append]
      rw [pieces_cons_of_ne hc hboth, pieces_cons_of_ne hc hps, List.cons_append]

/-- Two lists of pieces, neither of them empty, have a separator between them. -/
theorem join_append (sep : Char) {ps qs : List (List Char)} (hps : ps ≠ []) (hqs : qs ≠ []) :
    join sep (ps ++ qs) = join sep ps ++ sep :: join sep qs := by
  induction ps with
  | nil => exact absurd rfl hps
  | cons p ps ih =>
    cases ps with
    | nil =>
      obtain ⟨q, qs, rfl⟩ := List.exists_cons_of_ne_nil hqs
      rfl
    | cons r rs =>
      have hrest := ih (by simp)
      rw [List.cons_append] at hrest
      rw [List.cons_append, List.cons_append, join, hrest, join, List.append_assoc, List.cons_append]

end Text

theorem toList_append_separator (a b : String) :
    (a ++ "," ++ b).toList = a.toList ++ separator :: b.toList := by
  simp [separator]

/-- **The tokens of two texts are those of the one and then those of the other.** -/
theorem tokens_append (a b : String) : tokens (a ++ "," ++ b) = tokens a ++ tokens b := by
  rw [tokens, toList_append_separator, Text.pieces_append_separator, List.filter_append, List.map_append]
  rfl

/-- **There is a separator between two lists of texts, unless one of them is empty.** -/
theorem Value.joinTexts_append (ps qs : List (List Char)) :
    joinTexts (ps ++ qs) =
      if ps = [] then joinTexts qs else if qs = [] then joinTexts ps
      else joinTexts ps ++ "," ++ joinTexts qs := by
  by_cases hps : ps = []
  · rw [if_pos hps, hps, List.nil_append]
  by_cases hqs : qs = []
  · rw [if_neg hps, if_pos hqs, hqs, List.append_nil]
  rw [if_neg hps, if_neg hqs]
  refine String.toList_inj.1 ?_
  rw [toList_append_separator]
  simp only [joinTexts, String.toList_ofList, Text.join_append separator hps hqs]

/-! ## 2. Elements -/

namespace ElementKind

variable {e : ElementKind} {ts us : List (List Char)} {as bs : List e.boxed.Carrier} {fault : Fault}

/-- After a list that was read the others are read as they are alone. -/
theorem readTokens_append_of_ok (hts : e.readTokens ts = .ok as) (us : List (List Char)) :
    e.readTokens (ts ++ us) = (e.readTokens us).map (as ++ ·) := by
  induction ts generalizing as with
  | nil =>
    cases hts
    rw [List.nil_append]
    cases e.readTokens us <;> rfl
  | cons t ts ih =>
    obtain ⟨a, rest, ht, hrest, rfl⟩ := List.forall₂_cons_left_iff.1 (readTokens_eq_ok_iff.1 hts)
    rw [List.cons_append, readTokens, readToken_eq_ok_iff.2 ht, ih (readTokens_eq_ok_iff.2 hrest)]
    cases e.readTokens us <;> rfl

/-- A fault in front hides what comes after it. -/
theorem readTokens_append_of_error (hts : e.readTokens ts = .error fault) (us : List (List Char)) :
    e.readTokens (ts ++ us) = .error fault := by
  obtain ⟨before, token, after, rfl, hbefore, hfault⟩ := readTokens_eq_error_iff.1 hts
  exact readTokens_eq_error_iff.2 ⟨before, token, after ++ us, by simp, hbefore, hfault⟩

/-- Strings and booleans are read from every token. -/
theorem exists_readTokens (he : e.boxed = .string ∨ e.boxed = .boolean) (ts : List (List Char)) :
    ∃ as, e.readTokens ts = .ok as := by
  have hread (k : ScalarKind) (hk : k = .string ∨ k = .boolean) (cs : List Char) :
      ∃ a, k.read cs = .ok a := by
    rcases hk with rfl | rfl
    · exact ⟨_, rfl⟩
    · exact ⟨_, rfl⟩
  cases h : e.readTokens ts with
  | ok as => exact ⟨as, rfl⟩
  | error fault =>
    obtain ⟨before, token, after, -, -, hfault⟩ := readTokens_eq_error_iff.1 h
    obtain ⟨cause, hcause, -⟩ := readToken_eq_error_iff.1 hfault
    obtain ⟨a, ha⟩ := hread e.boxed he token
    rw [ha] at hcause
    cases hcause

end ElementKind

/-! ## 3. Lists -/

/-- The third list is the first and then the second, all of one sort. -/
inductive Value.Concat : Value → Value → Value → Prop
  | array (e : ElementKind) (as bs : List e.boxed.Carrier) :
      Concat (.array e as) (.array e bs) (.array e (as ++ bs))
  | vector (items more : List Value) : Concat (.vector items) (.vector more) (.vector (items ++ more))

namespace Tag

variable {tag : Tag} {e : ElementKind} {a b text : String} {v w : Value} {fault : Fault}

/-- The kind that the elements are read as is the one that the tag names. -/
theorem getLast?_words (h : tag.element? = some e) : tag.words.getLast? = some e.name := by
  cases tag with
  | scalar k => cases h
  | array e' =>
    cases h
    rfl
  | vector k =>
    cases h
    rfl

/-- **The list of two texts is the list of the one and then that of the other.** -/
theorem readValue_append_of_ok (h : tag.element? = some e) (ha : tag.readValue a = .ok v)
    (hb : tag.readValue b = .ok w) :
    ∃ u, Value.Concat v w u ∧ tag.readValue (a ++ "," ++ b) = .ok u := by
  cases tag with
  | scalar k => cases h
  | array e' =>
    obtain ⟨as, has, rfl⟩ := Value.readValue_array_eq_ok_iff.1 ha
    obtain ⟨bs, hbs, rfl⟩ := Value.readValue_array_eq_ok_iff.1 hb
    refine ⟨_, .array e' as bs, Value.readValue_array_eq_ok_iff.2 ⟨as ++ bs, ?_, rfl⟩⟩
    rw [tokens_append, ElementKind.readTokens_append_of_ok has, hbs]
    rfl
  | vector k =>
    obtain ⟨as, has, rfl⟩ := Value.readValue_vector_eq_ok_iff.1 ha
    obtain ⟨bs, hbs, rfl⟩ := Value.readValue_vector_eq_ok_iff.1 hb
    refine ⟨_, .vector _ _, Value.readValue_vector_eq_ok_iff.2 ⟨as ++ bs, ?_, ?_⟩⟩
    · rw [tokens_append, ElementKind.readTokens_append_of_ok has, hbs]
      rfl
    · simp [Value.boxAll]

/-- **The first fault of two texts is that of the one, if it has any.** -/
theorem readValue_append_of_error (h : tag.element? = some e) (ha : tag.readValue a = .error fault)
    (b : String) : tag.readValue (a ++ "," ++ b) = .error fault := by
  rw [readValue_eq_error_iff h] at *
  rw [tokens_append]
  exact ElementKind.readTokens_append_of_error ha _

/-- **And otherwise that of the other.** -/
theorem readValue_append_of_ok_of_error (h : tag.element? = some e) (ha : tag.readValue a = .ok v)
    (hb : tag.readValue b = .error fault) : tag.readValue (a ++ "," ++ b) = .error fault := by
  rw [readValue_eq_error_iff h] at *
  cases has : e.readTokens (tokens a) with
  | error fault' =>
    rw [(readValue_eq_error_iff h).2 has] at ha
    cases ha
  | ok as =>
    rw [tokens_append, ElementKind.readTokens_append_of_ok has, hb]
    rfl

/-- **A list is refused for its first token that cannot be read, and named after the kind in the tag.** -/
theorem readValue_eq_unreadable_iff (h : tag.element? = some e) :
    tag.readValue text = .error fault ↔ ∃ before token after cause,
      tokens text = before ++ token :: after ∧ (∀ t ∈ before, ∃ a, e.boxed.read t = .ok a) ∧
        e.boxed.read token = .error cause ∧ fault = .unreadable e (String.ofList token) cause := by
  rw [readValue_eq_error_iff h, ElementKind.readTokens_eq_error_iff]
  simp only [ElementKind.readToken_eq_error_iff, exists_and_left]

/-- **Lists of strings and of booleans are read from every text.** -/
theorem exists_readValue (h : tag.element? = some e) (he : e.boxed = .string ∨ e.boxed = .boolean)
    (text : String) : ∃ v, tag.readValue text = .ok v := by
  cases hread : tag.readValue text with
  | ok v => exact ⟨v, rfl⟩
  | error fault =>
    obtain ⟨as, has⟩ := ElementKind.exists_readTokens he (tokens text)
    rw [readValue_eq_error_iff h, has] at hread
    cases hread

end Tag

namespace Value

variable {x y z : Value}

/-- A vector that can be written holds scalars only. -/
theorem exists_scalars_of_tabular {items : List Value} (h : Tabular (.vector items)) :
    ∃ ss : List Scalar, items = ss.map .scalar := by
  cases hscalars : vectorScalars items with
  | ok ss => exact ⟨ss, vectorScalars_eq_ok_iff.1 hscalars⟩
  | error item =>
    obtain ⟨before, after, rfl, hnone⟩ := vectorScalars_eq_error_iff.1 hscalars
    have hsome := h item (by simp)
    rw [hnone] at hsome
    cases hsome

theorem write_vector (key : String) (ss : List Scalar) :
    write key (.vector (ss.map .scalar)) = .ok (joinTexts (ss.map Scalar.text), .vector (vectorKind ss)) := by
  rw [write, vectorScalars_eq_ok_iff.2 rfl]

theorem vectorKind_append (ss ts : List Scalar) :
    vectorKind (ss ++ ts) = if ss = [] then vectorKind ts else vectorKind ss := by
  cases ss <;> rfl

/-- **The text of two lists is that of the one, a separator and that of the other**, unless one is empty.
The tag is that of the first list with anything in it. -/
theorem Concat.write (h : Concat x y z) (hx : x.Tabular) (hy : y.Tabular) (key : String) :
    ∃ first tag second more, x.write key = .ok (first, tag) ∧ y.write key = .ok (second, more) ∧
      z.write key = .ok
        (if x.scalars = [] then second else if y.scalars = [] then first else first ++ "," ++ second,
          if x.scalars = [] then more else tag) := by
  cases h with
  | array e as bs =>
    refine ⟨_, _, _, _, rfl, rfl, ?_⟩
    simp [Value.write, scalars, boxAll, joinTexts_append]
  | vector items more =>
    obtain ⟨ss, rfl⟩ := exists_scalars_of_tabular hx
    obtain ⟨ts, rfl⟩ := exists_scalars_of_tabular hy
    refine ⟨_, _, _, _, write_vector key ss, write_vector key ts, ?_⟩
    rw [← List.map_append, write_vector, List.map_append, joinTexts_append, vectorKind_append]
    simp only [scalars, filterMap_scalar?, List.map_eq_nil_iff, apply_ite Tag.vector]

end Value

/-! ## 4. Both directions -/

/-- **Lists are put one after another on both sides of the codec alike.**  Two texts with a separator between
them are read as the one list and then the other, or refused for the first fault in them, which names the
first token that the kind in the tag cannot read; lists of strings or booleans are never refused.  Two lists
are written as their texts with a separator between them, or as one of them if the other is empty. -/
theorem lists_concatenate :
    (∀ (tag : Tag) (e : ElementKind), tag.element? = some e →
      tag.words.getLast? = some e.name ∧
      (∀ a b,
        (∀ v w, tag.readValue a = .ok v → tag.readValue b = .ok w →
          ∃ u, Value.Concat v w u ∧ tag.readValue (a ++ "," ++ b) = .ok u) ∧
        (∀ fault, tag.readValue a = .error fault → tag.readValue (a ++ "," ++ b) = .error fault) ∧
        ∀ v fault, tag.readValue a = .ok v → tag.readValue b = .error fault →
          tag.readValue (a ++ "," ++ b) = .error fault) ∧
      (∀ text fault, tag.readValue text = .error fault ↔ ∃ before token after cause,
        tokens text = before ++ token :: after ∧ (∀ t ∈ before, ∃ a, e.boxed.read t = .ok a) ∧
          e.boxed.read token = .error cause ∧ fault = .unreadable e (String.ofList token) cause) ∧
      (e.boxed = .string ∨ e.boxed = .boolean → ∀ text, ∃ v, tag.readValue text = .ok v)) ∧
    ∀ (x y z : Value) (key : String), Value.Concat x y z → x.Tabular → y.Tabular →
      ∃ first tag second more, x.write key = .ok (first, tag) ∧ y.write key = .ok (second, more) ∧
        z.write key = .ok
          (if x.scalars = [] then second else if y.scalars = [] then first else first ++ "," ++ second,
            if x.scalars = [] then more else tag) := by
  constructor
  · intro tag e h
    refine ⟨Tag.getLast?_words h, fun a b => ⟨?_, ?_, ?_⟩,
      fun text fault => Tag.readValue_eq_unreadable_iff h, fun he => Tag.exists_readValue h he⟩
    · intro v w hv hw
      exact Tag.readValue_append_of_ok h hv hw
    · intro fault ha
      exact Tag.readValue_append_of_error h ha b
    · intro v fault hv hb
      exact Tag.readValue_append_of_ok_of_error h hv hb
  · intro x y z key h hx hy
    exact h.write hx hy key

/-- Stray separators and blanks at the seam, a fault on either side of it, and an empty vector in front. -/
theorem lists_concatenate_seams :
    (∃ u, Value.Concat (.vector [.scalar ⟨.bigInteger, 1⟩]) (.vector [.scalar ⟨.bigInteger, 2⟩]) u ∧
      Tag.readValue (.vector .bigInteger) ("1," ++ "," ++ ", 2 ") = .ok u) ∧
    Tag.readValue (.array (.primitive .long)) ("1, x" ++ "," ++ "y") =
      .error (.unreadable (.primitive .long) "x" .strayCharacter) ∧
    Tag.readValue (.array (.primitive .long)) (" 1" ++ "," ++ " ") =
      .error (.unreadable (.primitive .long) "" .emptyInteger) ∧
    (∃ v, Tag.readValue (.array (.primitive .boolean)) "yes,, " = .ok v) ∧
    Value.write "key" (.vector [.ofBool true]) = .ok ("true", .vector .boolean) := by
  obtain ⟨hread, hwrite⟩ := lists_concatenate
  obtain ⟨-, hvector, -⟩ := hread (.vector .bigInteger) _ rfl
  obtain ⟨-, hlong, -⟩ := hread (.array (.primitive .long)) _ rfl
  obtain ⟨-, -, -, hboolean⟩ := hread (.array (.primitive .boolean)) _ rfl
  refine ⟨(hvector _ _).1 _ _ rfl rfl, (hlong _ _).2.1 _ rfl, (hlong _ _).2.2 _ _ rfl rfl,
    hboolean (.inr rfl) _, ?_⟩
  obtain ⟨first, tag, second, more, -, hsecond, hboth⟩ := hwrite (.vector []) (.vector [.ofBool true]) _
    "key" (.vector _ _) (by simp [Value.Tabular]) (by simp [Value.Tabular, Value.ofBool, Value.scalar?])
  cases hsecond
  exact hboth

end FrameworkAdmin
