/-
# What a list column keeps

A list of scalars is written by joining texts and read by cutting, dropping the empty pieces and
trimming the others.  Two statements about lists of texts say all there is to say about that:

* a token is a listed text (`listed_of_mem_tokens`), whatever the text it was taken from;
* listed texts are the tokens of what they are joined to, except for the empty ones among them
  (`tokens_joinTexts`).

Sections 2 and 3 carry them over to scalars.  `readTokens_joinTexts` is one pass through a column:
listed elements come back settled, without the empty strings.  `separable_of_readTokens` is its
converse: if a list comes back whole, every scalar in it was separable.  Bad elements cannot make up
for one another, because a token that is read too many or too few changes the length of the list.
-/
import FrameworkAdmin.Proofs.Lists
import FrameworkAdmin.Proofs.Property.Scalars

namespace FrameworkAdmin

/-! ## 1. Tokens -/

/-- **Tokens contain no separator and have no blanks at their ends.** -/
theorem listed_of_mem_tokens {text : String} {token : List Char} (h : token ∈ tokens text) :
    Listed token := by
  obtain ⟨p, hp, rfl⟩ := List.mem_map.1 h
  have hmem : p ∈ Text.pieces separator text.toList := (List.mem_filter.1 hp).1
  refine ⟨fun hsep => ?_, Text.trimmed_trim p⟩
  exact Text.not_mem_of_mem_pieces hmem (Text.mem_of_mem_trim hsep)

/-- **Listed texts are read back as tokens, the empty ones dropped.** -/
theorem tokens_joinTexts {texts : List (List Char)} (h : ∀ t ∈ texts, Listed t) :
    tokens (Value.joinTexts texts) = texts.filter (!·.isEmpty) := by
  rw [tokens, Value.joinTexts, String.toList_ofList]
  by_cases hnil : texts = []
  · rw [hnil]
    rfl
  rw [Text.pieces_join hnil fun t ht => (h t ht).1]
  have htrim : ∀ t ∈ texts.filter (!·.isEmpty), Text.trim t = id t := fun t ht =>
    Text.trim_eq_self_iff.2 (h t (List.mem_filter.1 ht).1).2
  rw [List.map_congr_left htrim, List.map_id]

/-! ## 2. Reading a list -/

namespace ElementKind

variable {e : ElementKind}

theorem readToken_eq_ok_iff {token : List Char} {a : e.boxed.Carrier} :
    e.readToken token = .ok a ↔ e.boxed.read token = .ok a := by
  unfold readToken
  split <;> simp_all

theorem readToken_eq_error_iff {token : List Char} {fault : Fault} :
    e.readToken token = .error fault ↔ ∃ cause, e.boxed.read token = .error cause ∧
      fault = .unreadable e (String.ofList token) cause := by
  unfold readToken
  cases e.boxed.read token <;> simp [eq_comm]

/-- **A list is refused for its first token that cannot be read.** -/
theorem readTokens_eq_error_iff {ts : List (List Char)} {fault : Fault} :
    e.readTokens ts = .error fault ↔ ∃ before token after, ts = before ++ token :: after ∧
      (∀ t ∈ before, ∃ a, e.boxed.read t = .ok a) ∧ e.readToken token = .error fault := by
  induction ts with
  | nil => simp [readTokens]
  | cons t ts ih =>
    cases ht : e.readToken t with
    | error f =>
      have hfirst : e.readTokens (t :: ts) = .error fault ↔ e.readToken t = .error fault := by
        simp [readTokens, ht]
      rw [hfirst]
      constructor
      · intro h
        exact ⟨[], t, ts, rfl, by simp, h⟩
      · rintro ⟨before, token, after, hts, hbefore, hfault⟩
        cases before with
        | nil =>
          cases hts
          exact hfault
        | cons u before =>
          cases hts
          obtain ⟨a, ha⟩ := hbefore t List.mem_cons_self
          rw [readToken_eq_ok_iff.2 ha] at ht
          cases ht
    | ok a =>
      have hrest : e.readTokens (t :: ts) = .error fault ↔ e.readTokens ts = .error fault := by
        rw [readTokens, ht]
        cases e.readTokens ts <;> simp
      rw [hrest, ih]
      constructor
      · rintro ⟨before, token, after, rfl, hbefore, hfault⟩
        refine ⟨t :: before, token, after, rfl, fun u hu => ?_, hfault⟩
        rcases List.mem_cons.1 hu with rfl | hu
        · exact ⟨a, readToken_eq_ok_iff.1 ht⟩
        · exact hbefore u hu
      · rintro ⟨before, token, after, hts, hbefore, hfault⟩
        cases before with
        | nil =>
          cases hts
          rw [ht] at hfault
          cases hfault
        | cons u before =>
          cases hts
          exact ⟨before, token, after, rfl, fun u hu => hbefore u (List.mem_cons_of_mem _ hu), hfault⟩

/-- A token that cannot be read is a fault of the element. -/
theorem isElementFault_of_readToken {token : List Char} {fault : Fault}
    (h : e.readToken token = .error fault) : fault.isElementFault = true := by
  obtain ⟨cause, -, rfl⟩ := readToken_eq_error_iff.1 h
  rfl

theorem isElementFault_of_readTokens {ts : List (List Char)} {fault : Fault}
    (h : e.readTokens ts = .error fault) : fault.isElementFault = true := by
  obtain ⟨before, token, after, -, -, hfault⟩ := readTokens_eq_error_iff.1 h
  exact isElementFault_of_readToken hfault

/-- A list is read exactly when each of its tokens is. -/
theorem readTokens_eq_ok_iff {ts : List (List Char)} {as : List e.boxed.Carrier} :
    e.readTokens ts = .ok as ↔ List.Forall₂ (fun t a => e.boxed.read t = .ok a) ts as := by
  induction ts generalizing as with
  | nil => simp [readTokens, eq_comm]
  | cons t ts ih =>
    rw [List.forall₂_cons_left_iff, readTokens]
    cases ht : e.readToken t with
    | error f =>
      have hread : ∀ a, e.boxed.read t ≠ .ok a := fun a ha => by
        simp [readToken_eq_ok_iff.2 ha] at ht
      simp [hread]
    | ok a =>
      have hread := readToken_eq_ok_iff.1 ht
      cases hts : e.readTokens ts with
      | error f =>
        have hrest : ∀ as, ¬ List.Forall₂ (fun t a => e.boxed.read t = .ok a) ts as := fun as has => by
          simp [ih.2 has] at hts
        simp [hrest]
      | ok rest =>
        simp only [Except.ok.injEq]
        constructor
        · rintro rfl
          exact ⟨a, rest, hread, ih.1 hts, rfl⟩
        · rintro ⟨b, bs, hb, hbs, rfl⟩
          obtain rfl : a = b := Except.ok.inj (hread.symm.trans hb)
          obtain rfl : rest = bs := Except.ok.inj (hts.symm.trans (ih.2 hbs))
          rfl

/-- Scalars are read back from their texts, settled. -/
theorem readTokens_map_write (e : ElementKind) (as : List e.boxed.Carrier) :
    e.readTokens (as.map e.boxed.write) = .ok (as.map e.boxed.settle) := by
  rw [readTokens_eq_ok_iff, List.forall₂_map_left_iff, List.forall₂_map_right_iff,
    List.forall₂_same]
  exact fun a _ => e.boxed.read_write a

/-- The elements of a list whose text is not empty. -/
def nonEmpty (e : ElementKind) (as : List e.boxed.Carrier) : List e.boxed.Carrier :=
  as.filter fun a => !(e.boxed.write a).isEmpty

theorem mem_of_mem_nonEmpty {as : List e.boxed.Carrier} {a : e.boxed.Carrier}
    (h : a ∈ e.nonEmpty as) : a ∈ as := (List.mem_filter.1 h).1

/-- A second selection takes nothing away. -/
theorem nonEmpty_settled (as : List e.boxed.Carrier) :
    e.nonEmpty ((e.nonEmpty as).map e.boxed.settle) = (e.nonEmpty as).map e.boxed.settle := by
  refine List.filter_eq_self.2 fun a ha => ?_
  obtain ⟨b, hb, rfl⟩ := List.mem_map.1 ha
  simpa using (List.mem_filter.1 hb).2

theorem map_settle_settle (as : List e.boxed.Carrier) :
    (as.map e.boxed.settle).map e.boxed.settle = as.map e.boxed.settle := by
  simp

/-- What comes out of one pass is fit for another. -/
theorem listed_write_settled {as : List e.boxed.Carrier} (h : ∀ a ∈ as, Listed (e.boxed.write a)) :
    ∀ a ∈ (e.nonEmpty as).map e.boxed.settle, Listed (e.boxed.write a) := by
  intro a ha
  obtain ⟨b, hb, rfl⟩ := List.mem_map.1 ha
  rw [ScalarKind.write_settle]
  exact h b (mem_of_mem_nonEmpty hb)

/-- **One pass through a list column** keeps listed elements, except for the empty strings. -/
theorem readTokens_joinTexts {as : List e.boxed.Carrier}
    (h : ∀ a ∈ as, Listed (e.boxed.write a)) :
    e.readTokens (tokens (Value.joinTexts (as.map e.boxed.write))) =
      .ok ((e.nonEmpty as).map e.boxed.settle) := by
  have htexts : ∀ t ∈ as.map e.boxed.write, Listed t := by
    intro t ht
    obtain ⟨a, ha, rfl⟩ := List.mem_map.1 ht
    exact h a ha
  rw [tokens_joinTexts htexts, List.filter_map]
  exact readTokens_map_write e _

/-- What is read from a list column is written as listed texts. -/
theorem listed_write_of_readTokens {text : String} {as : List e.boxed.Carrier}
    (h : e.readTokens (tokens text) = .ok as) : ∀ a ∈ as, Listed (e.boxed.write a) := by
  exact forall_of_forall₂ (readTokens_eq_ok_iff.1 h)
    (fun _ _ hread hlist => ScalarKind.listed_write_of_read hlist hread)
    fun _ ht => listed_of_mem_tokens ht

end ElementKind

namespace Tag

/-- The kind of the elements, if the values with this tag are lists. -/
def element? : Tag → Option ElementKind
  | .scalar _ => none
  | .array e => some e
  | .vector k => some (.scalar k)

variable {tag : Tag} {e : ElementKind} {text : String} {fault : Fault}

/-- A list is refused as its tokens are, whatever sort of list it is. -/
theorem readValue_eq_error_iff (h : tag.element? = some e) :
    tag.readValue text = .error fault ↔ e.readTokens (tokens text) = .error fault := by
  cases tag with
  | scalar k => cases h
  | array e' =>
    cases h
    rw [readValue]
    cases e.readTokens (tokens text) <;> simp
  | vector k =>
    cases h
    rw [readValue]
    cases (ElementKind.scalar k).readTokens (tokens text) <;> simp

/-- **A value that cannot be read with its tag is a fault of an element.** -/
theorem isElementFault_of_readValue (h : tag.readValue text = .error fault) :
    fault.isElementFault = true := by
  cases helement : tag.element? with
  | some e =>
    exact ElementKind.isElementFault_of_readTokens ((readValue_eq_error_iff helement).1 h)
  | none =>
    cases tag with
    | scalar k =>
      rw [readValue, Scalar.read] at h
      cases htoken : (ElementKind.scalar k).readToken text.toList with
      | ok a =>
        rw [htoken] at h
        cases h
      | error f =>
        rw [htoken] at h
        cases h
        exact ElementKind.isElementFault_of_readToken htoken
    | array e => cases helement
    | vector k => cases helement

end Tag

/-! ## 3. Lists that come back whole -/

namespace Value

theorem sameScalars_iff {as bs : List Scalar} :
    sameScalars as bs = true ↔ List.Forall₂ (fun a b => a.same b = true) as bs := by
  induction as generalizing bs with
  | nil => cases bs <;> simp [sameScalars]
  | cons a as ih => cases bs <;> simp [sameScalars, ih]

theorem sameItems_map_scalar (as bs : List Scalar) :
    sameItems (as.map .scalar) (bs.map .scalar) = sameScalars as bs := by
  induction as generalizing bs with
  | nil => cases bs <;> simp [sameItems, sameScalars]
  | cons a as ih => cases bs <;> simp [sameItems, sameScalars, same, ih]

/-- **A list that comes back whole holds separable scalars of one kind, none of them a NaN.** -/
theorem separable_of_readTokens {e : ElementKind} {ss : List Scalar} {as : List e.boxed.Carrier}
    (h : e.readTokens (tokens (joinTexts (ss.map Scalar.text))) = .ok as)
    (hsame : sameScalars (boxAll e as) ss = true) :
    ∀ s ∈ ss, s.isNaN = false ∧ s.Separable ∧ s.kind = e.boxed := by
  have hall := sameScalars_iff.1 hsame
  have hnan : ∀ s ∈ ss, s.isNaN = false :=
    forall_of_forall₂ (p := fun _ => True) hall (fun _ _ hst _ => Scalar.isNaN_of_same hst)
      fun _ _ => trivial
  have hkind : ∀ s ∈ ss, s.kind = e.boxed := by
    refine forall_of_forall₂ (p := fun s : Scalar => s.kind = e.boxed) hall
      (fun _ _ hst hs => (Scalar.kind_eq_of_same hst).symm.trans hs) fun s hs => ?_
    obtain ⟨a, -, rfl⟩ := List.mem_map.1 hs
    rfl
  have hlisted : ∀ s ∈ ss, Listed s.text := by
    refine forall_of_forall₂ (p := fun s : Scalar => Listed s.text) hall
      (fun _ _ hst hs => Scalar.listed_text_of_same hst hs) fun s hs => ?_
    obtain ⟨a, ha, rfl⟩ := List.mem_map.1 hs
    exact ElementKind.listed_write_of_readTokens h a ha
  -- as many tokens as scalars, so no text was dropped for being empty
  have htexts : ∀ t ∈ ss.map Scalar.text, (!t.isEmpty) = true := by
    refine List.length_filter_eq_length_iff.1 ?_
    rw [← tokens_joinTexts (by simpa using hlisted),
      (ElementKind.readTokens_eq_ok_iff.1 h).length_eq, List.length_map]
    simpa [boxAll] using hall.length_eq
  intro s hs
  have hne : s.text ≠ [] := by
    simpa using htexts s.text (List.mem_map_of_mem hs)
  exact ⟨hnan s hs, Scalar.separable_iff.2 ⟨hne, hlisted s hs⟩, hkind s hs⟩

/-- Scalars of one kind are values of it. -/
theorem exists_boxAll {e : ElementKind} {ss : List Scalar} (h : ∀ s ∈ ss, s.kind = e.boxed) :
    ∃ as, ss = boxAll e as := by
  induction ss with
  | nil => exact ⟨[], rfl⟩
  | cons s ss ih =>
    obtain ⟨as, rfl⟩ := ih fun t ht => h t (List.mem_cons_of_mem _ ht)
    obtain ⟨k, a⟩ := s
    obtain rfl : k = e.boxed := h ⟨k, a⟩ List.mem_cons_self
    exact ⟨a :: as, rfl⟩

theorem map_text_boxAll (e : ElementKind) (as : List e.boxed.Carrier) :
    (boxAll e as).map Scalar.text = as.map e.boxed.write := by
  simp [boxAll, Scalar.text]

/-- **Separable scalars of one kind, none of them a NaN, come back whole.** -/
theorem readTokens_of_separable {e : ElementKind} {as : List e.boxed.Carrier}
    (h : ∀ s ∈ boxAll e as, s.isNaN = false ∧ s.Separable) :
    e.readTokens (tokens (joinTexts (as.map e.boxed.write))) = .ok (as.map e.boxed.settle) ∧
      sameScalars (boxAll e (as.map e.boxed.settle)) (boxAll e as) = true := by
  have htext : ∀ a ∈ as, e.boxed.write a ≠ [] ∧ Listed (e.boxed.write a) := fun a ha =>
    Scalar.separable_iff.1 (h ⟨e.boxed, a⟩ (List.mem_map_of_mem ha)).2
  constructor
  · have hall : e.nonEmpty as = as := by
      refine List.filter_eq_self.2 fun a ha => ?_
      simpa using (htext a ha).1
    rw [ElementKind.readTokens_joinTexts fun a ha => (htext a ha).2, hall]
  · rw [sameScalars_iff, boxAll, boxAll, List.map_map, List.forall₂_map_left_iff,
      List.forall₂_map_right_iff, List.forall₂_same]
    exact fun a ha => Scalar.same_of_agrees (Scalar.agrees_settled _)
      (h ⟨e.boxed, a⟩ (List.mem_map_of_mem ha)).1

end Value
end FrameworkAdmin
