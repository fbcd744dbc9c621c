/-
# Printing a filter and reading it again

`Filter.text` writes every filter, and not every text that it writes is read back.  `WellFormed` says
exactly which filters are: a composite has operands, an attribute is what is left of one after
trimming, a substring has a wildcard and something besides, and parentheses are not nested too deep.
Values and parts are arbitrary, since whatever could be misread in them is escaped.

Both directions go through the grammar.  A well-formed filter has a tree of its own, the one without
blanks in which just the special characters are escaped, and its text is the text of the filter
(`chars_treeOf`).  Conversely the filter of any valid tree is well formed, so that nothing else is ever
read, from a printed text or from any other.
-/
import FrameworkAdmin.Proofs.Filter.Reading

namespace FrameworkAdmin
namespace Filter

open Text

/-! ## 1. Well-formed filters -/

/-- An attribute as it stands in a filter: a run of characters that could be read as one, without
blanks at its end. -/
def IsAttribute (attr : String) : Prop := AttributeRun attr.toList ∧ EndsClear attr.toList

mutual

/-- Operands, attributes and parts are such as can be read. -/
def WellShaped : Filter → Prop
  | .and fs => fs ≠ [] ∧ WellShapedAll fs
  | .or fs => fs ≠ [] ∧ WellShapedAll fs
  | .not f => WellShaped f
  | .compare attr _ _ => IsAttribute attr
  | .present attr => IsAttribute attr
  | .substring attr parts => IsAttribute attr ∧ 2 ≤ parts.length ∧ parts ≠ ["", ""]

/-- All of the filters have the right shape. -/
def WellShapedAll : List Filter → Prop
  | [] => True
  | f :: fs => WellShaped f ∧ WellShapedAll fs

end

/-- A filter that can be read: of the right shape, and not nested too deep. -/
structure WellFormed (f : Filter) : Prop where
  shape : f.WellShaped
  shallow : f.nesting ≤ depthLimit

/-! ## 2. What is read is well formed -/

/-- An attribute loses its blanks at the end and stays one. -/
theorem isAttribute_trimEnd {attr : List Char} (h : AttributeRun attr) :
    IsAttribute (String.ofList (trimEnd attr)) := by
  have hne := trimEnd_ne_nil h.ne_nil h.startsClear
  have hsubset := (trimEnd_isPrefix attr).subset
  rw [IsAttribute, String.toList_ofList]
  refine ⟨⟨hne, ?_, startsClear_trimEnd h.startsClear, ?_⟩, endsClear_trimEnd attr⟩
  · exact fun c hc => h.inside c (hsubset hc)
  · exact fun c hc => h.noMark c (mem_head?_of_trimEnd hc)

theorem wellShaped_ofItem {attr : String} (hattr : IsAttribute attr) (op : Comparison)
    (value : List Piece) : (ofItem attr op value).WellShaped := by
  unfold ofItem
  split
  · rename_i hstar
    split
    · exact hattr
    · rename_i hsingle
      have hmore : (Piece.between value).more ≠ [] := fun hnil =>
        Piece.more_between_eq_nil_iff.1 hnil hstar
      have hbetween := mt Piece.between_eq_single_iff.1 hsingle
      cases hb : Piece.between value with
      | mk first more =>
        rw [hb] at hmore hbetween
        refine ⟨hattr, ?_, ?_⟩
        · have hpos := List.length_pos_iff.2 hmore
          simp only [List.length_map, List.length_cons] at hpos ⊢
          omega
        · intro hparts
          apply hbetween
          have hchars : first :: more = [[], []] := by
            simpa using congrArg (List.map String.toList) hparts
          obtain ⟨rfl, rfl⟩ := List.cons.inj hchars
          rfl
  · exact hattr

theorem Tree.filterAll_ne_nil {ts : List Tree} (h : ts ≠ []) : Tree.filterAll ts ≠ [] := by
  cases ts with
  | nil => exact absurd rfl h
  | cons t ts => simp [Tree.filterAll]

mutual

theorem Tree.wellShaped_filter : ∀ {t : Tree}, t.Valid → t.filter.WellShaped
  | .mk before body after, h => by
    rw [Tree.Valid] at h
    exact Body.wellShaped_filter h.2.1

theorem Body.wellShaped_filter : ∀ {b : Body}, b.Valid → b.filter.WellShaped
  | .and gap ts, h => by
    rw [Body.Valid] at h
    rw [Body.filter, WellShaped]
    exact ⟨Tree.filterAll_ne_nil h.2.1, Tree.wellShaped_filterAll h.2.2⟩
  | .or gap ts, h => by
    rw [Body.Valid] at h
    rw [Body.filter, WellShaped]
    exact ⟨Tree.filterAll_ne_nil h.2.1, Tree.wellShaped_filterAll h.2.2⟩
  | .not gap t, h => by
    rw [Body.Valid] at h
    rw [Body.filter, WellShaped]
    exact Tree.wellShaped_filter h.2
  | .item attr op value, h => by
    rw [Body.Valid] at h
    exact wellShaped_ofItem (isAttribute_trimEnd h.1) op value

theorem Tree.wellShaped_filterAll : ∀ {ts : List Tree}, Tree.ValidAll ts →
    WellShapedAll (Tree.filterAll ts)
  | [], _ => trivial
  | t :: ts, h => by
    rw [Tree.ValidAll] at h
    exact ⟨Tree.wellShaped_filter h.1, Tree.wellShaped_filterAll h.2⟩

end

/-- **Whatever is read is well formed.** -/
theorem wellFormed_of_read {s : String} {f : Filter} (h : read s = .ok f) : f.WellFormed := by
  obtain ⟨d, rfl⟩ := read_eq_ok_iff.1 h
  exact ⟨Tree.wellShaped_filter d.valid, d.shallow⟩

/-! ## 3. The tree of a filter -/

/-- A value spelled with as few backslashes as possible. -/
def spell (cs : List Char) : List Piece :=
  cs.map fun c => if isSpecial c then .escaped c else .plain c

/-- Texts with a wildcard between neighbours. -/
def spellAll : List (List Char) → List Piece
  | [] => []
  | [p] => spell p
  | p :: q :: ps => spell p ++ .star :: spellAll (q :: ps)

mutual

/-- What is between the parentheses of a filter, spelled without blanks. -/
def bodyOf : Filter → Body
  | .and fs => .and [] (treesOf fs)
  | .or fs => .or [] (treesOf fs)
  | .not f => .not [] (.mk [] (bodyOf f) [])
  | .compare attr op value => .item attr.toList op (spell value.toList)
  | .present attr => .item attr.toList .equal [.star]
  | .substring attr parts => .item attr.toList .equal (spellAll (parts.map String.toList))

/-- Filters in a row, spelled without blanks. -/
def treesOf : List Filter → List Tree
  | [] => []
  | f :: fs => .mk [] (bodyOf f) [] :: treesOf fs

end

/-- A filter spelled without blanks. -/
def treeOf (f : Filter) : Tree := .mk [] (bodyOf f) []

theorem treesOf_ne_nil {fs : List Filter} (h : fs ≠ []) : treesOf fs ≠ [] := by
  cases fs with
  | nil => exact absurd rfl h
  | cons f fs => simp [treesOf]

theorem charsAll_spell (cs : List Char) : Piece.charsAll (spell cs) = escape cs := by
  induction cs with
  | nil => rfl
  | cons c cs ih =>
    rw [Piece.charsAll] at ih
    rw [Piece.charsAll, spell, List.map_cons, List.flatMap_cons, escape]
    split
    · exact congrArg (fun xs => '\\' :: c :: xs) ih
    · exact congrArg (fun xs => c :: xs) ih

theorem charsAll_append (ps qs : List Piece) :
    Piece.charsAll (ps ++ qs) = Piece.charsAll ps ++ Piece.charsAll qs := List.flatMap_append

theorem charsAll_spellAll (ps : List (List Char)) :
    Piece.charsAll (spellAll ps) = join '*' (ps.map escape) := by
  induction ps with
  | nil => rfl
  | cons p ps ih =>
    cases ps with
    | nil => exact charsAll_spell p
    | cons q qs =>
      rw [spellAll, charsAll_append, charsAll_spell]
      exact congrArg (fun xs => escape p ++ '*' :: xs) ih

mutual

theorem chars_bodyOf : ∀ f : Filter, '(' :: ((bodyOf f).chars ++ [')']) = f.chars
  | .and fs => by simp [bodyOf, Body.chars, Filter.chars, charsAll_treesOf fs]
  | .or fs => by simp [bodyOf, Body.chars, Filter.chars, charsAll_treesOf fs]
  | .not f => by simp [bodyOf, Body.chars, Tree.chars, Filter.chars, ← chars_bodyOf f]
  | .compare attr op value => by
    simp [bodyOf, Body.chars, Filter.chars, charsAll_spell]
  | .present attr => by
    simp [bodyOf, Body.chars, Filter.chars, Piece.charsAll, Piece.chars, Comparison.sign]
  | .substring attr parts => by
    simp [bodyOf, Body.chars, Filter.chars, charsAll_spellAll, Comparison.sign, Function.comp_def]

theorem charsAll_treesOf : ∀ fs : List Filter, Tree.charsAll (treesOf fs) = Filter.charsAll fs
  | [] => rfl
  | f :: fs => by
    simp [treesOf, Tree.charsAll, Tree.chars, Filter.charsAll, ← chars_bodyOf f,
      charsAll_treesOf fs]

end

/-- **The text of a filter is that of its tree.** -/
theorem chars_treeOf (f : Filter) : (treeOf f).chars = f.chars := chars_bodyOf f

theorem valid_of_mem_spell {cs : List Char} : ∀ p ∈ spell cs, p.Valid := by
  intro p hp
  obtain ⟨c, -, rfl⟩ := List.mem_map.1 hp
  cases hc : isSpecial c with
  | true => trivial
  | false => exact hc

theorem star_notMem_spell (cs : List Char) : .star ∉ spell cs := by
  intro hstar
  obtain ⟨c, -, hc⟩ := List.mem_map.1 hstar
  split at hc <;> cases hc

theorem filterMap_spell (cs : List Char) : (spell cs).filterMap Piece.char? = cs := by
  induction cs with
  | nil => rfl
  | cons c cs ih =>
    rw [spell] at ih ⊢
    rw [List.map_cons]
    split <;> simp [Piece.char?, ih]

theorem valid_of_mem_spellAll {ps : List (List Char)} : ∀ p ∈ spellAll ps, p.Valid := by
  induction ps with
  | nil => simp [spellAll]
  | cons p ps ih =>
    cases ps with
    | nil => exact valid_of_mem_spell
    | cons q qs =>
      intro r hr
      rcases List.mem_append.1 hr with hr | hr
      · exact valid_of_mem_spell r hr
      · rcases List.mem_cons.1 hr with rfl | hr
        · trivial
        · exact ih r hr

/-- A spelled text comes before what is between the wildcards after it. -/
theorem between_spell_append (cs : List Char) (ps : List Piece) :
    Piece.between (spell cs ++ ps) =
      ⟨cs ++ (Piece.between ps).first, (Piece.between ps).more⟩ := by
  induction cs with
  | nil => rfl
  | cons c cs ih =>
    rw [spell, List.map_cons, List.cons_append]
    rw [spell] at ih
    split <;> simp [Piece.between, Runs.extend, ih]

/-- The texts between the wildcards of a spelling are those that were spelled. -/
theorem between_spellAll (p : List Char) (ps : List (List Char)) :
    Piece.between (spellAll (p :: ps)) = ⟨p, ps⟩ := by
  induction ps generalizing p with
  | nil =>
    have h := between_spell_append p []
    simpa [Piece.between, spellAll] using h
  | cons q qs ih =>
    rw [spellAll, between_spell_append]
    simp [Piece.between, Runs.star, ih]

/-- A substring is spelled with a wildcard, and not with one alone. -/
theorem ofItem_spellAll {attr : String} {parts : List String} (hlen : 2 ≤ parts.length)
    (hparts : parts ≠ ["", ""]) :
    ofItem attr .equal (spellAll (parts.map String.toList)) = .substring attr parts := by
  obtain ⟨p, rest, rfl⟩ : ∃ p rest, parts = p :: rest :=
    List.exists_cons_of_length_pos (by omega)
  obtain ⟨q, ps, rfl⟩ : ∃ q ps, rest = q :: ps :=
    List.exists_cons_of_length_pos (Nat.le_of_succ_le_succ hlen)
  have hbetween : Piece.between (spellAll ((p :: q :: ps).map String.toList)) =
      ⟨p.toList, (q :: ps).map String.toList⟩ := between_spellAll _ _
  have hstar : .star ∈ spellAll ((p :: q :: ps).map String.toList) := by
    simp [spellAll]
  have hsingle : spellAll ((p :: q :: ps).map String.toList) ≠ [.star] := by
    rw [ne_eq, ← Piece.between_eq_single_iff, hbetween]
    intro hempty
    obtain ⟨hp, hrest⟩ := Runs.mk.inj hempty
    have hone : p = "" ∧ q = "" ∧ ps = [] := by simpa using And.intro hp hrest
    obtain ⟨rfl, rfl, rfl⟩ := hone
    exact hparts rfl
  rw [ofItem, if_pos hstar, if_neg hsingle, hbetween]
  simp [Function.comp_def]

/-- An attribute that does not end in a blank is spelled as it is. -/
theorem ofList_trimEnd {attr : String} (h : IsAttribute attr) :
    String.ofList (trimEnd attr.toList) = attr := by
  rw [trimEnd_of_endsClear h.2, String.ofList_toList]

mutual

theorem filter_bodyOf : ∀ {f : Filter}, f.WellShaped → (bodyOf f).filter = f
  | .and fs, h => by
    rw [WellShaped] at h
    rw [bodyOf, Body.filter, filterAll_treesOf h.2]
  | .or fs, h => by
    rw [WellShaped] at h
    rw [bodyOf, Body.filter, filterAll_treesOf h.2]
  | .not f, h => by
    rw [WellShaped] at h
    rw [bodyOf, Body.filter, Tree.filter, filter_bodyOf h]
  | .compare attr op value, h => by
    rw [WellShaped] at h
    rw [bodyOf, Body.filter, ofList_trimEnd h, ofItem, if_neg (star_notMem_spell _),
      filterMap_spell, String.ofList_toList]
  | .present attr, h => by
    rw [WellShaped] at h
    rw [bodyOf, Body.filter, ofList_trimEnd h]
    rfl
  | .substring attr parts, h => by
    rw [WellShaped] at h
    rw [bodyOf, Body.filter, ofList_trimEnd h.1, ofItem_spellAll h.2.1 h.2.2]

theorem filterAll_treesOf : ∀ {fs : List Filter}, WellShapedAll fs →
    Tree.filterAll (treesOf fs) = fs
  | [], _ => rfl
  | f :: fs, h => by
    rw [WellShapedAll] at h
    rw [treesOf, Tree.filterAll, Tree.filter, filter_bodyOf h.1, filterAll_treesOf h.2]

end

mutual

theorem valid_bodyOf : ∀ {f : Filter}, f.WellShaped → (bodyOf f).Valid
  | .and fs, h => by
    rw [WellShaped] at h
    exact ⟨blanks_nil, treesOf_ne_nil h.1, validAll_treesOf h.2⟩
  | .or fs, h => by
    rw [WellShaped] at h
    exact ⟨blanks_nil, treesOf_ne_nil h.1, validAll_treesOf h.2⟩
  | .not f, h => by
    rw [WellShaped] at h
    exact ⟨blanks_nil, blanks_nil, valid_bodyOf h, blanks_nil⟩
  | .compare attr op value, h => by
    rw [WellShaped] at h
    exact ⟨h.1, valid_of_mem_spell, fun hstar => absurd hstar (star_notMem_spell _)⟩
  | .present attr, h => by
    rw [WellShaped] at h
    exact ⟨h.1, by simp [Piece.Valid], fun _ => rfl⟩
  | .substring attr parts, h => by
    rw [WellShaped] at h
    exact ⟨h.1.1, valid_of_mem_spellAll, fun _ => rfl⟩

theorem validAll_treesOf : ∀ {fs : List Filter}, WellShapedAll fs → Tree.ValidAll (treesOf fs)
  | [], _ => trivial
  | f :: fs, h => by
    rw [WellShapedAll] at h
    exact ⟨⟨blanks_nil, valid_bodyOf h.1, blanks_nil⟩, validAll_treesOf h.2⟩

end

/-- **The text of a well-formed filter is read as the filter.** -/
theorem read_text {f : Filter} (h : f.WellFormed) : read f.text = .ok f := by
  have hfilter : (treeOf f).filter = f := filter_bodyOf h.shape
  refine read_eq_ok_iff.2 ⟨⟨[], treeOf f, blanks_nil, ?_, ?_, ?_⟩, hfilter⟩
  · exact ⟨blanks_nil, valid_bodyOf h.shape, blanks_nil⟩
  · rw [hfilter]
    exact h.shallow
  · rw [text, String.toList_ofList, chars_treeOf]
    rfl

/-- A comparison needs nothing but an attribute. -/
theorem wellFormed_compare {a : String} (ha : IsAttribute a) (op : Comparison) (value : String) :
    (Filter.compare a op value).WellFormed := by
  refine ⟨ha, ?_⟩
  rw [nesting, depthLimit]
  decide

/-- **Reading undoes printing exactly on what is read.**  Every filter that is read from some text is
well formed, and a filter is read from its own text if and only if it is. -/
theorem read_text_iff_wellFormed :
    (∀ s f, read s = .ok f → f.WellFormed) ∧
    ∀ f : Filter, read f.text = .ok f ↔ f.WellFormed :=
  ⟨fun _ _ h => wellFormed_of_read h, fun _ => ⟨wellFormed_of_read, read_text⟩⟩

/-- A wildcard inside a part is told from the one after it. -/
example : read (substring "name" ["a*b", ""]).text = .ok (substring "name" ["a*b", ""]) := by rfl

end Filter
end FrameworkAdmin
