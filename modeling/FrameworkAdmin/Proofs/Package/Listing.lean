/-
# The listing of exports can be asked about again

Each line of the listing is the name of a package and the text of a version with a semicolon between them.
Names may contain semicolons, texts of versions never do, so the line falls apart at its last one; the text
is read as the version that it was written for; and as no two exports share their package and version, the
first one that is found is the one that the line is about.

What is found is settled by the run.  An export counts from the last time that it was made, and then has
the importers and the mark that it got since (`Export.lasting`).  Section 3 follows one change of an export
of this form, section 4 a whole run.
-/
import Mathlib.Data.List.Nodup
import FrameworkAdmin.Package.Exports
import FrameworkAdmin.Proofs.Lists
import FrameworkAdmin.Proofs.Version

namespace FrameworkAdmin

/-! ## 1. Lines of the listing -/

namespace Exports

/-- The line is the name and the text with a semicolon between them, which is the last in the line. -/
def SplitsLast (line name text : String) : Prop := line = name ++ ";" ++ text ∧ ';' ∉ text.toList

theorem SplitsLast.cut_reverse {line name text : String} (h : SplitsLast line name text) :
    Text.cut (· == ';') line.toList.reverse =
      (text.toList.reverse, some name.toList.reverse) := by
  obtain ⟨rfl, hmem⟩ := h
  have hline : (name ++ ";" ++ text).toList.reverse =
      text.toList.reverse ++ ';' :: name.toList.reverse := by simp
  rw [hline]
  refine Text.cut_append_cons (fun c hc => ?_) (by decide) _
  rw [beq_eq_false_iff_ne]
  rintro rfl
  exact hmem (List.mem_reverse.1 hc)

/-- There is one last semicolon. -/
theorem SplitsLast.unique {line name name' text text' : String} (h : SplitsLast line name text)
    (h' : SplitsLast line name' text') : name = name' ∧ text = text' := by
  have heq := h.cut_reverse.symm.trans h'.cut_reverse
  rw [Prod.mk.injEq, Option.some.injEq, List.reverse_inj, List.reverse_inj, String.toList_inj,
    String.toList_inj] at heq
  exact heq.symm

end Exports

namespace Export

variable {e e' : Export} {name : String} {v : Version}

/-- What an export is listed by. -/
def key (e : Export) : String × Version := (e.name, e.version)

theorem isOf_eq_true_iff : e.isOf name v = true ↔ e.name = name ∧ e.version = v := by
  simp [isOf]

theorem splitsLast_text (h : e.version.Legible) :
    Exports.SplitsLast e.text e.name e.version.text := by
  refine ⟨rfl, fun hmem => ?_⟩
  rcases Version.mem_text h hmem with hqualifier | hpoint
  · exact absurd hqualifier (by decide)
  · exact absurd hpoint (by decide)

/-- Exports of different packages or versions have different lines. -/
theorem key_eq_of_text_eq (h : e.version.Legible) (h' : e'.version.Legible)
    (htext : e.text = e'.text) : e.key = e'.key := by
  obtain ⟨hname, hversion⟩ := (splitsLast_text h).unique (htext ▸ splitsLast_text h')
  exact Prod.ext hname (Version.text_injective h h' hversion)

/-- The export, marked if it is one of the bundle. -/
def mark (bundle : FrameworkId) (e : Export) : Export :=
  if e.exporter = bundle then { e with removalPending := true } else e

theorem addImporter_eq (bundle : FrameworkId) (e : Export) : e.addImporter bundle =
    { e with importers :=
      if e.importers.contains bundle then e.importers else e.importers ++ [bundle] } := by
  rw [addImporter]
  split <;> rfl

@[simp] theorem key_addImporter (bundle : FrameworkId) (e : Export) :
    (e.addImporter bundle).key = e.key := by
  rw [addImporter]
  split <;> rfl

@[simp] theorem key_mark (bundle : FrameworkId) (e : Export) : (e.mark bundle).key = e.key := by
  rw [mark]
  split <;> rfl

/-- Which package and version an export is of is read from its key. -/
theorem isOf_congr (h : e.key = e'.key) : e.isOf name v = e'.isOf name v := by
  obtain ⟨hname, hversion⟩ := Prod.mk.injEq _ _ _ _ ▸ h
  rw [isOf, isOf, hname, hversion]

end Export

namespace Exports

variable {s : Exports} {name : String} {v : Version}

/-! ## 2. The export of a package in a version -/

/-- The export of a package in a version, if there is one. -/
def get? (s : Exports) (name : String) (v : Version) : Option Export :=
  s.list.find? (·.isOf name v)

theorem find?_eq_ok {text : String} (h : Version.read text = .ok v) :
    s.find? name text = .ok (s.get? name v) := by
  have hboth : (fun e : Export => decide ((e.name == name) = true ∧ (e.version == v) = true)) =
      (·.isOf name v) := by
    funext e
    rw [Export.isOf, Bool.decide_and, Bool.decide_eq_true, Bool.decide_eq_true]
  rw [find?, h, named]
  simp only [List.find?_filter, hboth, get?]

/-- Exports are listed once for each package and version. -/
def Distinct (s : Exports) : Prop := (s.list.map Export.key).Nodup

theorem isSome_get?_iff : (s.get? name v).isSome = true ↔ ∃ e ∈ s.list, e.isOf name v = true :=
  List.find?_isSome

theorem Distinct.get?_of_mem (hs : s.Distinct) {e : Export} (h : e ∈ s.list) :
    s.get? e.name e.version = some e := by
  have hself : e.isOf e.name e.version = true := Export.isOf_eq_true_iff.2 ⟨rfl, rfl⟩
  obtain ⟨x, hx⟩ := Option.isSome_iff_exists.1 (isSome_get?_iff.2 ⟨e, h, hself⟩)
  obtain ⟨hname, hversion⟩ := Export.isOf_eq_true_iff.1 (List.find?_some hx)
  have heq : x = e := List.inj_on_of_nodup_map hs (List.mem_of_find?_eq_some hx) h
    (Prod.ext hname hversion)
  rw [hx, heq]

theorem map_modifyFirst {p : Export → Bool} {f : Export → Export} (hf : ∀ e, (f e).key = e.key)
    (l : List Export) : (modifyFirst p f l).map Export.key = l.map Export.key := by
  induction l with
  | nil => rfl
  | cons e es ih =>
    rw [modifyFirst]
    split
    · rw [List.map_cons, hf, List.map_cons]
    · rw [List.map_cons, ih, List.map_cons]

/-- The first export of a package in a version is changed, as far as one can find out. -/
theorem find?_modifyFirst {f : Export → Export} (hf : ∀ e, (f e).key = e.key) (name' : String)
    (v' : Version) (l : List Export) :
    (modifyFirst (·.isOf name v) f l).find? (·.isOf name' v') =
      (l.find? (·.isOf name' v')).map fun e => if e.isOf name v then f e else e := by
  induction l with
  | nil => rfl
  | cons e es ih =>
    rw [modifyFirst]
    by_cases he : e.isOf name v = true
    · rw [if_pos he]
      by_cases he' : e.isOf name' v' = true
      · have hfe : (f e).isOf name' v' = true := (Export.isOf_congr (hf e)).trans he'
        rw [List.find?_cons_of_pos hfe, List.find?_cons_of_pos he', Option.map_some, if_pos he]
      · have hfe : ¬ (f e).isOf name' v' = true := Export.isOf_congr (hf e) ▸ he'
        rw [List.find?_cons_of_neg hfe, List.find?_cons_of_neg he']
        -- an export that is found further down is of another package or version than `e`
        refine ((Option.map_congr fun x hx => if_neg fun hxe => he' ?_).trans Option.map_id').symm
        obtain ⟨rfl, rfl⟩ := Export.isOf_eq_true_iff.1 he
        obtain ⟨hname, hversion⟩ := Export.isOf_eq_true_iff.1 hxe
        exact Export.isOf_congr (Prod.ext hname hversion) ▸ List.find?_some hx
    · rw [if_neg he]
      by_cases he' : e.isOf name' v' = true
      · rw [List.find?_cons_of_pos he', List.find?_cons_of_pos he', Option.map_some, if_neg he]
      · rw [List.find?_cons_of_neg he', ih, List.find?_cons_of_neg he']

/-! ## 3. One change -/

/-- The change exports the package in the version. -/
def Change.exports (name : String) (v : Version) : Change → Bool
  | .add e => e.isOf name v
  | _ => false

/-- The bundle that the change makes an importer of the package in the version. -/
def Change.importer? (name : String) (v : Version) : Change → Option FrameworkId
  | .addImporter n w bundle => if n = name ∧ w = v then some bundle else none
  | _ => none

/-- The change marks what the bundle exports. -/
def Change.marks (bundle : FrameworkId) : Change → Bool
  | .markRemovalPending b => b == bundle
  | _ => false

/-- What the change makes of an export that it does not replace. -/
def Change.effect : Change → Export → Export
  | .add _, e => e
  | .addImporter name v bundle, e => if e.isOf name v then e.addImporter bundle else e
  | .markRemovalPending bundle, e => e.mark bundle

theorem get?_add (s : Exports) (e : Export) (name : String) (v : Version) :
    (s.add e).get? name v = if e.isOf name v then some e else s.get? name v := by
  rw [get?, add, List.find?_append, List.find?_filter]
  by_cases he : e.isOf name v = true
  · have hnone : s.list.find? (fun x =>
        decide ((!x.isOf e.name e.version) = true ∧ x.isOf name v = true)) = none := by
      obtain ⟨rfl, rfl⟩ := Export.isOf_eq_true_iff.1 he
      refine List.find?_eq_none.2 fun x _ => ?_
      cases x.isOf e.name e.version <;> decide
    rw [hnone, if_pos he, List.find?_cons_of_pos he, Option.none_or]
  · have hsame : (fun x : Export =>
        decide ((!x.isOf e.name e.version) = true ∧ x.isOf name v = true)) = (·.isOf name v) := by
      funext x
      cases hx : x.isOf name v with
      | false => simp
      | true =>
        have hxe : x.isOf e.name e.version = false := by
          rw [Bool.eq_false_iff]
          intro hxe
          obtain ⟨rfl, rfl⟩ := Export.isOf_eq_true_iff.1 hx
          obtain ⟨hname, hversion⟩ := Export.isOf_eq_true_iff.1 hxe
          exact he (Export.isOf_eq_true_iff.2 ⟨hname.symm, hversion.symm⟩)
        rw [hxe]
        rfl
    rw [hsame, if_neg he, List.find?_cons_of_neg he, List.find?_nil, Option.or_none, get?]

/-- **One change, looked at through one package in one version.** -/
theorem get?_run {c : Change} (h : c.exports name v = false) :
    (c.run s).get? name v = (s.get? name v).map c.effect := by
  cases c with
  | add e =>
    have he : ¬ e.isOf name v = true := Bool.eq_false_iff.1 h
    rw [Change.run, get?_add, if_neg he]
    exact Option.map_id'.symm
  | addImporter n w bundle => exact find?_modifyFirst (Export.key_addImporter bundle) name v s.list
  | markRemovalPending bundle =>
    have hmark : ((·.isOf name v) ∘ Export.mark bundle) = (·.isOf name v) := by
      funext e
      exact Export.isOf_congr (e.key_mark bundle)
    refine List.find?_map.trans ?_
    exact congrArg (fun p => (s.list.find? p).map (Export.mark bundle)) hmark

theorem Distinct.run (hs : s.Distinct) (c : Change) : (c.run s).Distinct := by
  cases c with
  | add e =>
    have hkept : ((s.list.filter fun x => !x.isOf e.name e.version).map Export.key).Nodup :=
      (List.filter_sublist.map Export.key).nodup hs
    rw [Change.run, Distinct, add, List.map_append, List.nodup_append]
    refine ⟨hkept, List.nodup_singleton _, fun key hkey other hother => ?_⟩
    obtain ⟨x, hx, rfl⟩ := List.mem_map.1 hkey
    rw [List.map_singleton, List.mem_singleton] at hother
    rintro rfl
    have hself : x.isOf e.name e.version = true :=
      (Export.isOf_congr hother).trans (Export.isOf_eq_true_iff.2 ⟨rfl, rfl⟩)
    simp [hself] at hx
  | addImporter n w bundle =>
    rw [Change.run, Distinct, addImporter, map_modifyFirst (Export.key_addImporter bundle)]
    exact hs
  | markRemovalPending bundle =>
    have hmark : (s.list.map (Export.mark bundle)).map Export.key = s.list.map Export.key := by
      rw [List.map_map]
      exact List.map_congr_left fun e _ => e.key_mark bundle
    exact (congrArg List.Nodup hmark).mpr hs

/-! ## 4. Runs -/

/-- The exports after a run from none. -/
def made (changes : List Change) : Exports := (∅ : Exports).after changes

theorem made_concat (changes : List Change) (c : Change) :
    made (changes ++ [c]) = c.run (made changes) := by
  rw [made, after, List.foldl_concat]
  rfl

/-- The change exports nothing but new exports, the versions of which were read or made of numbers. -/
def Change.Proper : Change → Prop
  | .add e => e.version.Obtained ∧ e = .fresh e.name e.version e.exporter
  | _ => True

/-- The run has the bundle export the package in the version, nobody does so again, and these changes
follow. -/
def LastExport (changes : List Change) (name : String) (v : Version) (exporter : FrameworkId)
    (since : List Change) : Prop :=
  ∃ before, changes = before ++ .add (.fresh name v exporter) :: since ∧
    ∀ c ∈ since, c.exports name v = false

/-- The export after the changes since it was made. -/
def lasting (name : String) (v : Version) (exporter : FrameworkId) (since : List Change) : Export where
  name
  version := v
  exporter
  importers := (since.filterMap (Change.importer? name v)).eraseDups
  removalPending := since.any (·.marks exporter)

variable {changes since : List Change} {c : Change} {exporter : FrameworkId}

theorem lastExport_concat_iff :
    LastExport (changes ++ [c]) name v exporter since ↔
      (∃ earlier, since = earlier ++ [c] ∧ c.exports name v = false ∧
        LastExport changes name v exporter earlier) ∨
      (since = [] ∧ c = .add (.fresh name v exporter)) := by
  constructor
  · rintro ⟨before, heq, hsince⟩
    rcases List.eq_nil_or_concat since with rfl | ⟨earlier, last, rfl⟩
    · obtain ⟨rfl, hc⟩ := List.append_inj' heq rfl
      exact Or.inr ⟨rfl, List.singleton_inj.1 hc⟩
    · rw [List.concat_eq_append] at heq hsince ⊢
      rw [← List.cons_append, ← List.append_assoc] at heq
      obtain ⟨rfl, hc⟩ := List.append_inj' heq rfl
      obtain rfl := List.singleton_inj.1 hc
      exact Or.inl ⟨earlier, rfl, hsince c (by simp),
        before, rfl, fun d hd => hsince d (List.mem_append_left _ hd)⟩
  · rintro (⟨earlier, rfl, hc, before, rfl, hearlier⟩ | ⟨rfl, rfl⟩)
    · refine ⟨before, by rw [List.append_assoc, List.cons_append], fun d hd => ?_⟩
      rcases List.mem_append.1 hd with hd | hd
      · exact hearlier d hd
      · rwa [List.mem_singleton.1 hd]
    · exact ⟨changes, rfl, fun d hd => absurd hd List.not_mem_nil⟩

/-- A change that does not concern the export. -/
theorem lasting_concat (himporter : c.importer? name v = none) (hmarks : c.marks exporter = false) :
    lasting name v exporter (since ++ [c]) = lasting name v exporter since := by
  simp [lasting, himporter, hmarks]

theorem lasting_concat_addImporter (bundle : FrameworkId) :
    lasting name v exporter (since ++ [.addImporter name v bundle]) =
      (lasting name v exporter since).addImporter bundle := by
  have himporter : (Change.addImporter name v bundle).importer? name v = some bundle :=
    if_pos ⟨rfl, rfl⟩
  have hmarks : (Change.addImporter name v bundle).marks exporter = false := rfl
  simp [lasting, Export.addImporter_eq, himporter, hmarks, eraseDups_concat]

theorem lasting_concat_markRemovalPending :
    lasting name v exporter (since ++ [.markRemovalPending exporter]) =
      { lasting name v exporter since with removalPending := true } := by
  have himporter : (Change.markRemovalPending exporter).importer? name v = none := rfl
  have hmarks : (Change.markRemovalPending exporter).marks exporter = true := beq_self_eq_true exporter
  simp [lasting, himporter, hmarks]

/-- **An export is what the changes since it was made make of it.** -/
theorem effect_lasting (c : Change) :
    c.effect (lasting name v exporter since) = lasting name v exporter (since ++ [c]) := by
  cases c with
  | add e => rw [lasting_concat rfl rfl, Change.effect]
  | addImporter n w bundle =>
    have hisOf : (lasting name v exporter since).isOf n w = true ↔ n = name ∧ w = v := by
      rw [Export.isOf_eq_true_iff]
      exact and_congr eq_comm eq_comm
    rw [Change.effect]
    split
    · rename_i h
      obtain ⟨rfl, rfl⟩ := hisOf.1 h
      rw [lasting_concat_addImporter]
    · rename_i h
      exact (lasting_concat (c := .addImporter n w bundle) (if_neg fun heq => h (hisOf.2 heq)) rfl).symm
  | markRemovalPending bundle =>
    rw [Change.effect, Export.mark]
    split
    · rename_i h
      obtain rfl : exporter = bundle := h
      rw [lasting_concat_markRemovalPending]
    · rename_i h
      have hmarks : (Change.markRemovalPending bundle).marks exporter = false :=
        beq_eq_false_iff_ne.2 (Ne.symm h)
      rw [lasting_concat rfl hmarks]

/-- The change that exports a package in a version makes an export of the two. -/
theorem Change.exists_of_exports (h : c.exports name v = true) :
    ∃ e, c = .add e ∧ e.isOf name v = true := by
  cases c with
  | add e => exact ⟨e, rfl, h⟩
  | addImporter _ _ _ | markRemovalPending _ => cases h

theorem distinct_made (changes : List Change) : (made changes).Distinct := by
  induction changes using List.reverseRecOn with
  | nil => exact List.nodup_nil
  | append_singleton changes c ih =>
    rw [made_concat]
    exact ih.run c

/-- What has been exported stays exported. -/
theorem isSome_get?_made_iff :
    ((made changes).get? name v).isSome = true ↔ ∃ c ∈ changes, c.exports name v = true := by
  induction changes using List.reverseRecOn with
  | nil => simp [made, after, get?, EmptyCollection.emptyCollection]
  | append_singleton changes c ih =>
    rw [made_concat]
    cases hc : c.exports name v with
    | false =>
      rw [get?_run hc, Option.isSome_map, ih]
      simp [hc, or_and_right, exists_or]
    | true =>
      obtain ⟨new, rfl, hnew⟩ := Change.exists_of_exports hc
      rw [Change.run, get?_add, if_pos hnew]
      exact iff_of_true rfl ⟨_, by simp, hc⟩

/-- **The exports after a run are the last ones of their package and version, with what happened to them
since.** -/
theorem get?_made_eq_some_iff (h : ∀ c ∈ changes, c.Proper) {e : Export} :
    (made changes).get? name v = some e ↔
      ∃ exporter since, LastExport changes name v exporter since ∧ e = lasting name v exporter since := by
  induction changes using List.reverseRecOn generalizing e with
  | nil =>
    constructor
    · intro hget
      cases hget
    · rintro ⟨exporter, since, ⟨before, heq, -⟩, -⟩
      simp at heq
  | append_singleton changes c ih =>
    rw [made_concat]
    cases hc : c.exports name v with
    | false =>
      rw [get?_run hc, Option.map_eq_some_iff]
      constructor
      · rintro ⟨old, hold, rfl⟩
        obtain ⟨exporter, since, hlast, rfl⟩ :=
          (ih fun d hd => h d (List.mem_append_left _ hd)).1 hold
        exact ⟨exporter, since ++ [c],
          lastExport_concat_iff.2 (Or.inl ⟨since, rfl, hc, hlast⟩), effect_lasting c⟩
      · rintro ⟨exporter, since, hlast, rfl⟩
        rcases lastExport_concat_iff.1 hlast with ⟨earlier, rfl, -, hearlier⟩ | ⟨rfl, rfl⟩
        · exact ⟨_, (ih fun d hd => h d (List.mem_append_left _ hd)).2 ⟨_, _, hearlier, rfl⟩,
            effect_lasting c⟩
        · simp [Change.exports, Export.isOf, Export.fresh] at hc
    | true =>
      obtain ⟨new, rfl, hnew⟩ := Change.exists_of_exports hc
      obtain ⟨-, hfresh⟩ := h (.add new) (by simp)
      obtain ⟨rfl, rfl⟩ := Export.isOf_eq_true_iff.1 hnew
      rw [Change.run, get?_add, if_pos hnew, Option.some.injEq]
      constructor
      · rintro rfl
        exact ⟨new.exporter, [], lastExport_concat_iff.2 (Or.inr ⟨rfl, congrArg _ hfresh⟩), hfresh⟩
      · rintro ⟨exporter, since, hlast, rfl⟩
        rcases lastExport_concat_iff.1 hlast with ⟨-, -, hother, -⟩ | ⟨rfl, heq⟩
        · rw [hc] at hother
          cases hother
        · exact Change.add.inj heq

theorem LastExport.mem (h : LastExport changes name v exporter since) :
    .add (.fresh name v exporter) ∈ changes := by
  obtain ⟨before, rfl, -⟩ := h
  simp

/-- Every export that is listed is a last one, of a version that can be read back. -/
theorem exists_lastExport (h : ∀ c ∈ changes, c.Proper) {e : Export} (he : e ∈ (made changes).list) :
    e.version.Legible ∧
      ∃ since, LastExport changes e.name e.version e.exporter since := by
  have hget := (distinct_made changes).get?_of_mem he
  obtain ⟨exporter, since, hlast, heq⟩ := (get?_made_eq_some_iff h).1 hget
  have hexporter : e.exporter = exporter := by rw [heq, lasting]
  obtain ⟨hobtained, -⟩ := h _ hlast.mem
  exact ⟨hobtained.legible, since, hexporter ▸ hlast⟩

/-! ## 5. Answers -/

/-- What is answered about a package in a version, by whatever text of the version. -/
structure Answers (s : Exports) (name : String) (v : Version) (exporter : Option FrameworkId)
    (importers : List FrameworkId) (pending : Bool) : Prop where
  exporterOf : ∀ text, Version.read text = .ok v → s.exporterOf name text = .ok exporter
  importersOf : ∀ text, Version.read text = .ok v → s.importersOf name text = .ok importers
  isRemovalPending : ∀ text, Version.read text = .ok v →
    s.isRemovalPending name text = .ok pending

/-- The answers are those of the export that is found. -/
theorem answers_get? (s : Exports) (name : String) (v : Version) :
    s.Answers name v ((s.get? name v).map (·.exporter)) (((s.get? name v).map (·.importers)).getD [])
      (((s.get? name v).map (·.removalPending)).getD false) where
  exporterOf text h := by
    rw [Exports.exporterOf, find?_eq_ok h]
    rfl
  importersOf text h := by
    rw [Exports.importersOf, find?_eq_ok h]
    rfl
  isRemovalPending text h := by
    rw [Exports.isRemovalPending, find?_eq_ok h]
    rfl

theorem marks_iff (bundle : FrameworkId) :
    since.any (·.marks bundle) = true ↔ Change.markRemovalPending bundle ∈ since := by
  rw [List.any_eq_true]
  constructor
  · rintro ⟨c, hc, hmarks⟩
    cases c with
    | markRemovalPending b => exact beq_iff_eq.1 hmarks ▸ hc
    | add _ | addImporter _ _ _ => cases hmarks
  · intro h
    exact ⟨_, h, beq_self_eq_true bundle⟩

/-- What the listing and the answers after a run are. -/
structure Settled (changes : List Change) : Prop where
  /-- There is one export for each package and version. -/
  key_nodup : ((made changes).list.map fun e => (e.name, e.version)).Nodup
  /-- No line of the listing is there twice. -/
  texts_nodup : (made changes).texts.Nodup
  /-- There is a last semicolon in each line. -/
  splits : ∀ line ∈ (made changes).texts, ∃ name text, SplitsLast line name text
  /-- The name and the text around it lead to the bundle that was the last to export the two. -/
  leads : ∀ line ∈ (made changes).texts, ∀ name text, SplitsLast line name text →
    ∃ v exporter since, Version.read text = .ok v ∧ LastExport changes name v exporter since ∧
      (made changes).exporterOf name text = .ok (some exporter)
  /-- Whatever has been exported has a line. -/
  covers : ∀ e, Change.add e ∈ changes → e.text ∈ (made changes).texts
  /-- Adding an importer succeeds where there has been an export. -/
  addImporter_iff : ∀ name v bundle, ((made changes).addImporter name v bundle).1 = true ↔
    ∃ c ∈ changes, c.exports name v = true
  /-- The answers are those of the last export, with the importers that were added since, and pending if
  the exporter was marked since. -/
  answers_lastExport : ∀ name v exporter since, LastExport changes name v exporter since →
    ∃ pending, (pending = true ↔ Change.markRemovalPending exporter ∈ since) ∧
      (made changes).Answers name v (some exporter)
        (since.filterMap (Change.importer? name v)).eraseDups pending
  /-- What was never exported has no exporter, no importers and no mark. -/
  answers_never : ∀ name v, (∀ c ∈ changes, c.exports name v = false) →
    (made changes).Answers name v none [] false
  /-- Texts of one version are answered alike. -/
  answers_congr : ∀ name text text' v, Version.read text = .ok v → Version.read text' = .ok v →
    (made changes).exporterOf name text = (made changes).exporterOf name text' ∧
    (made changes).importersOf name text = (made changes).importersOf name text' ∧
    (made changes).isRemovalPending name text = (made changes).isRemovalPending name text'

/-- **There is one export for each package and version, and the listing leads to it**, however often it has
been replaced, and whatever else happened. -/
theorem listing_settled (h : ∀ c ∈ changes, c.Proper) : Settled changes where
  key_nodup := distinct_made changes
  texts_nodup := by
    refine List.Nodup.map_on (fun e he e' he' htext => ?_) (distinct_made changes).of_map
    have hkey := Export.key_eq_of_text_eq (exists_lastExport h he).1 (exists_lastExport h he').1 htext
    exact List.inj_on_of_nodup_map (distinct_made changes) he he' hkey
  splits := by
    intro line hline
    obtain ⟨e, he, rfl⟩ := List.mem_map.1 hline
    exact ⟨_, _, Export.splitsLast_text (exists_lastExport h he).1⟩
  leads := by
    intro line hline name text hsplits
    obtain ⟨e, he, rfl⟩ := List.mem_map.1 hline
    obtain ⟨hlegible, since, hlast⟩ := exists_lastExport h he
    -- there is one last semicolon, so the two parts are those that the line was made of
    obtain ⟨rfl, rfl⟩ := (Export.splitsLast_text hlegible).unique hsplits
    have hread := Version.read_text hlegible
    have hanswer := ((made changes).answers_get? e.name e.version).exporterOf _ hread
    rw [(distinct_made changes).get?_of_mem he] at hanswer
    exact ⟨e.version, e.exporter, since, hread, hlast, hanswer⟩
  covers := by
    intro e he
    have hself : e.isOf e.name e.version = true := Export.isOf_eq_true_iff.2 ⟨rfl, rfl⟩
    obtain ⟨x, hx, hxe⟩ := isSome_get?_iff.1 (isSome_get?_made_iff.2 ⟨_, he, hself⟩)
    obtain ⟨hname, hversion⟩ := Export.isOf_eq_true_iff.1 hxe
    have htext : x.text = e.text := by rw [Export.text, hname, hversion, Export.text]
    exact htext ▸ List.mem_map_of_mem hx
  addImporter_iff := by
    intro name v bundle
    rw [← isSome_get?_made_iff, isSome_get?_iff]
    exact List.any_eq_true
  answers_lastExport := by
    intro name v exporter since hlast
    have hanswers := (made changes).answers_get? name v
    rw [(get?_made_eq_some_iff h).2 ⟨exporter, since, hlast, rfl⟩] at hanswers
    exact ⟨_, marks_iff exporter, hanswers⟩
  answers_never := by
    intro name v hnever
    have hanswers := (made changes).answers_get? name v
    have hnone : (made changes).get? name v = none := by
      rw [← Option.not_isSome_iff_eq_none, isSome_get?_made_iff]
      rintro ⟨c, hc, hexports⟩
      rw [hnever c hc] at hexports
      cases hexports
    rwa [hnone] at hanswers
  answers_congr := by
    intro name text text' v hread hread'
    have hanswers := (made changes).answers_get? name v
    exact ⟨(hanswers.exporterOf _ hread).trans (hanswers.exporterOf _ hread').symm,
      (hanswers.importersOf _ hread).trans (hanswers.importersOf _ hread').symm,
      (hanswers.isRemovalPending _ hread).trans (hanswers.isRemovalPending _ hread').symm⟩

/-- A package with a semicolon in its name is exported again after it got importers and a mark, beside one
with a name that is as long as the part in front of the semicolon. -/
def remade : List Change :=
  let v : Version := ⟨⟨1, by decide, by decide⟩, ⟨2, by decide, by decide⟩, .zero, ""⟩
  let beta : Version := { v with qualifier := "beta" }
  [.add (.fresh "org;api" beta (.wrap 64 4)), .addImporter "org;api" beta (.wrap 64 7),
    .markRemovalPending (.wrap 64 4), .add (.fresh "org" v (.wrap 64 4)),
    .addImporter "api" beta (.wrap 64 7), .add (.fresh "org;api" beta (.wrap 64 5)),
    .addImporter "org;api" beta (.wrap 64 9), .addImporter "org;api" beta (.wrap 64 8),
    .addImporter "org;api" beta (.wrap 64 9), .markRemovalPending (.wrap 64 5)]

example : (made remade).importersOf "org;api" " 1.2.0.beta" = .ok [.wrap 64 9, .wrap 64 8] := by
  decide

theorem listing_settled_remade : (∀ c ∈ remade, c.Proper) ∧ Settled remade := by
  have hproper : ∀ c ∈ remade, c.Proper := by
    have hbeta : Version.Obtained
        ⟨⟨1, by decide, by decide⟩, ⟨2, by decide, by decide⟩, .zero, "beta"⟩ :=
      .ofText (show Version.read "1.2.0.beta" = .ok _ from rfl)
    simp only [remade, List.forall_mem_cons, Change.Proper, Export.fresh, and_true, true_and]
    exact ⟨hbeta, .ofNumbers _ _ _, hbeta, fun c hc => absurd hc List.not_mem_nil⟩
  exact ⟨hproper, listing_settled hproper⟩

end Exports

end FrameworkAdmin
