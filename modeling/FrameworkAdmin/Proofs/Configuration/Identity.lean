/-
# Selecting configurations by their identity

A filter sees the pid, the factory and the location of a configuration under three reserved names.
They are laid over the properties, so a property that is spelled like one of them is not seen.  But the
names of attributes agree up to the case of letters, and the first key in order is taken.  A property
therefore still stands in for a part of the identity

* if its name is another spelling that comes before the reserved one, that is, with a capital letter
  where the two first differ, as in `SERVICE.PID`;
* if its name is any spelling at all and the configuration has no such part, say no factory.

`disguise?` is the value of this property.  A comparison with a part of the identity selects by the
disguise where there is one, and by the identity itself everywhere else (`selection_by_identity`); and
`list_disguised` is a configuration that cannot be found by its pid.
-/
import FrameworkAdmin.Proofs.Configuration.Provenance
import FrameworkAdmin.Proofs.Configuration.Selection
import FrameworkAdmin.Proofs.Filter.Attributes

namespace FrameworkAdmin
namespace Configuration

open Text

/-! ## 1. Identities -/

/-- The parts of the identity of a configuration. -/
inductive Identity where
  | pid
  | factory
  | location

namespace Identity

/-- The reserved name. -/
def reservedName : Identity → String
  | .pid => pidAttribute
  | .factory => factoryPidAttribute
  | .location => locationAttribute

/-- What a configuration under this pid has for a part. -/
def of (pid : String) (c : Configuration) : Identity → Option String
  | .pid => some pid
  | .factory => c.factoryPid
  | .location => c.location

/-- No reserved name is a spelling of another. -/
theorem eq_of_sameIgnoringAsciiCase {i j : Identity}
    (h : sameIgnoringAsciiCase i.reservedName j.reservedName = true) : i = j := by
  cases i <;> cases j <;> first | rfl | exact absurd h (by decide)

/-- Every spelling of a reserved name can be written in a filter. -/
theorem isAttribute (i : Identity) {attr : String}
    (h : sameIgnoringAsciiCase attr i.reservedName = true) : Filter.IsAttribute attr := by
  apply Filter.isAttribute_of_sameIgnoringAsciiCase h
  · cases i <;> decide
  · cases i <;> decide

end Identity

/-! ## 2. The dictionary that a filter sees -/

variable {pid attr key value : String} {c : Configuration} {i : Identity}

/-- Under a reserved name there is the identity. -/
theorem get?_view_reservedName (h : i.of pid c = some value) :
    (c.view pid).get? i.reservedName = some (.ofString value) := by
  obtain ⟨factoryPid, location, properties⟩ := c
  cases i <;> cases factoryPid <;> cases location <;> cases h <;>
    simp +decide [view, Identity.reservedName, SortedMap.get?_insert]

/-- Under every other name there is the property. -/
theorem get?_view_of_ne (h : ∀ j : Identity, (j.of pid c).isSome = true → key ≠ j.reservedName) :
    (c.view pid).get? key = (c.properties.getD ∅).get? key := by
  have hpid := h .pid
  have hfactory := h .factory
  have hlocation := h .location
  obtain ⟨factoryPid, location, properties⟩ := c
  cases factoryPid <;> cases location <;>
    simp_all [view, Identity.reservedName, Identity.of, SortedMap.get?_insert]

/-- Under a spelling that comes before the reserved name, or if there is no identity under that name,
there is the property. -/
theorem get?_view_of_spelling (hkey : sameIgnoringAsciiCase key i.reservedName = true)
    (h : i.of pid c = none ∨ compare key i.reservedName = .lt) :
    (c.view pid).get? key = (c.properties.getD ∅).get? key := by
  refine get?_view_of_ne fun j hj heq => ?_
  -- the other reserved names are not spellings of this one
  obtain rfl := Identity.eq_of_sameIgnoringAsciiCase (heq ▸ hkey)
  rcases h with hnone | hlt
  · simp [hnone] at hj
  · simp [heq] at hlt

/-! ## 3. Disguises -/

/-- The properties that are found instead of a part of the identity: under another spelling of its name
that comes first, or under any spelling if there is no such part. -/
def disguises (pid : String) (c : Configuration) (i : Identity) : Properties :=
  (c.properties.getD ∅).filter fun key _ =>
    (i.of pid c).isNone || compare key i.reservedName == .lt

/-- The value of the first of them. -/
def disguise? (pid : String) (c : Configuration) (i : Identity) : Option Value :=
  (c.disguises pid i).attribute? i.reservedName

theorem get?_disguises_eq_some_iff {v : Value} : (c.disguises pid i).get? key = some v ↔
    (c.properties.getD ∅).get? key = some v ∧
      (i.of pid c = none ∨ compare key i.reservedName = .lt) := by
  simp [disguises, SortedMap.get?_filter_eq_some_iff]

/-- There is no disguise if and only if no property goes by the name in a way that it could be found. -/
theorem disguise?_eq_none_iff : c.disguise? pid i = none ↔
    ∀ key v, (c.properties.getD ∅).get? key = some v →
      sameIgnoringAsciiCase key i.reservedName = true →
        (i.of pid c).isSome = true ∧ compare key i.reservedName ≠ .lt := by
  rw [disguise?, Properties.attribute?_eq_none_iff]
  constructor
  · intro h key v hget hkey
    have hno := mt (fun hdisguise => h key v (get?_disguises_eq_some_iff.2 ⟨hget, hdisguise⟩))
      (by simp [hkey])
    rw [not_or] at hno
    exact ⟨Option.isSome_iff_ne_none.2 hno.1, hno.2⟩
  · intro h key v hget
    obtain ⟨hget, hdisguise⟩ := get?_disguises_eq_some_iff.1 hget
    by_contra hkey
    rw [Bool.not_eq_false] at hkey
    obtain ⟨hpart, hnlt⟩ := h key v hget hkey
    rcases hdisguise with hnone | hlt
    · simp [hnone] at hpart
    · exact hnlt hlt

/-- A disguise is what the filter finds. -/
theorem attribute?_view_of_disguised {v : Value} (h : c.disguise? pid i = some v) :
    (c.view pid).attribute? i.reservedName = some v := by
  obtain ⟨key, hget, hkey, hleast⟩ := Properties.attribute?_eq_some_iff.1 h
  obtain ⟨hget, hdisguise⟩ := get?_disguises_eq_some_iff.1 hget
  refine Properties.attribute?_eq_some_iff.2 ⟨key, ?_, hkey, fun other w hother hspelling hlt => ?_⟩
  · rw [get?_view_of_spelling hkey hdisguise, hget]
  -- what comes before the disguise would be a disguise itself
  · have hdisguise := hdisguise.imp_right (Std.TransCmp.lt_trans hlt)
    rw [get?_view_of_spelling hspelling hdisguise] at hother
    exact hleast other w (get?_disguises_eq_some_iff.2 ⟨hother, hdisguise⟩) hspelling hlt

/-- Without a disguise the filter finds the identity. -/
theorem attribute?_view_of_undisguised (h : c.disguise? pid i = none) :
    (c.view pid).attribute? i.reservedName = (i.of pid c).map .ofString := by
  cases hpart : i.of pid c with
  | none =>
    refine Properties.attribute?_eq_none_iff.2 fun key v hget => ?_
    by_contra hkey
    rw [Bool.not_eq_false] at hkey
    rw [get?_view_of_spelling hkey (Or.inl hpart)] at hget
    simpa [hpart] using (disguise?_eq_none_iff.1 h key v hget hkey).1
  | some value =>
    refine Properties.attribute?_eq_some_iff.2 ⟨i.reservedName, get?_view_reservedName hpart,
      sameIgnoringAsciiCase_refl _, fun other w hother hspelling hlt => ?_⟩
    rw [get?_view_of_spelling hspelling (Or.inr hlt)] at hother
    exact (disguise?_eq_none_iff.1 h other w hother hspelling).2 hlt

/-- What a comparison with a part of the identity goes by. -/
def goesBy (pid : String) (c : Configuration) (i : Identity) (value : String) : Bool :=
  match c.disguise? pid i with
  | some v => v.scalars.any (·.satisfies .equal value)
  | none => i.of pid c == some value

/-- A string is equal to the text of a comparison if and only if it is the text. -/
theorem satisfies_equal_string (a text : String) :
    Scalar.satisfies ⟨.string, a⟩ .equal text = (a == text) := by
  rw [Bool.eq_iff_iff, beq_iff_eq]
  simp only [Scalar.satisfies, Scalar.order?]
  constructor
  · intro h
    cases hcompare : compare a text with
    | lt => simp [hcompare, Comparison.accepts] at h
    | eq => exact Std.LawfulEqCmp.eq_of_compare hcompare
    | gt => simp [hcompare, Comparison.accepts] at h
  · rintro rfl
    simp [Comparison.accepts]

/-- **The comparison selects by the disguise, if there is one, and else by the identity.** -/
theorem listed_compare (hattr : sameIgnoringAsciiCase attr i.reservedName = true) (value : String) :
    c.listed (some (.compare attr .equal value)) pid =
      (c.properties.isSome && c.goesBy pid i value) := by
  rw [listed, Filter.selects, Properties.holds, Properties.attribute?_congr hattr, goesBy]
  cases hdisguise : c.disguise? pid i with
  | some v => rw [attribute?_view_of_disguised hdisguise]
  | none =>
    rw [attribute?_view_of_undisguised hdisguise]
    cases i.of pid c with
    | none => rfl
    | some part => simp [Value.ofString, Value.scalars, satisfies_equal_string]

end Configuration

namespace ConfigurationStore

open FrameworkAdmin.Configuration Text

/-! ## 4. Selection -/

variable {attr : String} {i : Identity}

/-- The filter that compares a part of the identity. -/
def identityFilter (attr value : String) : Filter := .compare attr .equal value

theorem readFilter_identityFilter (hattr : sameIgnoringAsciiCase attr i.reservedName = true)
    (value : String) :
    Refusal.readFilter (identityFilter attr value).text = .ok (identityFilter attr value) := by
  have hwell : (identityFilter attr value).WellFormed :=
    Filter.wellFormed_compare (i.isAttribute hattr) .equal value
  rw [Refusal.readFilter, Filter.read_text hwell]

/-- **A comparison with a part of the identity selects by the disguise, if there is one, and else by
the identity**, whatever the spelling of the reserved name and whatever the value.  What it selects is
listed, changed and removed, and nothing else is. -/
theorem selection_by_identity (s : ConfigurationStore) (i : Identity)
    (hattr : sameIgnoringAsciiCase attr i.reservedName = true) (value : String) :
    (∀ pid, pid ∈ s.selection (identityFilter attr value) ↔
      ∃ c, s.get? pid = some c ∧ c.properties.isSome = true ∧ c.goesBy pid i value = true) ∧
    (∃ entries, s.listLocations (some (identityFilter attr value).text) = .ok entries ∧
      entries.map Prod.fst = s.selection (identityFilter attr value)) ∧
    (∃ t, s.deleteSelected (identityFilter attr value).text =
        (.ok (s.selection (identityFilter attr value)).length, t) ∧
      ∀ x, t.get? x = if x ∈ s.selection (identityFilter attr value) then none else s.get? x) ∧
    (∀ name, ∃ t, s.deletePropertyFromSelected (identityFilter attr value).text name = (.ok (), t) ∧
      ∀ x, t.get? x = if x ∈ s.selection (identityFilter attr value)
        then (s.get? x).map (·.change (withoutProperty name)) else s.get? x) ∧
    ∀ name text type v, Value.read type text = .ok v →
      ∃ t, s.addPropertyToSelected (identityFilter attr value).text name text type =
          (.ok (s.selection (identityFilter attr value)).length, t) ∧
        ∀ x, t.get? x = if x ∈ s.selection (identityFilter attr value)
          then (s.get? x).map (·.change (withProperty name v)) else s.get? x := by
  have hread := readFilter_identityFilter hattr value
  refine ⟨fun pid => ?_, ?_, deleteSelected_spec hread,
    fun name => deletePropertyFromSelected_spec hread,
    fun name text type v hvalue => addPropertyToSelected_spec hvalue hread⟩
  · simp only [mem_selection_iff, identityFilter, listed_compare hattr, Bool.and_eq_true]
  · simp [listLocations, Refusal.readFilter?, hread, selection, Function.comp_def]

/-- A configuration with a property under the name of the pid in capitals. -/
def disguised : ConfigurationStore :=
  (∅ : ConfigurationStore).after [.addProperty "a" none "SERVICE.PID" "x" "String"]

theorem selection_by_identity_disguised :
    sameIgnoringAsciiCase "service.pid" Identity.pid.reservedName = true ∧
      "a" ∉ disguised.selection (identityFilter "service.pid" "a") ∧
      "a" ∈ disguised.selection (identityFilter "service.pid" "x") := by
  refine ⟨by decide, fun hmem => ?_, ?_⟩
  · obtain ⟨c, hget, -, hgoes⟩ :=
      ((selection_by_identity disguised .pid (by decide) "a").1 "a").1 hmem
    cases hget
    revert hgoes
    decide
  · exact ((selection_by_identity disguised .pid (by decide) "x").1 "a").2 ⟨_, rfl, rfl, rfl⟩

/-- This configuration is listed, and its pid does not find it. -/
theorem list_disguised :
    disguised.listLocations none = .ok [("a", none)] ∧
      disguised.listLocations (some "(service.pid=a)") = .ok [] := by
  decide

/-! ## 5. Runs without disguises -/

/-- **If no request of a run puts a property under a spelling of a reserved name, the comparison selects
exactly the configurations with this identity** and with properties. -/
theorem selection_after {requests : List Request}
    (hnames : ∀ r ∈ requests, ∀ name ∈ r.names, sameIgnoringAsciiCase name i.reservedName = false)
    (hattr : sameIgnoringAsciiCase attr i.reservedName = true) (value pid : String) :
    pid ∈ ((∅ : ConfigurationStore).after requests).selection (identityFilter attr value) ↔
      ∃ c, ((∅ : ConfigurationStore).after requests).get? pid = some c ∧
        c.properties.isSome = true ∧ i.of pid c = some value := by
  rw [mem_selection_iff]
  refine exists_congr fun c => and_congr_right fun hget => ?_
  have hdisguise : c.disguise? pid i = none := by
    refine disguise?_eq_none_iff.2 fun key v hkey hspelling => ?_
    rw [namesWithin_after hnames pid c hget key v hkey] at hspelling
    cases hspelling
  rw [identityFilter, listed_compare hattr, goesBy, hdisguise, Bool.and_eq_true, beq_iff_eq]

end ConfigurationStore
end FrameworkAdmin
