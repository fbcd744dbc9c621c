/-
# What an operation does to the store

The operations differ in their answers and in what they are refused for.  To the store they do one of
three things: nothing; work on the configuration under one pid, which is made first if it is not there;
or work on each configuration that a filter selects.  `Request.effect` reads off the request which of the
three it is, without looking at the store, and `get?_run` says that this is all that happens.

The operations are taken apart here.  What holds of every run is shown of the three effects, where it does
not matter in which steps the store comes to what they say.
-/
import FrameworkAdmin.Proofs.Configuration.Selection

namespace FrameworkAdmin
namespace ConfigurationStore

variable {s : ConfigurationStore}

/-! ## 1. Effects -/

/-- What an operation does to the store.  Work on a configuration changes it or removes it. -/
inductive Effect where
  /-- Nothing. -/
  | idle
  /-- Work on the configuration under a pid, or on a new one if there is none. -/
  | single (pid : String) (new : Configuration) (work : Configuration → Option Configuration)
  /-- Work on every configuration that a filter selects. -/
  | selected (f : Filter) (work : Configuration → Option Configuration)

/-- What is under a pid afterwards. -/
def Effect.get? (s : ConfigurationStore) (x : String) : Effect → Option Configuration
  | .idle => s.get? x
  | .single pid new work => if x = pid then work ((s.get? x).getD new) else s.get? x
  | .selected f work => if x ∈ s.selection f then (s.get? x).bind work else s.get? x

/-- The pids that the effect is on. -/
def Effect.Reaches (s : ConfigurationStore) (x : String) : Effect → Prop
  | .idle => False
  | .single pid _ _ => x = pid
  | .selected f _ => x ∈ s.selection f

/-- What is worked on where there is nothing. -/
def Effect.new : Effect → Configuration
  | .single _ new _ => new
  | _ => .unset none

/-- The work. -/
def Effect.work : Effect → Configuration → Option Configuration
  | .idle => some
  | .single _ _ work => work
  | .selected _ work => work

theorem Effect.get?_of_reaches {e : Effect} {x : String} (h : e.Reaches s x) :
    e.get? s x = e.work ((s.get? x).getD e.new) := by
  cases e with
  | idle => cases h
  | single pid new work => exact if_pos h
  | selected f work =>
    have hmem : x ∈ s.selection f := h
    obtain ⟨c, hget⟩ := Option.isSome_iff_exists.1 (isSome_of_mem_selection x hmem)
    rw [Effect.get?, if_pos hmem, hget]
    rfl

theorem Effect.get?_of_not_reaches {e : Effect} {x : String} (h : ¬ e.Reaches s x) :
    e.get? s x = s.get? x := by
  cases e with
  | idle => rfl
  | single pid new work => exact if_neg h
  | selected f work => exact if_neg h

/-- The work of changing the properties. -/
def changing (f : Option Properties → Option Properties) (c : Configuration) :
    Option Configuration := some (c.change f)

/-- The work of removing the configuration. -/
def removing (_ : Configuration) : Option Configuration := none

/-- The effect of an operation. -/
def Request.effect : Request → Effect
  | .addProperty pid location name text type =>
    match Value.read type text with
    | .ok v => .single pid (.unset location) (changing (withProperty name v))
    | .error _ => .idle
  | .addPropertyToSelected filter name text type =>
    match Value.read type text, Refusal.readFilter filter with
    | .ok v, .ok f => .selected f (changing (withProperty name v))
    | _, _ => .idle
  | .createFactory factoryPid suffix location =>
    .single (factoryMadePid factoryPid suffix) ⟨some factoryPid, location, none⟩
      fun _ => some ⟨some factoryPid, location, none⟩
  | .discard pid location => .single pid (.unset location) removing
  | .deleteSelected filter =>
    match Refusal.readFilter filter with
    | .ok f => .selected f removing
    | .error _ => .idle
  | .deleteProperty pid location name =>
    .single pid (.unset location) (changing (withoutProperty name))
  | .deletePropertyFromSelected filter name =>
    match Refusal.readFilter filter with
    | .ok f => .selected f (changing (withoutProperty name))
    | .error _ => .idle
  | .locationOf pid => .single pid (.unset none) some
  | .factoryPidOf pid location => .single pid (.unset location) some
  | .propertiesOf pid location => .single pid (.unset location) some
  | .listLocations _ => .idle
  | .bind pid location => .single pid (.unset none) fun c => some { c with location }
  | .update pid location table =>
    match table.toProperties with
    | .ok p => .single pid (.unset location) (changing fun _ => some p)
    | .error _ => .idle

/-! ## 2. Operations -/

theorem get?_obtain_snd (s : ConfigurationStore) (pid : String) (location : Option String)
    (x : String) :
    (s.obtain pid location).2.get? x =
      if x = pid then some ((s.get? x).getD (.unset location)) else s.get? x := by
  cases hget : s.get? pid with
  | none =>
    rw [obtain_of_none hget, get?_put]
    split
    · rename_i hx
      rw [hx, hget]
      rfl
    · rfl
  | some c =>
    rw [obtain_of_some hget]
    split
    · rename_i hx
      rw [hx, hget]
      rfl
    · rfl

theorem obtain_fst (s : ConfigurationStore) (pid : String) (location : Option String) :
    (s.obtain pid location).1 = (s.get? pid).getD (.unset location) := by
  have h := s.get?_obtain pid location
  rw [get?_obtain_snd, if_pos rfl] at h
  exact (Option.some.inj h).symm

/-- A configuration that was asked for can be changed. -/
theorem modify_obtain (s : ConfigurationStore) (pid : String) (location : Option String)
    (f : Configuration → Configuration) :
    (s.obtain pid location).2.modify pid f =
      .ok ((s.obtain pid location).2.put pid (f (s.obtain pid location).1)) :=
  modify_of_some (s.get?_obtain pid location) f

/-- What such a change leaves behind. -/
theorem get?_put_obtain (s : ConfigurationStore) (pid : String) (location : Option String)
    (f : Configuration → Configuration) (x : String) :
    ((s.obtain pid location).2.put pid (f (s.obtain pid location).1)).get? x =
      if x = pid then some (f ((s.get? x).getD (.unset location))) else s.get? x := by
  rw [get?_put, obtain_fst, get?_obtain_snd]
  split
  · rename_i hx
    rw [hx]
  · rfl

/-- Changing the properties of a configuration that was asked for always succeeds. -/
theorem changeProperties_eq (s : ConfigurationStore) (pid : String) (location : Option String)
    (f : Option Properties → Option Properties) :
    s.changeProperties pid location f =
      (.ok (), (s.obtain pid location).2.put pid ((s.obtain pid location).1.change f)) := by
  simp only [changeProperties, modifyProperties, modify_obtain]
  rfl

/-- So does setting a property to a text that can be read. -/
theorem addProperty_eq (s : ConfigurationStore) (pid : String) (location : Option String)
    (name : String) {text type : String} {v : Value} (h : Value.read type text = .ok v) :
    s.addProperty pid location name text type =
      (.ok (), (s.obtain pid location).2.put pid
        ((s.obtain pid location).1.change (withProperty name v))) := by
  rw [addProperty, h]
  exact s.changeProperties_eq pid location _

/-- So does replacing them by the dictionary of a table that can be read. -/
theorem updateFromTable_eq (s : ConfigurationStore) (pid : String) (location : Option String)
    {table : Table} {p : Properties} (h : table.toProperties = .ok p) :
    s.updateFromTable pid location table =
      (.ok (), (s.obtain pid location).2.put pid
        ((s.obtain pid location).1.change fun _ => some p)) := by
  simp only [updateFromTable, h, update, modify_obtain]
  rfl

/-- And so does binding it. -/
theorem bind_eq (s : ConfigurationStore) (pid : String) (location : Option String) :
    s.bind pid location =
      (.ok (), (s.obtain pid none).2.put pid { (s.obtain pid none).1 with location }) := by
  simp only [bind, setLocation, modify_obtain]

/-- Looking at the properties only asks for the configuration, whether or not they have a table. -/
theorem propertiesOf_snd (s : ConfigurationStore) (pid : String) (location : Option String) :
    (s.propertiesOf pid location).2 = (s.obtain pid location).2 := by
  unfold propertiesOf
  dsimp only
  split
  · rfl
  · split
    · rfl
    · rfl

theorem reply_snd {α : Type} (f : α → Reply) (o : Outcome ConfigurationStore α) :
    (reply f o).2 = o.2 := by
  obtain ⟨a | r, t⟩ := o <;> rfl

/-! ## 3. Requests -/

/-- Working on what a filter selects, where everything that is selected is there. -/
theorem get?_selected_changing (f : Filter) (g : Option Properties → Option Properties) (x : String) :
    (Effect.selected f (changing g)).get? s x =
      if x ∈ s.selection f then (s.get? x).map (·.change g) else s.get? x := by
  rw [Effect.get?]
  cases s.get? x <;> rfl

theorem get?_selected_removing (f : Filter) (x : String) :
    (Effect.selected f removing).get? s x = if x ∈ s.selection f then none else s.get? x := by
  rw [Effect.get?]
  cases s.get? x <;> rfl

/-- **What an operation leaves under a pid is what its effect says.** -/
theorem get?_run (s : ConfigurationStore) (r : Request) (x : String) :
    (r.run s).2.get? x = r.effect.get? s x := by
  cases r with
  | addProperty pid location name text type =>
    rw [Request.run, reply_snd, Request.effect]
    cases hvalue : Value.read type text with
    | error fault =>
      rw [addProperty, hvalue]
      rfl
    | ok v =>
      rw [addProperty_eq s pid location name hvalue]
      exact s.get?_put_obtain pid location _ x
  | addPropertyToSelected filter name text type =>
    rw [Request.run, reply_snd, Request.effect]
    cases hvalue : Value.read type text with
    | error fault =>
      rw [addPropertyToSelected, hvalue]
      rfl
    | ok v =>
      cases hfilter : Refusal.readFilter filter with
      | error refusal =>
        simp only [addPropertyToSelected, hvalue, hfilter]
        rfl
      | ok f =>
        obtain ⟨t, ht, hview⟩ := @addPropertyToSelected_spec s filter name text type f v hvalue hfilter
        rw [ht, hview, get?_selected_changing]
  | createFactory factoryPid suffix location => exact s.get?_put _ _ x
  | discard pid location =>
    rw [Request.run, discard, get?_delete, get?_obtain_snd, Request.effect, Effect.get?]
    by_cases hx : x = pid
    · rw [if_pos hx, if_pos hx]
      rfl
    · rw [if_neg hx, if_neg hx, if_neg hx]
  | deleteSelected filter =>
    rw [Request.run, reply_snd, Request.effect]
    cases hfilter : Refusal.readFilter filter with
    | error refusal =>
      rw [deleteSelected, hfilter]
      rfl
    | ok f =>
      obtain ⟨t, ht, hview⟩ := deleteSelected_spec (s := s) hfilter
      rw [ht, hview, get?_selected_removing]
  | deleteProperty pid location name =>
    rw [Request.run, reply_snd, deleteProperty, changeProperties_eq]
    exact s.get?_put_obtain pid location _ x
  | deletePropertyFromSelected filter name =>
    rw [Request.run, reply_snd, Request.effect]
    cases hfilter : Refusal.readFilter filter with
    | error refusal =>
      rw [deletePropertyFromSelected, hfilter]
      rfl
    | ok f =>
      obtain ⟨t, ht, hview⟩ := @deletePropertyFromSelected_spec s filter name f hfilter
      rw [ht, hview, get?_selected_changing]
  | locationOf pid => exact s.get?_obtain_snd pid none x
  | factoryPidOf pid location => exact s.get?_obtain_snd pid location x
  | propertiesOf pid location =>
    rw [Request.run, reply_snd, propertiesOf_snd]
    exact s.get?_obtain_snd pid location x
  | listLocations filter =>
    rw [Request.run]
    split
    · rfl
    · rfl
  | bind pid location =>
    rw [Request.run, reply_snd, bind_eq]
    exact s.get?_put_obtain pid none (fun c => { c with location }) x
  | update pid location table =>
    rw [Request.run, reply_snd, Request.effect]
    cases htable : table.toProperties with
    | error fault =>
      rw [updateFromTable, htable]
      rfl
    | ok p =>
      rw [updateFromTable_eq s pid location htable]
      exact s.get?_put_obtain pid location _ x

/-! ## 4. Properties -/

end ConfigurationStore

namespace Configuration

/-- The value of a property. -/
def property? (c : Configuration) (name : String) : Option Value := c.properties.bind (·.get? name)

/-- Absent properties are no different from an empty dictionary here. -/
theorem property?_eq_getD (c : Configuration) (name : String) :
    c.property? name = (c.properties.getD ∅).get? name := by
  rw [property?]
  cases c.properties <;> rfl

theorem property?_of_properties_eq_none {c : Configuration} (h : c.properties = none)
    (name : String) : c.property? name = none := by
  rw [property?, h]
  rfl

open ConfigurationStore

theorem property?_change_withProperty (c : Configuration) (name : String) (v : Value) (x : String) :
    (c.change (withProperty name v)).property? x = if x = name then some v else c.property? x := by
  obtain ⟨factoryPid, location, properties⟩ := c
  cases properties <;>
    simp [property?, change, withProperty, SortedMap.get?_insert]

theorem property?_change_withoutProperty (c : Configuration) (name x : String) :
    (c.change (withoutProperty name)).property? x = if x = name then none else c.property? x := by
  obtain ⟨factoryPid, location, properties⟩ := c
  by_cases hx : name = x
  · cases properties <;> simp [property?, change, withoutProperty, SortedMap.get?_erase, hx]
  · cases properties <;>
      simp [property?, change, withoutProperty, SortedMap.get?_erase, hx, Ne.symm hx]

end Configuration

namespace ConfigurationStore

/-- The value of a property of the configuration under a pid. -/
def property? (s : ConfigurationStore) (pid name : String) : Option Value :=
  (s.get? pid).bind (·.property? name)

end ConfigurationStore
end FrameworkAdmin
