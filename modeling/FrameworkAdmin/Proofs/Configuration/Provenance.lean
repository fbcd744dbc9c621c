/-
# Where properties come from

No operation makes up a property.  A setting names it and gives its value as a text, a replacement takes
the rows of its table, and nothing else brings one; removals and new configurations only have fewer.  So
every property in the store was put there, under its name and with its value, by a request of the run
(`exists_puts_of_property?_after`).

Two consequences are drawn from it.  What holds of all names that the requests give holds of all names in
the store (`namesWithin_after`); and since requests give values as texts, every value in the store can be
read from a text (`Reached.readable`).
-/
import FrameworkAdmin.Proofs.Configuration.Effects
import FrameworkAdmin.Proofs.Property.Tables

namespace FrameworkAdmin

/-- All names of the dictionary are of a kind. -/
def Properties.NamesWithin (N : String → Prop) (p : Properties) : Prop :=
  ∀ name v, p.get? name = some v → N name

namespace ConfigurationStore

variable {s : ConfigurationStore} {pid name : String} {v : Value}

/-! ## 1. One operation -/

/-- The request puts this value under this name. -/
def Request.Puts (name : String) (v : Value) : Request → Prop
  | .addProperty _ _ key text type => name = key ∧ Value.read type text = .ok v
  | .addPropertyToSelected _ key text type => name = key ∧ Value.read type text = .ok v
  | .update _ _ table => ∃ p, table.toProperties = .ok p ∧ p.get? name = some v
  | _ => False

/-- What is made on the way has no properties. -/
theorem properties_new_effect (r : Request) : r.effect.new.properties = none := by
  unfold Request.effect
  repeat' split
  all_goals rfl

/-- Setting a property brings this one. -/
theorem property?_changing_withProperty {key : String} {w : Value} {c d : Configuration}
    (hd : changing (withProperty key w) c = some d) (h : d.property? name = some v) :
    (name = key ∧ w = v) ∨ c.property? name = some v := by
  obtain rfl := Option.some.inj hd
  rw [Configuration.property?_change_withProperty] at h
  split at h
  · exact Or.inl ⟨‹_›, Option.some.inj h⟩
  · exact Or.inr h

/-- Removing a property brings none. -/
theorem property?_changing_withoutProperty {key : String} {c d : Configuration}
    (hd : changing (withoutProperty key) c = some d) (h : d.property? name = some v) :
    c.property? name = some v := by
  obtain rfl := Option.some.inj hd
  rw [Configuration.property?_change_withoutProperty] at h
  split at h
  · cases h
  · exact h

/-- The work of an operation brings no property but those that the request puts. -/
theorem puts_of_property?_work {r : Request} {c d : Configuration} (hd : r.effect.work c = some d)
    (h : d.property? name = some v) : r.Puts name v ∨ c.property? name = some v := by
  have hsame : some c = some d → c.property? name = some v := fun heq => Option.some.inj heq ▸ h
  cases r with
  | addProperty pid location key text type =>
    rw [Request.effect] at hd
    split at hd
    · rename_i w hvalue
      rcases property?_changing_withProperty hd h with ⟨hname, rfl⟩ | hkept
      · exact Or.inl ⟨hname, hvalue⟩
      · exact Or.inr hkept
    · exact Or.inr (hsame hd)
  | addPropertyToSelected filter key text type =>
    rw [Request.effect] at hd
    split at hd
    · rename_i w f hvalue hfilter
      rcases property?_changing_withProperty hd h with ⟨hname, rfl⟩ | hkept
      · exact Or.inl ⟨hname, hvalue⟩
      · exact Or.inr hkept
    · exact Or.inr (hsame hd)
  | createFactory factoryPid suffix location =>
    obtain rfl := Option.some.inj hd
    cases h
  | discard pid location => cases hd
  | deleteSelected filter =>
    rw [Request.effect] at hd
    split at hd
    · cases hd
    · exact Or.inr (hsame hd)
  | deleteProperty pid location key => exact Or.inr (property?_changing_withoutProperty hd h)
  | deletePropertyFromSelected filter key =>
    rw [Request.effect] at hd
    split at hd
    · exact Or.inr (property?_changing_withoutProperty hd h)
    · exact Or.inr (hsame hd)
  | locationOf pid => exact Or.inr (hsame hd)
  | factoryPidOf pid location => exact Or.inr (hsame hd)
  | propertiesOf pid location => exact Or.inr (hsame hd)
  | listLocations filter => exact Or.inr (hsame hd)
  | bind pid location =>
    obtain rfl := Option.some.inj hd
    exact Or.inr h
  | update pid location table =>
    rw [Request.effect] at hd
    split at hd
    · rename_i p htable
      obtain rfl := Option.some.inj hd
      exact Or.inl ⟨p, htable, h⟩
    · exact Or.inr (hsame hd)

/-- **An operation brings no property but those that its request puts.** -/
theorem puts_of_property?_run {r : Request} (h : (r.run s).2.property? pid name = some v) :
    r.Puts name v ∨ s.property? pid name = some v := by
  rw [property?, get?_run] at h
  by_cases hreach : r.effect.Reaches s pid
  · rw [Effect.get?_of_reaches hreach] at h
    obtain ⟨d, hd, hv⟩ := Option.bind_eq_some_iff.1 h
    refine (puts_of_property?_work hd hv).imp_right fun hc => ?_
    rw [property?]
    cases hget : s.get? pid with
    | none =>
      rw [hget] at hc
      exact absurd hc (by simp [Configuration.property?_of_properties_eq_none (properties_new_effect r)])
    | some c =>
      rw [hget] at hc
      exact hc
  · rw [Effect.get?_of_not_reaches hreach] at h
    exact Or.inr h

/-! ## 2. Runs -/

/-- **Every property after a run was there before or was put there by a request.** -/
theorem puts_of_property?_after {requests : List Request}
    (h : (s.after requests).property? pid name = some v) :
    (∃ r ∈ requests, r.Puts name v) ∨ s.property? pid name = some v := by
  induction requests generalizing s with
  | nil => exact Or.inr h
  | cons r rest ih =>
    rcases ih (s := (r.run s).2) h with ⟨q, hq, hputs⟩ | hafter
    · exact Or.inl ⟨q, List.mem_cons_of_mem _ hq, hputs⟩
    · exact (puts_of_property?_run hafter).imp_left fun hputs => ⟨r, List.mem_cons_self, hputs⟩

/-- In a run from nothing every property was put there by a request. -/
theorem exists_puts_of_property?_after {requests : List Request}
    (h : ((∅ : ConfigurationStore).after requests).property? pid name = some v) :
    ∃ r ∈ requests, r.Puts name v := by
  rcases puts_of_property?_after h with hputs | hempty
  · exact hputs
  · cases hempty

/-! ## 3. Names -/

/-- The names under which a request puts properties. -/
def Request.names : Request → List String
  | .addProperty _ _ name _ _ => [name]
  | .addPropertyToSelected _ name _ _ => [name]
  | .update _ _ table => table.keys
  | _ => []

theorem Request.Puts.mem_names {r : Request} (h : r.Puts name v) : name ∈ r.names := by
  cases r with
  | addProperty pid location key text type => exact List.mem_singleton.2 h.1
  | addPropertyToSelected filter key text type => exact List.mem_singleton.2 h.1
  | update pid location table =>
    obtain ⟨p, hp, hget⟩ := h
    have hkeys : name ∈ p.keys := SortedMap.mem_keys_iff.2 ⟨v, hget⟩
    rwa [Table.keys_of_toProperties hp] at hkeys
  | _ => cases h

/-- All names of properties in the store are of a kind. -/
def NamesWithin (N : String → Prop) (s : ConfigurationStore) : Prop :=
  ∀ pid c, s.get? pid = some c → (c.properties.getD ∅).NamesWithin N

/-- **What holds of all names that the requests of a run give holds of all names in the store.** -/
theorem namesWithin_after {N : String → Prop} {requests : List Request}
    (h : ∀ r ∈ requests, ∀ name ∈ r.names, N name) :
    ((∅ : ConfigurationStore).after requests).NamesWithin N := by
  intro pid c hget name v hname
  have hproperty : ((∅ : ConfigurationStore).after requests).property? pid name = some v := by
    rw [property?, hget, Option.bind_some, ← hname]
    exact c.property?_eq_getD name
  obtain ⟨r, hr, hputs⟩ := exists_puts_of_property?_after hproperty
  exact h r hr name hputs.mem_names

/-! ## 4. Values -/

/-- Requests give values as texts. -/
theorem Request.Puts.readable {r : Request} (h : r.Puts name v) : v.Readable := by
  cases r with
  | addProperty pid location key text type => exact ⟨type, text, h.2⟩
  | addPropertyToSelected filter key text type => exact ⟨type, text, h.2⟩
  | update pid location table =>
    obtain ⟨p, hp, hget⟩ := h
    exact Table.readable_of_toProperties hp name v hget
  | _ => cases h

/-- The store is what some run of operations makes of nothing. -/
def Reached (s : ConfigurationStore) : Prop :=
  ∃ requests, s = (∅ : ConfigurationStore).after requests

/-- **In a store that was reached every dictionary is one that can be read from a table.** -/
theorem Reached.readable (hs : s.Reached) {c : Configuration} {p : Properties}
    (hget : s.get? pid = some c) (hp : c.properties = some p) : p.Readable := by
  intro name v hname
  have hproperty : s.property? pid name = some v := by
    rw [property?, hget, Option.bind_some, Configuration.property?, hp]
    exact hname
  obtain ⟨requests, rfl⟩ := hs
  obtain ⟨r, -, hputs⟩ := exists_puts_of_property?_after hproperty
  exact hputs.readable

end ConfigurationStore
end FrameworkAdmin
