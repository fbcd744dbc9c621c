/-
# What a configuration remembers

A configuration that is there has been made at some point of the run and has not been removed since.
Which request made it is settled by the run (`Lifetime`), and so is everything that it remembers: the
factory is that of the request that made it; the location is where it was bound last, or else where it
was first asked for; and it has properties if and only if an update of it was carried out since then.
All other requests ask for it with a location, look at it, or change properties that it has, and leave no
trace in any of the three.

One request is followed in section 2, a lifetime in section 3.  A factory that made a configuration under
a pid that is taken would replace the one that is there, so the pids of factories are required to be new.
-/
import Mathlib.Data.List.Infix
import FrameworkAdmin.Proofs.Configuration.Identity
import FrameworkAdmin.Proofs.Configuration.Names
import FrameworkAdmin.Proofs.Configuration.ReadBack
import FrameworkAdmin.Proofs.Lists

namespace FrameworkAdmin
namespace ConfigurationStore

/-! ## 1. Requests -/

/-- The pid that the request is about.  The configuration of a factory gets one of its own. -/
def Request.pid? : Request → Option String
  | .addProperty pid _ _ _ _ | .discard pid _ | .deleteProperty pid _ _ | .locationOf pid
  | .factoryPidOf pid _ | .propertiesOf pid _ | .bind pid _ | .update pid _ _ => some pid
  | .createFactory factoryPid suffix _ => some (factoryMadePid factoryPid suffix)
  | .addPropertyToSelected _ _ _ _ | .deleteSelected _ | .deletePropertyFromSelected _ _
  | .listLocations _ => none

/-- The location under which the request asks for the configuration. -/
def Request.location : Request → Option String
  | .addProperty _ location _ _ _ | .createFactory _ _ location | .discard _ location
  | .deleteProperty _ location _ | .factoryPidOf _ location | .propertiesOf _ location
  | .update _ location _ => location
  | _ => none

/-- The factory that the request makes a configuration for. -/
def Request.factoryPid? : Request → Option String
  | .createFactory factoryPid _ _ => some factoryPid
  | _ => none

/-- The location, or none, that the request binds the configuration under a pid to. -/
def Request.binding? (pid : String) : Request → Option (Option String)
  | .bind bound location => if bound = pid then some location else none
  | _ => none

/-- The request sets a property of the configuration under a pid, or all of them. -/
def Request.Updates (pid : String) : Request → Prop
  | .addProperty updated _ _ _ _ | .update updated _ _ => updated = pid
  | _ => False

/-- The request is carried out. -/
def Request.Succeeds (s : ConfigurationStore) (r : Request) : Prop :=
  ∃ answer, (r.run s).1 = .ok answer

/-- If the request makes a configuration for a factory, then under a pid that is not taken. -/
def Request.Fresh (s : ConfigurationStore) : Request → Prop
  | .createFactory factoryPid suffix _ => s.get? (factoryMadePid factoryPid suffix) = none
  | _ => True

/-- The pids that factories use in the run are not taken when they are used. -/
def FreshPids : ConfigurationStore → List Request → Prop
  | _, [] => True
  | s, r :: rest => r.Fresh s ∧ FreshPids (r.run s).2 rest

variable {s : ConfigurationStore} {pid : String} {r maker : Request} {c d : Configuration}
  {since : List Request}

theorem after_append (s : ConfigurationStore) (requests later : List Request) :
    s.after (requests ++ later) = (s.after requests).after later := List.foldl_append

theorem freshPids_append_iff {requests later : List Request} :
    FreshPids s (requests ++ later) ↔ FreshPids s requests ∧ FreshPids (s.after requests) later := by
  induction requests generalizing s with
  | nil => exact ⟨fun h => ⟨trivial, h⟩, And.right⟩
  | cons r rest ih => exact (and_congr_right fun _ => ih).trans and_assoc.symm

/-- Setting a property is refused only if its text cannot be read. -/
theorem succeeds_addProperty_iff {location : Option String} {name text type : String} :
    (Request.addProperty pid location name text type).Succeeds s ↔
      ∃ v, Value.read type text = .ok v := by
  cases hread : Value.read type text with
  | error fault =>
    rw [Request.Succeeds, Request.run, addProperty, hread]
    constructor <;> rintro ⟨_, h⟩ <;> cases h
  | ok v =>
    rw [Request.Succeeds, Request.run, addProperty_eq s pid location name hread]
    exact iff_of_true ⟨.done, rfl⟩ ⟨v, rfl⟩

/-- An update is refused only if its table cannot be read. -/
theorem succeeds_update_iff {location : Option String} {table : Table} :
    (Request.update pid location table).Succeeds s ↔ ∃ p, table.toProperties = .ok p := by
  cases hread : table.toProperties with
  | error fault =>
    rw [Request.Succeeds, Request.run, updateFromTable, hread]
    constructor <;> rintro ⟨_, h⟩ <;> cases h
  | ok p =>
    rw [Request.Succeeds, Request.run, updateFromTable_eq s pid location hread]
    exact iff_of_true ⟨.done, rfl⟩ ⟨p, rfl⟩

/-! ## 2. One request -/

/-- What the request makes of a configuration: its factory stays, and so does its location unless it is
bound, and there are properties afterwards if there were some or if it is updated. -/
structure Request.Turns (s : ConfigurationStore) (pid : String) (r : Request) (c d : Configuration) :
    Prop where
  factoryPid_eq : d.factoryPid = c.factoryPid
  location_eq : d.location = (r.binding? pid).getD c.location
  isSome_iff : d.properties.isSome = true ↔
    c.properties.isSome = true ∨ (r.Updates pid ∧ r.Succeeds s)

/-- A request that neither binds nor updates it may leave it as it was. -/
theorem turns_self (hbinding : r.binding? pid = none)
    (hupdates : r.Updates pid → r.Succeeds s → c.properties.isSome = true) : r.Turns s pid c c where
  factoryPid_eq := rfl
  location_eq := by rw [hbinding, Option.getD_none]
  isSome_iff := ⟨Or.inl, fun h => h.elim id fun h => hupdates h.1 h.2⟩

/-- A request that does not bind it may change its properties, if only an update brings some. -/
theorem turns_change {f : Option Properties → Option Properties} (hbinding : r.binding? pid = none)
    (hf : (f c.properties).isSome = true ↔
      c.properties.isSome = true ∨ (r.Updates pid ∧ r.Succeeds s)) :
    r.Turns s pid c (c.change f) where
  factoryPid_eq := rfl
  location_eq := by rw [hbinding, Option.getD_none]; rfl
  isSome_iff := hf

/-- Removing a property neither brings a dictionary nor takes it away. -/
theorem turns_withoutProperty (name : String) (hbinding : r.binding? pid = none)
    (hupdates : ¬ r.Updates pid) : r.Turns s pid c (c.change (withoutProperty name)) := by
  refine turns_change hbinding ?_
  rw [withoutProperty, Option.isSome_map]
  exact ⟨Or.inl, fun h => h.elim id fun h => absurd h.1 hupdates⟩

/-- A configuration that a request does not reach is not bound by it and not updated. -/
theorem turns_of_not_reaches (h : ¬ r.effect.Reaches s pid) : r.Turns s pid c c := by
  cases r with
  | addProperty updated location name text type =>
    refine turns_self rfl fun hpid hdone => absurd ?_ h
    obtain ⟨v, hread⟩ := succeeds_addProperty_iff.1 hdone
    rw [Request.effect, hread]
    exact Eq.symm hpid
  | update updated location table =>
    refine turns_self rfl fun hpid hdone => absurd ?_ h
    obtain ⟨p, hread⟩ := succeeds_update_iff.1 hdone
    rw [Request.effect, hread]
    exact Eq.symm hpid
  | bind bound location =>
    exact turns_self (if_neg fun hpid => h (Eq.symm hpid)) fun hupdates => hupdates.elim
  | _ => exact turns_self rfl fun hupdates => hupdates.elim

/-- What is selected has properties. -/
theorem isSome_properties_of_mem_selection {f : Filter} {new : Configuration}
    (h : pid ∈ s.selection f) : ((s.get? pid).getD new).properties.isSome = true := by
  obtain ⟨c, hget, hlisted⟩ := mem_selection_iff.1 h
  rw [hget, Option.getD_some]
  exact (Bool.and_eq_true_iff.1 hlisted).1

/-- **What a request makes of a configuration that it reaches**, or of the one that it makes. -/
theorem turns_of_reaches (hfresh : r.Fresh s) (hreach : r.effect.Reaches s pid)
    (hd : r.effect.work ((s.get? pid).getD r.effect.new) = some d) :
    r.Turns s pid ((s.get? pid).getD r.effect.new) d := by
  generalize hc : (s.get? pid).getD r.effect.new = c at hd
  have h : r.effect.Reaches s pid ∧ r.effect.work c = some d := ⟨hreach, hd⟩
  clear hreach hd
  cases r with
  | addProperty updated location name text type =>
    rw [Request.effect] at h
    split at h
    · rename_i v hread
      obtain rfl := Option.some.inj h.2
      refine turns_change rfl (iff_of_true rfl (Or.inr ⟨Eq.symm h.1, ?_⟩))
      exact succeeds_addProperty_iff.2 ⟨v, hread⟩
    · exact h.1.elim
  | addPropertyToSelected filter name text type =>
    rw [Request.effect] at h
    split at h
    · obtain rfl := Option.some.inj h.2
      have hsome : c.properties.isSome = true := hc ▸ isSome_properties_of_mem_selection h.1
      exact turns_change rfl (iff_of_true rfl (Or.inl hsome))
    · exact h.1.elim
  | createFactory factoryPid suffix location =>
    -- the pid is not taken, so what is worked on is what is made
    have hnone : s.get? pid = none := Eq.symm h.1 ▸ hfresh
    rw [hnone] at hc
    obtain rfl : c = d := hc.symm.trans (Option.some.inj h.2)
    exact turns_self rfl fun hupdates => hupdates.elim
  | discard removed location => cases h.2
  | deleteSelected filter =>
    rw [Request.effect] at h
    split at h
    · cases h.2
    · exact h.1.elim
  | deleteProperty changed location name =>
    obtain rfl := Option.some.inj h.2
    exact turns_withoutProperty name rfl id
  | deletePropertyFromSelected filter name =>
    rw [Request.effect] at h
    split at h
    · obtain rfl := Option.some.inj h.2
      exact turns_withoutProperty name rfl id
    · exact h.1.elim
  | locationOf _ | factoryPidOf _ _ | propertiesOf _ _ =>
    obtain rfl := Option.some.inj h.2
    exact turns_self rfl fun hupdates => hupdates.elim
  | listLocations filter => exact h.1.elim
  | bind bound location =>
    obtain rfl := Option.some.inj h.2
    refine ⟨rfl, ?_, ?_⟩
    · rw [Request.binding?, if_pos (Eq.symm h.1), Option.getD_some]
    · exact ⟨Or.inl, fun hsome => hsome.elim id fun hupdates => hupdates.1.elim⟩
  | update updated location table =>
    rw [Request.effect] at h
    split at h
    · rename_i p hread
      obtain rfl := Option.some.inj h.2
      refine turns_change rfl (iff_of_true rfl (Or.inr ⟨Eq.symm h.1, ?_⟩))
      exact succeeds_update_iff.2 ⟨p, hread⟩
    · exact h.1.elim

/-- **A configuration that is there after a request** is what the request makes of the one before, or of
a new one. -/
theorem turns_of_run (hfresh : r.Fresh s) (h : (r.run s).2.get? pid = some d) :
    r.Turns s pid ((s.get? pid).getD r.effect.new) d := by
  rw [get?_run] at h
  by_cases hreach : r.effect.Reaches s pid
  · rw [Effect.get?_of_reaches hreach] at h
    exact turns_of_reaches hfresh hreach h
  · rw [Effect.get?_of_not_reaches hreach] at h
    rw [h]
    exact turns_of_not_reaches hreach

/-- What a request is about, where its effect is on one pid. -/
theorem eq_of_effect_eq_single {x : String} {new : Configuration}
    {work : Configuration → Option Configuration} (h : r.effect = .single x new work) :
    r.pid? = some x ∧ new = ⟨r.factoryPid?, r.location, none⟩ := by
  unfold Request.effect at h
  repeat' split at h
  all_goals cases h
  all_goals exact ⟨rfl, rfl⟩

/-- **Only a request about the pid makes a configuration**, and makes it for its factory and with its
location. -/
theorem new_of_run (hnone : s.get? pid = none) (h : (r.run s).2.get? pid = some d) :
    r.pid? = some pid ∧ r.effect.new = ⟨r.factoryPid?, r.location, none⟩ := by
  rw [get?_run] at h
  cases heffect : r.effect with
  | idle =>
    rw [heffect, Effect.get?, hnone] at h
    cases h
  | single x new work =>
    obtain ⟨hpid, hnew⟩ := eq_of_effect_eq_single heffect
    rw [heffect, Effect.get?, hnone] at h
    split at h
    · rename_i hx
      exact ⟨hx ▸ hpid, hnew⟩
    · cases h
  | selected f work =>
    rw [heffect, Effect.get?, hnone] at h
    split at h <;> cases h

/-! ## 3. Lifetimes -/

/-- In a run from `s` the first request makes the configuration, and it is there from then on. -/
structure Lifetime (s : ConfigurationStore) (pid : String) (maker : Request) (since : List Request) :
    Prop where
  absent : s.get? pid = none
  present : ∀ done, done <+: since → ((s.after (maker :: done)).get? pid).isSome = true

instance (s : ConfigurationStore) (pid : String) (maker : Request) (since : List Request) :
    Decidable (Lifetime s pid maker since) :=
  decidable_of_iff (s.get? pid = none ∧
      ∀ done ∈ since.inits, ((s.after (maker :: done)).get? pid).isSome = true)
    ⟨fun h => ⟨h.1, fun done hdone => h.2 done ((List.mem_inits _ _).2 hdone)⟩,
      fun h => ⟨h.absent, fun done hdone => h.present done ((List.mem_inits _ _).1 hdone)⟩⟩

/-- In a run from `s` an update of the configuration is carried out. -/
def Updated (s : ConfigurationStore) (pid : String) (requests : List Request) : Prop :=
  ∃ done r rest, requests = done ++ r :: rest ∧ r.Updates pid ∧ r.Succeeds (s.after done)

theorem not_updated_nil : ¬ Updated s pid [] := by
  rintro ⟨done, r, rest, heq, -⟩
  cases done <;> cases heq

theorem updated_concat_iff {requests : List Request} : Updated s pid (requests ++ [r]) ↔
    Updated s pid requests ∨ (r.Updates pid ∧ r.Succeeds (s.after requests)) := by
  constructor
  · rintro ⟨done, x, rest, heq, hupdates, hsucceeds⟩
    rcases List.eq_nil_or_concat rest with rfl | ⟨rest, y, rfl⟩
    · obtain ⟨rfl, hr⟩ := List.append_inj' heq rfl
      obtain rfl := List.singleton_inj.1 hr
      exact Or.inr ⟨hupdates, hsucceeds⟩
    · rw [List.concat_eq_append, ← List.cons_append, ← List.append_assoc] at heq
      obtain ⟨rfl, -⟩ := List.append_inj' heq rfl
      exact Or.inl ⟨done, x, rest, rfl, hupdates, hsucceeds⟩
  · rintro (⟨done, x, rest, rfl, hupdates, hsucceeds⟩ | ⟨hupdates, hsucceeds⟩)
    · exact ⟨done, x, rest ++ [r], by rw [List.append_assoc, List.cons_append], hupdates, hsucceeds⟩
    · exact ⟨requests, r, [], rfl, hupdates, hsucceeds⟩

/-- **A configuration that is there has had a lifetime.** -/
theorem exists_lifetime {requests : List Request} (hnone : s.get? pid = none)
    (h : ((s.after requests).get? pid).isSome = true) :
    ∃ before maker since, requests = before ++ maker :: since ∧
      Lifetime (s.after before) pid maker since := by
  induction requests using List.reverseRecOn with
  | nil =>
    rw [after, List.foldl_nil, hnone] at h
    cases h
  | append_singleton requests r ih =>
    cases hget : (s.after requests).get? pid with
    | none =>
      refine ⟨requests, r, [], rfl, hget, fun done hdone => ?_⟩
      rw [List.prefix_nil.1 hdone, ← after_append]
      exact h
    | some c =>
      rw [hget] at ih
      obtain ⟨before, maker, since, rfl, hlife⟩ := ih rfl
      refine ⟨before, maker, since ++ [r], ?_, hlife.absent, fun done hdone => ?_⟩
      · rw [List.append_assoc, List.cons_append]
      · rcases List.prefix_concat_iff.1 hdone with rfl | hdone
        · rw [← after_append, ← List.cons_append, ← List.append_assoc]
          exact h
        · exact hlife.present done hdone

theorem Lifetime.of_concat (h : Lifetime s pid maker (since ++ [r])) : Lifetime s pid maker since where
  absent := h.absent
  present := fun done hdone => h.present done (hdone.trans (List.prefix_append since [r]))

/-- **What a lifetime leaves in the configuration.** -/
theorem Lifetime.leaves (hlife : Lifetime s pid maker since) (hfresh : FreshPids s (maker :: since))
    (hget : (s.after (maker :: since)).get? pid = some c) :
    c.factoryPid = maker.factoryPid? ∧
      c.location = ((maker :: since).filterMap (·.binding? pid)).getLastD maker.location ∧
      (c.properties.isSome = true ↔ Updated s pid (maker :: since)) := by
  induction since using List.reverseRecOn generalizing c with
  | nil =>
    have hturns := turns_of_run hfresh.1 hget
    rw [hlife.absent, Option.getD_none, (new_of_run hlife.absent hget).2] at hturns
    refine ⟨hturns.factoryPid_eq, ?_, ?_⟩
    · rw [hturns.location_eq]
      exact (getLastD_filterMap_concat _ [] maker _).symm
    · rw [← List.nil_append [maker], updated_concat_iff, hturns.isSome_iff]
      exact or_congr_left (iff_of_false nofun not_updated_nil)
  | append_singleton since r ih =>
    obtain ⟨b, hb⟩ := Option.isSome_iff_exists.1 (hlife.of_concat.present since List.prefix_rfl)
    obtain ⟨hbefore, hr⟩ := freshPids_append_iff.1 (List.cons_append ▸ hfresh)
    obtain ⟨hfactory, hlocation, hsome⟩ := ih hlife.of_concat hbefore hb
    rw [← List.cons_append, after_append] at hget
    have hturns := turns_of_run hr.1 hget
    rw [hb, Option.getD_some] at hturns
    rw [← List.cons_append, getLastD_filterMap_concat, updated_concat_iff, ← hsome, ← hlocation]
    exact ⟨hturns.factoryPid_eq.trans hfactory, hturns.location_eq, hturns.isSome_iff⟩

/-! ## 4. What is remembered -/

/-- A listing shows what is there, has properties, and is bound where the listing says. -/
theorem exists_of_mem_listLocations {filter : Option String} {entries : List (String × Option String)}
    (h : s.listLocations filter = .ok entries) {location : Option String}
    (hmem : (pid, location) ∈ entries) :
    ∃ c, s.get? pid = some c ∧ c.properties.isSome = true ∧ c.location = location := by
  rw [listLocations] at h
  split at h
  · cases h
  · obtain rfl := Except.ok.inj h
    obtain ⟨⟨x, c⟩, hlisted, heq⟩ := List.mem_map.1 hmem
    obtain ⟨rfl, rfl⟩ := Prod.mk.inj heq
    obtain ⟨hget, hlisted⟩ := mem_list_iff.1 hlisted
    exact ⟨c, hget, (Bool.and_eq_true_iff.1 hlisted).1, rfl⟩

/-- What a configuration, made by a request in a run from `s` and there ever since, is in the end. -/
structure Remembers (s : ConfigurationStore) (pid : String) (maker : Request) (since : List Request)
    (c : Configuration) : Prop where
  /-- It was made under its own pid, and goes by it. -/
  own_pid : maker.pid? = some pid ∧
    (c.view pid).get? Configuration.pidAttribute = some (.ofString pid)
  /-- It is a factory's exactly if that factory's request made it. -/
  factoryPid_iff : ∀ factoryPid, c.factoryPid = some factoryPid ↔
    ∃ suffix location, maker = .createFactory factoryPid suffix location
  /-- It is bound where it was bound last, or else where the request that made it asked for it. -/
  location_eq : c.location =
    ((maker :: since).filterMap (·.binding? pid)).getLastD maker.location
  /-- It has properties exactly if an update of it was carried out. -/
  isSome_iff : c.properties.isSome = true ↔ Updated s pid (maker :: since)
  /-- Listings show it where it is bound, and not at all if it was not updated. -/
  listed : ∀ filter entries, (s.after (maker :: since)).listLocations filter = .ok entries →
    ∀ location, (pid, location) ∈ entries →
      location = c.location ∧ Updated s pid (maker :: since)
  /-- Nor has it a table then. -/
  not_updated : ¬ Updated s pid (maker :: since) → ∀ location,
    (s.after (maker :: since)).propertiesOf pid location = (.ok none, s.after (maker :: since))

/-- A whole configuration is found under its own pid, and shows it to filters. -/
theorem BuiltAlike.own_pid {records : NamedConfigurationStore} (h : BuiltAlike s records)
    (hget : s.get? pid = some c) : ∃ r, records.byPid.get? pid = some r ∧ r.name = pid ∧ r.content = c ∧
      (Configuration.viewOf r).get? Configuration.pidAttribute = some (.ofString pid) :=
  ⟨⟨pid, c⟩, (h.bearsNames.get?_iff pid _).2 ⟨rfl, hget⟩, rfl, rfl,
    Configuration.get?_view_reservedName (i := .pid) rfl⟩

theorem Request.factoryPid?_eq_some_iff {factoryPid : String} : r.factoryPid? = some factoryPid ↔
    ∃ suffix location, r = .createFactory factoryPid suffix location := by
  cases r <;> simp [Request.factoryPid?]

/-- **A lifetime is remembered**, by all that a configuration is. -/
theorem Lifetime.remembers (hlife : Lifetime s pid maker since)
    (hfresh : FreshPids s (maker :: since))
    (hget : (s.after (maker :: since)).get? pid = some c) : Remembers s pid maker since c := by
  obtain ⟨hfactory, hlocation, hsome⟩ := hlife.leaves hfresh hget
  obtain ⟨d, hd⟩ := Option.isSome_iff_exists.1 (hlife.present [] List.nil_prefix)
  refine ⟨⟨(new_of_run hlife.absent hd).1, ?_⟩, fun factoryPid => ?_, hlocation, hsome, ?_, ?_⟩
  · exact Configuration.get?_view_reservedName (i := .pid) rfl
  · rw [hfactory]
    exact Request.factoryPid?_eq_some_iff
  · intro filter entries hlist location hmem
    obtain ⟨x, hx, hproperties, rfl⟩ := exists_of_mem_listLocations hlist hmem
    obtain rfl := Option.some.inj (hget.symm.trans hx)
    exact ⟨rfl, hsome.1 hproperties⟩
  · intro hnot location
    refine propertiesOf_of_none hget ?_ location
    rw [← Option.not_isSome_iff_eq_none]
    exact fun h => hnot (hsome.1 h)

/-- **What a configuration remembers of its history.**  In every run from nothing, with new pids for
factories, a configuration that is there in the end is filed under the pid that it bears, in the store of
whole configurations that the same operations put together.  It was made by a request of the run and has
been there since; and for the request that made it and those since, it is what `Remembers` says. -/
theorem remembers_history {requests : List Request}
    (hfresh : FreshPids (∅ : ConfigurationStore) requests)
    (hget : ((∅ : ConfigurationStore).after requests).get? pid = some c) :
    ((∃ records, BuiltAlike ((∅ : ConfigurationStore).after requests) records) ∧
      ∀ records, BuiltAlike ((∅ : ConfigurationStore).after requests) records →
        ((∅ : ConfigurationStore).after requests).byPid.BearsNames records.byPid ∧
        ∃ r, records.byPid.get? pid = some r ∧ r.name = pid ∧ r.content = c ∧
          (Configuration.viewOf r).get? Configuration.pidAttribute = some (.ofString pid)) ∧
    (∃ before maker since, requests = before ++ maker :: since ∧
      Lifetime ((∅ : ConfigurationStore).after before) pid maker since) ∧
    ∀ before maker since, requests = before ++ maker :: since →
      Lifetime ((∅ : ConfigurationStore).after before) pid maker since →
      Remembers ((∅ : ConfigurationStore).after before) pid maker since c := by
  refine ⟨⟨recorded_after requests, fun _ hrecords => ⟨hrecords.bearsNames, hrecords.own_pid hget⟩⟩,
    exists_lifetime rfl (Option.isSome_iff_exists.2 ⟨c, hget⟩), ?_⟩
  rintro before maker since rfl hlife
  rw [after_append] at hget
  exact hlife.remembers (freshPids_append_iff.1 hfresh).2 hget

/-- A run in which `a` is made twice, is refused an update and loses a property that it does not have,
while the configuration of a factory is updated on its own and through a filter. -/
def eventful : List Request := [
  .addProperty "a" none "k" "1" "Integer", .discard "a" none, .bind "a" (some "file:a"),
  .addProperty "a" (some "file:b") "k" "one" "Integer", .deleteProperty "a" (some "file:b") "k",
  .createFactory "f" "1" (some "file:f"), .addProperty "f.1" none "n" "2" "Integer",
  .addPropertyToSelected "(n=2)" "k" "x" "String"]

theorem remembers_history_eventful :
    FreshPids (∅ : ConfigurationStore) eventful ∧
      ∃ c d, ((∅ : ConfigurationStore).after eventful).get? "a" = some c ∧
        ((∅ : ConfigurationStore).after eventful).get? "f.1" = some d ∧
        Remembers ((∅ : ConfigurationStore).after (eventful.take 2)) "a"
          (.bind "a" (some "file:a")) (eventful.drop 3) c ∧
        Remembers ((∅ : ConfigurationStore).after (eventful.take 5)) "f.1"
          (.createFactory "f" "1" (some "file:f")) (eventful.drop 6) d := by
  have hfresh : FreshPids (∅ : ConfigurationStore) eventful :=
    ⟨trivial, trivial, trivial, trivial, trivial, rfl, trivial, trivial, trivial⟩
  have ha : Lifetime ((∅ : ConfigurationStore).after (eventful.take 2)) "a"
      (.bind "a" (some "file:a")) (eventful.drop 3) := by decide
  have hf : Lifetime ((∅ : ConfigurationStore).after (eventful.take 5)) "f.1"
      (.createFactory "f" "1" (some "file:f")) (eventful.drop 6) := by decide
  exact ⟨hfresh, _, _, rfl, rfl, (remembers_history hfresh rfl).2.2 _ _ _ rfl ha,
    (remembers_history hfresh rfl).2.2 _ _ _ rfl hf⟩

end ConfigurationStore
end FrameworkAdmin
