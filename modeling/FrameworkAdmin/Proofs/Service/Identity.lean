/-
# The identity of a service

A caller may pass any dictionary to a registration and to each modification, also one with an id and
interfaces of its own.  They are overwritten when the service is registered, and every modification takes
them over from the dictionary that it replaces, where they must be there to be taken.

So a service is settled by the run: by its registration, by the last dictionary since, and by the bundles
that have come to use it since (`Registration.service`).  Section 3 follows one change of a service of this
form and shows that it stays of this form.

Ids are the other half.  They count the registrations so far, whether or not the services are still there,
so that no service of the past is met again (section 4).  The count is kept in 64 bits, and what is said
about ids is said of runs in which it does not overflow.
-/
import FrameworkAdmin.Proofs.Lists
import FrameworkAdmin.Service.Registry

namespace FrameworkAdmin

namespace Service

/-- The service with other properties, except for those that carry its identity. -/
def revise (old : Service) (p : Properties) : Service :=
  { old with properties := keep classesProperty old.properties (keep idProperty old.properties p) }

/-- The service with one more user, unless it is one already. -/
def addUser (old : Service) (bundle : FrameworkId) : Service :=
  { old with users := if old.users.contains bundle then old.users else old.users ++ [bundle] }

theorem keep_eq_insert {key : String} {old p : Properties} {v : Value} (h : old.get? key = some v) :
    keep key old p = p.insert key v := by
  rw [keep, h]

end Service

namespace ServiceRegistry

/-! ## 1. Registrations -/

/-- What is registered. -/
structure Registration where
  bundle : FrameworkId
  location : String
  classes : List String
  properties : Properties

/-- The registration that the change makes. -/
def Change.registration? : Change → Option Registration
  | .register bundle location classes p => some ⟨bundle, location, classes, p⟩
  | _ => none

/-- The dictionary that the change replaces the properties of this service with. -/
def Change.dictionary? (id : FrameworkId) : Change → Option Properties
  | .modify n p => if n = id then some p else none
  | _ => none

/-- The bundle that the change makes a user of this service. -/
def Change.user? (id : FrameworkId) : Change → Option FrameworkId
  | .addUser n bundle => if n = id then some bundle else none
  | _ => none

/-- The registrations of a run in order. -/
def registrations (changes : List Change) : List Registration :=
  changes.filterMap Change.registration?

namespace Registration

/-- The registration as a change. -/
def change (r : Registration) : Change := .register r.bundle r.location r.classes r.properties

/-- A dictionary with the identity of the service, whatever it has under these two keys. -/
def identify (r : Registration) (id : FrameworkId) (p : Properties) : Properties :=
  (p.insert Service.idProperty (.ofLong id)).insert Service.classesProperty (.ofStrings r.classes)

/-- The registered service after the changes since. -/
def service (r : Registration) (id : FrameworkId) (since : List Change) : Service where
  id
  bundle := r.bundle
  location := r.location
  properties := r.identify id ((since.filterMap (Change.dictionary? id)).getLastD r.properties)
  users := (since.filterMap (Change.user? id)).eraseDups

/-- The event of this type about the registered service. -/
def event (r : Registration) (id : FrameworkId) (type : EventType) : ServiceEvent :=
  ⟨id, r.bundle, r.location, r.classes, type⟩

section

variable (r : Registration) (id : FrameworkId)

theorem get?_identify_idProperty (p : Properties) :
    (r.identify id p).get? Service.idProperty = some (.ofLong id) := by
  rw [identify, SortedMap.get?_insert_of_ne _ _ (by decide), SortedMap.get?_insert_self]

theorem get?_identify_classesProperty (p : Properties) :
    (r.identify id p).get? Service.classesProperty = some (.ofStrings r.classes) :=
  SortedMap.get?_insert_self _ _ _

theorem classes_service (since : List Change) : (r.service id since).classes = r.classes := by
  rw [Service.classes, service, get?_identify_classesProperty]
  rfl

theorem event_service (since : List Change) (type : EventType) :
    (r.service id since).event type = r.event id type := by
  rw [Service.event, classes_service]
  rfl

end

end Registration

/-- The registry after a run from the empty one. -/
def after (changes : List Change) : ServiceRegistry := ((∅ : ServiceRegistry).run changes).2

/-- The events of a run from the empty registry. -/
def events (changes : List Change) : List ServiceEvent := ((∅ : ServiceRegistry).run changes).1

/-- The id that the next registration is given. -/
def next (s : ServiceRegistry) : FrameworkId := .wrap 64 (s.registered + 1)

/-- The run registers `r`, the event of which has this id, and goes on with these changes. -/
def RegisteredAs (changes : List Change) (id : FrameworkId) (r : Registration)
    (since : List Change) : Prop :=
  ∃ before, changes = before ++ r.change :: since ∧
    ((after before).register r.bundle r.location r.classes r.properties).1.service = id

variable {s : ServiceRegistry} {c : Change} {changes since : List Change} {id : FrameworkId}
  {r : Registration}

theorem registration?_eq_some_iff : c.registration? = some r ↔ c = r.change := by
  cases c with
  | register bundle location classes p =>
    obtain ⟨_, _, _, _⟩ := r
    simp [Change.registration?, Registration.change]
  | modify _ _ | unregister _ | addUser _ _ =>
    simp [Change.registration?, Registration.change]

/-! ## 2. One change of the registry -/

theorem run_register (s : ServiceRegistry) (r : Registration) :
    r.change.run s = (some (r.event s.next .registered),
      ⟨s.registered + 1, s.byId.insert s.next (r.service s.next [])⟩) := by
  rw [← r.event_service s.next []]
  rfl

theorem event_modify (s : ServiceRegistry) (n : FrameworkId) (p : Properties) :
    (s.modify n p).1 = (s.get? n).map fun old => (old.revise p).event .modified := by
  rw [modify]
  cases s.get? n <;> rfl

theorem event_unregister (s : ServiceRegistry) (n : FrameworkId) :
    (s.unregister n).1 = (s.get? n).map fun old => old.event .unregistering := by
  rw [unregister]
  cases s.get? n <;> rfl

/-- Replacing the service under an id that has one. -/
theorem get?_insert_of_some {n : FrameworkId} {old : Service} (hget : s.get? n = some old)
    (f : Service → Service) (id : FrameworkId) :
    (s.byId.insert n (f old)).get? id = (s.get? id).map fun x => if n = id then f x else x := by
  by_cases h : n = id
  · subst h
    rw [SortedMap.get?_insert_self, hget, Option.map_some, if_pos rfl]
  · rw [SortedMap.get?_insert_of_ne _ _ (Ne.symm h)]
    simp only [if_neg h, Option.map_id_fun']
    rfl

/-- Where there is no service, there is none to replace. -/
theorem get?_eq_map_of_none {n : FrameworkId} (hget : s.get? n = none) (f : Service → Service)
    (id : FrameworkId) : s.get? id = (s.get? id).map fun x => if n = id then f x else x := by
  by_cases h : n = id
  · subst h
    rw [hget, Option.map_none]
  · simp only [if_neg h, Option.map_id_fun', id_eq]

theorem get?_modify (s : ServiceRegistry) (n : FrameworkId) (p : Properties) (id : FrameworkId) :
    (s.modify n p).2.get? id = (s.get? id).map fun old => if n = id then old.revise p else old := by
  cases hget : s.get? n with
  | none =>
    rw [modify, hget]
    exact get?_eq_map_of_none hget _ id
  | some old =>
    rw [modify, hget]
    exact get?_insert_of_some hget (·.revise p) id

theorem get?_addUser (s : ServiceRegistry) (n bundle id : FrameworkId) :
    (s.addUser n bundle).2.get? id =
      (s.get? id).map fun old => if n = id then old.addUser bundle else old := by
  cases hget : s.get? n with
  | none =>
    rw [addUser, hget]
    exact get?_eq_map_of_none hget _ id
  | some old =>
    rw [addUser, hget]
    exact get?_insert_of_some hget (·.addUser bundle) id

theorem get?_unregister (s : ServiceRegistry) (n id : FrameworkId) :
    (s.unregister n).2.get? id = (s.get? id).bind fun old => if n = id then none else some old := by
  cases hget : s.get? n with
  | none =>
    rw [unregister, hget]
    by_cases h : n = id
    · subst h
      rw [hget, Option.bind_none]
    · simp only [if_neg h, Option.bind_fun_some]
  | some old =>
    rw [unregister, hget]
    refine (SortedMap.get?_erase s.byId n id).trans ?_
    by_cases h : n = id
    · subst h
      rw [hget, Option.bind_some, if_pos rfl, if_pos Std.ReflCmp.compare_self]
    · rw [if_neg fun heq => h (Std.LawfulEqCmp.eq_of_compare heq)]
      simp only [if_neg h, Option.bind_fun_some]
      rfl

theorem registered_modify (s : ServiceRegistry) (n : FrameworkId) (p : Properties) :
    (s.modify n p).2.registered = s.registered := by
  rw [modify]
  cases s.get? n <;> rfl

theorem registered_addUser (s : ServiceRegistry) (n bundle : FrameworkId) :
    (s.addUser n bundle).2.registered = s.registered := by
  rw [addUser]
  cases s.get? n <;> rfl

theorem registered_unregister (s : ServiceRegistry) (n : FrameworkId) :
    (s.unregister n).2.registered = s.registered := by
  rw [unregister]
  cases s.get? n <;> rfl

/-- What the change makes of the service with this id, unless the change is what gives out the id. -/
def Change.effect (id : FrameworkId) : Change → Service → Option Service
  | .register _ _ _ _, old => some old
  | .modify n p, old => some (if n = id then old.revise p else old)
  | .unregister n, old => if n = id then none else some old
  | .addUser n bundle, old => some (if n = id then old.addUser bundle else old)

/-- **One change, looked at through one id.** -/
theorem get?_run (hfresh : c.registration?.isSome = true → s.next ≠ id) :
    (c.run s).2.get? id = (s.get? id).bind (c.effect id) := by
  cases c with
  | register bundle location classes p =>
    refine (SortedMap.get?_insert_of_ne _ _ (hfresh rfl).symm).trans ?_
    exact (Option.bind_fun_some _).symm
  | modify n p => exact (s.get?_modify n p id).trans Option.map_eq_bind
  | unregister n => exact s.get?_unregister n id
  | addUser n bundle => exact (s.get?_addUser n bundle id).trans Option.map_eq_bind

/-! ## 3. One change of a service -/

/-- A modification finds the identity in the properties and takes it over. -/
theorem revise_service (p : Properties) :
    (r.service id since).revise p = { r.service id since with properties := r.identify id p } := by
  have hid : (r.service id since).properties.get? Service.idProperty = some (.ofLong id) :=
    r.get?_identify_idProperty id _
  have hclasses : (r.service id since).properties.get? Service.classesProperty =
      some (.ofStrings r.classes) := r.get?_identify_classesProperty id _
  rw [Service.revise, Service.keep_eq_insert hclasses, Service.keep_eq_insert hid]
  rfl

/-- A change that does not concern the service. -/
theorem service_concat (hdictionary : c.dictionary? id = none) (huser : c.user? id = none) :
    r.service id (since ++ [c]) = r.service id since := by
  simp [Registration.service, hdictionary, huser]

theorem service_concat_modify (p : Properties) :
    r.service id (since ++ [.modify id p]) = (r.service id since).revise p := by
  have hdictionary : (Change.modify id p).dictionary? id = some p := if_pos rfl
  have huser : (Change.modify id p).user? id = none := rfl
  rw [revise_service]
  simp [Registration.service, hdictionary, huser]

theorem service_concat_addUser (bundle : FrameworkId) :
    r.service id (since ++ [.addUser id bundle]) = (r.service id since).addUser bundle := by
  have hdictionary : (Change.addUser id bundle).dictionary? id = none := rfl
  have huser : (Change.addUser id bundle).user? id = some bundle := if_pos rfl
  simp [Registration.service, Service.addUser, hdictionary, huser, eraseDups_concat]

/-- **A service is what its registration and the changes since make of it.** -/
theorem effect_service (h : c ≠ .unregister id) :
    c.effect id (r.service id since) = some (r.service id (since ++ [c])) := by
  cases c with
  | register _ _ _ _ => rw [service_concat rfl rfl, Change.effect]
  | modify n p =>
    rw [Change.effect]
    split
    · rename_i hn
      rw [hn, service_concat_modify]
    · rename_i hn
      rw [service_concat (c := .modify n p) (if_neg hn) rfl]
  | unregister n =>
    have hn : n ≠ id := fun hn => h (congrArg Change.unregister hn)
    rw [Change.effect, if_neg hn, service_concat rfl rfl]
  | addUser n bundle =>
    rw [Change.effect]
    split
    · rename_i hn
      rw [hn, service_concat_addUser]
    · rename_i hn
      rw [service_concat (c := .addUser n bundle) rfl (if_neg hn)]

theorem effect_unregister (old : Service) : (Change.unregister id).effect id old = none :=
  if_pos rfl

/-! ## 4. Runs -/

theorem run_cons (s : ServiceRegistry) (c : Change) (changes : List Change) :
    s.run (c :: changes) =
      ((c.run s).1.toList ++ ((c.run s).2.run changes).1, ((c.run s).2.run changes).2) := rfl

theorem run_append (s : ServiceRegistry) (changes later : List Change) :
    s.run (changes ++ later) =
      ((s.run changes).1 ++ ((s.run changes).2.run later).1, ((s.run changes).2.run later).2) := by
  induction changes generalizing s with
  | nil => rfl
  | cons c changes ih =>
    rw [List.cons_append, run_cons, ih, run_cons]
    simp only [List.append_assoc]

theorem after_concat (changes : List Change) (c : Change) :
    after (changes ++ [c]) = (c.run (after changes)).2 := by
  rw [after, run_append]
  rfl

theorem events_concat (changes : List Change) (c : Change) :
    events (changes ++ [c]) = events changes ++ (c.run (after changes)).1.toList := by
  rw [events, run_append]
  exact congrArg _ (List.append_nil _)

theorem length_registrations_append (changes later : List Change) :
    (registrations (changes ++ later)).length =
      (registrations changes).length + (registrations later).length := by
  rw [registrations, List.filterMap_append, List.length_append]
  rfl

/-- Only registrations count. -/
theorem registered_run (s : ServiceRegistry) (c : Change) :
    (c.run s).2.registered = s.registered + (registrations [c]).length := by
  cases c with
  | register _ _ _ _ => rfl
  | modify n p => exact s.registered_modify n p
  | unregister n => exact s.registered_unregister n
  | addUser n bundle => exact s.registered_addUser n bundle

theorem registered_after (changes : List Change) :
    (after changes).registered = (registrations changes).length := by
  induction changes using List.reverseRecOn with
  | nil => rfl
  | append_singleton changes c ih =>
    rw [after_concat, registered_run, ih, length_registrations_append]

theorem val_next (h : (registrations changes).length + 1 < 2 ^ (63 : Nat)) :
    (after changes).next.val = (registrations changes).length + 1 := by
  rw [next, registered_after]
  exact Bounded.val_wrap_eq (by omega) (by omega)

/-- What was registered in a run with one change more. -/
theorem registeredAs_concat_iff :
    RegisteredAs (changes ++ [c]) id r since ↔
      (∃ earlier, since = earlier ++ [c] ∧ RegisteredAs changes id r earlier) ∨
        (since = [] ∧ c = r.change ∧ (after changes).next = id) := by
  constructor
  · rintro ⟨before, heq, hid⟩
    rcases List.eq_nil_or_concat since with rfl | ⟨earlier, last, rfl⟩
    · obtain ⟨rfl, hc⟩ := List.append_inj' heq rfl
      exact Or.inr ⟨rfl, List.singleton_inj.1 hc, hid⟩
    · rw [List.concat_eq_append] at heq ⊢
      rw [← List.cons_append, ← List.append_assoc] at heq
      obtain ⟨rfl, hc⟩ := List.append_inj' heq rfl
      rw [List.singleton_inj.1 hc]
      exact Or.inl ⟨earlier, rfl, before, rfl, hid⟩
  · rintro (⟨earlier, rfl, before, rfl, hid⟩ | ⟨rfl, rfl, hid⟩)
    · exact ⟨before, by rw [List.append_assoc, List.cons_append], hid⟩
    · exact ⟨changes, rfl, hid⟩

theorem RegisteredAs.concat (h : RegisteredAs changes id r since) (c : Change) :
    RegisteredAs (changes ++ [c]) id r (since ++ [c]) :=
  registeredAs_concat_iff.2 (Or.inl ⟨since, rfl, h⟩)

/-- The ids that have been given out are counted. -/
theorem RegisteredAs.val_le (h : RegisteredAs changes id r since)
    (hcount : (registrations changes).length < 2 ^ (63 : Nat)) :
    id.val ≤ (registrations changes).length := by
  obtain ⟨before, rfl, rfl⟩ := h
  have hlength := length_registrations_append before (r.change :: since)
  have hcons : (registrations (r.change :: since)).length = (registrations since).length + 1 := rfl
  have hnext : (after before).next.val = (registrations before).length + 1 := val_next (by omega)
  rw [show ((after before).register r.bundle r.location r.classes r.properties).1.service =
    (after before).next from rfl, hnext]
  omega

/-- **The next id is new**, whatever has become of the services before. -/
theorem RegisteredAs.next_ne (h : RegisteredAs changes id r since)
    (hcount : (registrations (changes ++ [c])).length < 2 ^ (63 : Nat)) :
    c.registration?.isSome = true → (after changes).next ≠ id := by
  rintro hregisters rfl
  obtain ⟨r', hr'⟩ := Option.isSome_iff_exists.1 hregisters
  have hone : (registrations [c]).length = 1 := by
    rw [registrations, List.filterMap_cons_some hr']
    rfl
  rw [length_registrations_append, hone] at hcount
  have hle := h.val_le (by omega)
  have hnext : (after changes).next.val = (registrations changes).length + 1 := val_next hcount
  omega

theorem length_registrations_of_concat (hcount : (registrations (changes ++ [c])).length < 2 ^ (63 : Nat)) :
    (registrations changes).length < 2 ^ (63 : Nat) := by
  rw [length_registrations_append] at hcount
  omega

/-- An id belongs to one registration of the run. -/
theorem RegisteredAs.unique (hcount : (registrations changes).length < 2 ^ (63 : Nat))
    {r' : Registration} {since' : List Change} (h : RegisteredAs changes id r since)
    (h' : RegisteredAs changes id r' since') : r = r' ∧ since = since' := by
  induction changes using List.reverseRecOn generalizing since since' with
  | nil =>
    obtain ⟨before, heq, -⟩ := h
    cases before <;> cases heq
  | append_singleton changes c ih =>
    rcases registeredAs_concat_iff.1 h with ⟨earlier, rfl, hearlier⟩ | ⟨rfl, hc, hid⟩
    · rcases registeredAs_concat_iff.1 h' with ⟨earlier', rfl, hearlier'⟩ | ⟨rfl, hc', hid'⟩
      · obtain ⟨hr, hsince⟩ := ih (length_registrations_of_concat hcount) hearlier hearlier'
        exact ⟨hr, by rw [hsince]⟩
      · exact absurd hid' (hearlier.next_ne hcount (by rw [hc']; rfl))
    · rcases registeredAs_concat_iff.1 h' with ⟨earlier', rfl, hearlier'⟩ | ⟨rfl, hc', hid'⟩
      · exact absurd hid (hearlier'.next_ne hcount (by rw [hc]; rfl))
      · have hr : some r = some r' := by
          rw [← registration?_eq_some_iff.2 hc, registration?_eq_some_iff.2 hc']
        exact ⟨Option.some.inj hr, rfl⟩

/-- **What has become of a registration.** -/
theorem RegisteredAs.get?_after (hcount : (registrations changes).length < 2 ^ (63 : Nat))
    (h : RegisteredAs changes id r since) :
    (Change.unregister id ∈ since → (after changes).get? id = none) ∧
      (Change.unregister id ∉ since → (after changes).get? id = some (r.service id since)) := by
  induction changes using List.reverseRecOn generalizing since with
  | nil =>
    obtain ⟨before, heq, -⟩ := h
    cases before <;> cases heq
  | append_singleton changes c ih =>
    rw [after_concat]
    rcases registeredAs_concat_iff.1 h with ⟨earlier, rfl, hearlier⟩ | ⟨rfl, rfl, rfl⟩
    · obtain ⟨hgone, hlive⟩ := ih (length_registrations_of_concat hcount) hearlier
      rw [get?_run (hearlier.next_ne hcount)]
      constructor
      · intro hmem
        rcases List.mem_append.1 hmem with hmem | hmem
        · rw [hgone hmem]
          rfl
        · obtain rfl := List.mem_singleton.1 hmem
          cases (after changes).get? id with
          | none => rfl
          | some old => exact effect_unregister old
      · intro hmem
        rw [List.mem_append, not_or, List.mem_singleton] at hmem
        rw [hlive hmem.1, Option.bind_some, effect_service (Ne.symm hmem.2)]
    · constructor
      · nofun
      · intro _
        rw [run_register]
        exact SortedMap.get?_insert_self _ _ _

/-- Whatever is there was registered in the run. -/
theorem exists_registeredAs {service : Service} (h : (after changes).get? id = some service) :
    ∃ r since, RegisteredAs changes id r since := by
  induction changes using List.reverseRecOn generalizing service with
  | nil => cases h
  | append_singleton changes c ih =>
    by_cases hnew : c.registration?.isSome = true ∧ (after changes).next = id
    · obtain ⟨r, hr⟩ := Option.isSome_iff_exists.1 hnew.1
      exact ⟨r, [], registeredAs_concat_iff.2
        (Or.inr ⟨rfl, registration?_eq_some_iff.1 hr, hnew.2⟩)⟩
    · rw [after_concat, get?_run fun hc heq => hnew ⟨hc, heq⟩] at h
      obtain ⟨old, hold, -⟩ := Option.bind_eq_some_iff.1 h
      obtain ⟨r, since, hregistered⟩ := ih hold
      exact ⟨r, since ++ [c], hregistered.concat c⟩

/-- **The services that are there**, and what they are. -/
theorem get?_after_iff (hcount : (registrations changes).length < 2 ^ (63 : Nat)) {service : Service} :
    (after changes).get? id = some service ↔ ∃ r since, RegisteredAs changes id r since ∧
      Change.unregister id ∉ since ∧ service = r.service id since := by
  constructor
  · intro hget
    obtain ⟨r, since, hregistered⟩ := exists_registeredAs hget
    obtain ⟨hgone, hlive⟩ := hregistered.get?_after hcount
    have hmem : Change.unregister id ∉ since := by
      intro hmem
      rw [hgone hmem] at hget
      cases hget
    rw [hlive hmem] at hget
    exact ⟨r, since, hregistered, hmem, (Option.some.inj hget).symm⟩
  · rintro ⟨r, since, hregistered, hmem, rfl⟩
    exact (hregistered.get?_after hcount).2 hmem

/-! ## 5. Events -/

/-- The ids that one change gives out, told by its events. -/
theorem filter_event_run (s : ServiceRegistry) (c : Change) :
    ((c.run s).1.toList.filter (·.type = .registered)).map (·.service.val) =
      (registrations [c]).map fun _ => s.next.val := by
  cases c with
  | register _ _ _ _ => rfl
  | modify n p =>
    rw [Change.run, event_modify]
    cases s.get? n <;> rfl
  | unregister n =>
    rw [Change.run, event_unregister]
    cases s.get? n <;> rfl
  | addUser _ _ => rfl

/-- **Ids count up.** -/
theorem map_service_events (hcount : (registrations changes).length < 2 ^ (63 : Nat)) :
    ((events changes).filter (·.type = .registered)).map (·.service.val) =
      (List.range (registrations changes).length).map fun n : Nat => (n : Int) + 1 := by
  induction changes using List.reverseRecOn with
  | nil => rfl
  | append_singleton changes c ih =>
    rw [events_concat, List.filter_append, List.map_append,
      ih (length_registrations_of_concat hcount), filter_event_run, length_registrations_append]
    rw [length_registrations_append] at hcount
    cases hc : c.registration? with
    | none =>
      have hnone : registrations [c] = [] := List.filterMap_cons_none hc
      rw [hnone]
      exact List.append_nil _
    | some r =>
      have hone : registrations [c] = [r] := List.filterMap_cons_some hc
      rw [hone] at hcount ⊢
      rw [List.length_singleton, List.range_succ, List.map_append, List.map_singleton,
        List.map_singleton, val_next hcount]

/-- The event of one change has the identity of a registration. -/
theorem exists_registeredAs_of_run (hcount : (registrations changes).length < 2 ^ (63 : Nat))
    {e : ServiceEvent} (h : (c.run (after changes)).1 = some e) :
    ∃ r since, RegisteredAs (changes ++ [c]) e.service r since ∧ e = r.event e.service e.type := by
  cases c with
  | register bundle location classes p =>
    rw [show Change.register bundle location classes p =
      Registration.change ⟨bundle, location, classes, p⟩ from rfl, run_register] at h
    obtain rfl := Option.some.inj h
    exact ⟨_, [], registeredAs_concat_iff.2 (Or.inr ⟨rfl, rfl, rfl⟩), rfl⟩
  | modify n p =>
    rw [Change.run, event_modify] at h
    obtain ⟨old, hold, rfl⟩ := Option.map_eq_some_iff.1 h
    obtain ⟨r, since, hregistered, -, rfl⟩ := (get?_after_iff hcount).1 hold
    rw [← service_concat_modify, Registration.event_service]
    exact ⟨r, _, hregistered.concat _, rfl⟩
  | unregister n =>
    rw [Change.run, event_unregister] at h
    obtain ⟨old, hold, rfl⟩ := Option.map_eq_some_iff.1 h
    obtain ⟨r, since, hregistered, -, rfl⟩ := (get?_after_iff hcount).1 hold
    rw [Registration.event_service]
    exact ⟨r, _, hregistered.concat _, rfl⟩
  | addUser _ _ => cases h

/-- **Every event has the identity of a registration.** -/
theorem exists_registeredAs_of_mem_events (hcount : (registrations changes).length < 2 ^ (63 : Nat))
    {e : ServiceEvent} (h : e ∈ events changes) :
    ∃ r since, RegisteredAs changes e.service r since ∧ e = r.event e.service e.type := by
  induction changes using List.reverseRecOn with
  | nil => cases h
  | append_singleton changes c ih =>
    rw [events_concat, List.mem_append, Option.mem_toList] at h
    rcases h with h | h
    · obtain ⟨r, since, hregistered, he⟩ := ih (length_registrations_of_concat hcount) h
      exact ⟨r, since ++ [c], hregistered.concat c, he⟩
    · exact exists_registeredAs_of_run (length_registrations_of_concat hcount) h

/-! ## 6. Identity -/

/-- The service under an id, when `r` was registered as it and these changes followed. -/
structure Identified (changes : List Change) (id : FrameworkId) (r : Registration)
    (since : List Change) (service : Service) : Prop where
  /-- It is stored under its own id. -/
  id_eq : service.id = id
  /-- It belongs to the bundle that registered it. -/
  bundle_eq : service.bundle = r.bundle
  /-- So does its location. -/
  location_eq : service.location = r.location
  /-- Its properties carry its id. -/
  idProperty_eq : service.properties.get? Service.idProperty = some (.ofLong id)
  /-- They carry the interfaces that it was registered under. -/
  classesProperty_eq : service.properties.get? Service.classesProperty =
    some (.ofStrings r.classes)
  /-- These are the interfaces that clients are told. -/
  classes_eq : service.classes = r.classes
  /-- Everything else in the properties is from the last dictionary. -/
  properties_eq : service.properties =
    r.identify id ((since.filterMap (Change.dictionary? id)).getLastD r.properties)
  /-- Its users are those since the registration, each once, in the order of their first use. -/
  users_eq : (after changes).usersOf? id = some (since.filterMap (Change.user? id)).eraseDups
  /-- A modification puts the identity over the new dictionary, and changes nothing else. -/
  modified : ∀ p, ((after changes).modify id p).1 = some (r.event id .modified) ∧
    ((after changes).modify id p).2.get? id = some { service with properties := r.identify id p }
  /-- The last event of the service has the same identity. -/
  unregistered : ((after changes).unregister id).1 = some (r.event id .unregistering)

theorem RegisteredAs.identified (hcount : (registrations changes).length < 2 ^ (63 : Nat))
    (h : RegisteredAs changes id r since) {service : Service}
    (hget : (after changes).get? id = some service) : Identified changes id r since service := by
  obtain ⟨r', since', h', -, rfl⟩ := (get?_after_iff hcount).1 hget
  obtain ⟨rfl, rfl⟩ := h.unique hcount h'
  exact {
    id_eq := rfl
    bundle_eq := rfl
    location_eq := rfl
    idProperty_eq := r.get?_identify_idProperty id _
    classesProperty_eq := r.get?_identify_classesProperty id _
    classes_eq := r.classes_service id since
    properties_eq := rfl
    users_eq := by
      rw [usersOf?, hget]
      rfl
    modified := fun p => by
      constructor
      · rw [event_modify, hget, Option.map_some, ← service_concat_modify,
          Registration.event_service]
      · rw [get?_modify, hget, Option.map_some, if_pos rfl, revise_service]
    unregistered := by
      rw [event_unregister, hget, Option.map_some, Registration.event_service] }

/-- **The identity of a service is settled by its registration.**  The ids that registrations are given
count up from 1, so that each belongs to one registration; services are there from their registration to
the first time they are unregistered, with the identity that they were registered with; and the events
about them have it, too. -/
theorem identity_settled (hcount : (registrations changes).length < 2 ^ (63 : Nat)) :
    ((events changes).filter (·.type = .registered)).map (·.service.val) =
        (List.range (registrations changes).length).map (fun n : Nat => (n : Int) + 1) ∧
      (∀ id r r' since since', RegisteredAs changes id r since →
        RegisteredAs changes id r' since' → r = r' ∧ since = since') ∧
      (∀ id, (∃ service, (after changes).get? id = some service) ↔
        ∃ r since, RegisteredAs changes id r since ∧ Change.unregister id ∉ since) ∧
      (∀ id service, (after changes).get? id = some service →
        ∃ r since, RegisteredAs changes id r since ∧ Identified changes id r since service) ∧
      (∀ e ∈ events changes,
        ∃ r since, RegisteredAs changes e.service r since ∧ e = r.event e.service e.type) := by
  refine ⟨map_service_events hcount, ?_, fun id => ?_, ?_, ?_⟩
  · intro id r r' since since' h h'
    exact h.unique hcount h'
  · constructor
    · rintro ⟨service, hget⟩
      obtain ⟨r, since, h, hmem, -⟩ := (get?_after_iff hcount).1 hget
      exact ⟨r, since, h, hmem⟩
    · rintro ⟨r, since, h, hmem⟩
      exact ⟨_, (h.get?_after hcount).2 hmem⟩
  · intro id service hget
    obtain ⟨r, since, h⟩ := exists_registeredAs hget
    exact ⟨r, since, h, h.identified hcount hget⟩
  · intro e he
    exact exists_registeredAs_of_mem_events hcount he

/-- Dictionaries with an id and interfaces of their own, and a service that takes the place of another. -/
def usurping : List Change := [
  .register (.wrap 64 3) "file:log.jar" ["org.example.Log"]
    (.ofList [("objectClass", .ofStrings ["x.X"]), ("service.id", .ofLong (.wrap 64 9))]),
  .addUser (.wrap 64 1) (.wrap 64 5), .addUser (.wrap 64 1) (.wrap 64 4),
  .addUser (.wrap 64 1) (.wrap 64 5),
  .modify (.wrap 64 1) (.ofList [("ranking", .ofBool true), ("service.id", .ofLong (.wrap 64 2))]),
  .unregister (.wrap 64 1),
  .register (.wrap 64 3) "file:log.jar" ["org.example.Log"] ∅]

theorem identity_settled_usurping :
    (registrations usurping).length < 2 ^ (63 : Nat) ∧
    ((events usurping).filter (·.type = .registered)).map (·.service.val) =
        (List.range (registrations usurping).length).map (fun n : Nat => (n : Int) + 1) ∧
      (∀ id r r' since since', RegisteredAs usurping id r since →
        RegisteredAs usurping id r' since' → r = r' ∧ since = since') ∧
      (∀ id, (∃ service, (after usurping).get? id = some service) ↔
        ∃ r since, RegisteredAs usurping id r since ∧ Change.unregister id ∉ since) ∧
      (∀ id service, (after usurping).get? id = some service →
        ∃ r since, RegisteredAs usurping id r since ∧ Identified usurping id r since service) ∧
      (∀ e ∈ events usurping,
        ∃ r since, RegisteredAs usurping e.service r since ∧ e = r.event e.service e.type) := by
  have hcount : (registrations usurping).length < 2 ^ (63 : Nat) := by decide
  exact ⟨hcount, identity_settled hcount⟩

end ServiceRegistry
end FrameworkAdmin
