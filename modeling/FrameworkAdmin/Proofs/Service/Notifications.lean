/-
# Notifications tell what the registry answers

A client that never asks and only listens still knows which services there are, which bundle has
registered each of them, and under which interfaces: its last notification about a service says so, or
says that the service is gone.

The reason is a property of single changes (`profile?_run_of_some`).  A change gives an event or none; if it gives
one, the event describes what there is now under its id, and under every other id nothing that is told of
has changed; if it gives none, then nothing has changed under any id.  So what the registry has under an id
is what the last event about it describes (`profile?_after`), whether the id has been given out once or
more often, and however many changes were made in vain.

Sending adds nothing to this but a number, and encoding loses nothing.  The number has 64 bits, so it is
the number of the event only as long as these can count the events.
-/
import FrameworkAdmin.Proofs.Record.Conversions
import FrameworkAdmin.Proofs.Service.Identity
import FrameworkAdmin.Service.Notification

namespace FrameworkAdmin

/-- What events tell of a service that is there. -/
structure ServiceProfile where
  bundle : FrameworkId
  location : String
  classes : List String
deriving DecidableEq

/-- What events about the service tell of it. -/
def Service.profile (s : Service) : ServiceProfile := ⟨s.bundle, s.location, s.classes⟩

/-- What there is after an event: nothing, if the service is about to go. -/
def ServiceEvent.profile? (e : ServiceEvent) : Option ServiceProfile :=
  if e.type = .unregistering then none else some ⟨e.bundle, e.location, e.classes⟩

theorem ServiceEvent.profile?_eq_some_iff {e : ServiceEvent} {profile : ServiceProfile} :
    e.profile? = some profile ↔
      e.type ≠ .unregistering ∧ profile = ⟨e.bundle, e.location, e.classes⟩ := by
  rw [profile?]
  by_cases h : e.type = .unregistering
  · simp [h]
  · simp [h, eq_comm]

theorem Notifier.sendAll_cons (n : Notifier) (e : ServiceEvent) (es : List ServiceEvent) :
    n.sendAll (e :: es) =
      ((n.send e).1 :: ((n.send e).2.sendAll es).1, ((n.send e).2.sendAll es).2) := rfl

/-- **Notifications are numbered on from those that were sent before.** -/
theorem Notifier.sendAll_eq (n : Notifier) (es : List ServiceEvent) :
    n.sendAll es =
      (es.mapIdx fun k e => ⟨serviceEventType, n.sent + .ofNat k, e.encode⟩,
        ⟨n.sent + .ofNat es.length⟩) := by
  have hfirst : ∀ m : UInt64, m + .ofNat 0 = m := UInt64.add_zero
  have hnext : ∀ (m : UInt64) (k : Nat), m + 1 + .ofNat k = m + .ofNat (k + 1) := by
    intro m k
    rw [UInt64.ofNat_add, UInt64.ofNat_one, UInt64.add_assoc, UInt64.add_comm 1]
  induction es generalizing n with
  | nil => rw [sendAll, List.mapIdx_nil, List.length_nil, hfirst]
  | cons e es ih =>
    rw [sendAll_cons, ih, List.mapIdx_cons, List.length_cons]
    simp only [send, hfirst, hnext]

namespace ServiceRegistry

variable {s : ServiceRegistry} {c : Change} {changes : List Change} {id : FrameworkId}

/-! ## 1. What is sent -/

/-- What a sender without a past sends about a run from the empty registry. -/
def notifications (changes : List Change) : List Notification :=
  (Notifier.initial.sendAll (events changes)).1

/-- The last of the notifications about a service. -/
def latest? (sent : List Notification) (id : FrameworkId) : Option Notification :=
  (sent.filter (·.data.service = id)).getLast?

/-- The last of the events about a service. -/
def lastEvent? (es : List ServiceEvent) (id : FrameworkId) : Option ServiceEvent :=
  (es.filter (·.service = id)).getLast?

theorem notifications_eq (changes : List Change) :
    notifications changes =
      (events changes).mapIdx fun k e => ⟨serviceEventType, .ofNat k, e.encode⟩ := by
  rw [notifications, Notifier.sendAll_eq]
  simp only [Notifier.initial, UInt64.zero_add]

theorem length_notifications (changes : List Change) :
    (notifications changes).length = (events changes).length := by
  rw [notifications_eq, List.length_mapIdx]

/-- The notification with a number is about the event with this number. -/
theorem getElem?_notifications (changes : List Change) (k : Nat) :
    (notifications changes)[k]? =
      (events changes)[k]?.map fun e => ⟨serviceEventType, .ofNat k, e.encode⟩ := by
  rw [notifications_eq, List.getElem?_mapIdx]

theorem map_data_notifications (changes : List Change) :
    (notifications changes).map (·.data) = (events changes).map ServiceEvent.encode := by
  refine List.ext_getElem? fun k => ?_
  rw [List.getElem?_map, List.getElem?_map, getElem?_notifications, Option.map_map]
  rfl

/-- The last notification about a service is that of the last event about it. -/
theorem map_data_latest? (changes : List Change) (id : FrameworkId) :
    (latest? (notifications changes) id).map (·.data) =
      (lastEvent? (events changes) id).map ServiceEvent.encode := by
  have hsent : ((notifications changes).filter (·.data.service = id)).map (·.data) =
      ((notifications changes).map (·.data)).filter (·.service = id) := by
    rw [List.filter_map]
    rfl
  have hevents : ((events changes).filter (·.service = id)).map ServiceEvent.encode =
      ((events changes).map ServiceEvent.encode).filter (·.service = id) := by
    rw [List.filter_map]
    rfl
  rw [latest?, lastEvent?, ← List.getLast?_map, ← List.getLast?_map, hsent, hevents,
    map_data_notifications]

theorem lastEvent?_concat (es : List ServiceEvent) (e : ServiceEvent) (id : FrameworkId) :
    lastEvent? (es ++ [e]) id = if e.service = id then some e else lastEvent? es id := by
  rw [lastEvent?, List.filter_append]
  by_cases h : e.service = id
  · rw [if_pos h, List.filter_cons_of_pos (by simpa using h), List.filter_nil, List.getLast?_concat]
  · rw [if_neg h, List.filter_cons_of_neg (by simpa using h), List.filter_nil, List.append_nil]
    rfl

/-! ## 2. One change -/

/-- What there is under an id, as far as events tell of it. -/
def profile? (s : ServiceRegistry) (id : FrameworkId) : Option ServiceProfile :=
  (s.get? id).map Service.profile

/-- Each service is stored under its own id. -/
def Filed (s : ServiceRegistry) : Prop := ∀ id service, s.get? id = some service → service.id = id

theorem get?_register (s : ServiceRegistry) (r : Registration) (id : FrameworkId) :
    (r.change.run s).2.get? id = if id = s.next then some (r.service s.next []) else s.get? id := by
  rw [run_register]
  by_cases h : id = s.next
  · subst h
    rw [if_pos rfl]
    exact SortedMap.get?_insert_self _ _ _
  · rw [if_neg h]
    exact SortedMap.get?_insert_of_ne _ _ h

/-- A change is a registration, or it changes, takes away or leaves alone what was there before. -/
theorem Change.isRegistration_or (c : Change) :
    (∃ r : Registration, c = r.change) ∨ c.registration? = none := by
  cases h : c.registration? with
  | none => exact Or.inr rfl
  | some r => exact Or.inl ⟨r, registration?_eq_some_iff.1 h⟩

theorem Change.id_of_effect {old new : Service} (h : c.effect id old = some new) :
    new.id = old.id := by
  cases c with
  | register _ _ _ _ =>
    rw [effect, Option.some.injEq] at h
    rw [h]
  | modify n p =>
    rw [effect, Option.some.injEq] at h
    rw [← h]
    split <;> rfl
  | unregister n =>
    rw [effect] at h
    split at h
    · cases h
    · rw [Option.some.inj h]
  | addUser n bundle =>
    rw [effect, Option.some.injEq] at h
    rw [← h]
    split <;> rfl

/-- No change puts a service under the id of another. -/
theorem Filed.run (hs : s.Filed) (c : Change) : (c.run s).2.Filed := by
  intro id service hget
  rcases c.isRegistration_or with ⟨r, rfl⟩ | hc
  · rw [get?_register] at hget
    split at hget
    · rename_i hid
      rw [← Option.some.inj hget, hid]
      rfl
    · exact hs id service hget
  · rw [get?_run (by simp [hc])] at hget
    obtain ⟨old, hold, heffect⟩ := Option.bind_eq_some_iff.1 hget
    rw [Change.id_of_effect heffect, hs id old hold]

theorem filed_after (changes : List Change) : (after changes).Filed := by
  induction changes using List.reverseRecOn with
  | nil => exact fun id service hget => by cases hget
  | append_singleton changes c ih =>
    rw [after_concat]
    exact ih.run c

/-- **A change without an event changes nothing that events tell of.** -/
theorem profile?_run_of_none (h : (c.run s).1 = none) (id : FrameworkId) :
    (c.run s).2.profile? id = s.profile? id := by
  cases c with
  | register _ _ _ _ => cases h
  | modify n p =>
    rw [Change.run, event_modify, Option.map_eq_none_iff] at h
    rw [Change.run, modify, h]
  | unregister n =>
    rw [Change.run, event_unregister, Option.map_eq_none_iff] at h
    rw [Change.run, unregister, h]
  | addUser n bundle =>
    -- users are not told of
    rw [profile?, Change.run, get?_addUser, Option.map_map, profile?]
    congr 1
    funext service
    rw [Function.comp_apply]
    split <;> rfl

/-- **A change with an event does what the event tells, under its id only.** -/
theorem profile?_run_of_some (hs : s.Filed) {e : ServiceEvent} (h : (c.run s).1 = some e)
    (id : FrameworkId) :
    (c.run s).2.profile? id = if e.service = id then e.profile? else s.profile? id := by
  cases c with
  | register bundle location classes p =>
    obtain ⟨r, hr⟩ : ∃ r : Registration, .register bundle location classes p = r.change :=
      ⟨⟨bundle, location, classes, p⟩, rfl⟩
    rw [hr] at h ⊢
    rw [profile?, get?_register]
    rw [run_register, Option.some.injEq] at h
    have hservice : e.service = s.next := by rw [← h, Registration.event]
    by_cases hid : id = s.next
    · rw [if_pos hid, if_pos (hservice.trans hid.symm), Option.map_some, Service.profile,
        Registration.classes_service, ← h]
      rfl
    · rw [if_neg hid, if_neg (hservice ▸ Ne.symm hid), profile?]
  | modify n p =>
    rw [Change.run, event_modify] at h
    obtain ⟨old, hold, rfl⟩ := Option.map_eq_some_iff.1 h
    have hservice : ((old.revise p).event .modified).service = n := hs n old hold
    rw [profile?, Change.run, get?_modify, hservice]
    by_cases hid : n = id
    · rw [← hid, hold, if_pos rfl, Option.map_some, if_pos rfl, Option.map_some]
      rfl
    · simp only [if_neg hid, Option.map_id_fun', id_eq]
      rfl
  | unregister n =>
    rw [Change.run, event_unregister] at h
    obtain ⟨old, hold, rfl⟩ := Option.map_eq_some_iff.1 h
    have hservice : (old.event .unregistering).service = n := hs n old hold
    rw [profile?, Change.run, get?_unregister, hservice]
    by_cases hid : n = id
    · rw [← hid, hold, if_pos rfl, Option.bind_some, if_pos rfl, Option.map_none]
      rfl
    · simp only [if_neg hid, Option.bind_fun_some]
      rfl
  | addUser _ _ => cases h

/-! ## 3. Runs -/

/-- **The last event about an id describes what there is under it**, and under an id that there was no
event about there is nothing. -/
theorem profile?_after (changes : List Change) (id : FrameworkId) :
    (after changes).profile? id = (lastEvent? (events changes) id).bind ServiceEvent.profile? := by
  induction changes using List.reverseRecOn with
  | nil => rfl
  | append_singleton changes c ih =>
    rw [after_concat, events_concat]
    cases h : (c.run (after changes)).1 with
    | none => rw [profile?_run_of_none h, ih, Option.toList_none, List.append_nil]
    | some e =>
      rw [profile?_run_of_some (filed_after changes) h, ih, Option.toList_some, lastEvent?_concat]
      split <;> rfl

/-- **There is something under an id exactly when the last notification about it does not tell of a
removal**, and then it is what this notification tells. -/
theorem profile?_after_eq_some_iff {profile : ServiceProfile} :
    (after changes).profile? id = some profile ↔
      ∃ (n : Notification) (e : ServiceEvent), latest? (notifications changes) id = some n ∧
        n.data = e.encode ∧ e.profile? = some profile := by
  have hdata := map_data_latest? changes id
  rw [profile?_after, Option.bind_eq_some_iff]
  constructor
  · rintro ⟨e, he, hprofile⟩
    rw [he, Option.map_some] at hdata
    obtain ⟨n, hn, hencode⟩ := Option.map_eq_some_iff.1 hdata
    exact ⟨n, e, hn, hencode, hprofile⟩
  · rintro ⟨n, e, hn, hencode, hprofile⟩
    rw [hn, Option.map_some, hencode] at hdata
    obtain ⟨e', he', heq⟩ := Option.map_eq_some_iff.1 hdata.symm
    have hsame : Except.ok e' = (Except.ok e : Except Fault ServiceEvent) := by
      rw [← ServiceEventRecord.decode_encode, heq, ServiceEventRecord.decode_encode]
    exact ⟨e, Except.ok.inj hsame ▸ he', hprofile⟩

/-! ## 4. Questions -/

/-- The ids that are listed. -/
def ids (s : ServiceRegistry) : List FrameworkId := s.list.map (·.id)

/-- A question is refused for want of a service exactly about the ids outside of a list, and the refusal
names the id. -/
def MissesOutside {α : Type} (known : List FrameworkId) (ask : FrameworkId → Except Refusal α) :
    Prop :=
  ∀ id missing, ask id = .error (.serviceNotFound missing) ↔ id ∉ known ∧ missing = id

theorem Filed.ids_eq (hs : s.Filed) : s.ids = s.byId.keys := by
  rw [ids, list, List.map_map, SortedMap.values, List.map_map]
  refine List.map_congr_left fun entry hentry => ?_
  exact hs entry.1 entry.2 (SortedMap.get?_eq_some_iff.2 hentry)

theorem Filed.mem_ids_iff (hs : s.Filed) : id ∈ s.ids ↔ ∃ service, s.get? id = some service := by
  rw [hs.ids_eq]
  exact SortedMap.mem_keys_iff

theorem Filed.find_eq_error_iff (hs : s.Filed) {refusal : Refusal} :
    s.find id = .error refusal ↔ id ∉ s.ids ∧ refusal = .serviceNotFound id := by
  rw [hs.mem_ids_iff, find]
  cases s.get? id <;> simp [eq_comm]

theorem Filed.missesOutside_map (hs : s.Filed) {α : Type} (answer : Service → α) :
    MissesOutside s.ids fun id => (s.find id).map answer := by
  intro id missing
  have hmap : (s.find id).map answer = .error (.serviceNotFound missing) ↔
      s.find id = .error (.serviceNotFound missing) := by
    cases s.find id <;> simp [Except.map]
  rw [hmap, hs.find_eq_error_iff, Refusal.serviceNotFound.injEq]

theorem Filed.missesOutside_propertiesOf (hs : s.Filed) : MissesOutside s.ids s.propertiesOf := by
  intro id missing
  have hfind : s.propertiesOf id = .error (.serviceNotFound missing) ↔
      s.find id = .error (.serviceNotFound missing) := by
    rw [propertiesOf]
    cases s.find id with
    | error refusal => simp
    | ok service =>
      -- a dictionary without a table is refused for another cause
      cases htable : Table.ofProperties service.properties <;> simp [htable]
  rw [hfind, hs.find_eq_error_iff, Refusal.serviceNotFound.injEq]

theorem profile?_eq_some_iff {profile : ServiceProfile} :
    s.profile? id = some profile ↔ ∃ service, s.get? id = some service ∧
      service.profile = profile :=
  Option.map_eq_some_iff

/-! ## 5. The registry as notifications tell of it -/

/-- **The notifications of a run say what clients would be answered.**  They are numbered from zero, modulo
`2 ^ 64` in runs with more events, and carry the events in order.  The ids whose last notification does not tell of a removal are those that are
listed, in ascending order; what this notification says of the bundle and the interfaces is what a client
would be answered; and all questions about other ids, and only those, are refused for want of a service. -/
theorem reconstructed_by_notifications (changes : List Change) :
    (notifications changes).length = (events changes).length ∧
      (∀ (k : Nat) (n : Notification), (notifications changes)[k]? = some n →
        n.sequence = .ofNat k ∧
          ((events changes).length < 2 ^ (63 : Nat) - 1 → n.sequence.toNat = k) ∧
          ∃ e, (events changes)[k]? = some e ∧ n.data.decode = .ok e) ∧
      Ascending (after changes).ids ∧
      (∀ id, id ∈ (after changes).ids ↔ ∃ n e, latest? (notifications changes) id = some n ∧
        n.data.decode = .ok e ∧ e.type ≠ .unregistering) ∧
      (∀ id ∈ (after changes).ids, ∃ n, latest? (notifications changes) id = some n ∧
        (after changes).bundleOf id = .ok n.data.bundle ∧
        (after changes).interfacesOf id = .ok n.data.classes) ∧
      MissesOutside (after changes).ids (after changes).bundleOf ∧
      MissesOutside (after changes).ids (after changes).propertiesOf ∧
      MissesOutside (after changes).ids (after changes).interfacesOf ∧
      MissesOutside (after changes).ids (after changes).usersOf := by
  have hfiled := filed_after changes
  refine ⟨length_notifications changes, ?_, ?_, fun id => ?_, fun id hid => ?_,
    hfiled.missesOutside_map _, hfiled.missesOutside_propertiesOf, hfiled.missesOutside_map _,
    hfiled.missesOutside_map _⟩
  · intro k n hn
    rw [getElem?_notifications] at hn
    obtain ⟨e, he, rfl⟩ := Option.map_eq_some_iff.1 hn
    refine ⟨rfl, fun hfew => UInt64.toNat_ofNat_of_lt' ?_, e, he, ServiceEventRecord.decode_encode e⟩
    have hk : k < (events changes).length := (List.getElem?_eq_some_iff.1 he).1
    exact hk.trans (hfew.trans (by decide))
  · rw [hfiled.ids_eq]
    exact (after changes).byId.ascending
  · rw [hfiled.mem_ids_iff]
    constructor
    · rintro ⟨service, hget⟩
      obtain ⟨n, e, hn, hdata, hprofile⟩ :=
        profile?_after_eq_some_iff.1 (profile?_eq_some_iff.2 ⟨service, hget, rfl⟩)
      refine ⟨n, e, hn, ?_, (ServiceEvent.profile?_eq_some_iff.1 hprofile).1⟩
      rw [hdata, ServiceEventRecord.decode_encode]
    · rintro ⟨n, e, hn, hdecode, htype⟩
      obtain ⟨service, hget, -⟩ := profile?_eq_some_iff.1 (profile?_after_eq_some_iff.2
        ⟨n, e, hn, (ServiceEventRecord.decode_eq_ok_iff.1 hdecode).symm,
          ServiceEvent.profile?_eq_some_iff.2 ⟨htype, rfl⟩⟩)
      exact ⟨service, hget⟩
  · obtain ⟨service, hget⟩ := hfiled.mem_ids_iff.1 hid
    obtain ⟨n, e, hn, hdata, hprofile⟩ :=
      profile?_after_eq_some_iff.1 (profile?_eq_some_iff.2 ⟨service, hget, rfl⟩)
    obtain ⟨-, heq⟩ := ServiceEvent.profile?_eq_some_iff.1 hprofile
    rw [ServiceProfile.mk.injEq] at heq
    obtain ⟨hbundle, -, hclasses⟩ := heq
    refine ⟨n, hn, ?_, ?_⟩
    · rw [bundleOf, find, hget, hdata]
      exact congrArg Except.ok hbundle
    · rw [interfacesOf, find, hget, hdata]
      exact congrArg Except.ok hclasses

/-- A service is there for a while and is changed in vain once it is gone; another one is used. -/
def succession : List Change := [
  .register (.wrap 64 3) "file:log.jar" ["org.example.Log"] ∅,
  .modify (.wrap 64 1) (.ofList [("ranking", .ofBool true)]), .unregister (.wrap 64 1),
  .modify (.wrap 64 1) ∅, .register (.wrap 64 4) "file:http.jar" ["org.example.Http"] ∅,
  .addUser (.wrap 64 2) (.wrap 64 3)]

theorem reconstructed_by_notifications_succession :
    (events succession).length < 2 ^ (63 : Nat) - 1 ∧ (notifications succession).length = 4 ∧
      (∀ (k : Nat) (n : Notification), (notifications succession)[k]? = some n →
        n.sequence.toNat = k) ∧
      (after succession).ids = [.wrap 64 2] ∧
      MissesOutside (after succession).ids (after succession).usersOf := by
  have hfew : (events succession).length < 2 ^ (63 : Nat) - 1 := by decide
  obtain ⟨hlength, hsent, -, -, -, -, -, -, husers⟩ := reconstructed_by_notifications succession
  exact ⟨hfew, hlength.trans (by decide), fun k n hn => (hsent k n hn).2.1 hfew, by decide, husers⟩

end ServiceRegistry

end FrameworkAdmin
