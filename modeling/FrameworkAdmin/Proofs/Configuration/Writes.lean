/-
# Writes of single properties commute

Setting and removing a property read the configuration, change it and put it back, so one might fear for
a write that another overtakes.  Two writes to different properties do not see each other, and can be
swapped: the dictionaries agree name by name, and one is there afterwards if one was there before or if
either write sets a property.  What must be said besides is where a configuration that the writes make is
bound, since that is settled by whichever of them comes first; the writes to such a configuration have to
agree on it.

From the swap of two neighbours, `after_eq_of_perm` follows for any order of any list.  The answers do not
depend on the store at all.  `writes_commute` adds what the store holds in the end.
-/
import FrameworkAdmin.Proofs.Configuration.Effects
import FrameworkAdmin.Proofs.SortedMap

namespace FrameworkAdmin

/-! ## 1. Equality -/

/-- A configuration is known by its identity, by whether it has properties, and by each of them. -/
theorem Configuration.ext_property? {c d : Configuration} (hfactory : c.factoryPid = d.factoryPid)
    (hlocation : c.location = d.location)
    (hsome : c.properties.isSome = d.properties.isSome)
    (hproperty : ∀ name, c.property? name = d.property? name) : c = d := by
  obtain ⟨factoryPid, location, p⟩ := c
  obtain ⟨_, _, q⟩ := d
  obtain rfl := hfactory
  obtain rfl := hlocation
  cases p with
  | none =>
    cases q with
    | none => rfl
    | some q => cases hsome
  | some p =>
    cases q with
    | none => cases hsome
    | some q =>
      obtain rfl : p = q := SortedMap.ext_get? hproperty
      rfl

namespace ConfigurationStore

/-- A store is known by what is under each pid. -/
theorem ext_get? {s t : ConfigurationStore} (h : ∀ pid, s.get? pid = t.get? pid) : s = t := by
  obtain ⟨byPid⟩ := s
  obtain ⟨byPid'⟩ := t
  exact congrArg mk (SortedMap.ext_get? h)

/-! ## 2. Writes -/

/-- A call that sets a property or removes one. -/
inductive Write where
  | set (pid : String) (location : Option String) (name text type : String)
  | clear (pid : String) (location : Option String) (name : String)

namespace Write

/-- The operation that is called. -/
def request : Write → Request
  | .set pid location name text type => .addProperty pid location name text type
  | .clear pid location name => .deleteProperty pid location name

/-- The pid of the configuration that is written to. -/
def pid : Write → String
  | .set pid _ _ _ _ => pid
  | .clear pid _ _ => pid

/-- The location that it is bound to if it has to be made. -/
def location : Write → Option String
  | .set _ location _ _ _ => location
  | .clear _ location _ => location

/-- The name of the property. -/
def name : Write → String
  | .set _ _ name _ _ => name
  | .clear _ _ name => name

/-- What the property becomes, if the call is not refused. -/
def value : Write → Except Fault (Option Value)
  | .set _ _ _ text type => (Value.read type text).map some
  | .clear _ _ _ => .ok none

/-- The answer to the call. -/
def answer (w : Write) : Except Refusal Reply :=
  match w.value with
  | .ok _ => .ok .done
  | .error fault => .error (.codec fault)

end Write

/-- No two of the writes are to the same property. -/
def Write.Apart (a b : Write) : Prop := a.pid = b.pid → a.name ≠ b.name

instance : DecidableRel Write.Apart := fun a b =>
  inferInstanceAs (Decidable (a.pid = b.pid → a.name ≠ b.name))

theorem Write.Apart.symm {a b : Write} (h : a.Apart b) : b.Apart a :=
  fun hpid hname => h hpid.symm hname.symm

/-- Writes to a configuration that is not there agree on where it is bound. -/
def BindAlike (s : ConfigurationStore) (ws : List Write) : Prop :=
  ∀ a ∈ ws, ∀ b ∈ ws, a.pid = b.pid → s.get? a.pid = none → a.location = b.location

/-- Gives a property a value, or none. -/
def assign (name : String) : Option Value → Option Properties → Option Properties
  | some v => withProperty name v
  | none => withoutProperty name

variable {s : ConfigurationStore} {w a b : Write} {ws vs : List Write}

/-- What a write makes of what is under its pid. -/
def Write.work (w : Write) (c : Option Configuration) : Option Configuration :=
  match w.value with
  | .ok v => some ((c.getD (.unset w.location)).change (assign w.name v))
  | .error _ => c

/-- A write works on what is under its pid, and on nothing else. -/
theorem get?_write (s : ConfigurationStore) (w : Write) (x : String) :
    (w.request.run s).2.get? x = if x = w.pid then w.work (s.get? x) else s.get? x := by
  rw [get?_run]
  cases w with
  | set pid location name text type =>
    rw [Write.work, Write.value, Write.request, Request.effect]
    cases Value.read type text with
    | error fault => exact (ite_self _).symm
    | ok v => rfl
  | clear pid location name => rfl

/-- The answer to a write does not depend on the store. -/
theorem run_write_fst (s : ConfigurationStore) (w : Write) : (w.request.run s).1 = w.answer := by
  cases w with
  | set pid location name text type =>
    rw [Write.answer, Write.value, Write.request, Request.run]
    cases hread : Value.read type text with
    | error fault =>
      rw [addProperty, hread]
      rfl
    | ok v =>
      rw [addProperty_eq s pid location name hread]
      rfl
  | clear pid location name =>
    rw [Write.request, Request.run, deleteProperty, changeProperties_eq]
    rfl

/-! ## 3. Two writes -/

theorem property?_change_assign (c : Configuration) (name : String) (v : Option Value) (x : String) :
    (c.change (assign name v)).property? x = if x = name then v else c.property? x := by
  cases v with
  | none => exact c.property?_change_withoutProperty name x
  | some v => exact c.property?_change_withProperty name v x

/-- There is a dictionary afterwards if there was one or if a property is set. -/
theorem isSome_change_assign (c : Configuration) (name : String) (v : Option Value) :
    (c.change (assign name v)).properties.isSome = (v.isSome || c.properties.isSome) := by
  cases v with
  | none => exact Option.isSome_map
  | some v => rfl

/-- Changes of different properties can be swapped. -/
theorem change_assign_comm {k l : String} (h : k ≠ l) (v w : Option Value) (c : Configuration) :
    (c.change (assign k v)).change (assign l w) = (c.change (assign l w)).change (assign k v) := by
  refine Configuration.ext_property? rfl rfl ?_ fun x => ?_
  · simp only [isSome_change_assign]
    exact Bool.or_left_comm _ _ _
  · simp only [property?_change_assign]
    by_cases hk : x = k
    · rw [if_pos hk, if_pos hk, if_neg (hk ▸ h)]
    · rw [if_neg hk, if_neg hk]

/-- So can writes to one configuration, if they agree on where it is bound. -/
theorem work_comm (hname : a.name ≠ b.name) (c : Option Configuration)
    (hlocation : c = none → a.location = b.location) : b.work (a.work c) = a.work (b.work c) := by
  unfold Write.work
  cases a.value with
  | error fault => rfl
  | ok v =>
    cases b.value with
    | error fault => rfl
    | ok w =>
      cases c with
      | none =>
        rw [hlocation rfl]
        exact congrArg some (change_assign_comm hname v w _)
      | some c => exact congrArg some (change_assign_comm hname v w c)

/-- **Two writes to different properties can be swapped.** -/
theorem run_comm (hapart : a.Apart b)
    (hbind : a.pid = b.pid → s.get? a.pid = none → a.location = b.location) :
    (b.request.run (a.request.run s).2).2 = (a.request.run (b.request.run s).2).2 := by
  refine ext_get? fun x => ?_
  simp only [get?_write]
  by_cases ha : x = a.pid
  · by_cases hb : x = b.pid
    · have hpid : a.pid = b.pid := ha ▸ hb
      rw [if_pos hb, if_pos ha, if_pos ha, if_pos hb]
      exact work_comm (hapart hpid) _ fun hnone => hbind hpid (ha ▸ hnone)
    · rw [if_neg hb, if_pos ha, if_pos ha, if_neg hb]
  · rw [if_neg ha, if_neg ha]

/-! ## 4. Lists of writes -/

/-- No write removes a configuration, so agreement on where to bind lasts. -/
theorem BindAlike.run (h : s.BindAlike ws) (w : Write) : (w.request.run s).2.BindAlike ws := by
  intro a ha b hb hpid hnone
  refine h a ha b hb hpid ?_
  rw [get?_write] at hnone
  split at hnone
  · rw [Write.work] at hnone
    split at hnone
    · cases hnone
    · exact hnone
  · exact hnone

/-- **Writes to different properties can be made in any order.** -/
theorem after_eq_of_perm (hperm : ws.Perm vs) (hapart : ws.Pairwise Write.Apart)
    (hbind : s.BindAlike ws) : s.after (ws.map Write.request) = s.after (vs.map Write.request) := by
  induction hperm generalizing s with
  | nil => rfl
  | cons w _ ih =>
    refine ih (List.Pairwise.of_cons hapart) (BindAlike.run ?_ w)
    exact fun a ha b hb => hbind a (List.mem_cons_of_mem _ ha) b (List.mem_cons_of_mem _ hb)
  | swap a b rest =>
    have hba : b.Apart a := List.rel_of_pairwise_cons hapart List.mem_cons_self
    have hswap := run_comm hba (hbind b (by simp) a (by simp))
    exact congrArg (fun t => after t (rest.map Write.request)) hswap
  | trans hws _ ihws ihvs =>
    rw [ihws hapart hbind]
    refine ihvs (hws.pairwise hapart Write.Apart.symm) ?_
    exact fun a ha b hb => hbind a (hws.mem_iff.2 ha) b (hws.mem_iff.2 hb)

/-- The operations of a run with their answers. -/
def transcript (s : ConfigurationStore) : List Request → List (Request × Except Refusal Reply)
  | [] => []
  | r :: rest => (r, (r.run s).1) :: transcript (r.run s).2 rest

/-- The answers to writes are theirs whatever comes before. -/
theorem transcript_writes (s : ConfigurationStore) (ws : List Write) :
    s.transcript (ws.map Write.request) = ws.map fun w => (w.request, w.answer) := by
  induction ws generalizing s with
  | nil => rfl
  | cons w rest ih =>
    rw [List.map_cons, transcript, ih, run_write_fst]
    rfl

theorem Write.request_injective : Function.Injective Write.request := by
  intro a b h
  cases a <;> cases b <;> cases h <;> rfl

/-- The writes that are carried out are those with a value. -/
theorem done_mem_transcript_iff (hw : w ∈ ws) :
    (w.request, .ok .done) ∈ s.transcript (ws.map Write.request) ↔ ∃ v, w.value = .ok v := by
  rw [transcript_writes, List.mem_map]
  constructor
  · rintro ⟨x, -, hx⟩
    obtain ⟨hrequest, hanswer⟩ := Prod.mk.inj hx
    obtain rfl := Write.request_injective hrequest
    cases hvalue : x.value with
    | ok v => exact ⟨v, rfl⟩
    | error fault =>
      rw [Write.answer, hvalue] at hanswer
      cases hanswer
  · rintro ⟨v, hvalue⟩
    refine ⟨w, hw, ?_⟩
    rw [Write.answer, hvalue]

/-- A setting has the value that its text is read as. -/
theorem value_set_eq_ok_iff {pid name text type : String} {location : Option String}
    {v : Option Value} : (Write.set pid location name text type).value = .ok v ↔
      ∃ read, Value.read type text = .ok read ∧ v = some read := by
  rw [Write.value]
  cases Value.read type text with
  | error fault => simp [Except.map]
  | ok read => simp [Except.map, eq_comm]

/-! ## 5. What is written -/

/-- A write that is carried out gives its property the value, and no other. -/
theorem property?_work {v : Option Value} (hvalue : w.value = .ok v) (c : Option Configuration)
    (name : String) : (w.work c).bind (·.property? name) =
      if name = w.name then v else c.bind (·.property? name) := by
  rw [Write.work, hvalue]
  dsimp only
  rw [Option.bind_some, property?_change_assign]
  cases c with
  | none => rw [Option.getD_none, Configuration.property?_of_properties_eq_none rfl, Option.bind_none]
  | some c => rfl

theorem property?_write_self {v : Option Value} (hvalue : w.value = .ok v) :
    (w.request.run s).2.property? w.pid w.name = v := by
  rw [property?, get?_write, if_pos rfl, property?_work hvalue, if_pos rfl]

/-- A write that is refused, or is to another property, leaves this one alone. -/
theorem property?_write_of_other {pid name : String}
    (h : ∀ v, w.value = .ok v → w.pid = pid → w.name ≠ name) :
    (w.request.run s).2.property? pid name = s.property? pid name := by
  rw [property?, property?, get?_write]
  split
  · rename_i hpid
    cases hvalue : w.value with
    | error fault => rw [Write.work, hvalue]
    | ok v =>
      have hname : name ≠ w.name := (h v hvalue hpid.symm).symm
      rw [property?_work hvalue, if_neg hname]
  · rfl

/-- **What no write is to stays as it was.** -/
theorem property?_writes_of_other {pid name : String}
    (h : ∀ w ∈ ws, ∀ v, w.value = .ok v → w.pid = pid → w.name ≠ name) :
    (s.after (ws.map Write.request)).property? pid name = s.property? pid name := by
  induction ws generalizing s with
  | nil => rfl
  | cons w rest ih =>
    have hrest := ih (s := (w.request.run s).2) fun x hx => h x (List.mem_cons_of_mem _ hx)
    exact hrest.trans (property?_write_of_other (h w List.mem_cons_self))

/-- **What is written stays**, since no later write is to the same property. -/
theorem property?_writes_of_mem (hapart : ws.Pairwise Write.Apart) (hw : w ∈ ws) {v : Option Value}
    (hvalue : w.value = .ok v) :
    (s.after (ws.map Write.request)).property? w.pid w.name = v := by
  induction ws generalizing s with
  | nil => cases hw
  | cons head rest ih =>
    obtain ⟨hhead, hrest⟩ := List.pairwise_cons.1 hapart
    rcases List.mem_cons.1 hw with rfl | hw
    · have hlater : ((w.request.run s).2.after (rest.map Write.request)).property? w.pid w.name =
          (w.request.run s).2.property? w.pid w.name :=
        property?_writes_of_other fun x hx _ _ hpid => (hhead x hx hpid.symm).symm
      exact hlater.trans (property?_write_self hvalue)
    · exact ih hrest hw

/-- What a list of writes does, in whatever order it is carried out. -/
structure WritesCommute (s : ConfigurationStore) (ws : List Write) : Prop where
  /-- Every order leads to the same store and gives each call the same answer. -/
  perm : ∀ vs : List Write, vs.Perm ws →
    s.after (vs.map Write.request) = s.after (ws.map Write.request) ∧
      (s.transcript (vs.map Write.request)).Perm (s.transcript (ws.map Write.request))
  /-- A property is set exactly if its text can be read, and then has the value that was read. -/
  set : ∀ pid location name text type, Write.set pid location name text type ∈ ws →
    ((Request.addProperty pid location name text type, .ok .done) ∈
        s.transcript (ws.map Write.request) ↔ ∃ v, Value.read type text = .ok v) ∧
      ∀ v, Value.read type text = .ok v →
        (s.after (ws.map Write.request)).property? pid name = some v
  /-- A property is removed in any case, and then absent. -/
  clear : ∀ pid location name, Write.clear pid location name ∈ ws →
    (Request.deleteProperty pid location name, .ok .done) ∈
        s.transcript (ws.map Write.request) ∧
      (s.after (ws.map Write.request)).property? pid name = none
  /-- Every other property is what it was, those of the calls that were refused included. -/
  other : ∀ pid name,
    (∀ w ∈ ws, (w.request, .ok .done) ∈ s.transcript (ws.map Write.request) →
      w.pid = pid → w.name ≠ name) →
    (s.after (ws.map Write.request)).property? pid name = s.property? pid name

/-- **Writes to different properties commute**, and none of them is lost. -/
theorem writes_commute (hapart : ws.Pairwise Write.Apart) (hbind : s.BindAlike ws) :
    s.WritesCommute ws where
  perm := by
    intro vs hperm
    refine ⟨(after_eq_of_perm hperm.symm hapart hbind).symm, ?_⟩
    rw [transcript_writes, transcript_writes]
    exact hperm.map _
  set := by
    intro pid location name text type hmem
    refine ⟨(done_mem_transcript_iff hmem).trans ⟨?_, ?_⟩, ?_⟩
    · rintro ⟨v, hvalue⟩
      obtain ⟨read, hread, -⟩ := value_set_eq_ok_iff.1 hvalue
      exact ⟨read, hread⟩
    · rintro ⟨v, hread⟩
      exact ⟨some v, value_set_eq_ok_iff.2 ⟨v, hread, rfl⟩⟩
    · intro v hread
      exact property?_writes_of_mem hapart hmem (value_set_eq_ok_iff.2 ⟨v, hread, rfl⟩)
  clear := by
    intro pid location name hmem
    refine ⟨(done_mem_transcript_iff hmem).2 ⟨none, rfl⟩, ?_⟩
    exact property?_writes_of_mem hapart hmem rfl
  other := by
    intro pid name hother
    refine property?_writes_of_other ?_
    intro w hw v hvalue
    exact hother w hw ((done_mem_transcript_iff hw).2 ⟨v, hvalue⟩)

/-- A configuration that was made and not updated yet, beside one with two properties. -/
def halfway : ConfigurationStore :=
  (∅ : ConfigurationStore).after [.addProperty "a" none "k" "1" "Integer",
    .addProperty "a" none "l" "1" "Integer", .locationOf "b"]

/-- Removals from `b` and `c` may come before or after the settings that give them properties. -/
def halfwayWrites : List Write := [
  .clear "b" none "x", .set "b" (some "file:b") "y" "2" "Long", .clear "c" (some "file:c") "x",
  .set "c" (some "file:c") "y" "3" "Long", .set "a" none "k" "2" "Integer",
  .set "d" none "k" "two" "Integer"]

theorem writes_commute_halfway :
    halfwayWrites.Pairwise Write.Apart ∧ halfway.BindAlike halfwayWrites ∧
      halfway.WritesCommute halfwayWrites ∧
      (halfway.after (halfwayWrites.map Write.request)).get? "d" = none := by
  have hapart : halfwayWrites.Pairwise Write.Apart := by decide
  have hbind : halfway.BindAlike halfwayWrites := by unfold BindAlike; decide
  exact ⟨hapart, hbind, writes_commute hapart hbind, by decide⟩

end ConfigurationStore
end FrameworkAdmin
