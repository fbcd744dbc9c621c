/-
# Records are converted from the inside out

A group contains a user and a user contains a role, so a conversion of the outer record goes through the
inner ones, and on its way it meets one or two dictionaries, or tables, that can stop it.  The order in
which it meets them can be seen from outside, because it decides which fault is reported.  `InTurn` says
what is meant: the conversion succeeds exactly when every one of its parts is clear, and otherwise it fails
with the fault of the first part that is not.  Parts in turn are put together by `InTurn.bind`, and each
record is one step of that kind (sections 3 and 4).

Decoding has one more thing to look at, the code of the role, and it looks at it before it opens any
table.  No table fails with a fault about a code (`Table.not_unreadable_unknownCode`), so that fault says
that the code is bad and nothing else.

The three records have the same laws, which are the fields of `Converts`.  Events (section 5) have no part
that could fail, and their two directions are inverse as they stand.
-/
import FrameworkAdmin.Proofs.Property.Dictionaries
import FrameworkAdmin.Proofs.Property.TagGrammar
import FrameworkAdmin.Record.Role
import FrameworkAdmin.Record.ServiceEvent

namespace FrameworkAdmin

/-! ## 1. Parts in turn -/

section

variable {α β γ : Type} {Clear : α → Prop} {Fails : α → Fault → Prop}

/-- The first part that is not clear fails with this fault. -/
inductive FirstFault (Clear : α → Prop) (Fails : α → Fault → Prop) : List α → Fault → Prop
  | here {part : α} {rest : List α} {fault : Fault} (h : Fails part fault) :
      FirstFault Clear Fails (part :: rest) fault
  | later {part : α} {rest : List α} {fault : Fault} (hclear : Clear part)
      (h : FirstFault Clear Fails rest fault) : FirstFault Clear Fails (part :: rest) fault

/-- A conversion goes through these parts in turn. -/
structure InTurn (Clear : α → Prop) (Fails : α → Fault → Prop) (parts : List α)
    (result : Except Fault β) : Prop where
  /-- It succeeds when there is nothing in its way. -/
  exists_ok_iff : (∃ b, result = .ok b) ↔ ∀ part ∈ parts, Clear part
  /-- Otherwise it fails on the first thing that is. -/
  error_iff : ∀ fault, result = .error fault ↔ FirstFault Clear Fails parts fault

theorem firstFault_singleton_iff {part : α} {fault : Fault} :
    FirstFault Clear Fails [part] fault ↔ Fails part fault := by
  constructor
  · intro h
    cases h with
    | here h => exact h
    | later _ h => cases h
  · exact .here

theorem firstFault_append_iff {parts more : List α} {fault : Fault} :
    FirstFault Clear Fails (parts ++ more) fault ↔
      FirstFault Clear Fails parts fault ∨
        (∀ part ∈ parts, Clear part) ∧ FirstFault Clear Fails more fault := by
  induction parts with
  | nil =>
    constructor
    · exact fun h => Or.inr ⟨by simp, h⟩
    · rintro (h | ⟨-, h⟩)
      · cases h
      · exact h
  | cons part parts ih =>
    rw [List.cons_append]
    constructor
    · intro h
      cases h with
      | here h => exact Or.inl (.here h)
      | later hclear h =>
        rcases ih.1 h with h | ⟨hparts, h⟩
        · exact Or.inl (.later hclear h)
        · exact Or.inr ⟨List.forall_mem_cons.2 ⟨hclear, hparts⟩, h⟩
    · rintro (h | ⟨hparts, h⟩)
      · cases h with
        | here h => exact .here h
        | later hclear h => exact .later hclear (ih.2 (Or.inl h))
      · obtain ⟨hclear, hparts⟩ := List.forall_mem_cons.1 hparts
        exact .later hclear (ih.2 (Or.inr ⟨hparts, h⟩))

/-- Whatever the parts cannot fail with, the conversion does not fail with. -/
theorem FirstFault.exists_fails {parts : List α} {fault : Fault}
    (h : FirstFault Clear Fails parts fault) : ∃ part ∈ parts, Fails part fault := by
  induction h with
  | here h => exact ⟨_, List.mem_cons_self, h⟩
  | later _ _ ih =>
    obtain ⟨part, hpart, h⟩ := ih
    exact ⟨part, List.mem_cons_of_mem _ hpart, h⟩

/-- What is made of the result does not matter. -/
theorem InTurn.map {parts : List α} {result : Except Fault β} (h : InTurn Clear Fails parts result)
    (f : β → γ) : InTurn Clear Fails parts (result.map f) := by
  cases result with
  | error fault =>
    refine ⟨?_, fun fault' => ?_⟩
    · rw [← h.exists_ok_iff]
      simp [Except.map]
    · rw [← h.error_iff]
      simp [Except.map]
  | ok b =>
    refine ⟨?_, fun fault' => ?_⟩
    · rw [← h.exists_ok_iff]
      simp [Except.map]
    · rw [← h.error_iff]
      simp [Except.map]

/-- **A conversion that is followed by another goes through the parts of both in turn.** -/
theorem InTurn.bind {parts more : List α} {result : Except Fault β} {next : β → Except Fault γ}
    (h : InTurn Clear Fails parts result) (hnext : ∀ b, result = .ok b → InTurn Clear Fails more (next b)) :
    InTurn Clear Fails (parts ++ more) (result.bind next) := by
  cases result with
  | error fault =>
    have hblocked : ¬ ∀ part ∈ parts, Clear part := fun hclear => by
      obtain ⟨b, hb⟩ := h.exists_ok_iff.2 hclear
      cases hb
    constructor
    · simp only [Except.bind, List.forall_mem_append]
      constructor
      · rintro ⟨c, hc⟩
        cases hc
      · rintro ⟨hclear, -⟩
        exact absurd hclear hblocked
    · intro fault'
      rw [firstFault_append_iff, ← h.error_iff, or_iff_left fun hmore => hblocked hmore.1]
      simp [Except.bind]
  | ok b =>
    have hclear : ∀ part ∈ parts, Clear part := h.exists_ok_iff.1 ⟨b, rfl⟩
    have hnone : ∀ fault, ¬ FirstFault Clear Fails parts fault := fun fault hfault => by
      have := (h.error_iff fault).2 hfault
      cases this
    have hmore := hnext b rfl
    constructor
    · rw [List.forall_mem_append, and_iff_right hclear]
      exact hmore.exists_ok_iff
    · intro fault
      rw [firstFault_append_iff, or_iff_right (hnone fault), and_iff_right hclear]
      exact hmore.error_iff fault

end

/-! ## 2. Dictionaries and tables as parts -/

/-- All values of the dictionary can be written. -/
def Properties.Tabular (p : Properties) : Prop := ∀ name v, p.get? name = some v → v.Tabular

/-- The fault names the smallest name whose value cannot be written, and what stands in its way. -/
def Properties.Obstructed (p : Properties) (fault : Fault) : Prop :=
  ∃ name v what, p.get? name = some v ∧ v.Obstacle what ∧ fault = .unsupportedValue name what ∧
    ∀ smaller w, p.get? smaller = some w → compare smaller name = .lt → w.Tabular

namespace Table

/-- All rows of the table can be read. -/
def Readable (t : Table) : Prop := ∀ row ∈ t.rows, ∃ v, row.toValue = .ok v

/-- The first row of the table that cannot be read fails with this fault. -/
def Unreadable (t : Table) (fault : Fault) : Prop :=
  ∃ row ∈ t.rows, row.toValue = .error fault ∧
    ∀ smaller ∈ t.rows, compare smaller.key row.key = .lt → ∃ v, smaller.toValue = .ok v

theorem inTurn_ofProperties (p : Properties) :
    InTurn Properties.Tabular Properties.Obstructed [p] (ofProperties p) where
  exists_ok_iff := by
    rw [exists_ofProperties_iff, List.forall_mem_singleton]
    rfl
  error_iff fault := by
    rw [firstFault_singleton_iff]
    simp only [ofProperties_eq_error_iff, Row.ofValue_eq_error_iff, Row.exists_ofValue_iff]
    constructor
    · rintro ⟨name, v, hv, ⟨what, hobstacle, hfault⟩, hsmaller⟩
      exact ⟨name, v, what, hv, hobstacle, hfault, hsmaller⟩
    · rintro ⟨name, v, what, hv, hobstacle, hfault, hsmaller⟩
      exact ⟨name, v, hv, ⟨what, hobstacle, hfault⟩, hsmaller⟩

theorem inTurn_toProperties (t : Table) : InTurn Readable Unreadable [t] t.toProperties where
  exists_ok_iff := by
    rw [exists_toProperties_iff, List.forall_mem_singleton]
    rfl
  error_iff fault := by
    rw [firstFault_singleton_iff]
    exact toProperties_eq_error_iff

end Table

/-- A row that cannot be read has a bad tag or a bad element. -/
theorem Row.isTagFault_or_isElementFault {row : Row} {fault : Fault} (h : row.toValue = .error fault) :
    fault.isTagFault = true ∨ fault.isElementFault = true := by
  unfold toValue Value.read at h
  split at h
  · exact Or.inr (Tag.isElementFault_of_readValue h)
  · rename_i htag
    cases h
    exact Or.inl (Tag.isTagFault_of_read htag)

/-- **A table is never refused for a code.** -/
theorem Table.not_unreadable_unknownCode (t : Table) (item : CodeItem) (code : Bounded (.signed 32)) :
    ¬ t.Unreadable (.unknownCode item code) := by
  rintro ⟨row, -, hrow, -⟩
  rcases Row.isTagFault_or_isElementFault hrow with h | h <;> cases h

/-! ## 3. Encoding -/

/-- The dictionaries of a role. -/
def Role.dictionaries (r : Role) : List Properties := [r.properties]

/-- The dictionaries of a user: the properties before the credentials. -/
def User.dictionaries (u : User) : List Properties := u.role.dictionaries ++ [u.credentials]

/-- The dictionaries of a group are those of its user. -/
def Group.dictionaries (g : Group) : List Properties := g.user.dictionaries

/-- Equality of roles, in which properties are compared as values. -/
def Role.same (a b : Role) : Bool :=
  a.name == b.name && a.kind == b.kind && a.properties.same b.properties

/-- Equality of users. -/
def User.same (a b : User) : Bool := a.role.same b.role && a.credentials.same b.credentials

/-- Equality of groups. -/
def Group.same (a b : Group) : Bool :=
  a.user.same b.user && a.members == b.members && a.requiredMembers == b.requiredMembers

theorem Role.encode_eq (r : Role) :
    r.encode = (Table.ofProperties r.properties).map fun t => ⟨r.name, r.kind.code, t⟩ := by
  unfold encode
  cases Table.ofProperties r.properties <;> rfl

theorem User.encode_eq (u : User) :
    u.encode = u.role.encode.bind fun role =>
      (Table.ofProperties u.credentials).map fun t => ⟨role, t⟩ := by
  unfold encode
  cases u.role.encode with
  | error fault => rfl
  | ok role => cases Table.ofProperties u.credentials <;> rfl

theorem Group.encode_eq (g : Group) :
    g.encode = g.user.encode.map fun user => ⟨user, g.members, g.requiredMembers⟩ := by
  unfold encode
  cases g.user.encode <;> rfl

theorem Role.inTurn_encode (r : Role) :
    InTurn Properties.Tabular Properties.Obstructed r.dictionaries r.encode := by
  rw [encode_eq]
  exact (Table.inTurn_ofProperties r.properties).map _

theorem User.inTurn_encode (u : User) :
    InTurn Properties.Tabular Properties.Obstructed u.dictionaries u.encode := by
  rw [encode_eq]
  exact u.role.inTurn_encode.bind fun role _ => (Table.inTurn_ofProperties u.credentials).map _

theorem Group.inTurn_encode (g : Group) :
    InTurn Properties.Tabular Properties.Obstructed g.dictionaries g.encode := by
  rw [encode_eq]
  exact g.user.inTurn_encode.map _

/-! ## 4. Decoding -/

/-- The code is one of those that kinds of roles have. -/
def RoleKind.IsCode (code : Bounded (.signed 32)) : Prop :=
  code.val = 0 ∨ code.val = 1 ∨ code.val = 2

instance (code : Bounded (.signed 32)) : Decidable (RoleKind.IsCode code) :=
  inferInstanceAs (Decidable (code.val = 0 ∨ code.val = 1 ∨ code.val = 2))

theorem RoleKind.ofCode?_eq_some_iff {code : Bounded (.signed 32)} {kind : RoleKind} :
    ofCode? code = some kind ↔ kind.code = code := by
  constructor
  · intro h
    simpa using List.find?_some h
  · rintro rfl
    exact ofCode?_code kind

theorem RoleKind.exists_ofCode?_iff {code : Bounded (.signed 32)} :
    (∃ kind, ofCode? code = some kind) ↔ IsCode code := by
  constructor
  · rintro ⟨kind, hkind⟩
    obtain rfl := ofCode?_eq_some_iff.1 hkind
    cases kind <;> decide
  · rintro (h | h | h)
    · exact ⟨.role, ofCode?_eq_some_iff.2 (Bounded.ext h.symm)⟩
    · exact ⟨.user, ofCode?_eq_some_iff.2 (Bounded.ext h.symm)⟩
    · exact ⟨.group, ofCode?_eq_some_iff.2 (Bounded.ext h.symm)⟩

/-- The tables of an encoded role. -/
def RoleRecord.tables (r : RoleRecord) : List Table := [r.properties]

/-- The tables of an encoded user: the properties before the credentials. -/
def UserRecord.tables (u : UserRecord) : List Table := u.role.tables ++ [u.credentials]

/-- The tables of an encoded group are those of its user. -/
def GroupRecord.tables (g : GroupRecord) : List Table := g.user.tables

/-- Decoding looks at a code and then goes through tables in turn. -/
structure DecodesInTurn {α : Type} (code : Bounded (.signed 32)) (tables : List Table)
    (result : Except Fault α) : Prop where
  /-- A bad code is refused whatever is in the tables. -/
  of_not_isCode : ¬ RoleKind.IsCode code → result = .error (.unknownCode .roleType code)
  /-- A good one lets the tables decide. -/
  of_isCode : RoleKind.IsCode code → InTurn Table.Readable Table.Unreadable tables result

namespace DecodesInTurn

variable {α β : Type} {code : Bounded (.signed 32)} {tables more : List Table} {result : Except Fault α}

theorem map (h : DecodesInTurn code tables result) (f : α → β) :
    DecodesInTurn code tables (result.map f) where
  of_not_isCode hcode := by
    rw [h.of_not_isCode hcode]
    rfl
  of_isCode hcode := (h.of_isCode hcode).map f

theorem bind (h : DecodesInTurn code tables result) {next : α → Except Fault β}
    (hnext : ∀ a, InTurn Table.Readable Table.Unreadable more (next a)) :
    DecodesInTurn code (tables ++ more) (result.bind next) where
  of_not_isCode hcode := by
    rw [h.of_not_isCode hcode]
    rfl
  of_isCode hcode := (h.of_isCode hcode).bind fun a _ => hnext a

/-- **A fault about a code says that the code is bad**, and a bad code gives no other fault. -/
theorem unknownCode_iff (h : DecodesInTurn code tables result) (item : CodeItem)
    (c : Bounded (.signed 32)) :
    result = .error (.unknownCode item c) ↔ ¬ RoleKind.IsCode code ∧ item = .roleType ∧ c = code := by
  constructor
  · intro hfault
    have hcode : ¬ RoleKind.IsCode code := fun hcode => by
      obtain ⟨t, -, ht⟩ := (((h.of_isCode hcode).error_iff _).1 hfault).exists_fails
      exact t.not_unreadable_unknownCode item c ht
    rw [h.of_not_isCode hcode] at hfault
    cases hfault
    exact ⟨hcode, rfl, rfl⟩
  · rintro ⟨hcode, rfl, rfl⟩
    exact h.of_not_isCode hcode

end DecodesInTurn

theorem RoleRecord.decode_of_ofCode? {r : RoleRecord} {kind : RoleKind}
    (h : RoleKind.ofCode? r.type = some kind) :
    r.decode = r.properties.toProperties.map fun p => ⟨r.name, kind, p⟩ := by
  unfold decode
  rw [h]
  cases r.properties.toProperties <;> rfl

theorem UserRecord.decode_eq (u : UserRecord) :
    u.decode = u.role.decode.bind fun role => u.credentials.toProperties.map fun p => ⟨role, p⟩ := by
  unfold decode
  cases u.role.decode with
  | error fault => rfl
  | ok role => cases u.credentials.toProperties <;> rfl

theorem GroupRecord.decode_eq (g : GroupRecord) :
    g.decode = g.user.decode.map fun user => ⟨user, g.members, g.requiredMembers⟩ := by
  unfold decode
  cases g.user.decode <;> rfl

theorem RoleRecord.decodesInTurn (r : RoleRecord) : DecodesInTurn r.type r.tables r.decode where
  of_not_isCode hcode := by
    unfold decode
    cases hkind : RoleKind.ofCode? r.type with
    | none => rfl
    | some kind => exact absurd (RoleKind.exists_ofCode?_iff.1 ⟨kind, hkind⟩) hcode
  of_isCode hcode := by
    obtain ⟨kind, hkind⟩ := RoleKind.exists_ofCode?_iff.2 hcode
    rw [decode_of_ofCode? hkind]
    exact r.properties.inTurn_toProperties.map _

theorem UserRecord.decodesInTurn (u : UserRecord) :
    DecodesInTurn u.role.type u.tables u.decode := by
  rw [decode_eq]
  exact u.role.decodesInTurn.bind fun role => u.credentials.inTurn_toProperties.map _

theorem GroupRecord.decodesInTurn (g : GroupRecord) :
    DecodesInTurn g.user.role.type g.tables g.decode := by
  rw [decode_eq]
  exact g.user.decodesInTurn.map _

/-! ## 5. Records that come back -/

theorem Role.exists_same {r : Role} (h : r.properties.RoundTrips) :
    ∃ record r', r.encode = .ok record ∧ record.decode = .ok r' ∧ r'.same r = true := by
  obtain ⟨t, q, ht, hq, hsame⟩ := h.exists_same
  refine ⟨⟨r.name, r.kind.code, t⟩, ⟨r.name, r.kind, q⟩, ?_, ?_, ?_⟩
  · rw [encode_eq, ht]
    rfl
  · rw [RoleRecord.decode_of_ofCode? (RoleKind.ofCode?_code r.kind), hq]
    rfl
  · simp [same, hsame]

theorem User.exists_same {u : User} (hrole : u.role.properties.RoundTrips)
    (hcredentials : u.credentials.RoundTrips) :
    ∃ record u', u.encode = .ok record ∧ record.decode = .ok u' ∧ u'.same u = true := by
  obtain ⟨role, r', hencode, hdecode, hsame⟩ := Role.exists_same hrole
  obtain ⟨t, q, ht, hq, hsame'⟩ := hcredentials.exists_same
  refine ⟨⟨role, t⟩, ⟨r', q⟩, ?_, ?_, ?_⟩
  · rw [encode_eq, hencode, ht]
    rfl
  · rw [UserRecord.decode_eq, hdecode, hq]
    rfl
  · rw [same, hsame, hsame']
    rfl

theorem Group.exists_same {g : Group} (hrole : g.user.role.properties.RoundTrips)
    (hcredentials : g.user.credentials.RoundTrips) :
    ∃ record g', g.encode = .ok record ∧ record.decode = .ok g' ∧ g'.same g = true := by
  obtain ⟨user, u', hencode, hdecode, hsame⟩ := User.exists_same hrole hcredentials
  refine ⟨⟨user, g.members, g.requiredMembers⟩, ⟨u', g.members, g.requiredMembers⟩, ?_, ?_, ?_⟩
  · rw [encode_eq, hencode]
    rfl
  · rw [GroupRecord.decode_eq, hdecode]
    rfl
  · simp [same, hsame]

/-- Members go into the record as they are. -/
theorem Group.members_of_encode {g : Group} {record : GroupRecord} (h : g.encode = .ok record) :
    record.members = g.members ∧ record.requiredMembers = g.requiredMembers := by
  unfold encode at h
  split at h <;> cases h
  exact ⟨rfl, rfl⟩

/-- And out of it. -/
theorem GroupRecord.members_of_decode {record : GroupRecord} {g : Group}
    (h : record.decode = .ok g) :
    g.members = record.members ∧ g.requiredMembers = record.requiredMembers := by
  unfold decode at h
  split at h <;> cases h
  exact ⟨rfl, rfl⟩

/-! ## 6. Events -/

namespace EventType

/-- The code is one of those that types of events have. -/
def IsCode (code : Bounded (.signed 32)) : Prop :=
  code.val = 1 ∨ code.val = 2 ∨ code.val = 4 ∨ code.val = 8

instance (code : Bounded (.signed 32)) : Decidable (IsCode code) :=
  inferInstanceAs (Decidable (code.val = 1 ∨ code.val = 2 ∨ code.val = 4 ∨ code.val = 8))

variable {code : Bounded (.signed 32)}

theorem ofCode?_eq_some_iff {type : EventType} : ofCode? code = some type ↔ type.code = code := by
  constructor
  · intro h
    simpa using List.find?_some h
  · rintro rfl
    exact ofCode?_code type

theorem exists_code_eq_iff : (∃ type : EventType, type.code = code) ↔ IsCode code := by
  constructor
  · rintro ⟨type, rfl⟩
    cases type <;> decide
  · rintro (h | h | h | h)
    · exact ⟨.registered, Bounded.ext h.symm⟩
    · exact ⟨.modified, Bounded.ext h.symm⟩
    · exact ⟨.unregistering, Bounded.ext h.symm⟩
    · exact ⟨.modifiedEndmatch, Bounded.ext h.symm⟩

theorem ofCode?_eq_none_iff : ofCode? code = none ↔ ¬ IsCode code := by
  rw [← exists_code_eq_iff, Option.eq_none_iff_forall_ne_some, not_exists]
  exact forall_congr' fun type => not_congr ofCode?_eq_some_iff

end EventType

namespace ServiceEventRecord

/-- **Decoding an event undoes encoding, and encoding undoes decoding.** -/
theorem decode_eq_ok_iff {record : ServiceEventRecord} {e : ServiceEvent} :
    record.decode = .ok e ↔ e.encode = record := by
  obtain ⟨service, bundle, location, classes, type⟩ := e
  obtain ⟨service', bundle', location', classes', code⟩ := record
  unfold decode ServiceEvent.encode
  cases hcode : EventType.ofCode? code with
  | none =>
    have hne : type.code ≠ code := fun h => by
      rw [EventType.ofCode?_eq_some_iff.2 h] at hcode
      cases hcode
    simp [hne]
  | some type' =>
    obtain rfl := EventType.ofCode?_eq_some_iff.1 hcode
    have htype : type.code = type'.code ↔ type' = type := by
      rw [← EventType.ofCode?_eq_some_iff, EventType.ofCode?_code, Option.some.injEq]
    simp only [Except.ok.injEq, ServiceEvent.mk.injEq, mk.injEq, htype]
    constructor
    · rintro ⟨rfl, rfl, rfl, rfl, rfl⟩
      exact ⟨rfl, rfl, rfl, rfl, rfl⟩
    · rintro ⟨rfl, rfl, rfl, rfl, rfl⟩
      exact ⟨rfl, rfl, rfl, rfl, rfl⟩

theorem decode_encode (e : ServiceEvent) : e.encode.decode = .ok e := decode_eq_ok_iff.2 rfl

theorem decode_eq_error_iff {record : ServiceEventRecord} {fault : Fault} :
    record.decode = .error fault ↔
      ¬ EventType.IsCode record.type ∧ fault = .unknownCode .eventType record.type := by
  rw [← EventType.ofCode?_eq_none_iff]
  unfold decode
  cases EventType.ofCode? record.type <;> simp [eq_comm]

end ServiceEventRecord

/-! ## 7. The laws -/

/-- The laws of a conversion that has a code and tables on one side and dictionaries on the other. -/
structure Converts {α β : Type} (encode : α → Except Fault β) (decode : β → Except Fault α)
    (same : α → α → Bool) (dictionaries : α → List Properties) (code : β → Bounded (.signed 32))
    (tables : β → List Table) : Prop where
  /-- What is encoded is decoded to the original, if each value comes back from its row. -/
  comesBack : ∀ a, (∀ p ∈ dictionaries a, p.RoundTrips) →
    ∃ b a', encode a = .ok b ∧ decode b = .ok a' ∧ same a' a = true
  /-- Encoding fails for the first dictionary with a value that cannot be written. -/
  encodesInTurn : ∀ a,
    InTurn Properties.Tabular Properties.Obstructed (dictionaries a) (encode a)
  /-- Decoding fails for the code exactly when no kind has it. -/
  refusesCode : ∀ b item c, decode b = .error (.unknownCode item c) ↔
    ¬ RoleKind.IsCode (code b) ∧ item = .roleType ∧ c = code b
  /-- Otherwise it fails for the first table with a row that cannot be read. -/
  decodesInTurn : ∀ b, RoleKind.IsCode (code b) →
    InTurn Table.Readable Table.Unreadable (tables b) (decode b)

/-- **Records are decoded to what was encoded, and refused for the first thing in the way.**  Roles, users
and groups have the same laws, for one more dictionary from the user on; members are carried as they are;
and events and their records correspond to one another, up to the codes that no type has. -/
theorem records_convert :
    Converts Role.encode RoleRecord.decode Role.same Role.dictionaries (·.type) RoleRecord.tables ∧
    Converts User.encode UserRecord.decode User.same User.dictionaries (·.role.type)
      UserRecord.tables ∧
    Converts Group.encode GroupRecord.decode Group.same Group.dictionaries (·.user.role.type)
      GroupRecord.tables ∧
    (∀ (g : Group) record, g.encode = .ok record →
      record.members = g.members ∧ record.requiredMembers = g.requiredMembers) ∧
    (∀ (record : GroupRecord) g, record.decode = .ok g →
      g.members = record.members ∧ g.requiredMembers = record.requiredMembers) ∧
    (∀ e : ServiceEvent, e.encode.decode = .ok e) ∧
    (∀ (record : ServiceEventRecord) e, record.decode = .ok e → e.encode = record) ∧
    ∀ (record : ServiceEventRecord) fault, record.decode = .error fault ↔
      ¬ EventType.IsCode record.type ∧ fault = .unknownCode .eventType record.type := by
  refine ⟨?_, ?_, ?_, fun g record => Group.members_of_encode,
    fun record g => GroupRecord.members_of_decode, ServiceEventRecord.decode_encode,
    fun record e => ServiceEventRecord.decode_eq_ok_iff.1,
    fun record fault => ServiceEventRecord.decode_eq_error_iff⟩
  · exact {
      comesBack := fun r h => Role.exists_same (h _ (by simp [Role.dictionaries]))
      encodesInTurn := Role.inTurn_encode
      refusesCode := fun record => record.decodesInTurn.unknownCode_iff
      decodesInTurn := fun record => record.decodesInTurn.of_isCode }
  · exact {
      comesBack := fun u h => User.exists_same (h _ (by simp [User.dictionaries, Role.dictionaries]))
        (h _ (by simp [User.dictionaries]))
      encodesInTurn := User.inTurn_encode
      refusesCode := fun record => record.decodesInTurn.unknownCode_iff
      decodesInTurn := fun record => record.decodesInTurn.of_isCode }
  · exact {
      comesBack := fun g h => Group.exists_same
        (h _ (by simp [Group.dictionaries, User.dictionaries, Role.dictionaries]))
        (h _ (by simp [Group.dictionaries, User.dictionaries]))
      encodesInTurn := Group.inTurn_encode
      refusesCode := fun record => record.decodesInTurn.unknownCode_iff
      decodesInTurn := fun record => record.decodesInTurn.of_isCode }

/-- The properties are asked before the credentials, though "a" is the smaller name. -/
example : User.encode ⟨⟨"u", .user, .ofList [("b", .dictionary [])]⟩, .ofList [("a", .dictionary [])]⟩ =
    .error (.unsupportedValue "b" "Dictionary") := rfl

end FrameworkAdmin
