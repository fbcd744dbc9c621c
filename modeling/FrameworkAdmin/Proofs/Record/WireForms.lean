/-
# Records are what their schemas say

The schemas on the one side, and on the other the writers and readers of the records, name the same items
in the same order, with types that go together.  Nothing makes them do so: neither side looks at the other.

Here each record is made of its items: a list of items is a value of a product (`Row.items` and the like
say which), the schema describes the product, and the record is another form of it.  What is particular to
a record is therefore the names and types that stand in its definitions, and those are compared by
computation.

The only item with a law of its own is the table.  Rows are kept by their key, the last of each
(`Row.lastRows`), and this is what the schema means by an index.
-/
import FrameworkAdmin.Proofs.Property.Dictionaries
import FrameworkAdmin.Proofs.Record.Conformance
import FrameworkAdmin.Record.Authorization
import FrameworkAdmin.Record.Role
import FrameworkAdmin.Record.ServiceEvent

namespace FrameworkAdmin

/-! ## 1. Rows and tables -/

/-- A row is its three columns. -/
def Row.items : String × String × String × Unit ≃ Row where
  toFun p := { key := p.1, value := p.2.1, type := p.2.2.1 }
  invFun row := (row.key, row.value, row.type, ())
  left_inv _ := rfl
  right_inv _ := rfl

theorem Row.describes : Describes (.record Schema.property) Row.toWire Row.ofWire? := by
  have hitems := DescribesAll.cons .string (.cons .string (.cons .string .nil))
  refine (DescribesAll.record (s := Schema.property) hitems (by decide)).congr Row.items
    (fun _ => rfl) fun w => ?_
  rw [Row.ofWire?]
  show _ = ((w.items? ["Key", "Value", "Type"]).bind _).map _
  -- a list of another length has no reading on either side
  rcases w.items? ["Key", "Value", "Type"] with _ | ⟨_ | ⟨key, _ | ⟨value, _ | ⟨type, _ | _⟩⟩⟩⟩
  all_goals simp [readCons, readNil, Row.items, Option.map_bind]

theorem Row.indexOf_toWire (row : Row) : row.toWire.indexOf ["Key"] = [row.key] := rfl

/-- An index of one item is in the order of this item. -/
theorem compare_singleton (a b : String) : compare [a] [b] = compare a b := by
  refine List.compareLex_cons_cons.trans ?_
  cases compare a b <;> rfl

theorem Table.map_key_rows (t : Table) : t.rows.map (·.key) = t.keys := by
  rw [rows, List.map_map]
  rfl

theorem Table.ascending_keys (t : Table) : Ascending (t.rows.map (·.key)) :=
  t.map_key_rows ▸ t.cells.ascending

/-- A row is kept exactly when none with its key follows. -/
theorem Table.mem_rows_ofRows_iff {rows : List Row} {row : Row} :
    row ∈ (ofRows rows).rows ↔
      ∃ before after, rows = before ++ row :: after ∧ ∀ later ∈ after, later.key ≠ row.key := by
  -- the last row with a key is found as the first one from behind
  rw [mem_rows_iff, get?_ofRows, List.find?_eq_some_iff_append]
  constructor
  · rintro ⟨-, after, before, heq, hafter⟩
    refine ⟨before.reverse, after.reverse, ?_, fun later hlater => ?_⟩
    · simpa using List.reverse_eq_append_iff.1 heq
    · simpa using hafter later (List.mem_reverse.1 hlater)
  · rintro ⟨before, after, rfl, hafter⟩
    refine ⟨beq_self_eq_true _, after.reverse, before.reverse, by simp, fun later hlater => ?_⟩
    simpa using hafter later (List.mem_reverse.1 hlater)

/-- **The rows of a table are the last ones of the list that it is made of**, also on the wire. -/
theorem Row.lastRows (rows : List Row) :
    Wire.LastRows ["Key"] (rows.map Row.toWire) ((Table.ofRows rows).rows.map Row.toWire) where
  ascending := by
    have hkeys := List.pairwise_map.1 (Table.ofRows rows).ascending_keys
    rw [List.map_map]
    refine List.pairwise_map.2 (hkeys.imp fun {row row'} hlt => ?_)
    exact (compare_singleton row.key row'.key).trans hlt
  mem_iff w := by
    constructor
    · intro hw
      obtain ⟨row, hrow, rfl⟩ := List.mem_map.1 hw
      obtain ⟨before, after, rfl, hafter⟩ := Table.mem_rows_ofRows_iff.1 hrow
      refine ⟨before.map toWire, after.map toWire, by simp, fun later hlater => ?_⟩
      obtain ⟨row', hrow', rfl⟩ := List.mem_map.1 hlater
      simpa [indexOf_toWire] using hafter row' hrow'
    · rintro ⟨before, after, heq, hafter⟩
      obtain ⟨before, rest, rfl, rfl, hrest⟩ := List.map_eq_append_iff.1 heq
      obtain ⟨row, after, rfl, rfl, rfl⟩ := List.map_eq_cons_iff.1 hrest
      refine List.mem_map_of_mem (Table.mem_rows_ofRows_iff.2 ⟨before, after, rfl, fun later hlater => ?_⟩)
      simpa [indexOf_toWire] using hafter _ (List.mem_map_of_mem hlater)

theorem Table.describes : Describes (.table Schema.properties) Table.toWire Table.ofWire? :=
  .table Row.describes (fun _ => Table.ofRows_of_perm (List.Perm.refl _)) Row.lastRows

/-! ## 2. Records -/

/-- A role is its three items. -/
def RoleRecord.items : String × Bounded (.signed 32) × Table × Unit ≃ RoleRecord where
  toFun p := ⟨p.1, p.2.1, p.2.2.1⟩
  invFun role := (role.name, role.type, role.properties, ())
  left_inv _ := rfl
  right_inv _ := rfl

theorem RoleRecord.describes : Describes (.record Schema.role) RoleRecord.toWire RoleRecord.ofWire? := by
  have hitems := DescribesAll.cons .string (.cons .integer (.cons Table.describes .nil))
  refine (DescribesAll.record (s := Schema.role) hitems (by decide)).congr RoleRecord.items
    (fun _ => rfl) fun w => ?_
  rw [RoleRecord.ofWire?]
  show _ = ((w.items? ["Name", "Type", "Properties"]).bind _).map _
  rcases w.items? ["Name", "Type", "Properties"] with
    _ | ⟨_ | ⟨name, _ | ⟨type, _ | ⟨properties, _ | _⟩⟩⟩⟩
  all_goals simp [readCons, readNil, RoleRecord.items, Option.map_bind]

/-- A user is its two items. -/
def UserRecord.items : RoleRecord × Table × Unit ≃ UserRecord where
  toFun p := ⟨p.1, p.2.1⟩
  invFun user := (user.role, user.credentials, ())
  left_inv _ := rfl
  right_inv _ := rfl

theorem UserRecord.describes : Describes (.record Schema.user) UserRecord.toWire UserRecord.ofWire? := by
  have hitems := DescribesAll.cons RoleRecord.describes (.cons Table.describes .nil)
  refine (DescribesAll.record (s := Schema.user) hitems (by decide)).congr UserRecord.items
    (fun _ => rfl) fun w => ?_
  rw [UserRecord.ofWire?]
  show _ = ((w.items? ["Role", "Credentials"]).bind _).map _
  rcases w.items? ["Role", "Credentials"] with _ | ⟨_ | ⟨role, _ | ⟨credentials, _ | _⟩⟩⟩
  all_goals simp [readCons, readNil, UserRecord.items, Option.map_bind]

/-- A group is its three items. -/
def GroupRecord.items : UserRecord × List String × List String × Unit ≃ GroupRecord where
  toFun p := ⟨p.1, p.2.1, p.2.2.1⟩
  invFun group := (group.user, group.members, group.requiredMembers, ())
  left_inv _ := rfl
  right_inv _ := rfl

theorem GroupRecord.describes :
    Describes (.record Schema.group) GroupRecord.toWire GroupRecord.ofWire? := by
  have hitems := DescribesAll.cons UserRecord.describes (.cons .strings (.cons .strings .nil))
  refine (DescribesAll.record (s := Schema.group) hitems (by decide)).congr GroupRecord.items
    (fun _ => rfl) fun w => ?_
  rw [GroupRecord.ofWire?]
  show _ = ((w.items? ["User", "Members", "RequiredMembers"]).bind _).map _
  rcases w.items? ["User", "Members", "RequiredMembers"] with
    _ | ⟨_ | ⟨user, _ | ⟨members, _ | ⟨required, _ | _⟩⟩⟩⟩
  all_goals simp [readCons, readNil, GroupRecord.items, Option.map_bind]

/-- An authorization is its two items. -/
def AuthorizationRecord.items : String × List String × Unit ≃ AuthorizationRecord where
  toFun p := ⟨p.1, p.2.1⟩
  invFun a := (a.name, a.roles, ())
  left_inv _ := rfl
  right_inv _ := rfl

theorem AuthorizationRecord.describes :
    Describes (.record Schema.authorization) AuthorizationRecord.toWire AuthorizationRecord.ofWire? := by
  have hitems := DescribesAll.cons .string (.cons .strings .nil)
  refine (DescribesAll.record (s := Schema.authorization) hitems (by decide)).congr
    AuthorizationRecord.items (fun _ => rfl) fun w => ?_
  rw [AuthorizationRecord.ofWire?]
  show _ = ((w.items? ["Name", "Roles"]).bind _).map _
  rcases w.items? ["Name", "Roles"] with _ | ⟨_ | ⟨name, _ | ⟨roles, _ | _⟩⟩⟩
  all_goals simp [readCons, readNil, AuthorizationRecord.items, Option.map_bind]

/-- An event is its five items. -/
def ServiceEventRecord.items :
    Bounded (.signed 64) × Bounded (.signed 64) × String × List String × Bounded (.signed 32) × Unit ≃
      ServiceEventRecord where
  toFun p := ⟨p.1, p.2.1, p.2.2.1, p.2.2.2.1, p.2.2.2.2.1⟩
  invFun e := (e.service, e.bundle, e.location, e.classes, e.type, ())
  left_inv _ := rfl
  right_inv _ := rfl

theorem ServiceEventRecord.describes :
    Describes (.record Schema.serviceEvent) ServiceEventRecord.toWire ServiceEventRecord.ofWire? := by
  have hitems := DescribesAll.cons .long (.cons .long (.cons .string (.cons .strings
    (.cons .integer .nil))))
  refine (DescribesAll.record (s := Schema.serviceEvent) hitems (by decide)).congr
    ServiceEventRecord.items (fun _ => rfl) fun w => ?_
  rw [ServiceEventRecord.ofWire?]
  show _ = ((w.items? ["Identifier", "BundleIdentifier", "BundleLocation", "ObjectClass",
    "EventType"]).bind _).map _
  rcases w.items? ["Identifier", "BundleIdentifier", "BundleLocation", "ObjectClass", "EventType"] with
    _ | ⟨_ | ⟨service, _ | ⟨bundle, _ | ⟨location, _ | ⟨classes, _ | ⟨type, _ | _⟩⟩⟩⟩⟩⟩
  all_goals simp [readCons, readNil, ServiceEventRecord.items, Option.map_bind]

/-- **Every record is what its schema says**: what is written has exactly the declared items, each of its
type; it is read back, with the names of the items or without; everything that conforms to the schema is
read, and written as its exact form. -/
theorem records_described :
    Describes (.record Schema.property) Row.toWire Row.ofWire? ∧
      Describes (.record Schema.role) RoleRecord.toWire RoleRecord.ofWire? ∧
      Describes (.record Schema.user) UserRecord.toWire UserRecord.ofWire? ∧
      Describes (.record Schema.group) GroupRecord.toWire GroupRecord.ofWire? ∧
      Describes (.record Schema.authorization) AuthorizationRecord.toWire
        AuthorizationRecord.ofWire? ∧
      Describes (.record Schema.serviceEvent) ServiceEventRecord.toWire ServiceEventRecord.ofWire? :=
  ⟨Row.describes, RoleRecord.describes, UserRecord.describes, GroupRecord.describes,
    AuthorizationRecord.describes, ServiceEventRecord.describes⟩

/-- A role without names, with rows that are out of order and one of which is replaced. -/
example :
    (RoleRecord.ofWire? (.list [.text "admins", .integer 2, .list [
      .list [.text "b", .text "1", .text "Integer"], .list [.text "a", .text "x", .text "String"],
      .object [("Type", .text "Integer"), ("Key", .text "b"), ("Old", .null), ("Value", .text "2")]]])).map
      RoleRecord.toWire =
    some (.object [("Name", .text "admins"), ("Type", .integer 2), ("Properties", .list [
      .object [("Key", .text "a"), ("Value", .text "x"), ("Type", .text "String")],
      .object [("Key", .text "b"), ("Value", .text "2"), ("Type", .text "Integer")]])]) := by
  rfl

end FrameworkAdmin
