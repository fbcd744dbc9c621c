/-
# Schemas

What a management client may expect of a record is declared in a schema: the name of the record
type, and the name and the type of each item, in order.  Types nest.  An item can be a record of
its own, or a table, which is a list of records without repetitions in its index items.

The schemas are documentation in the form of data: `Schema.group` contains `Schema.user`, which
contains `Schema.role`, and all three contain the table of properties.
-/

namespace FrameworkAdmin

/-! ## 1. Shapes -/

/-- An item of a record, its type being a `τ`. -/
structure ItemShape (τ : Type) where
  name : String
  description : String
  type : τ

/-- A record type: its name and its items in order. -/
structure RecordShape (τ : Type) where
  name : String
  description : String
  items : List (ItemShape τ)

/-- A table: its rows are records that are unique in the index items. -/
structure TableShape (τ : Type) where
  name : String
  description : String
  row : RecordShape τ
  index : List String

/-- The type of an item. -/
inductive ItemType where
  | string
  | integer
  | long
  | strings
  | record (shape : RecordShape ItemType)
  | table (shape : TableShape ItemType)

/-- A record type whose items are typed. -/
abbrev Schema := RecordShape ItemType

namespace Schema

/-- The names of the items, in order. -/
def itemNames (s : Schema) : List String := s.items.map (·.name)

/-- The item with this name. -/
def item? (s : Schema) (name : String) : Option (ItemShape ItemType) :=
  s.items.find? (·.name == name)

/-! ## 2. Declarations -/

/-- A property: a row of a property table. -/
def property : Schema where
  name := "Property"
  description := "This type encapsulates a key/value pair"
  items := [
    ⟨"Key", "The key of the property", .string⟩,
    ⟨"Value", "The value of the property", .string⟩,
    ⟨"Type", "The type of the value", .string⟩]

/-- A property table, unique in its keys. -/
def properties : TableShape ItemType where
  name := "Properties"
  description := "The table of properties"
  row := property
  index := ["Key"]

/-- A role. -/
def role : Schema where
  name := "Role"
  description :=
    "Mapping of a user admin role for remote management purposes. User and Group extend Role"
  items := [
    ⟨"Name", "The name of the role. Can be either a group or a user", .string⟩,
    ⟨"Type", "An integer representing type of the role: \x7b0=Role,1=user,2=group\x7d", .integer⟩,
    ⟨"Properties", "The properties of the role", .table properties⟩]

/-- A user: a role with credentials. -/
def user : Schema where
  name := "User"
  description :=
    "Mapping of a user admin user for remote management purposes. User extends Role"
  items := [
    ⟨"Role", "The role object that is extended by this user object", .record role⟩,
    ⟨"Credentials", "The credentials for this user", .table properties⟩]

/-- A group: a user with members. -/
def group : Schema where
  name := "Group"
  description :=
    "Mapping of a user admin group for remote management purposes. Group extends User " ++
      "which in turn extends Role"
  items := [
    ⟨"User", "The user object that is extended by this group object", .record user⟩,
    ⟨"Members", "The members of this group", .strings⟩,
    ⟨"RequiredMembers", "The required members for this group", .strings⟩]

/-- The roles that a user has. -/
def authorization : Schema where
  name := "Authorization"
  description := "An authorization object defines which roles has a user got"
  items := [
    ⟨"Name", "The user name for this authorization object", .string⟩,
    ⟨"Roles", "The names of the roles encapsulated by this auth object", .strings⟩]

/-- A change of a service registration. -/
def serviceEvent : Schema where
  name := "ServiceEvent"
  description := "This type encapsulates OSGi service events"
  items := [
    ⟨"Identifier", "The id of the service", .long⟩,
    ⟨"BundleIdentifier", "The id of the bundle which registered the service", .long⟩,
    ⟨"BundleLocation", "The location of the bundle that registered the service", .string⟩,
    ⟨"ObjectClass", "The interfaces under which the service has been registered", .strings⟩,
    ⟨"EventType",
      "The type of the event: \x7bREGISTERED=1, MODIFIED=2, UNREGISTERING=4, " ++
        "MODIFIED_ENDMATCH=8\x7d", .integer⟩]

/-- Every record type. -/
def all : List Schema := [property, role, user, group, authorization, serviceEvent]

end Schema

end FrameworkAdmin
