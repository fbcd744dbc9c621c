/-
# Why an operation is refused

Management operations take names and texts, so they fail for two kinds of reasons: a text that
cannot be read (a value, a filter, a version), and a name that stands for nothing, or for
something of the wrong kind.
-/
import FrameworkAdmin.Filter.Parser
import FrameworkAdmin.Property.Fault
import FrameworkAdmin.Version

namespace FrameworkAdmin

/-- The reason why an operation was not carried out. -/
inductive Refusal where
  /-- A value or a table could not be converted. -/
  | codec (fault : Fault)
  /-- A filter could not be read. -/
  | filter (fault : Filter.SyntaxFault)
  /-- A version could not be read. -/
  | version (fault : Version.VersionFault)
  /-- The role exists and is neither a user nor a group. -/
  | notAUser (name : String)
  /-- The role exists and is no group. -/
  | notAGroup (name : String)
  /-- There is no role with this name. -/
  | roleNotFound (name : String)
  /-- There is no service with this id. -/
  | serviceNotFound (id : Bounded (.signed 64))
  /-- There is no configuration with this pid. -/
  | configurationNotFound (pid : String)
deriving DecidableEq, Repr

namespace Refusal

/-- The wording of the fault inside, if the operation failed on a text. -/
def source? : Refusal → Option String
  | .codec fault => some fault.message
  | .filter fault => some fault.message
  | .version fault => some fault.message
  | _ => none

/-- The wording of each refusal. -/
def message : Refusal → String
  | .codec fault => "codec error: " ++ fault.message
  | .filter fault => "filter error: " ++ fault.message
  | .version fault => "version error: " ++ fault.message
  | .notAUser name => "not a user: " ++ name
  | .notAGroup name => "not a group: " ++ name
  | .roleNotFound name => "role '" ++ name ++ "' not found"
  | .serviceNotFound id => "service <" ++ String.ofList id.text ++ "> does not exist"
  | .configurationNotFound pid => "configuration '" ++ pid ++ "' not found"

end Refusal

/-- What an operation on a store of type `σ` gives: an answer or a refusal, and the store
afterwards. -/
abbrev Outcome (σ α : Type) := Except Refusal α × σ

/-- Reads the filter of an operation. -/
def Refusal.readFilter (text : String) : Except Refusal Filter :=
  match Filter.read text with
  | .ok f => .ok f
  | .error fault => .error (.filter fault)

/-- Reads the filter of an operation that can do without one. -/
def Refusal.readFilter? : Option String → Except Refusal (Option Filter)
  | none => .ok none
  | some text =>
    match Refusal.readFilter text with
    | .ok f => .ok (some f)
    | .error r => .error r

end FrameworkAdmin
