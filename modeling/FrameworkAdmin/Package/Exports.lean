/-
# Exported packages

Bundles export packages in versions.  The exports are listed in the order in which they were
made; an export of the same package in the same version takes the place of the earlier one, and
moves to the end of the list.

Clients name a version by text (section 2).  Texts that are read as the same version are the
same to them, and a text that is no version is refused before anything is looked up.
-/
import FrameworkAdmin.Refusal
import FrameworkAdmin.Service.Registry

namespace FrameworkAdmin

/-! ## 1. Exports -/

/-- A package that a bundle exports. -/
structure Export where
  name : String
  version : Version
  exporter : FrameworkId
  importers : List FrameworkId
  removalPending : Bool
deriving DecidableEq, Repr

namespace Export

/-- A new export, which nobody imports. -/
def fresh (name : String) (version : Version) (exporter : FrameworkId) : Export :=
  ⟨name, version, exporter, [], false⟩

/-- The export of this package in this version. -/
def isOf (name : String) (version : Version) (e : Export) : Bool :=
  e.name == name && e.version == version

/-- The export with one more importer, unless it is one already. -/
def addImporter (bundle : FrameworkId) (e : Export) : Export :=
  if e.importers.contains bundle then e else { e with importers := e.importers ++ [bundle] }

/-- The name of the package and the text of the version. -/
def text (e : Export) : String := e.name ++ ";" ++ e.version.text

end Export

/-- The exports in the order in which they were made. -/
structure Exports where
  list : List Export
deriving DecidableEq, Repr

namespace Exports

instance : EmptyCollection Exports := ⟨⟨[]⟩⟩
instance : Inhabited Exports := ⟨∅⟩

/-- Adds an export in place of one of the same package in the same version. -/
def add (s : Exports) (e : Export) : Exports :=
  ⟨s.list.filter (fun x => !x.isOf e.name e.version) ++ [e]⟩

/-- Changes the first export that satisfies a predicate. -/
def modifyFirst (p : Export → Bool) (f : Export → Export) : List Export → List Export
  | [] => []
  | e :: es => if p e then f e :: es else e :: modifyFirst p f es

/-- Wires a bundle to an export and tells whether there is one. -/
def addImporter (s : Exports) (name : String) (version : Version) (bundle : FrameworkId) :
    Bool × Exports :=
  (s.list.any (·.isOf name version),
    ⟨modifyFirst (·.isOf name version) (·.addImporter bundle) s.list⟩)

/-- Marks all exports of a bundle as pending removal. -/
def markRemovalPending (s : Exports) (bundle : FrameworkId) : Exports :=
  ⟨s.list.map fun e => if e.exporter = bundle then { e with removalPending := true } else e⟩

/-- The exports of a package in any version. -/
def named (s : Exports) (name : String) : List Export := s.list.filter (·.name == name)

/-! ## 2. Questions -/

/-- The export of a package in the version with this text. -/
def find? (s : Exports) (name version : String) : Except Refusal (Option Export) :=
  match Version.read version with
  | .error fault => .error (.version fault)
  | .ok v => .ok ((s.named name).find? (·.version == v))

/-- The bundle that exports a package in a version, if there is one. -/
def exporterOf (s : Exports) (name version : String) : Except Refusal (Option FrameworkId) :=
  (s.find? name version).map fun e => e.map (·.exporter)

/-- The bundles that import a package in a version. -/
def importersOf (s : Exports) (name version : String) : Except Refusal (List FrameworkId) :=
  (s.find? name version).map fun e => (e.map (·.importers)).getD []

/-- A package in a version is about to be removed. -/
def isRemovalPending (s : Exports) (name version : String) : Except Refusal Bool :=
  (s.find? name version).map fun e => (e.map (·.removalPending)).getD false

/-- All exports by package and version. -/
def texts (s : Exports) : List String := s.list.map Export.text

/-! ## 3. Changes -/

/-- A change of the exports with its arguments. -/
inductive Change where
  | add (e : Export)
  | addImporter (name : String) (version : Version) (bundle : FrameworkId)
  | markRemovalPending (bundle : FrameworkId)

/-- Makes one change. -/
def Change.run (s : Exports) : Change → Exports
  | .add e => s.add e
  | .addImporter name version bundle => (s.addImporter name version bundle).2
  | .markRemovalPending bundle => s.markRemovalPending bundle

/-- The exports after a run of changes. -/
def after (s : Exports) (changes : List Change) : Exports := changes.foldl Change.run s

end Exports

end FrameworkAdmin
