/-
  The JSON form of a module, with its registry and its metadata.
-/
import LlvmAsm.Module
import LlvmAsm.Node.Json

namespace LlvmAsm

open Json (orNull listOf)

/-- The form of a registry: the types in the order of their appearance. -/
def Registry.json (r : Registry) : Json := listOf .text r.names

/-- The form of a table: a member for each entry. -/
def Table.json {κ α : Type} (t : Table κ α) (key : κ → Text) (value : α → Json) : Json :=
  .object (t.entries.map fun (k, a) => (key k, value a))

/-- The form of the metadata. -/
def Metadata.json (m : Metadata) : Json :=
  .object [
    ("lineToMetadata", m.annotations.json Text.ofNat .text),
    ("sourceLines", m.sourceLines.json id .nat),
    ("parents", m.parents.json id .text),
    ("files", m.files.json id fun f =>
      .object [("name", .text f.name), ("directory", .text f.directory)])]

/-- The form of a source location. -/
def SourceLocation.json (l : SourceLocation) : Json :=
  .object [("file", orNull .text l.file), ("line", .nat l.line)]

/-- The members of the form of a module. The metadata is left out if there is
    none worth telling. -/
def Module.members (m : Module) : List (Text × Json) :=
  [("dialect".toList, .text m.dialect.name), ("nodes".toList, listOf Node.json m.nodes),
   ("stubs".toList, listOf Stub.json m.stubs), ("types".toList, m.types.json)]
    ++ if m.metadata.isEmpty then [] else [("debug".toList, m.metadata.json)]

/-- The form of a module. -/
def Module.json (m : Module) : Json := .object m.members

end LlvmAsm
