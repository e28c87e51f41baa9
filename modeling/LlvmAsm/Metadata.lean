/-
  Debug metadata: where the lines of the assembly text come from.

  * `Metadata` holds what was recorded: the annotation of each line, and for
    each metadata id a source line, the enclosing scope or a source file;
  * `Metadata.location?` finds the source location of a line. The file is the
    first one on the way from the annotation outwards through the scopes. A
    way that visits more ids than there are scopes has come back to an id, so
    it is not followed further.
-/
import LlvmAsm.Table
import LlvmAsm.Text

namespace LlvmAsm

/-- A file of the source program. -/
structure SourceFile where
  name : Text
  directory : Text
deriving DecidableEq, Repr

/-- The path of a file. -/
def SourceFile.path (f : SourceFile) : Text := f.directory ++ '/' :: f.name

/-- A line of the source program, with the path of its file if it is known. -/
structure SourceLocation where
  file : Option Text
  line : Nat
deriving DecidableEq, Repr

/-- What was recorded about the origin of the lines. -/
structure Metadata where
  /-- the metadata id that annotates a line -/
  annotations : Table Nat Text
  /-- the source line of an id -/
  sourceLines : Table Text Nat
  /-- the scope that encloses an id -/
  parents : Table Text Text
  /-- the source file of an id -/
  files : Table Text SourceFile
deriving DecidableEq, Repr

namespace Metadata

/-- Nothing was recorded. -/
def empty : Metadata := ⟨.empty, .empty, .empty, .empty⟩

/-- Nothing worth telling was recorded: scopes alone say nothing. -/
def isEmpty (m : Metadata) : Bool :=
  m.annotations.isEmpty && m.sourceLines.isEmpty && m.files.isEmpty

/-- The first file among an id and the scopes that enclose it, of which at most
    `steps` are looked at. -/
def fileOf? (m : Metadata) : (steps : Nat) → (id : Text) → Option Text
  | 0, _ => none
  | steps + 1, id =>
    match m.files.get? id with
    | some file => some file.path
    | none => (m.parents.get? id).bind (m.fileOf? steps)

/-- The source location of a line. -/
def location? (m : Metadata) (number : Nat) : Option SourceLocation := do
  let id ← m.annotations.get? number
  let line ← m.sourceLines.get? id
  return ⟨m.fileOf? (m.parents.size + 1) id, line⟩

end Metadata

end LlvmAsm
