/-
  Settings: what a user may choose, and the dialect of a source.
-/
import LlvmAsm.Text

namespace LlvmAsm

/-- The conventions of the program that wrote the assembly text. The new ones
    mark a block without a name by `<label>`. -/
inductive Dialect where
  | old | new
deriving DecidableEq, Repr

namespace Dialect

/-- The dialect that the lines of a source speak: an `entry:` and no `<label>`
    anywhere is old. -/
def ofLines (lines : List Text) : Dialect :=
  let has (mark : Text) : Bool := lines.any (Text.hasPart · mark)
  if !has "<label>" && has "entry:" then old else new

/-- The name of a dialect. -/
def name : Dialect → Text
  | old => "old"
  | new => "new"

/-- The dialect with a given name. -/
def ofName? (name : Text) : Option Dialect :=
  if name = "old" then some old else if name = "new" then some new else none

theorem ofName?_name (d : Dialect) : ofName? d.name = some d := by
  cases d <;> decide

end Dialect

/-- What a user may choose. -/
structure Settings where
  /-- the dialect; it is told from the source if it is not given -/
  dialect : Option Dialect
  /-- read the type `x86_fp80` as `double` -/
  extendedAsDouble : Bool
  /-- read the bodies of functions at once, instead of setting them aside -/
  readBodies : Bool
deriving DecidableEq, Repr

namespace Settings

/-- The settings of a user who chooses nothing. -/
def standard : Settings := ⟨none, false, false⟩

/-- The settings under which bodies are read at once. -/
def eager : Settings := { standard with readBodies := true }

/-- The dialect of a source under the settings. -/
def dialectOf (s : Settings) (lines : List Text) : Dialect :=
  s.dialect.getD (Dialect.ofLines lines)

end Settings

end LlvmAsm
