/-
  The program itself: `Command.run` in the real world.
-/
import LlvmAsm.Command

namespace LlvmAsm.Command

/-- The error with a number of the system, which may be given with its sign
    turned. -/
def FileError.ofCode? (code : UInt32) : Option FileError :=
  match min code (0 - code) with
  | 2 => some notFound
  | 20 => some notDirectory
  | 21 => some isDirectory
  | 36 => some nameTooLong
  | _ => none

/-- The error that the system reports. -/
def FileError.ofSystem (e : IO.Error) : FileError :=
  let known := match e with
    | .noFileOrDirectory _ code _ | .inappropriateType _ code _ | .invalidArgument _ code _ =>
      ofCode? code
    | _ => none
  known.getD (other e.toString.toList)

/-- The text of some bytes. -/
def textOfBytes (bytes : ByteArray) : Except FileError Text :=
  match String.fromUTF8? bytes with
  | some s => .ok s.toList
  | none => .error .notText

/-- The result of an action on a file. -/
def attempt {α : Type} (action : IO α) : IO (Except FileError α) := do
  return (← action.toBaseIO).mapError FileError.ofSystem

/-- The real world. A file that is there but refuses to be read counts as one. -/
def systemHost : Host IO where
  isFile path := do
    match ← attempt (IO.FS.readBinFile (String.ofList path)) with
    | .ok _ | .error (.other _) => return true
    | .error _ => return false
  readFile path := do
    return (← attempt (IO.FS.readBinFile (String.ofList path))).bind textOfBytes
  readInput := do
    return (← attempt (do (← IO.getStdin).readBinToEnd)).bind textOfBytes
  writeFile path content := attempt (IO.FS.writeFile (String.ofList path) (String.ofList content))

end LlvmAsm.Command

open LlvmAsm

/-- Runs the program for the words of the command line. -/
def main (words : List String) : IO UInt32 := do
  let outcome ← Command.run Command.systemHost (words.map String.toList)
  IO.print (String.ofList outcome.output)
  for line in outcome.diagnostics do
    IO.eprintln (String.ofList line)
  return outcome.exitCode.toUInt32
