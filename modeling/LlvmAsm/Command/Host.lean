/-
  The world around the command line program.

  `Host m` has the actions by which the program reaches files and the standard
  input, in any monad `m`: the real ones, or those on a tree of files in
  memory.
-/
import LlvmAsm.Text

namespace LlvmAsm.Command

/-- Why a file cannot be read or written. -/
inductive FileError where
  | notFound
  | isDirectory
  | notDirectory
  | nameTooLong
  /-- the content is no text -/
  | notText
  | other (details : Text)
deriving DecidableEq, Repr

/-- The words for an error, with the number that the system gives it. -/
def FileError.message : FileError → Text
  | notFound => "No such file or directory (os error 2)"
  | isDirectory => "Is a directory (os error 21)"
  | notDirectory => "Not a directory (os error 20)"
  | nameTooLong => "File name too long (os error 36)"
  | notText => "stream did not contain valid UTF-8"
  | other details => details

/-- The actions of the program on the world around it. -/
structure Host (m : Type → Type) where
  /-- a file is there, and it is no directory -/
  isFile : (path : Text) → m Bool
  readFile : (path : Text) → m (Except FileError Text)
  /-- the standard input up to its end -/
  readInput : m (Except FileError Text)
  /-- a file with the content, whether it was there or not -/
  writeFile : (path content : Text) → m (Except FileError Unit)

end LlvmAsm.Command
