/-
  Taking the debug metadata out of the lines of a source.

  `Metadata.extract` gives the lines without it and what it records. No line is
  added or removed, so that every line keeps its number: a line that holds
  nothing but metadata becomes empty. Lines without any definition of metadata
  are not touched at all.
-/
import LlvmAsm.Decimal
import LlvmAsm.Metadata
import LlvmAsm.Metadata.Record

namespace LlvmAsm.Metadata

/-- The value of a line number, if it is written in the digits `0` to `9` and
    fits into 64 bits. -/
def lineNumber? (digits : Text) : Option Nat :=
  if digits.all Char.isDigit && Decimal.digitsValue digits < Nat.pow 2 64 then
    some (Decimal.digitsValue digits)
  else none

/-- What is known after one more definition. A scope is kept even if the number
    of its line is not. -/
def add (m : Metadata) : Record → Metadata
  | .location id line scope =>
    { m with
      sourceLines := ((lineNumber? line).map (m.sourceLines.put id)).getD m.sourceLines
      parents := m.parents.put id scope }
  | .block id parent => { m with parents := m.parents.put id parent }
  | .file id name directory => { m with files := m.files.put id ⟨name, directory⟩ }

/-- What is left of a line with the given number, and what is known after it. -/
def extractLine (m : Metadata) (number : Nat) (line : Text) : Text × Metadata :=
  if isDeclaration line then ([], m)
  else match annotation? line with
    | some id => (unannotated line, { m with annotations := m.annotations.put number id })
    | none =>
      let m := ((Record.ofLine? line).map m.add).getD m
      (if isMetadata line then [] else line, m)

/-- What is left of several lines, the first of which has the given number, and
    what is known after them. -/
def extractLines (m : Metadata) (number : Nat) : List Text → List Text × Metadata
  | [] => ([], m)
  | line :: rest =>
    let (left, m) := m.extractLine number line
    let (more, m) := m.extractLines (number + 1) rest
    (left :: more, m)

/-- What is left of the lines that follow line `base`, and what they record. -/
def extract (base : Nat) (lines : List Text) : List Text × Metadata :=
  if lines.any fun line => (definition? line).isSome then empty.extractLines (base + 1) lines
  else (lines, empty)

theorem length_extractLines (m : Metadata) (number : Nat) (lines : List Text) :
    (m.extractLines number lines).1.length = lines.length := by
  induction lines generalizing m number with
  | nil => rfl
  | cons line rest ih => simp [extractLines, ih]

/-- Extraction keeps the number of lines. -/
theorem length_extract (base : Nat) (lines : List Text) :
    (extract base lines).1.length = lines.length := by
  simp only [extract]
  split
  · exact length_extractLines _ _ _
  · rfl

end LlvmAsm.Metadata
