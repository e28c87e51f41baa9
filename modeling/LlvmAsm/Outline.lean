/-
  The outline of a source: its logical lines, and the functions set aside.

  A statement may be spread over several lines: the table of a `switch` ends
  with the line that closes its bracket, and the destinations of an `invoke`
  follow on a line that begins with `to`. `Outline.ofLines` joins such lines
  and drops the blank ones. If bodies are deferred, it sets aside the lines
  from `define` to the closing brace as a stub instead, and reads the
  signature only.

  * `Progress` is the state between two source lines and `Progress.step` the
    effect of a line;
  * `Outline.ofLines` is the run over all lines, with the check at its end that
    nothing is left open.
-/
import LlvmAsm.Definition.Function
import LlvmAsm.Text.Word

namespace LlvmAsm

open Reading

/-- The logical lines and the stubs of a source. -/
structure Outline where
  lines : List LogicalLine
  stubs : List Stub
deriving DecidableEq, Repr

/-! ## The shape of a line -/

/-- A line that begins with the destinations of an `invoke`. -/
def isDestinations (t : Text) : Bool :=
  (t.afterSpaces?.bind (Text.after? · "to")).any (!Text.startsWord ·)

/-- A line that begins a `switch` whose table goes on. -/
def opensTable (t : Text) : Bool :=
  t.afterSpaces?.any (Text.startsWith · "switch ") && t.count '[' > t.count ']'

/-- A line that ends the table of a `switch`. -/
def closesTable (t : Text) : Bool := t.afterSpaces?.any (Text.startsWith · "]")

/-- A line that begins the definition of a function. -/
def opensFunction (t : Text) : Bool := Text.startsWith t "define "

/-- A line that ends the definition of a function. -/
def closesFunction (t : Text) : Bool := Text.startsWith t ['}']

/-! ## Stubs -/

/-- The function with the given lines, the first of which has the given number
    and holds the signature. -/
def Stub.ofLines (number : Nat) (lines : List Text) : Reading Stub := do
  let first ← Line.ofText (lines.head?.getD []) number
  let (ident, signature) ← Definition.header first
  return ⟨ident, signature.params, signature.hasVarArgs, number, lines⟩

/-! ## The run over the lines -/

/-- A definition of which the last line is still to come. -/
structure OpenFunction where
  /-- the number of the first line -/
  number : Nat
  /-- the lines so far, the latest first -/
  lines : List Text
deriving DecidableEq, Repr

/-- The state between two lines. -/
structure Progress where
  /-- the logical lines so far, the latest first -/
  lines : List LogicalLine
  /-- the stubs so far, the latest first -/
  stubs : List Stub
  /-- the definition that is being set aside -/
  function : Option OpenFunction
  /-- the table of a `switch` goes on -/
  inTable : Bool
deriving DecidableEq, Repr

namespace Progress

/-- The state before the first line. -/
def start : Progress := ⟨[], [], none, false⟩

/-- The logical line goes on with another source line. -/
def extend (line : LogicalLine) (text : Text) : LogicalLine :=
  { line with text := line.text ++ ' ' :: Text.trim text }

/-- The effect of a line that is not set aside. -/
def statementStep (p : Progress) (number : Nat) (text : Text) : Progress :=
  if Text.allBlank text then p
  else match p.lines with
    | line :: before =>
      if p.inTable then
        { p with lines := extend line text :: before, inTable := !closesTable text }
      else if isDestinations text then { p with lines := extend line text :: before }
      else { p with lines := ⟨text, number⟩ :: p.lines, inTable := opensTable text }
    | [] => { p with lines := [⟨text, number⟩], inTable := opensTable text }

/-- The effect of a line of a definition that is set aside. -/
def functionStep (p : Progress) (function : OpenFunction) (text : Text) : Reading Progress := do
  let lines := text :: function.lines
  if closesFunction text then
    let stub ← Stub.ofLines function.number lines.reverse
    return { p with stubs := stub :: p.stubs, function := none }
  else return { p with function := some { function with lines := lines } }

/-- The effect of a line. -/
def step (deferred : Bool) (p : Progress) (number : Nat) (text : Text) : Reading Progress :=
  match p.function with
  | some function => p.functionStep function text
  | none =>
    if deferred && opensFunction text then p.functionStep ⟨number, []⟩ text
    else pure (p.statementStep number text)

/-- The effect of several lines, the first of which has the given number. -/
def run (deferred : Bool) (p : Progress) (number : Nat) : List Text → Reading Progress
  | [] => pure p
  | text :: rest => do
    let p ← p.step deferred number text
    p.run deferred (number + 1) rest

/-- The outline of all lines, if nothing is left open. The lines begin after
    line `base`. -/
def finish (base : Nat) (p : Progress) : Except Failure Outline :=
  match p.function with
  | some function => .error ⟨function.number, .openFunction⟩
  | none =>
    if p.inTable then .error ⟨(p.lines.head?.map LogicalLine.number).getD base, .openTable⟩
    else .ok ⟨p.lines.reverse, p.stubs.reverse⟩

end Progress

/-- The outline of the lines that follow line `base`. -/
def Outline.ofLines (deferred : Bool) (base : Nat) (lines : List Text) : Reading Outline := do
  let p ← Progress.start.run deferred (base + 1) lines
  p.finish base

end LlvmAsm
