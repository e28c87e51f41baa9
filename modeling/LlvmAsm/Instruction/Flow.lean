/-
  Reading the instructions on the flow of control: branches, `ret`, `switch`,
  `indirectbr`, `unreachable`, and `phi`, which gathers what flows in.
-/
import LlvmAsm.Node
import LlvmAsm.Operand.Reader

namespace LlvmAsm.Instruction

open Reading

/-- `br label %dest` or `br i1 condition, label %true, label %false` -/
def branch (line : Line) : Reading Node := do
  let tokens := line.tokens
  let target ← tokenAt line tokens 1
  if target.is "label" then
    let label ← textAt line tokens 2
    return ⟨line.number, none, false, .branch (.unconditional label)⟩
  else
    match tokens.findIdx? Token.isSeparator with
    | none => fail (line.lacks .branchLabels tokens)
    | some 0 => fail ⟨line.number, .reversedRange⟩
    | some comma =>
      let condition ← operand line ((tokens.take comma).drop 1)
      let labelTrue ← textAt line tokens (comma + 2)
      let labelFalse ← textAt line tokens (comma + 5)
      return ⟨line.number, none, false, .branch (.conditional condition labelTrue labelFalse)⟩

/-- `ret void` or `ret T value` -/
def ret (line : Line) : Reading Node := do
  let ty ← textAt line line.tokens 1
  let value ←
    if TypeText.isVoid ty then pure none
    else match segments (line.tokens.drop 1) with
      | (t :: u :: ts) :: _ => some <$> operand line (t :: u :: ts)
      | _ => pure none
  note ty
  return ⟨line.number, none, false, .ret ty value⟩

/-- The cases of a switch: five tokens each, `T value , label %dest`. -/
def switchCases (line : Line) : List Token → Reading (List SwitchCase)
  | [] => pure []
  | ty :: value :: comma :: word :: label :: rest => do
    if comma.isSeparator then
      let cases ← switchCases line rest
      return ⟨value.text, label.text⟩ :: cases
    else fail (line.lacks .switchCase [ty, value, comma, word, label])
  | short => fail (line.lacks .switchCase short)

/-- `switch T value, label %default [ T v, label %dest ... ]` -/
def switch (line : Line) : Reading Node := do
  let ty ← textAt line line.tokens 1
  let value ← textAt line line.tokens 2
  let defaultLabel ← textAt line line.tokens 5
  let table := (line.tokens[6]?.bind (Token.innerOf? .bracket)).getD []
  let cases ← switchCases line table
  note ty
  return ⟨line.number, some value, false, .switch ty value defaultLabel cases⟩

/-- `indirectbr T* address, [ label %a, label %b ]` -/
def indirectBranch (line : Line) : Reading Node := do
  let ty ← textAt line line.tokens 1
  match segments (line.tokens.drop 1) with
  | first :: _ =>
    let pointer ← operand line first
    let inner := (line.tokens.findSome? (Token.innerOf? .bracket)).getD []
    let destinations := (splitCommas inner).filterMap fun part => part.getLast?.map Token.text
    note ty
    return ⟨line.number, pointer.ident?, false, .indirectBranch ty pointer destinations⟩
  | [] => fail (line.lacks .branchAddress line.tokens)

/-- `unreachable` -/
def unreachable (line : Line) : Node := ⟨line.number, none, false, .unreachable⟩

/-- The incoming edges of a phi, each from the tokens between its brackets. -/
def incoming (line : Line) (ty : Token) : List (List Token) → Reading (List Incoming)
  | [] => pure []
  | inner :: rest => do
    match splitCommas inner with
    | value :: (label :: _) :: _ =>
      let value ← operand line (ty :: value)
      let edges ← incoming line ty rest
      return ⟨label.text, value⟩ :: edges
    | _ => fail (line.lacks .phiEntry inner)

/-- `phi T [ value, %label ], ...` -/
def phi (line : Line) : Reading Node := do
  let ty ← tokenAt line line.tokens 1
  let edges ← incoming line ty
    ((beforeComment (line.tokens.drop 2)).filterMap (Token.innerOf? .bracket))
  note ty.text
  return ⟨line.number, none, false, .phi ty.text edges⟩

end LlvmAsm.Instruction
