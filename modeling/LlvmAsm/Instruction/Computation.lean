/-
  Reading the instructions that compute a value from operands: arithmetic,
  comparisons, bitwise operations, conversions and `select`.
-/
import LlvmAsm.Node
import LlvmAsm.Operand.Reader

namespace LlvmAsm.Instruction

open Reading

/-- The type of the operand with the given index, counted from 0. -/
def typeOfOperand (line : Line) (tokens : List Token) (op : Text) (params : List Operand)
    (index : Nat) : Reading Text :=
  match params[index]?.bind Operand.ty? with
  | some ty => pure ty
  | none => fail (line.lacks (.operandType op index) tokens)

/-- The type of the result of an operation: the type of the operands, of the
    alternatives of a `select`, or the target type of a conversion between
    numbers and pointers. -/
def resultType (line : Line) (tokens : List Token) (op : Text) (params : List Operand) :
    Reading Text := do
  if op = "select" then
    let ty ← typeOfOperand line tokens op params 1
    let ty' ← typeOfOperand line tokens op params 2
    if ty' = ty then return ty else fail (line.lacks .equalTypes tokens)
  else if op = "inttoptr" ∨ op = "ptrtoint" then typeOfOperand line tokens op params 1
  else typeOfOperand line tokens op params 0

/-- `op [flags] [relation] T a, b`. All operands take the type of the result. -/
def operation (line : Line) : Reading Node := do
  let op ← textAt line line.tokens 0
  let tokens := dropWordsAt Vocabulary.overflowFlags 1 line.tokens
  let (variant, tokens) ←
    if Vocabulary.comparisons.contains op then do
      let relation ← textAt line tokens 1
      pure (some relation, tokens.eraseIdx 1)
    else pure (none, tokens)
  let params ← operands line ((segments (tokens.drop 1)).filter (!·.isEmpty))
  let ty ← resultType line tokens op params
  note ty
  return ⟨line.number, none, false, .operation op variant ty (params.map (·.withType ty))⟩

/-- `bitcast T value to U` -/
def bitcast (line : Line) : Reading Node := do
  let fromType ← textAt line line.tokens 1
  let value ← textAt line line.tokens 2
  let ty ← textAt line line.tokens 4
  note fromType
  note ty
  return ⟨line.number, some value, false, .bitcast ty fromType value⟩

end LlvmAsm.Instruction
