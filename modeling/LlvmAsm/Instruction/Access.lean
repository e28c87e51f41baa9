/-
  Reading the instructions on memory and aggregates: `store`, `load`, `alloca`,
  `getelementptr` and `extractvalue`.
-/
import LlvmAsm.Node
import LlvmAsm.Operand.Reader

namespace LlvmAsm.Instruction

open Reading

/-- `store [volatile] T value, T* pointer[, align N]` -/
def store (line : Line) : Reading Node := do
  let tokens := dropWord "volatile" 2 line.tokens
  let valueType ← textAt line tokens 1
  match segments (tokens.drop 1) with
  | first :: second :: _ =>
    let pointerType ← textAt line second 0
    let value ← operand line first
    let pointer ← operand line second
    note valueType
    note pointerType
    return ⟨line.number, pointer.ident?, false, .store valueType value pointerType pointer⟩
  | _ => fail (line.lacks .storeOperands tokens)

/-- `load [volatile] T* pointer[, align N]` -/
def load (line : Line) : Reading Node := do
  let tokens := dropWord "volatile" 2 line.tokens
  let pointerType ← textAt line tokens 1
  let valueType := TypeText.pointee pointerType
  match segments (tokens.drop 1) with
  | first :: _ =>
    let pointer ← operand line first
    note valueType
    note pointerType
    return ⟨line.number, pointer.ident?, false, .load valueType pointerType pointer⟩
  | [] => fail (line.lacks .loadPointer tokens)

/-- The number of elements that an `alloca` with the given tokens asks for: the
    fifth token if a type of numbers stands before it, and else one. -/
def allocatedNum (tokens : List Token) : Text :=
  match tokens[3]?, tokens[4]? with
  | some ty, some count => if TypeText.isNumber ty.text then count.text else "1"
  | _, _ => "1"

/-- `alloca T[, iN count][, align N]` -/
def alloca (line : Line) : Reading Node := do
  let ty ← textAt line line.tokens 1
  note ty
  return ⟨line.number, none, false,
    .alloca (TypeText.pointerTo ty) ty (allocatedNum line.tokens)⟩

/-- `getelementptr [inbounds] T* base, indexes...`. The operands begin with the
    first type and are those of the expression of the same name; what type they
    lead to is not known yet. -/
def elementPointer (line : Line) : Reading Node := do
  match (beforeComment line.tokens).dropWhile (!TypeText.isType ·.text) with
  | base :: indexes =>
    let operands := Token.group [] .paren (base :: indexes)
    let e ← expression line base [.word "getelementptr", operands]
    return ⟨line.number, e.ident, false, .elementPointer "*" e.params⟩
  | [] => fail (line.lacks .addressBase line.tokens)

/-- `extractvalue T aggregate, index...` -/
def extractValue (line : Line) : Reading Node := do
  let ty ← textAt line line.tokens 1
  let aggregate ← textAt line line.tokens 2
  let indexes := ((beforeComment line.tokens).drop 4).filter (!·.isSeparator)
  note ty
  return ⟨line.number, none, false, .extractValue ty aggregate (indexes.map Token.text)⟩

end LlvmAsm.Instruction
