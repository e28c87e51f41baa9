/-
  Reading the lines around the bodies of functions: headers, declarations,
  labels and the closing brace.
-/
import LlvmAsm.Node
import LlvmAsm.Operand.Reader

namespace LlvmAsm.Definition

open Reading

/-- A word with no bearing on the signature of a function. -/
def isDecoration (t : Token) : Bool := t.isOneOf Vocabulary.decorations

/-- The parameters without the mark of further arguments at their end, and
    whether it is there. -/
def splitVarArgs (params : List Operand) : List Operand × Bool :=
  if params.getLast? = some .varargs then (params.dropLast, true) else (params, false)

/-- The name and the signature spelled by `T @name(parameters)`. -/
def signature (line : Line) (tokens : List Token) : Reading (Text × Signature) := do
  let returnType ← textAt line tokens 0
  let ident ← textAt line tokens 1
  match tokens[2]?.bind (Token.innerOf? .paren) with
  | some inner =>
    let (params, hasVarArgs) := splitVarArgs (← parameters line inner)
    note returnType
    return (ident, ⟨returnType, params, hasVarArgs⟩)
  | none => fail (line.lacks .parameterList tokens)

/-- The name and the signature of `define [decorations] T @name(parameters)
    [decorations] {`. -/
def header (line : Line) : Reading (Text × Signature) :=
  signature line
    (line.tokens.filter fun t => !(isDecoration t || t.isWord "define" || t.isWord ['{']))

/-- The first line of a function. -/
def functionHeader (line : Line) : Reading Node := do
  let (ident, signature) ← header line
  return ⟨line.number, some ident, false, .function signature⟩

/-- The last line of a function. -/
def functionEnd (line : Line) : Node := ⟨line.number, none, false, .functionEnd⟩

/-- `declare [decorations] T @name(parameters) [decorations]` -/
def declaration (line : Line) : Reading Node := do
  let (ident, signature) ← signature line ((line.tokens.drop 1).filter (!isDecoration ·))
  return ⟨line.number, some ident, false, .declaration signature⟩

/-- The name of a block, from `name:` or from the mark `; <label>:N` of a block
    without a name. -/
def labelName (line : Line) : Reading Text := do
  let first ← tokenAt line line.tokens 0
  if !first.isGroup && first.text.endsWith ":" then return first.text.dropLast
  else
    let mark ← textAt line line.tokens 2
    return mark.dropWhile (· = ':')

/-- The label at the beginning of a block. -/
def label (line : Line) : Reading Node := do
  let name ← labelName line
  return ⟨line.number, some ('%' :: name), false, .label⟩

end LlvmAsm.Definition
