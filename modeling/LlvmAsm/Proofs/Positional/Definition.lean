/-
  Definitions by position.

  The readers of the lines at the top level, with the registry at hand and with every slice,
  element and removal by its position. They come to the readers of the same name (`symbol_eq`, `functionHeader_eq`,
  `declaration_eq`).
-/
import LlvmAsm.Definition.Function
import LlvmAsm.Definition.Symbol
import LlvmAsm.Proofs.Positional.Constant
import LlvmAsm.Proofs.Positional.Instruction

namespace LlvmAsm.Positional

open Reading Definition

/-! ## Functions -/

/-- The name and the signature spelled by `T @name(parameters)`. -/
def signature (line : Line) (tokens : List Token) : PositionalReading (Text × Signature) := do
  let returnType ← textAt line tokens 0
  let ident ← textAt line tokens 1
  match tokens[2]?.bind (Token.innerOf? .paren) with
  | some inner =>
    let (params, hasVarArgs) := splitVarArgs (← parameters line inner)
    enter returnType
    return (ident, ⟨returnType, params, hasVarArgs⟩)
  | none => liftM (fail (line.lacks .parameterList tokens) : Reading (Text × Signature))

/-- The name and the signature of `define [decorations] T @name(parameters)
    [decorations] {`. -/
def header (line : Line) : PositionalReading (Text × Signature) :=
  signature line
    (line.tokens.filter fun t => !(isDecoration t || t.isWord "define" || t.isWord ['{']))

/-- The first line of a function. -/
def functionHeader (line : Line) : PositionalReading Node := do
  let (ident, signature) ← header line
  return ⟨line.number, some ident, false, .function signature⟩

/-- `declare [decorations] T @name(parameters) [decorations]` -/
def declaration (line : Line) : PositionalReading Node := do
  let (ident, signature) ← signature line ((line.tokens.drop 1).filter (!isDecoration ·))
  return ⟨line.number, some ident, false, .declaration signature⟩

/-! ## Aliases and types -/

/-- `@name = alias [linkage] [visibility] T aliasee` -/
def aliasDefinition (line : Line) : PositionalReading Kind := do
  let tokens ← removeWhile? (Token.isOneOf Vocabulary.linkages) 3 line.tokens
  let tokens ← removeWhile? (Token.isOneOf Vocabulary.visibilities) 3 tokens
  let ty ← textAt line tokens 3
  let aliasee ← textAt line tokens 4
  enter ty
  return .aliasOf ty aliasee

/-- `%name = type T` -/
def typeDefinition (line : Line) : PositionalReading Kind := do
  let name ← line.tokens[0]?
  enter name.text
  let body ← tokenAt line line.tokens 3
  let (fields, packed) := typeBody body
  return .typeDefinition fields packed

/-! ## Variables -/

/-- The functions named by entries `{ i32 priority, void ()* @function }`. -/
def constructors? (entries : List Token) : Option (List Text) := do
  let parts ← cut? entries
  return parts.filterMap fun entry =>
    (entry[1]?.bind Token.inner?).bind fun inner => inner.getLast?.map Token.text

/-- The tokens of a variable without the modifiers before its type, and whether it is
    external. -/
def removeModifiers? (tokens : List Token) : Option (List Token × Bool) := do
  let remove := removeWhile? (Token.isOneOf Vocabulary.globalModifiers)
  let tokens ← remove 3 tokens
  let tokens ← remove 2 tokens
  if tokens[2]?.any (·.isWord "external") then
    let tokens ← remove? tokens 2
    return (← remove 2 tokens, true)
  else return (tokens, false)

/-- The tokens of a variable without the mark of a text of characters before its value. -/
def removeMark? (tokens : List Token) : Option (List Token) :=
  if tokens[3]?.any (·.isWord "c") then remove? tokens 3 else some tokens

/-- The initial value of a variable of type `ty`, which follows the type in `tokens`. -/
def variableValue (line : Line) (ty : Text) (tokens : List Token) :
    PositionalReading Constant := do
  let tokens ← removeMark? tokens
  let value ← tokenAt line tokens 3
  if value.isExpression then
    let parts ← cutBehind? tokens 2
    Constant.expr <$> expression line (parts.headD [])
  else initialValue line ty value

/-- `@name = [modifiers] T value`; an external variable has no value. -/
def globalVariable (line : Line) (ident : Text) : PositionalReading Kind := do
  let (tokens, isExternal) ← removeModifiers? line.tokens
  let ty ← textAt line tokens 2
  enter ty
  if ident = constructorsName then
    let entries ← constructors? ((tokens[3]?.bind Token.inner?).getD [])
    return .globalVariable ty isExternal none (some entries)
  else if tokens[3]?.any fun t => !(t.isSeparator || t.isComment) then
    let value ← variableValue line ty tokens
    return .globalVariable ty isExternal (some value) none
  else if isExternal then return .globalVariable ty isExternal none none
  else liftM (fail (line.lacks .initializer tokens) : Reading Kind)

/-- A definition at the top level. -/
def symbol (line : Line) : PositionalReading Node := do
  let ident ← textAt line line.tokens 0
  let word ← tokenAt line line.tokens 2
  let kind ←
    if word.is "alias" then aliasDefinition line
    else if word.is "type" then typeDefinition line
    else globalVariable line ident
  return ⟨line.number, some ident, false, kind⟩

section
variable (line : Line)

theorem signature_eq (tokens : List Token) :
    signature line tokens = liftM (Definition.signature line tokens) := by
  rw [signature, Definition.signature]
  cases hparams : tokens[2]?.bind (Token.innerOf? .paren) with
  | none => simp only [liftM_bind]
  | some inner => simp only [liftM_bind, liftM_pure, liftM_note, parameters_eq]

theorem header_eq : header line = liftM (Definition.header line) := signature_eq line _

theorem functionHeader_eq : functionHeader line = liftM (Definition.functionHeader line) := by
  rw [functionHeader, Definition.functionHeader]
  simp only [liftM_bind, liftM_pure, header_eq]

theorem declaration_eq : declaration line = liftM (Definition.declaration line) := by
  rw [declaration, Definition.declaration]
  simp only [liftM_bind, liftM_pure, signature_eq]

theorem aliasDefinition_eq :
    aliasDefinition line = liftM (Definition.aliasDefinition line) := by
  rw [aliasDefinition, Definition.aliasDefinition]
  simp only [removeWords?_eq, liftM_some, pure_bind, liftM_bind, liftM_pure, liftM_note]

theorem typeDefinition_eq {name : Token} (h : line.tokens[0]? = some name) :
    typeDefinition line = liftM (Definition.typeDefinition line name.text) := by
  rw [typeDefinition, Definition.typeDefinition, h]
  simp only [liftM_some, pure_bind, liftM_bind, liftM_pure, liftM_note]

theorem constructors?_eq (entries : List Token) :
    constructors? entries = some (constructors entries) := by
  rw [constructors?, cut?_eq]
  rfl

theorem removeModifiers?_eq (tokens : List Token) :
    removeModifiers? tokens = some (dropModifiers tokens) := by
  rw [removeModifiers?, dropModifiers]
  simp only [removeWords?_eq, Option.bind_eq_bind, Option.bind_some]
  split
  · rename_i hexternal
    rw [remove?_eq (lt_length_of_any hexternal), Option.bind_some]
    rfl
  · rfl

theorem removeMark?_eq (tokens : List Token) :
    removeMark? tokens =
      some (if tokens[3]?.any (·.isWord "c") then tokens.eraseIdx 3 else tokens) := by
  unfold removeMark?
  split
  · rename_i hmark
    exact remove?_eq (lt_length_of_any hmark)
  · rfl

theorem variableValue_eq (ty : Text) (tokens : List Token) :
    variableValue line ty tokens = liftM (Definition.variableValue line ty tokens) := by
  rw [variableValue, Definition.variableValue, removeMark?_eq, liftM_some, pure_bind]
  generalize (if tokens[3]?.any (·.isWord "c") then tokens.eraseIdx 3 else tokens) = tokens
  rw [liftM_bind]
  refine tokenAt_bind_congr fun value hvalue => ?_
  have hlength : 3 < tokens.length := (List.getElem?_eq_some_iff.1 hvalue).1
  split
  · rw [cutBehind?_eq (by omega), liftM_some, pure_bind, expressionOf_eq, liftM_map]
  · exact initialValue_eq ty value

theorem globalVariable_eq (ident : Text) :
    globalVariable line ident = liftM (Definition.globalVariable line ident) := by
  rw [globalVariable, Definition.globalVariable, removeModifiers?_eq, liftM_some, pure_bind]
  generalize dropModifiers line.tokens = parts
  obtain ⟨tokens, isExternal⟩ := parts
  dsimp only
  rw [constructors?_eq]
  simp only [liftM_bind, liftM_some, pure_bind, liftM_note, variableValue_eq]
  refine bind_congr fun ty => bind_congr fun _ => ?_
  split
  · rfl
  split
  · simp only [liftM_bind, liftM_pure]
  split <;> rfl

theorem symbol_eq : symbol line = liftM (Definition.symbol line) := by
  rw [symbol, Definition.symbol, liftM_bind, textAt, liftM_map, bind_map_left, bind_map_left]
  refine tokenAt_bind_congr fun name hname => ?_
  rw [liftM_bind]
  refine bind_congr fun word => ?_
  dsimp only
  split
  · rw [aliasDefinition_eq, liftM_bind]
    simp only [liftM_pure]
  split
  · rw [typeDefinition_eq line hname, liftM_bind]
    simp only [liftM_pure]
  · rw [globalVariable_eq, liftM_bind]
    simp only [liftM_pure]

end

end LlvmAsm.Positional
