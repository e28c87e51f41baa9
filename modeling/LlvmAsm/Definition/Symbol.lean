/-
  Reading the definitions `name = ...` at the top level: aliases, types and
  global variables.
-/
import LlvmAsm.Constant
import LlvmAsm.Node

namespace LlvmAsm.Definition

open Reading

/-! ## Aliases and types -/

/-- `@name = alias [linkage] [visibility] T aliasee` -/
def aliasDefinition (line : Line) : Reading Kind := do
  let tokens := dropWordsAt Vocabulary.visibilities 3 (dropWordsAt Vocabulary.linkages 3 line.tokens)
  let ty ← textAt line tokens 3
  let aliasee ← textAt line tokens 4
  note ty
  return .aliasOf ty aliasee

/-- The types between the commas of a structure. -/
def fieldTypes (inner : List Token) : List Text := (splitCommas inner).map render

/-- The fields of a type that is given a name, and whether they are packed. A
    type that is no structure is its own only field. -/
def typeBody (body : Token) : List Text × Bool :=
  if TypeText.isNumber body.text then ([body.text], false)
  else match body with
    | .word w => if w = "opaque" then ([], false) else ([w], false)
    | .group text .angle inner =>
      match inner.head?.bind (Token.innerOf? .brace) with
      | some fields => (fieldTypes fields, true)
      | none => ([text], false)
    | .group _ .brace inner => (fieldTypes inner, false)
    | .group text _ _ => ([text], false)

/-- `%name = type T` -/
def typeDefinition (line : Line) (ident : Text) : Reading Kind := do
  note ident
  let body ← tokenAt line line.tokens 3
  let (fields, packed) := typeBody body
  return .typeDefinition fields packed

/-! ## Variables -/

/-- The variable whose elements are the constructors that run before the
    program. -/
def constructorsName : Text := "@llvm.global_ctors"

/-- The functions named by entries `{ i32 priority, void ()* @function }`. -/
def constructors (entries : List Token) : List Text :=
  (segments entries).filterMap fun entry =>
    (entry[1]?.bind Token.inner?).bind fun inner => inner.getLast?.map Token.text

/-- The tokens of a variable without the modifiers before its type, and whether
    it is external. -/
def dropModifiers (tokens : List Token) : List Token × Bool :=
  let drop (position : Nat) := dropWordsAt Vocabulary.globalModifiers position
  let tokens := drop 2 (drop 3 tokens)
  if tokens[2]?.any (·.isWord "external") then (drop 2 (tokens.eraseIdx 2), true)
  else (tokens, false)

/-- The initial value of a variable of type `ty`, which follows the type in
    `tokens`. The `c` before a text of characters is no part of it. -/
def variableValue (line : Line) (ty : Text) (tokens : List Token) : Reading Constant := do
  let tokens := if tokens[3]?.any (·.isWord "c") then tokens.eraseIdx 3 else tokens
  let value ← tokenAt line tokens 3
  if value.isExpression then
    Constant.expr <$> expressionOf line ((segments (tokens.drop 2)).headD [])
  else initialValue line ty value

/-- `@name = [modifiers] T value`; an external variable has no value. -/
def globalVariable (line : Line) (ident : Text) : Reading Kind := do
  let (tokens, isExternal) := dropModifiers line.tokens
  let ty ← textAt line tokens 2
  note ty
  if ident = constructorsName then
    let entries := (tokens[3]?.bind Token.inner?).getD []
    return .globalVariable ty isExternal none (some (constructors entries))
  else if tokens[3]?.any fun t => !(t.isSeparator || t.isComment) then
    let value ← variableValue line ty tokens
    return .globalVariable ty isExternal (some value) none
  else if isExternal then return .globalVariable ty isExternal none none
  else fail (line.lacks .initializer tokens)

/-- A definition at the top level. -/
def symbol (line : Line) : Reading Node := do
  let ident ← textAt line line.tokens 0
  let word ← tokenAt line line.tokens 2
  let kind ←
    if word.is "alias" then aliasDefinition line
    else if word.is "type" then typeDefinition line ident
    else globalVariable line ident
  return ⟨line.number, some ident, false, kind⟩

end LlvmAsm.Definition
