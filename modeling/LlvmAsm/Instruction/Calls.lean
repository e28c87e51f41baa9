/-
  Reading calls: `call`, and `invoke` with its two destinations.
-/
import LlvmAsm.Node
import LlvmAsm.Operand.Reader

namespace LlvmAsm.Instruction

open Reading

/-- The token names a function or a variable. -/
def isSymbol : Token → Bool
  | .word t => t.startsWith "@" || t.startsWith "%"
  | .group .. => false

/-- What is called, and the tokens from its arguments on. -/
inductive Callee where
  /-- the arguments follow -/
  | named (name : Text) (rest : List Token)
  /-- a pointer that has taken up its empty list of arguments -/
  | applied (name : Text)

/-- The callee that begins with the token `target`, after the tokens `before`:
    a name, or an expression and its operands, whose first name is called. -/
def callee (line : Line) (before : List Token) (target : Token) (rest : List Token) :
    Reading Callee := do
  if target.isExpression then
    match rest.findIdx? (fun t => t.encloser? = some .paren) with
    | none => fail (line.lacks .calledOperands (before ++ rest))
    | some close =>
      let e ← expression line (.word TypeText.unknown) (target :: rest.take (close + 1))
      return .named (e.ident.getD []) (rest.drop (close + 1))
  else if target.text.endsWith "()" then
    return .applied (Text.trimEnd (target.text.take (target.text.length - 2)))
  else return .named target.text rest

/-- The types before the callee, joined by blanks, the callee's token and the
    tokens behind it. -/
def callTarget (line : Line) (before : List Token) (functionType : Text) :
    List Token → Reading (Text × Token × List Token)
  | [] => fail (line.lacks (.token 2) before)
  | target :: rest =>
    if isSymbol target || target.isExpression then pure (functionType, target, rest)
    else if target.is "asm" || target.is "sideeffect" then
      fail ⟨line.number, .unsupported .inlineAssembly⟩
    else if target.isGroup || !TypeText.isType target.text then
      fail ⟨line.number, .unsupported (.callTarget target.text)⟩
    else
      let functionType :=
        if functionType = [] then target.text else functionType ++ ' ' :: target.text
      callTarget line before functionType rest

/-- `[tail] call [attributes] [convention] T [types] callee(arguments)`, where
    the word may also be `invoke`. -/
def callSite (line : Line) (tokens : List Token) : Reading Call := do
  let tokens := if tokens.head?.any (·.is "tail") then tokens.tail else tokens
  if !(tokens.head?.any fun t => t.is "call" || t.is "invoke") then
    fail (line.lacks .callWord tokens)
  else
    let tokens := dropWordsAt Vocabulary.parameterAttributes 1 tokens
    let tokens := dropWordsAt Vocabulary.callingConventions 1 tokens
    let tokens := dropWordsAt Vocabulary.parameterAttributes 1 tokens
    let ty ← textAt line tokens 1
    let before := tokens.take 2
    let (functionType, target, rest) ← callTarget line before [] (tokens.drop 2)
    let (name, params) ←
      match ← callee line before target rest with
      | .applied name => pure (name, [])
      | .named name rest =>
        match rest.head?.bind (Token.innerOf? .paren) with
        | some args => Prod.mk name <$> parameters line args
        | none => fail (line.lacks .callArguments (before ++ rest))
    note ty
    return ⟨name, ty, functionType, params, line.indent ≠ .continuation⟩

/-- A call. -/
def call (line : Line) : Reading Node := do
  let site ← callSite line line.tokens
  return ⟨line.number, some site.callee, false, .call site⟩

/-- `invoke ... callee(arguments) [attributes] to label %normal unwind label %unwind` -/
def invoke (line : Line) : Reading Node := do
  let tokens := line.tokens
  match findWord? "to" tokens, findWord? "unwind" tokens with
  | some normal, some unwind =>
    let toLabel ← textAt line tokens (normal + 2)
    let unwindLabel ← textAt line tokens (unwind + 2)
    let head := (tokens.take (min normal unwind)).filter (!·.isOneOf Vocabulary.functionAttributes)
    let site ← callSite line head
    return ⟨line.number, some site.callee, false, .invoke site toLabel unwindLabel⟩
  | _, _ => fail (line.lacks .invokeDestinations tokens)

end LlvmAsm.Instruction
