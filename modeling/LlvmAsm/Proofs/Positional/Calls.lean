/-
  Calls by position.

  The readers of calls and their callees, with the registry at hand and with every slice,
  element and removal by its position. The callee stays in third place: before it are the word of the call and the type
  (`callTarget_eq`). The readers come to those of the same name (`call_eq`, `invoke_eq`).
-/
import LlvmAsm.Instruction.Calls
import LlvmAsm.Proofs.Positional.Instruction

namespace LlvmAsm.Positional

open Reading Instruction

/-- The tokens without the word `tail` at their beginning. -/
def removeTail? (tokens : List Token) : Option (List Token) :=
  if tokens.head?.any (·.is "tail") then remove? tokens 0 else some tokens

/-- The types before the callee, joined by blanks, and the tokens without them. The callee is
    in third place then. -/
def callTarget (line : Line) (functionType : Text) (tokens : List Token) :
    PositionalReading (Text × List Token) := do
  let target ← tokenAt line tokens 2
  if isSymbol target || target.isExpression then pure (functionType, tokens)
  else if target.is "asm" || target.is "sideeffect" then
    liftM (fail ⟨line.number, .unsupported .inlineAssembly⟩ : Reading (Text × List Token))
  else
    let isType ← isType? target.text
    if target.isGroup || !isType then
      liftM (fail ⟨line.number, .unsupported (.callTarget target.text)⟩ :
        Reading (Text × List Token))
    else
      let functionType :=
        if functionType = [] then target.text else functionType ++ ' ' :: target.text
      match _h : remove? tokens 2 with
      | none => failure
      | some rest => callTarget line functionType rest
termination_by tokens.length
decreasing_by exact length_of_remove? _h

/-- The arguments in third place. -/
def callArguments (line : Line) (name : Text) (tokens : List Token) :
    PositionalReading (Text × List Operand) :=
  match tokens[2]?.bind (Token.innerOf? .paren) with
  | some args => Prod.mk name <$> parameters line args
  | none => liftM (fail (line.lacks .callArguments tokens) : Reading (Text × List Operand))

/-- The name of the callee in third place, and the arguments behind it. -/
def callee (line : Line) (tokens : List Token) : PositionalReading (Text × List Operand) := do
  let target ← tokens[2]?
  let tokens ← remove? tokens 2
  if target.isExpression then
    match (tokens.drop 2).findIdx? (fun t => t.encloser? = some .paren) with
    | none =>
      liftM (fail (line.lacks .calledOperands tokens) : Reading (Text × List Operand))
    | some close =>
      let operands ← slice? tokens 2 (close + 2 + 1)
      let tokens ← drain? tokens 2 (close + 2 + 1)
      let e ← expression line (.word TypeText.unknown :: target :: operands)
      callArguments line (e.ident.getD []) tokens
  else if target.text.endsWith "()" then
    return (Text.trimEnd (target.text.take (target.text.length - 2)), [])
  else callArguments line target.text tokens

/-- `[tail] call [attributes] [convention] T [types] callee(arguments)`, where the word may
    also be `invoke`. -/
def callSite (line : Line) (tokens : List Token) : PositionalReading Call := do
  let tokens ← removeTail? tokens
  if !(tokens.head?.any fun t => t.is "call" || t.is "invoke") then
    liftM (fail (line.lacks .callWord tokens) : Reading Call)
  else
    let tokens ← removeWhile? (Token.isOneOf Vocabulary.parameterAttributes) 1 tokens
    let tokens ← removeWhile? (Token.isOneOf Vocabulary.callingConventions) 1 tokens
    let tokens ← removeWhile? (Token.isOneOf Vocabulary.parameterAttributes) 1 tokens
    let ty ← textAt line tokens 1
    let (functionType, tokens) ← callTarget line [] tokens
    let (name, params) ← callee line tokens
    enter ty
    return ⟨name, ty, functionType, params, line.indent ≠ .continuation⟩

/-- A call. -/
def call (line : Line) : PositionalReading Node := do
  let site ← callSite line line.tokens
  return ⟨line.number, some site.callee, false, .call site⟩

/-- `invoke ... callee(arguments) [attributes] to label %normal unwind label %unwind` -/
def invoke (line : Line) : PositionalReading Node := do
  let tokens := line.tokens
  match findWord? "to" tokens, findWord? "unwind" tokens with
  | some normal, some unwind =>
    let toLabel ← textAt line tokens (normal + 2)
    let unwindLabel ← textAt line tokens (unwind + 2)
    let head ← slice? tokens 0 (min normal unwind)
    let site ← callSite line (head.filter (!·.isOneOf Vocabulary.functionAttributes))
    return ⟨line.number, some site.callee, false, .invoke site toLabel unwindLabel⟩
  | _, _ => liftM (fail (line.lacks .invokeDestinations tokens) : Reading Node)

section
variable (line : Line)

theorem removeTail?_eq (tokens : List Token) :
    removeTail? tokens =
      some (if tokens.head?.any (·.is "tail") then tokens.tail else tokens) := by
  unfold removeTail?
  cases tokens with
  | nil => rfl
  | cons t tokens =>
    split
    · exact remove?_eq (by simp)
    · rfl

/-- Types are removed behind the first two tokens, which stay as they are. -/
theorem callTarget_eq (first second : Token) (functionType : Text) (rest : List Token) :
    callTarget line functionType (first :: second :: rest) =
      liftM ((fun (functionType, target, rest) => (functionType, first :: second :: target :: rest))
        <$> Instruction.callTarget line [first, second] functionType rest) := by
  induction rest generalizing functionType with
  | nil =>
    rw [callTarget, Instruction.callTarget]
    rfl
  | cons target rest ih =>
    have htarget : tokenAt line (first :: second :: target :: rest) 2 = pure target := rfl
    rw [callTarget, Instruction.callTarget, htarget, liftM_pure, pure_bind, isType?_eq, liftM_some,
      pure_bind]
    split
    · rw [map_pure, liftM_pure]
    split
    · rfl
    split
    · rfl
    · exact ih _

/-- The name of what is called and its arguments, as a call has them. -/
def argumentsOf (before : List Token) : Callee → Reading (Text × List Operand)
  | .applied name => pure (name, [])
  | .named name rest =>
    match rest.head?.bind (Token.innerOf? .paren) with
    | some args => Prod.mk name <$> LlvmAsm.parameters line args
    | none => fail (line.lacks .callArguments (before ++ rest))

theorem callArguments_eq (first second : Token) (name : Text) (rest : List Token) :
    callArguments line name (first :: second :: rest) =
      liftM (argumentsOf line [first, second] (.named name rest)) := by
  rw [callArguments, argumentsOf, List.getElem?_cons_succ, List.getElem?_cons_succ,
    ← List.head?_eq_getElem?]
  cases rest.head?.bind (Token.innerOf? .paren) with
  | none => rfl
  | some args => simp only [parameters_eq, liftM_map]

theorem callee_eq (first second target : Token) (rest : List Token) :
    callee line (first :: second :: target :: rest) =
      liftM (Instruction.callee line [first, second] target rest >>=
        argumentsOf line [first, second]) := by
  have hremove : remove? (first :: second :: target :: rest) 2 = some (first :: second :: rest) :=
    remove?_eq (by simp)
  rw [callee, Instruction.callee, hremove]
  simp only [List.getElem?_cons_succ, List.getElem?_cons_zero, liftM_some, pure_bind,
    List.drop_succ_cons, List.drop_zero]
  split
  · cases hclose : rest.findIdx? (fun t => t.encloser? = some .paren) with
    | none => rfl
    | some close =>
      have hlt : close < rest.length := (List.findIdx?_eq_some_iff_findIdx_eq.1 hclose).1
      have hlength : close + 2 + 1 ≤ (first :: second :: rest).length := by
        simp only [List.length_cons]
        omega
      have hslice : slice? (first :: second :: rest) 2 (close + 2 + 1) =
          some (rest.take (close + 1)) := slice?_eq (by omega) hlength
      have hdrain : drain? (first :: second :: rest) 2 (close + 2 + 1) =
          some (first :: second :: rest.drop (close + 1)) := if_pos ⟨by omega, hlength⟩
      simp only [hslice, hdrain, liftM_some, pure_bind, liftM_bind, bind_assoc, expression_eq,
        callArguments_eq]
  split
  · rfl
  · rw [callArguments_eq, pure_bind]

theorem callSite_eq (tokens : List Token) :
    callSite line tokens = liftM (Instruction.callSite line tokens) := by
  rw [callSite, Instruction.callSite, removeTail?_eq, liftM_some, pure_bind]
  dsimp only
  generalize (if tokens.head?.any (·.is "tail") then tokens.tail else tokens) = tokens
  split
  · rfl
  simp only [removeWords?_eq, liftM_some, pure_bind]
  generalize dropWordsAt Vocabulary.parameterAttributes 1 (dropWordsAt _ 1 _) = tokens
  rw [liftM_bind]
  refine textAt_bind_congr fun hlength ty => ?_
  match tokens, hlength with
  | first :: second :: rest, _ =>
    rw [callTarget_eq, liftM_bind, liftM_map, bind_map_left]
    refine bind_congr fun (functionType, target, rest) => ?_
    dsimp only
    rw [callee_eq, liftM_bind, liftM_bind, bind_assoc]
    refine bind_congr fun callee => ?_
    cases callee with
    | applied name => rfl
    | named name rest =>
      rw [argumentsOf]
      dsimp only
      cases rest.head?.bind (Token.innerOf? .paren) with
      | none => rfl
      | some args => simp only [liftM_bind, liftM_pure, liftM_map, liftM_note]

theorem call_eq : call line = liftM (Instruction.call line) := by
  rw [call, Instruction.call, callSite_eq, liftM_bind]
  simp only [liftM_pure]

theorem invoke_eq : invoke line = liftM (Instruction.invoke line) := by
  rw [invoke, Instruction.invoke]
  dsimp only
  cases hnormal : findWord? "to" line.tokens with
  | none => rfl
  | some normal =>
    have hlt : normal < line.tokens.length := (List.findIdx?_eq_some_iff_findIdx_eq.1 hnormal).1
    cases findWord? "unwind" line.tokens with
    | none => rfl
    | some unwind =>
      have hhead : slice? line.tokens 0 (min normal unwind) =
          some (line.tokens.take (min normal unwind)) := by
        rw [slice?_eq (Nat.zero_le _) (by omega), List.drop_zero]
      simp only [hhead, liftM_some, pure_bind, liftM_bind, liftM_pure, callSite_eq]

end

end LlvmAsm.Positional
