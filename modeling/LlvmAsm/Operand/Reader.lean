/-
  Reading operands.

  * `operand` reads the segment of an instruction, `expressionOf` an operation
    with operands in parentheses, and `parameters` the list between the
    parentheses of a call, a signature or an expression;
  * `blockAddress` reads the two names of the address of a label.

  All of them note the types that they meet.
-/
import LlvmAsm.Literal
import LlvmAsm.Operand
import LlvmAsm.Reading
import LlvmAsm.Segment

namespace LlvmAsm

open Reading

/-- The function and the label of `blockaddress(@function, %label)`. -/
def blockAddress (line : Line) (segment : List Token) : Reading (Text × Text) :=
  match segment.findSome? (Token.innerOf? .paren) with
  | none => fail (line.lacks .blockAddressOperands segment)
  | some inner =>
    match inner[0]?, inner[2]? with
    | some func, some label => pure (func.text, label.text)
    | _, _ => fail (line.lacks .functionAndLabel segment)

/-- The type of an expression: the one written before it, and else the one that
    its operation and its operands tell. -/
def expressionType (written op : Text) (args : List Token) : Text :=
  if written = TypeText.unknown then
    if op = "getelementptr" then "*"
    else if op = "bitcast" ∨ op = "inttoptr" ∨ op = "ptrtoint" then
      (args.getLast?.map Token.text).getD written
    else written
  else written

/-- A parameter made of a type and at least one more token, none of them an
    expression: the last token is its name, and the others spell its type. What
    follows the word `to` in third place is left out. -/
def namedParameter (segment : List Token) (byVal : Bool) : Reading Operand := do
  let segment := if (segment[2]?.any (·.is "to")) then segment.take 2 else segment
  let ty := render segment.dropLast
  let ident := (segment.getLast?.map Token.text).getD []
  note (TypeText.bare ty)
  return .scalar ty (Literal.normal ident) byVal

mutual

/-- The operand that a segment spells. -/
def operand (line : Line) (segment : List Token) : Reading Operand :=
  match segment with
  | [] => fail ⟨line.number, .emptyOperand⟩
  | [t] =>
    if TypeText.isType t.text then do
      note t.text
      return .scalar t.text t.text false
    else pure (.scalar TypeText.unknown (Literal.normal t.text) false)
  | ty :: value :: rest =>
    match _h : value.innerOf? .brace with
    | some inner => do
      note ty.text
      return .struct ty.text (← operands line (segments inner))
    | none =>
      if ty.isExpression then do
        return .expr (← expression line (.word TypeText.unknown) (ty :: value :: rest))
      else if value.isExpression then do
        return .expr (← expression line ty (value :: rest))
      else do
        note ty.text
        return .scalar ty.text (Literal.normal value.text) false
termination_by 6 * Token.weights segment + 5
decreasing_by
  all_goals simp only [Token.weights_cons]
  · have := Token.weights_inner_lt _h
    have := Token.segmentWeights_segments inner
    have := Token.weight_pos ty
    omega

/-- The operands that the segments of a list spell. -/
def operands (line : Line) (parts : List (List Token)) : Reading (List Operand) :=
  match parts with
  | [] => pure []
  | part :: parts => do
    let o ← operand line part
    let os ← operands line parts
    return o :: os
termination_by 6 * Token.segmentWeights parts
decreasing_by all_goals simp only [Token.segmentWeights_cons]; omega

/-- The expression that follows the token of a type: an operation, words, and
    operands in parentheses. The first word is the variant. -/
def expression (line : Line) (ty : Token) (tokens : List Token) : Reading (Expression Operand) :=
  match _h : (dropAttributes tokens).1 with
  | op :: next :: rest =>
    if op.isExpression then
      match _hrest : (next :: rest).dropWhile (!·.isGroup) with
      | .group _ _ args :: _ => do
        let ty := expressionType ty.text op.text args
        let params ← parameters line args
        note ty
        return {
          op := op.text
          variant := if next.isGroup then none else some next.text
          ty := ty
          params := params
          ident := params.head?.bind Operand.ident? }
      | _ => fail (line.lacks .expressionOperands [ty, op])
    else fail (line.lacks .expression (ty :: op :: next :: rest))
  | short => fail (line.lacks .expression (ty :: short))
termination_by 6 * Token.weights tokens + 4
decreasing_by
  have := Token.weights_dropAttributes_le tokens
  have := Token.weights_dropWhile_le (!·.isGroup) (next :: rest)
  have := Token.weight_pos op
  rw [_h] at *
  rw [_hrest] at *
  simp only [Token.weights_cons, Token.weight] at *
  omega

/-- The operands of a list between parentheses. -/
def parameters (line : Line) (tokens : List Token) : Reading (List Operand) :=
  parametersFrom line 0 (splitCommas tokens)
termination_by 6 * Token.weights tokens + 7
decreasing_by
  have := Token.segmentWeights_splitCommas tokens
  omega

/-- The operands of the parts of a list, of which `unnamed` parameters were
    numbered before. An empty part is left out. -/
def parametersFrom (line : Line) (unnamed : Nat) (parts : List (List Token)) :
    Reading (List Operand) :=
  match parts with
  | [] => pure []
  | [] :: parts => parametersFrom line unnamed parts
  | (ty :: rest) :: parts =>
    match _h : dropAttributes rest with
    | ([], byVal) =>
      if ty.is "..." then do
        return .varargs :: (← parametersFrom line unnamed parts)
      else do
        note ty.text
        return .scalar ty.text ('%' :: Text.ofNat unnamed) byVal
          :: (← parametersFrom line (unnamed + 1) parts)
    | (value :: more, byVal) => do
      let o ←
        if value.isExpression then Operand.expr <$> expression line ty (value :: more)
        else if value.is "blockaddress" then
          (fun (func, label) => Operand.blockAddress func label)
            <$> blockAddress line (ty :: value :: more)
        else namedParameter (ty :: value :: more) byVal
      return o :: (← parametersFrom line unnamed parts)
termination_by 6 * Token.segmentWeights parts
decreasing_by
  all_goals simp only [Token.segmentWeights_cons, Token.weights_cons, Token.weights_nil]
  · omega
  · omega
  · omega
  · omega
  · have := Token.weights_dropAttributes_le rest
    rw [_h] at this
    simp only [Token.weights_cons] at *
    omega

end

/-- The expression that a segment spells: the token of its type comes first. -/
def expressionOf (line : Line) (segment : List Token) : Reading (Expression Operand) :=
  match segment with
  | ty :: rest => expression line ty rest
  | [] => fail (line.lacks .expression [])

end LlvmAsm
