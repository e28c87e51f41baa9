/-
  Laws of the readers of operands.

  Expressions and parameters are read by functions that call each other. The
  equations below say what each of them does with tokens of a given shape, so
  that proofs follow the shapes. On two lines, the readers go side by side
  (`agree_operand`, `agree_expression`, `agree_parameters`): the line that is read
  matters to nothing but the number in a failure.
-/
import LlvmAsm.Operand.Reader
import LlvmAsm.Proofs.Renumbering

namespace LlvmAsm

open Reading

variable {line : Line}

/-! ## Equations -/

theorem expression_eq {ty op next : Token} {tokens rest args tail : List Token} {text : Text}
    {e : Encloser} (htokens : (dropAttributes tokens).1 = op :: next :: rest)
    (hop : op.isExpression = true)
    (hargs : (next :: rest).dropWhile (!·.isGroup) = .group text e args :: tail) :
    expression line ty tokens = do
      let params ← parameters line args
      note (expressionType ty.text op.text args)
      return {
        op := op.text
        variant := if next.isGroup then none else some next.text
        ty := expressionType ty.text op.text args
        params := params
        ident := params.head?.bind Operand.ident? } := by
  rw [expression]
  split
  · rename_i heq
    rw [htokens] at heq
    cases heq
    rw [if_pos hop]
    split
    · rename_i heq'
      rw [hargs] at heq'
      cases heq'
      rfl
    · rename_i hno
      exact absurd hargs (hno _ _ _ _)
  · rename_i hshort
    exact absurd htokens (hshort _ _ _)

theorem expression_of_no_operands {ty op next : Token} {tokens rest : List Token}
    (htokens : (dropAttributes tokens).1 = op :: next :: rest) (hop : op.isExpression = true)
    (hargs : ∀ text e args tail,
      (next :: rest).dropWhile (!·.isGroup) ≠ .group text e args :: tail) :
    expression line ty tokens = fail (line.lacks .expressionOperands [ty, op]) := by
  rw [expression]
  split
  · rename_i heq
    rw [htokens] at heq
    cases heq
    rw [if_pos hop]
    split
    · rename_i heq'
      exact absurd heq' (hargs _ _ _ _)
    · rfl
  · rename_i hshort
    exact absurd htokens (hshort _ _ _)

/-- What does not begin with an operation is no expression. -/
theorem expression_of_no_operation {ty op next : Token} {tokens rest : List Token}
    (htokens : (dropAttributes tokens).1 = op :: next :: rest) (hop : ¬op.isExpression = true) :
    expression line ty tokens =
      fail (line.lacks .expression (ty :: (dropAttributes tokens).1)) := by
  rw [expression]
  split
  · rename_i heq
    rw [htokens] at heq
    cases heq
    rw [if_neg hop, htokens]
  · rfl

/-- A type with at most one token behind it is no expression. -/
theorem expression_of_short {ty : Token} {tokens : List Token}
    (hshort : ∀ op next rest, (dropAttributes tokens).1 ≠ op :: next :: rest) :
    expression line ty tokens =
      fail (line.lacks .expression (ty :: (dropAttributes tokens).1)) := by
  rw [expression]
  split
  · rename_i heq
    exact absurd heq (hshort _ _ _)
  · rfl

theorem parameters_nil : parameters line [] = pure [] := by
  rw [parameters, splitCommas, parametersFrom]

/-- A parameter whose type is followed by a value. -/
def parameterOf (line : Line) (ty value : Token) (more : List Token) (byVal : Bool) :
    Reading Operand :=
  if value.isExpression then Operand.expr <$> expression line ty (value :: more)
  else if value.is "blockaddress" then
    (fun (func, label) => Operand.blockAddress func label)
      <$> blockAddress line (ty :: value :: more)
  else namedParameter (ty :: value :: more) byVal

theorem parametersFrom_value {ty value : Token} {rest more : List Token} {byVal : Bool}
    (h : dropAttributes rest = (value :: more, byVal)) (unnamed : Nat)
    (parts : List (List Token)) :
    parametersFrom line unnamed ((ty :: rest) :: parts) = do
      let o ← parameterOf line ty value more byVal
      return o :: (← parametersFrom line unnamed parts) := by
  rw [parametersFrom.eq_def]
  dsimp only
  split
  · rename_i heq
    rw [h] at heq
    cases heq
  · rename_i heq
    rw [h] at heq
    cases heq
    unfold parameterOf
    split
    · rfl
    · split <;> rfl

theorem parametersFrom_type {ty : Token} {rest : List Token} {byVal : Bool}
    (h : dropAttributes rest = ([], byVal)) (unnamed : Nat) (parts : List (List Token)) :
    parametersFrom line unnamed ((ty :: rest) :: parts) =
      if ty.is "..." then do
        return .varargs :: (← parametersFrom line unnamed parts)
      else do
        note ty.text
        return .scalar ty.text ('%' :: Text.ofNat unnamed) byVal
          :: (← parametersFrom line (unnamed + 1) parts) := by
  rw [parametersFrom.eq_def]
  dsimp only
  split
  · rename_i heq
    rw [h] at heq
    cases heq
    rfl
  · rename_i heq
    rw [h] at heq
    cases heq

theorem operand_struct {ty value : Token} {inner : List Token}
    (h : value.innerOf? .brace = some inner) (rest : List Token) :
    operand line (ty :: value :: rest) = do
      note ty.text
      return .struct ty.text (← operands line (segments inner)) := by
  rw [operand]
  split
  · rename_i heq
    rw [h] at heq
    cases heq
    rfl
  · rename_i heq
    rw [h] at heq
    cases heq

theorem operand_value {ty value : Token} (h : value.innerOf? .brace = none)
    (rest : List Token) :
    operand line (ty :: value :: rest) =
      if ty.isExpression then
        Operand.expr <$> expression line (.word TypeText.unknown) (ty :: value :: rest)
      else if value.isExpression then Operand.expr <$> expression line ty (value :: rest)
      else do
        note ty.text
        return .scalar ty.text (Literal.normal value.text) false := by
  rw [operand]
  split
  · rename_i heq
    rw [h] at heq
    cases heq
  · simp only [bind_pure_comp]

/-! ## Two lines side by side -/

section
variable {line' : Line}

theorem agree_blockAddress (segment : List Token) :
    (blockAddress line segment).Agree line line' (blockAddress line' segment) := by
  unfold blockAddress
  split
  · exact parallel_lacks _ _
  · split
    · exact agree_pure _
    · exact parallel_lacks _ _

theorem agree_namedParameter (segment : List Token) (byVal : Bool) :
    (namedParameter segment byVal).Agree line line' (namedParameter segment byVal) :=
  (agree_note _).bind fun _ => agree_pure _

theorem agree_parameterOf {ty value : Token} {more : List Token}
    (he : value.isExpression = true →
      (expression line ty (value :: more)).Agree line line' (expression line' ty (value :: more)))
    (byVal : Bool) :
    (parameterOf line ty value more byVal).Agree line line'
      (parameterOf line' ty value more byVal) := by
  unfold parameterOf
  split
  · rename_i hexpr
    exact (he hexpr).map _
  split
  · exact (agree_blockAddress _).map _
  · exact agree_namedParameter _ _

/-- Expressions and parameters by induction on how they are read. -/
theorem agree_expression_parameters :
    (∀ (ty : Token) (ts : List Token),
      (expression line ty ts).Agree line line' (expression line' ty ts)) ∧
    (∀ ts : List Token, (parameters line ts).Agree line line' (parameters line' ts)) ∧
    ∀ (unnamed : Nat) (parts : List (List Token)),
      (parametersFrom line unnamed parts).Agree line line'
        (parametersFrom line' unnamed parts) := by
  apply expression.mutual_induct line
  case case1 =>
    intro ty tokens op next rest htokens hop text e args tail hargs ih
    rw [expression_eq htokens hop hargs, expression_eq htokens hop hargs]
    exact ih.bind fun _ => (agree_note _).bind fun _ => agree_pure _
  case case2 =>
    intro ty tokens op next rest htokens hop hargs
    rw [expression_of_no_operands htokens hop hargs, expression_of_no_operands htokens hop hargs]
    exact parallel_lacks _ _
  case case3 =>
    intro ty tokens op next rest htokens hop
    rw [expression_of_no_operation htokens hop, expression_of_no_operation htokens hop]
    exact parallel_lacks _ _
  case case4 =>
    intro ty tokens hshort
    rw [expression_of_short hshort, expression_of_short hshort]
    exact parallel_lacks _ _
  case case5 =>
    intro ts ih
    rwa [parameters, parameters]
  case case6 =>
    intro unnamed
    rw [parametersFrom, parametersFrom]
    exact agree_pure _
  case case7 =>
    intro unnamed parts ih
    rwa [parametersFrom, parametersFrom]
  case case8 =>
    intro unnamed ty rest parts byVal hrest hty ih
    rw [parametersFrom_type hrest, parametersFrom_type hrest, if_pos hty, if_pos hty]
    exact ih.bind fun _ => agree_pure _
  case case9 =>
    intro unnamed ty rest parts byVal hrest hty ih
    rw [parametersFrom_type hrest, parametersFrom_type hrest, if_neg hty, if_neg hty]
    exact (agree_note _).bind fun _ => ih.bind fun _ => agree_pure _
  case case10 =>
    intro unnamed ty rest parts value more byVal hrest hexpr ih ihexpr
    rw [parametersFrom_value hrest, parametersFrom_value hrest]
    exact (agree_parameterOf (fun _ => ihexpr) _).bind fun _ => ih.bind fun _ => agree_pure _
  case case11 | case12 =>
    intro unnamed ty rest parts value more byVal hrest hexpr _ ih
    rw [parametersFrom_value hrest, parametersFrom_value hrest]
    exact (agree_parameterOf (absurd · hexpr) _).bind fun _ => ih.bind fun _ => agree_pure _

theorem agree_expression (ty : Token) (ts : List Token) :
    (expression line ty ts).Agree line line' (expression line' ty ts) :=
  agree_expression_parameters.1 ty ts

theorem agree_parameters (ts : List Token) :
    (parameters line ts).Agree line line' (parameters line' ts) :=
  agree_expression_parameters.2.1 ts

theorem agree_expressionOf (segment : List Token) :
    (expressionOf line segment).Agree line line' (expressionOf line' segment) := by
  cases segment with
  | nil => exact parallel_lacks _ _
  | cons ty rest => exact agree_expression ty rest

/-- Operands of instructions, and those in braces, by induction on how they are read. -/
theorem agree_operand_operands :
    (∀ segment : List Token, (operand line segment).Agree line line' (operand line' segment)) ∧
    ∀ parts : List (List Token),
      (operands line parts).Agree line line' (operands line' parts) := by
  apply operand.mutual_induct
  case case1 =>
    rw [operand, operand]
    exact parallel_fail (by simp)
  case case2 =>
    intro t ht
    rw [operand, operand, if_pos ht]
    exact (agree_note _).bind fun _ => agree_pure _
  case case3 =>
    intro t ht
    rw [operand, operand, if_neg ht]
    exact agree_pure _
  case case4 =>
    intro ty value rest inner hinner ih
    rw [operand_struct hinner, operand_struct hinner]
    exact (agree_note _).bind fun _ => ih.bind fun _ => agree_pure _
  case case5 =>
    intro ty value rest hinner hty
    rw [operand_value hinner, operand_value hinner, if_pos hty, if_pos hty]
    exact (agree_expression _ _).map _
  case case6 =>
    intro ty value rest hinner hty hvalue
    rw [operand_value hinner, operand_value hinner, if_neg hty, if_neg hty, if_pos hvalue,
      if_pos hvalue]
    exact (agree_expression _ _).map _
  case case7 =>
    intro ty value rest hinner hty hvalue
    rw [operand_value hinner, operand_value hinner, if_neg hty, if_neg hty, if_neg hvalue,
      if_neg hvalue]
    exact (agree_note _).bind fun _ => agree_pure _
  case case8 =>
    rw [operands, operands]
    exact agree_pure _
  case case9 =>
    intro part parts ih ih'
    rw [operands, operands]
    exact ih.bind fun _ => ih'.bind fun _ => agree_pure _

theorem agree_operand (segment : List Token) :
    (operand line segment).Agree line line' (operand line' segment) :=
  agree_operand_operands.1 segment

theorem agree_operands (parts : List (List Token)) :
    (operands line parts).Agree line line' (operands line' parts) :=
  agree_operand_operands.2 parts

end

end LlvmAsm
