/-
  Operands by position.

  * `operand`, `expression` and `parameters` take the tokens of operands by position, and have
    the registry at hand;
  * none of them breaks off: each comes to the reader of the same name (`operand_eq`,
    `expressionOf_eq`, `parameters_eq`).
-/
import LlvmAsm.Proofs.Operand
import LlvmAsm.Proofs.Positional.Access
import LlvmAsm.Proofs.Positional.Bytes
import LlvmAsm.Proofs.Positional.Reading

namespace LlvmAsm

theorem Token.weight_le_weights {t : Token} {ts : List Token} (h : t ∈ ts) :
    t.weight ≤ Token.weights ts := by
  obtain ⟨before, after, rfl⟩ := List.append_of_mem h
  rw [weights_append, weights_cons]
  omega

theorem Token.weights_tail_le (ts : List Token) : Token.weights ts.tail ≤ Token.weights ts := by
  cases ts with
  | nil => exact Nat.le_refl _
  | cons t ts => exact Nat.le_add_left _ _

namespace Positional

open Reading

/-! ## Operands -/

/-- What an expression is made of. -/
structure Parts where
  ty : Token
  op : Token
  variant : Option Text
  args : List Token

/-- The parts of an expression with the given variant. Words between the operation and the
    operands are removed. -/
def partsFrom? (line : Line) (variant : Option Text) (segment : List Token) :
    Option (Except Failure Parts) := do
  let segment ← removeWhile? (!·.isGroup) 2 segment
  match segment[2]?.bind Token.inner? with
  | none => return .error (line.lacks .expressionOperands segment)
  | some args =>
    let op ← segment[1]?
    let ty ← segment[0]?
    return .ok ⟨ty, op, variant, args⟩

/-- The parts of the expression that a segment spells. -/
def parts? (line : Line) (segment : List Token) : Option (Except Failure Parts) := do
  let (segment, _) ← removeAttributes? segment false
  if segment.length < 3 then return .error (line.lacks .expression segment)
  else
    let op ← segment[1]?
    if !op.isExpression then return .error (line.lacks .expression segment)
    else
      let next ← segment[2]?
      if next.isGroup then partsFrom? line none segment
      else partsFrom? line (some next.text) (← remove? segment 2)

/-- Tells whether the third token of a segment, if there is one, is the word `to`. -/
def hasTarget? (segment : List Token) : Option Bool :=
  if 2 < segment.length then (·.is "to") <$> segment[2]? else some false

/-- A parameter made of a type and at least one more token. -/
def namedParameter (segment : List Token) (byVal : Bool) : PositionalReading Operand := do
  let cut ← hasTarget? segment
  let segment := if cut then segment.take 2 else segment
  let ty := render segment.dropLast
  let ident := (segment.getLast?.map Token.text).getD []
  enter (TypeText.bare ty)
  return .scalar ty (Literal.normal ident) byVal

theorem removeAttributes?_nil (byVal : Bool) : removeAttributes? [] byVal = some ([], byVal) := by
  rw [removeAttributes?]
  rfl

/-- What the tokens behind an operation come to: the operands are in the first group. -/
theorem partsFrom?_cons (line : Line) (variant : Option Text) (ty op : Token)
    (rest : List Token) :
    partsFrom? line variant (ty :: op :: rest) = some (
      match rest.dropWhile (!·.isGroup) with
      | .group _ _ args :: _ => .ok ⟨ty, op, variant, args⟩
      | _ => .error (line.lacks .expressionOperands [ty, op])) := by
  have hremove : removeWhile? (!·.isGroup) 2 (ty :: op :: rest) =
      some (ty :: op :: rest.dropWhile (!·.isGroup)) := removeWhile?_eq _ 2 _
  have hhead := List.head?_dropWhile_not (!·.isGroup) rest
  rw [partsFrom?, hremove]
  generalize rest.dropWhile (!·.isGroup) = rest' at hhead ⊢
  match rest', hhead with
  | [], _ => rfl
  | .group text e args :: tail, _ => rfl
  | .word w :: tail, hword => cases hword

/-- The parts of an expression, by the shape of the tokens behind its type. -/
theorem parts?_cons (line : Line) (ty : Token) (tokens : List Token) :
    parts? line (ty :: tokens) = some (
      match (dropAttributes tokens).1 with
      | op :: next :: rest =>
        if op.isExpression then
          match (next :: rest).dropWhile (!·.isGroup) with
          | .group _ _ args :: _ =>
            .ok ⟨ty, op, if next.isGroup then none else some next.text, args⟩
          | _ => .error (line.lacks .expressionOperands [ty, op])
        else .error (line.lacks .expression (ty :: op :: next :: rest))
      | short => .error (line.lacks .expression (ty :: short))) := by
  rw [parts?, removeAttributes?_eq]
  match (dropAttributes tokens).1 with
  | [] => rfl
  | [op] => rfl
  | op :: next :: rest =>
    have hremove : remove? (ty :: op :: next :: rest) 2 = some (ty :: op :: rest) :=
      remove?_eq (by simp)
    cases hop : op.isExpression with
    | false => simp [hop]
    | true =>
      cases next with
      | word w => simp [hop, hremove, partsFrom?_cons, Token.isGroup]
      | group text e inner => simp [hop, partsFrom?_cons, Token.isGroup]

theorem weights_args_lt {line : Line} {segment : List Token} {parts : Parts}
    (h : parts? line segment = some (.ok parts)) :
    Token.weights parts.args < Token.weights segment.tail := by
  cases segment with
  | nil =>
    rw [parts?, removeAttributes?_nil] at h
    cases h
  | cons ty tokens =>
    rw [parts?_cons, Option.some.injEq] at h
    split at h
    · rename_i op next rest htokens
      split at h
      · split at h
        · rename_i text e args tail hargs
          cases h
          have := Token.weights_dropAttributes_le tokens
          have := Token.weights_dropWhile_le (!·.isGroup) (next :: rest)
          rw [htokens] at *
          rw [hargs] at *
          simp only [Token.weights_cons, Token.weight, List.tail_cons] at *
          omega
        · cases h
      · cases h
    · cases h

theorem weights_tail_removeAttributes? {segment : List Token} {byVal : Bool} {rest : List Token}
    {byVal' : Bool} (h : removeAttributes? segment byVal = some (rest, byVal')) :
    Token.weights rest.tail ≤ Token.weights segment.tail := by
  cases segment with
  | nil =>
    rw [removeAttributes?_nil] at h
    cases h
    exact Nat.le_refl _
  | cons ty tokens =>
    rw [removeAttributes?_eq] at h
    cases h
    exact Token.weights_dropAttributes_le tokens

mutual

/-- The expression that a segment spells. -/
def expression (line : Line) (segment : List Token) : PositionalReading (Expression Operand) :=
  match _h : parts? line segment with
  | none => failure
  | some (.error e) => liftM (fail e : Reading _)
  | some (.ok parts) => do
    let ty := expressionType parts.ty.text parts.op.text parts.args
    let params ← parameters line parts.args
    enter ty
    return {
      op := parts.op.text
      variant := parts.variant
      ty := ty
      params := params
      ident := params.head?.bind Operand.ident? }
termination_by 6 * Token.weights segment.tail + 4
decreasing_by
  have := weights_args_lt _h
  omega

/-- The operands of a list between parentheses. -/
def parameters (line : Line) (tokens : List Token) : PositionalReading (List Operand) :=
  parametersFrom line 0 (splitCommas tokens)
termination_by 6 * Token.weights tokens + 7
decreasing_by
  have := Token.segmentWeights_splitCommas tokens
  omega

/-- The operands of the parts of a list, of which `unnamed` parameters were numbered
    before. -/
def parametersFrom (line : Line) (unnamed : Nat) (parts : List (List Token)) :
    PositionalReading (List Operand) :=
  match parts with
  | [] => pure []
  | [] :: parts => parametersFrom line unnamed parts
  | part :: parts =>
    match _h : removeAttributes? part false with
    | none => failure
    | some (segment, byVal) =>
      if segment.length = 1 then do
        let ty ← segment[0]?
        if ty.is "..." then
          return .varargs :: (← parametersFrom line unnamed parts)
        else do
          enter ty.text
          return .scalar ty.text ('%' :: Text.ofNat unnamed) byVal
            :: (← parametersFrom line (unnamed + 1) parts)
      else do
        let value ← segment[1]?
        let o ←
          if value.isExpression then Operand.expr <$> expression line segment
          else if value.is "blockaddress" then
            (fun (func, label) => Operand.blockAddress func label) <$> blockAddress line segment
          else namedParameter segment byVal
        return o :: (← parametersFrom line unnamed parts)
termination_by 6 * Token.segmentWeights parts
decreasing_by
  all_goals simp only [Token.segmentWeights_cons]
  · omega
  · omega
  · omega
  · omega
  · have := weights_tail_removeAttributes? _h
    have := Token.weights_tail_le part
    omega

end

mutual

/-- The operand that a segment spells. -/
def operand (line : Line) (segment : List Token) : PositionalReading Operand :=
  match segment.head? with
  | none => liftM (fail ⟨line.number, .emptyOperand⟩ : Reading _)
  | some first =>
    if segment.length = 1 then do
      if ← isType? first.text then
        enter first.text
        return .scalar first.text first.text false
      else return .scalar TypeText.unknown (Literal.normal first.text) false
    else match _hsecond : segment[1]? with
    | none => failure
    | some second =>
      match _hinner : second.innerOf? .brace with
      | some inner => do
        enter first.text
        match _hparts : cut? inner with
        | none => failure
        | some parts => return .struct first.text (← operands line parts)
      | none =>
        if first.isExpression then
          Operand.expr <$> expression line (.word TypeText.unknown :: segment)
        else if second.isExpression then Operand.expr <$> expression line segment
        else do
          enter first.text
          return .scalar first.text (Literal.normal second.text) false
termination_by 6 * Token.weights segment + 5
decreasing_by
  rw [cut?_eq, Option.some.injEq] at _hparts
  have := Token.weight_le_weights (List.mem_of_getElem? _hsecond)
  have := Token.weights_inner_lt _hinner
  have := Token.segmentWeights_segments inner
  rw [_hparts] at this
  omega

/-- The operands that the segments of a list spell. -/
def operands (line : Line) (parts : List (List Token)) : PositionalReading (List Operand) :=
  match parts with
  | [] => pure []
  | part :: parts => do
    let o ← operand line part
    let os ← operands line parts
    return o :: os
termination_by 6 * Token.segmentWeights parts
decreasing_by all_goals simp only [Token.segmentWeights_cons]; omega

end

/-! ## Agreement -/

section
variable {line : Line}

theorem expression_ok {segment : List Token} {parts : Parts}
    (h : parts? line segment = some (.ok parts)) :
    expression line segment = do
      let params ← parameters line parts.args
      enter (expressionType parts.ty.text parts.op.text parts.args)
      return {
        op := parts.op.text
        variant := parts.variant
        ty := expressionType parts.ty.text parts.op.text parts.args
        params := params
        ident := params.head?.bind Operand.ident? } := by
  rw [expression]
  split
  · rename_i heq
    cases h.symm.trans heq
  · rename_i heq
    cases h.symm.trans heq
  · rename_i heq
    cases h.symm.trans heq
    rfl

theorem expression_error {segment : List Token} {e : Failure}
    (h : parts? line segment = some (.error e)) :
    expression line segment = liftM (fail e : Reading (Expression Operand)) := by
  rw [expression]
  split
  · rename_i heq
    cases h.symm.trans heq
  · rename_i heq
    cases h.symm.trans heq
    rfl
  · rename_i heq
    cases h.symm.trans heq

theorem hasTarget?_eq (segment : List Token) :
    hasTarget? segment = some (segment[2]?.any (·.is "to")) := by
  unfold hasTarget?
  split
  · rename_i hlt
    rw [List.getElem?_eq_getElem hlt]
    rfl
  · rename_i hlt
    rw [List.getElem?_eq_none (Nat.le_of_not_lt hlt)]
    rfl

theorem namedParameter_eq (segment : List Token) (byVal : Bool) :
    namedParameter segment byVal = liftM (LlvmAsm.namedParameter segment byVal) := by
  rw [namedParameter, hasTarget?_eq, liftM_some, pure_bind, LlvmAsm.namedParameter, liftM_bind]
  simp only [liftM_pure, liftM_note]

theorem parametersFrom_type {ty : Token} {rest : List Token} {byVal : Bool}
    (h : dropAttributes rest = ([], byVal)) (unnamed : Nat) (parts : List (List Token)) :
    parametersFrom line unnamed ((ty :: rest) :: parts) =
      if ty.is "..." then do
        return .varargs :: (← parametersFrom line unnamed parts)
      else do
        enter ty.text
        return .scalar ty.text ('%' :: Text.ofNat unnamed) byVal
          :: (← parametersFrom line (unnamed + 1) parts) := by
  have hremove : removeAttributes? (ty :: rest) false = some ([ty], byVal) := by
    rw [removeAttributes?_eq, h, Bool.false_or]
  rw [parametersFrom.eq_def]
  dsimp only
  split
  · rename_i heq
    cases hremove.symm.trans heq
  · rename_i heq
    cases hremove.symm.trans heq
    rfl

theorem parametersFrom_value {ty value : Token} {rest more : List Token} {byVal : Bool}
    (h : dropAttributes rest = (value :: more, byVal)) (unnamed : Nat)
    (parts : List (List Token)) :
    parametersFrom line unnamed ((ty :: rest) :: parts) = do
      let o ←
        if value.isExpression then Operand.expr <$> expression line (ty :: value :: more)
        else if value.is "blockaddress" then
          (fun (func, label) => Operand.blockAddress func label)
            <$> blockAddress line (ty :: value :: more)
        else namedParameter (ty :: value :: more) byVal
      return o :: (← parametersFrom line unnamed parts) := by
  have hremove : removeAttributes? (ty :: rest) false = some (ty :: value :: more, byVal) := by
    rw [removeAttributes?_eq, h, Bool.false_or]
  rw [parametersFrom.eq_def]
  dsimp only
  split
  · rename_i heq
    cases hremove.symm.trans heq
  · rename_i heq
    cases hremove.symm.trans heq
    rw [if_neg (by simp)]
    rfl

/-- Expressions and parameters by induction on how they are read by shape. -/
theorem expression_parameters_eq :
    (∀ (ty : Token) (ts : List Token),
      expression line (ty :: ts) = liftM (LlvmAsm.expression line ty ts)) ∧
    (∀ ts : List Token, parameters line ts = liftM (LlvmAsm.parameters line ts)) ∧
    ∀ (unnamed : Nat) (parts : List (List Token)),
      parametersFrom line unnamed parts = liftM (LlvmAsm.parametersFrom line unnamed parts) := by
  apply LlvmAsm.expression.mutual_induct line
  case case1 =>
    intro ty tokens op next rest htokens hop text e args tail hargs ih
    have hparts : parts? line (ty :: tokens) =
        some (.ok ⟨ty, op, if next.isGroup then none else some next.text, args⟩) := by
      rw [parts?_cons, htokens]
      simp only [hop, hargs, if_true]
    rw [expression_ok hparts, LlvmAsm.expression_eq htokens hop hargs, ih]
    simp only [liftM_bind, liftM_pure, liftM_note]
  case case2 =>
    intro ty tokens op next rest htokens hop hargs
    have hparts : parts? line (ty :: tokens) =
        some (.error (line.lacks .expressionOperands [ty, op])) := by
      rw [parts?_cons, htokens]
      dsimp only
      rw [if_pos hop]
      split
      · rename_i heq
        exact absurd heq (hargs _ _ _ _)
      · rfl
    rw [expression_error hparts, expression_of_no_operands htokens hop hargs]
  case case3 =>
    intro ty tokens op next rest htokens hop
    have hparts : parts? line (ty :: tokens) =
        some (.error (line.lacks .expression (ty :: op :: next :: rest))) := by
      rw [parts?_cons, htokens]
      dsimp only
      rw [if_neg hop]
    rw [expression_error hparts, expression_of_no_operation htokens hop, htokens]
  case case4 =>
    intro ty tokens hshort
    have hparts : parts? line (ty :: tokens) =
        some (.error (line.lacks .expression (ty :: (dropAttributes tokens).1))) := by
      rw [parts?_cons]
      split
      · rename_i heq
        exact absurd heq (hshort _ _ _)
      · rfl
    rw [expression_error hparts, expression_of_short hshort]
  case case5 =>
    intro ts ih
    rwa [parameters, LlvmAsm.parameters]
  case case6 =>
    intro unnamed
    rw [parametersFrom, LlvmAsm.parametersFrom, liftM_pure]
  case case7 =>
    intro unnamed parts ih
    rwa [parametersFrom, LlvmAsm.parametersFrom]
  case case8 =>
    intro unnamed ty rest parts byVal hrest hty ih
    rw [parametersFrom_type hrest, LlvmAsm.parametersFrom_type hrest, if_pos hty, if_pos hty, ih]
    simp only [liftM_bind, liftM_pure]
  case case9 =>
    intro unnamed ty rest parts byVal hrest hty ih
    rw [parametersFrom_type hrest, LlvmAsm.parametersFrom_type hrest, if_neg hty, if_neg hty, ih]
    simp only [liftM_bind, liftM_pure, liftM_note]
  case case10 =>
    intro unnamed ty rest parts value more byVal hrest hexpr ih ihexpr
    rw [parametersFrom_value hrest, LlvmAsm.parametersFrom_value hrest, parameterOf, if_pos hexpr,
      if_pos hexpr, ih, ihexpr]
    simp only [liftM_bind, liftM_pure, liftM_map]
  case case11 =>
    intro unnamed ty rest parts value more byVal hrest hexpr hblock ih
    rw [parametersFrom_value hrest, LlvmAsm.parametersFrom_value hrest, parameterOf, if_neg hexpr,
      if_neg hexpr, if_pos hblock, if_pos hblock, ih]
    simp only [liftM_bind, liftM_pure, liftM_map]
  case case12 =>
    intro unnamed ty rest parts value more byVal hrest hexpr hblock ih
    rw [parametersFrom_value hrest, LlvmAsm.parametersFrom_value hrest, parameterOf, if_neg hexpr,
      if_neg hexpr, if_neg hblock, if_neg hblock, ih, namedParameter_eq]
    simp only [liftM_bind, liftM_pure]

theorem expression_eq (ty : Token) (ts : List Token) :
    expression line (ty :: ts) = liftM (LlvmAsm.expression line ty ts) :=
  expression_parameters_eq.1 ty ts

theorem parameters_eq (ts : List Token) :
    parameters line ts = liftM (LlvmAsm.parameters line ts) :=
  expression_parameters_eq.2.1 ts

theorem expressionOf_eq (segment : List Token) :
    expression line segment = liftM (expressionOf line segment) := by
  cases segment with
  | nil =>
    have hparts : parts? line [] = some (.error (line.lacks .expression [])) := by
      rw [parts?, removeAttributes?_nil]
      rfl
    exact expression_error hparts
  | cons ty rest => exact expression_eq ty rest

theorem operand_struct {ty value : Token} {inner : List Token}
    (h : value.innerOf? .brace = some inner) (rest : List Token) :
    operand line (ty :: value :: rest) = do
      enter ty.text
      return .struct ty.text (← operands line (segments inner)) := by
  rw [operand]
  dsimp only [List.head?_cons]
  rw [if_neg (by simp)]
  split
  · rename_i heq
    cases heq
  rename_i second heq
  cases heq
  split
  · rename_i inner' heq
    cases h.symm.trans heq
    refine bind_congr fun _ => ?_
    split
    · rename_i heq
      cases (cut?_eq inner).symm.trans heq
    · rename_i heq
      cases (cut?_eq inner).symm.trans heq
      rfl
  · rename_i heq
    cases h.symm.trans heq

theorem operand_value {ty value : Token} (h : value.innerOf? .brace = none)
    (rest : List Token) :
    operand line (ty :: value :: rest) =
      if ty.isExpression then
        Operand.expr <$> expression line (.word TypeText.unknown :: ty :: value :: rest)
      else if value.isExpression then Operand.expr <$> expression line (ty :: value :: rest)
      else do
        enter ty.text
        return .scalar ty.text (Literal.normal value.text) false := by
  rw [operand]
  dsimp only [List.head?_cons]
  rw [if_neg (by simp)]
  split
  · rename_i heq
    cases heq
  rename_i second heq
  cases heq
  split
  · rename_i heq
    cases h.symm.trans heq
  · rfl

/-- Operands by induction on how they are read by shape. -/
theorem operand_operands_eq :
    (∀ segment : List Token, operand line segment = liftM (LlvmAsm.operand line segment)) ∧
    ∀ parts : List (List Token), operands line parts = liftM (LlvmAsm.operands line parts) := by
  apply LlvmAsm.operand.mutual_induct
  case case1 =>
    rw [operand, LlvmAsm.operand]
    rfl
  case case2 =>
    intro t ht
    rw [operand, LlvmAsm.operand, if_pos ht]
    simp [isType?_eq, ht, liftM_note]
  case case3 =>
    intro t ht
    rw [operand, LlvmAsm.operand, if_neg ht]
    simp [isType?_eq, ht]
  case case4 =>
    intro ty value rest inner hinner ih
    rw [operand_struct hinner, LlvmAsm.operand_struct hinner, ih]
    simp only [liftM_bind, liftM_pure, liftM_note]
  case case5 =>
    intro ty value rest hinner hty
    rw [operand_value hinner, LlvmAsm.operand_value hinner, if_pos hty, if_pos hty, expression_eq,
      liftM_map]
  case case6 =>
    intro ty value rest hinner hty hvalue
    rw [operand_value hinner, LlvmAsm.operand_value hinner, if_neg hty, if_neg hty, if_pos hvalue,
      if_pos hvalue, expression_eq, liftM_map]
  case case7 =>
    intro ty value rest hinner hty hvalue
    rw [operand_value hinner, LlvmAsm.operand_value hinner, if_neg hty, if_neg hty, if_neg hvalue,
      if_neg hvalue]
    simp only [liftM_bind, liftM_pure, liftM_note]
  case case8 => rw [operands, LlvmAsm.operands, liftM_pure]
  case case9 =>
    intro part parts ih ih'
    rw [operands, LlvmAsm.operands, ih, ih']
    simp only [liftM_bind, liftM_pure]

/-- **An operand is read in range.** -/
theorem operand_eq (segment : List Token) :
    operand line segment = liftM (LlvmAsm.operand line segment) :=
  operand_operands_eq.1 segment

theorem operands_eq (parts : List (List Token)) :
    operands line parts = liftM (LlvmAsm.operands line parts) :=
  operand_operands_eq.2 parts

end

end Positional

end LlvmAsm
