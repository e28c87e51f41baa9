/-
  Constants by position.

  `element` and `initialValue` read constants in the way that `Positional.operand` reads
  operands. Neither breaks off: `element_eq` and `initialValue_eq` say that they come to the
  readers of the same name.
-/
import LlvmAsm.Constant
import LlvmAsm.Proofs.Positional.Operand

namespace LlvmAsm.Positional

open Reading

mutual

/-- The constants of a list. -/
def contents (line : Line) (inner : List Token) : PositionalReading (List Constant) :=
  match _h : cut? inner with
  | none => failure
  | some parts => elements line parts
termination_by 3 * (Token.weights inner + 1) + 1
decreasing_by
  rw [cut?_eq, Option.some.injEq] at _h
  have := Token.segmentWeights_segments inner
  rw [_h] at this
  omega

/-- The constant that a type and the tokens of a value spell. -/
def element (line : Line) (segment : List Token) : PositionalReading Constant :=
  if segment.length < 2 then
    liftM (fail ⟨line.number, .malformedConstant segment⟩ : Reading Constant)
  else match segment[0]?, _hhead : segment[1]? with
  | some ty, some head =>
    if head.is "null" then pure (.value ty.text "0")
    else if head.isEmptyValue then pure (.emptyStruct ty.text)
    else if head.isExpression then Constant.expr <$> expression line segment
    else match _hgroup : head with
      | .group _ .brace inner => Constant.struct ty.text <$> contents line inner
      | .group _ .angle inner => Constant.struct ty.text <$> contents line (unpacked inner)
      | .group _ .bracket inner => Constant.list ty.text <$> contents line inner
      | _ =>
        if segment.length = 2 then pure (.value ty.text (Literal.normal head.text))
        else if head.is "c" then do
          let text ← segment[2]?
          return .string ty.text (unquoted text.text)
        else if head.is "blockaddress" then
          (fun (func, label) => Constant.blockAddress func label) <$> blockAddress line segment
        else liftM (fail ⟨line.number, .malformedConstant segment⟩ : Reading Constant)
  | _, _ => failure
termination_by 3 * Token.weights segment + 2
decreasing_by
  all_goals
    have := Token.weight_le_weights (List.mem_of_getElem? _hhead)
    have := weights_unpacked_le inner
    simp only [Token.weight] at *
    omega

/-- The constants that the segments of a list spell. An empty segment is left out. -/
def elements (line : Line) (parts : List (List Token)) : PositionalReading (List Constant) :=
  match parts with
  | [] => pure []
  | part :: parts =>
    if part.isEmpty then elements line parts
    else do
      let c ← element line part
      let cs ← elements line parts
      return c :: cs
termination_by 3 * Token.segmentWeights parts
decreasing_by all_goals simp only [Token.segmentWeights_cons]; omega

end

/-- The initial value of a global variable of type `ty`. -/
def initialValue (line : Line) (ty : Text) (value : Token) : PositionalReading Constant :=
  if TypeText.isNumber ty || TypeText.levels ty ≥ 1 then
    pure (.value ty (Literal.normal value.text))
  else if value.isEmptyValue then pure (.emptyStruct ty)
  else match value with
    | .word w =>
      if w.head? = some '"' then pure (.string ty (unquoted w))
      else liftM (fail ⟨line.number, .malformedConstant [value]⟩ : Reading Constant)
    | .group _ .brace inner => Constant.struct ty <$> contents line inner
    | .group _ .angle inner =>
      match inner.head?.bind (Token.innerOf? .brace) with
      | some packed => Constant.struct ty <$> contents line packed
      | none => Constant.list ty <$> contents line inner
    | .group _ .bracket inner => Constant.list ty <$> contents line inner
    | .group _ .paren _ =>
      liftM (fail ⟨line.number, .malformedConstant [value]⟩ : Reading Constant)

section
variable {line : Line}

theorem contents_eq_elements (inner : List Token) :
    contents line inner = elements line (segments inner) := by
  rw [contents]
  split
  · rename_i heq
    cases (cut?_eq inner).symm.trans heq
  · rename_i heq
    cases (cut?_eq inner).symm.trans heq
    rfl

/-- What an element comes to, by the shape of its tokens. -/
theorem element_cons (ty head : Token) (rest : List Token) :
    element line (ty :: head :: rest) =
      if head.is "null" then pure (.value ty.text "0")
      else if head.isEmptyValue then pure (.emptyStruct ty.text)
      else if head.isExpression then Constant.expr <$> expression line (ty :: head :: rest)
      else match head, rest with
        | .group _ .brace inner, _ => Constant.struct ty.text <$> contents line inner
        | .group _ .angle inner, _ => Constant.struct ty.text <$> contents line (unpacked inner)
        | .group _ .bracket inner, _ => Constant.list ty.text <$> contents line inner
        | _, [] => pure (.value ty.text (Literal.normal head.text))
        | _, next :: _ =>
          if head.is "c" then pure (.string ty.text (unquoted next.text))
          else if head.is "blockaddress" then
            (fun (func, label) => Constant.blockAddress func label)
              <$> blockAddress line (ty :: head :: rest)
          else liftM (fail ⟨line.number, .malformedConstant (ty :: head :: rest)⟩ :
            Reading Constant) := by
  rw [element, if_neg (by simp)]
  split
  · rename_i ty' head' hty hhead
    cases hty
    cases hhead
    cases head with
    | word w => cases rest <;> rfl
    | group text e inner => cases e <;> cases rest <;> rfl
  · rename_i hnone
    exact absurd rfl (hnone ty head rfl)

/-- An element by induction on how it is read by shape. -/
theorem element_elements_eq :
    (∀ segment : List Token, element line segment = liftM (LlvmAsm.element line segment)) ∧
    ∀ parts : List (List Token), elements line parts = liftM (LlvmAsm.elements line parts) := by
  apply LlvmAsm.element.mutual_induct
  case case1 | case2 | case7 | case8 =>
    intros
    rw [element_cons, LlvmAsm.element.eq_def]
    simp_all
  case case3 =>
    intro ty head rest hnull hempty hexpr
    rw [element_cons, LlvmAsm.element.eq_def]
    simp only [hnull, hempty, hexpr, Bool.false_eq_true, if_false, if_true]
    rw [expression_eq, liftM_map]
  case case4 | case5 | case6 =>
    intro ty rest text inner hnull hempty hexpr ih
    rw [element_cons, LlvmAsm.element.eq_def]
    simp only [hnull, hempty, hexpr, Bool.false_eq_true, if_false]
    rw [contents_eq_elements, ih, liftM_map]
  case case9 =>
    intro ty head hnull hempty hexpr next tail hc hblock hbrace hangle hbracket
    rw [element_cons, LlvmAsm.element.eq_def]
    simp only [hnull, hempty, hexpr, hc, hblock, Bool.false_eq_true, if_false, if_true, liftM_map]
  case case10 =>
    intros
    rw [element_cons, LlvmAsm.element.eq_def]
    simp_all
  case case11 =>
    intro short hshort
    rcases short with _ | ⟨ty, _ | ⟨head, rest⟩⟩
    case cons.cons => exact absurd rfl (hshort ty head rest)
    all_goals
      rw [element, LlvmAsm.element.eq_def]
      rfl
  case case12 => rw [elements, LlvmAsm.elements, liftM_pure]
  case case13 =>
    intro parts ih
    rwa [elements, LlvmAsm.elements, if_pos List.isEmpty_nil]
  case case14 =>
    intro t ts parts ih ih'
    rw [elements, LlvmAsm.elements, if_neg (by simp), ih, ih']
    simp only [liftM_bind, liftM_pure]

theorem contents_eq (inner : List Token) :
    contents line inner = liftM (LlvmAsm.elements line (segments inner)) := by
  rw [contents_eq_elements, element_elements_eq.2]

/-- **An initial value is read in range.** -/
theorem initialValue_eq (ty : Text) (value : Token) :
    initialValue line ty value = liftM (LlvmAsm.initialValue line ty value) := by
  unfold initialValue LlvmAsm.initialValue
  split
  · rfl
  split
  · rfl
  cases value with
  | word w =>
    dsimp only
    split <;> rfl
  | group text e inner =>
    cases e with
    | bracket | brace => simp only [contents_eq, liftM_map]
    | paren => rfl
    | angle =>
      cases hpacked : inner.head?.bind (Token.innerOf? .brace) with
      | none => simp only [hpacked, contents_eq, liftM_map]
      | some packed => simp only [hpacked, contents_eq, liftM_map]

end

end LlvmAsm.Positional
