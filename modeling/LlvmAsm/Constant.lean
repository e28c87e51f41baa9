/-
  Reading constants.

  * `initialValue` reads the initial value of a global variable, whose type is
    known from the line;
  * `element` reads one element of a structure, an array or a vector: its type
    and its value. Elements may hold elements in turn.
-/
import LlvmAsm.Operand.Reader

namespace LlvmAsm

open Reading

/-- The text between the quotes. A text without quotes at both ends stays as it
    is. -/
def unquoted (t : Text) : Text :=
  match t with
  | '"' :: t' => if t'.getLast? = some '"' then t'.dropLast else t
  | _ => t

/-- A value without content is written as one of two words. -/
def Token.isEmptyValue (t : Token) : Bool := t.is "zeroinitializer" || t.is "undef"

/-- The tokens in angles, or those of the braces in angles: a packed
    structure. -/
def unpacked (inner : List Token) : List Token :=
  match inner with
  | [] => []
  | t :: ts => (t.innerOf? .brace).getD (t :: ts)

theorem weights_unpacked_le (inner : List Token) :
    Token.weights (unpacked inner) ≤ Token.weights inner := by
  cases inner with
  | nil => simp [unpacked]
  | cons t ts =>
    simp only [unpacked]
    cases h : t.innerOf? .brace with
    | none => simp
    | some inner =>
      have := Token.weights_inner_lt h
      simp only [Option.getD_some, Token.weights_cons]
      omega

mutual

/-- The constant that a type and the tokens of a value spell. -/
def element (line : Line) (segment : List Token) : Reading Constant :=
  match segment with
  | ty :: head :: rest =>
    if head.is "null" then pure (.value ty.text "0")
    else if head.isEmptyValue then pure (.emptyStruct ty.text)
    else if head.isExpression then Constant.expr <$> expression line ty (head :: rest)
    else match head, rest with
      | .group _ .brace inner, _ => Constant.struct ty.text <$> elements line (segments inner)
      | .group _ .angle inner, _ =>
        Constant.struct ty.text <$> elements line (segments (unpacked inner))
      | .group _ .bracket inner, _ => Constant.list ty.text <$> elements line (segments inner)
      | _, [] => pure (.value ty.text (Literal.normal head.text))
      | _, next :: _ =>
        if head.is "c" then pure (.string ty.text (unquoted next.text))
        else if head.is "blockaddress" then
          (fun (func, label) => Constant.blockAddress func label) <$> blockAddress line segment
        else fail ⟨line.number, .malformedConstant segment⟩
  | short => fail ⟨line.number, .malformedConstant short⟩
termination_by 2 * Token.weights segment + 1
decreasing_by
  all_goals
    have := Token.segmentWeights_segments inner
    have := Token.segmentWeights_segments (unpacked inner)
    have := weights_unpacked_le inner
    simp only [Token.weights_cons, Token.weight]
    omega

/-- The constants that the segments of a list spell. An empty segment is left
    out. -/
def elements (line : Line) (parts : List (List Token)) : Reading (List Constant) :=
  match parts with
  | [] => pure []
  | [] :: parts => elements line parts
  | (t :: ts) :: parts => do
    let c ← element line (t :: ts)
    let cs ← elements line parts
    return c :: cs
termination_by 2 * Token.segmentWeights parts
decreasing_by all_goals simp only [Token.segmentWeights_cons]; omega

end

/-- The initial value of a global variable of type `ty`. -/
def initialValue (line : Line) (ty : Text) (value : Token) : Reading Constant :=
  if TypeText.isNumber ty || TypeText.levels ty ≥ 1 then
    pure (.value ty (Literal.normal value.text))
  else if value.isEmptyValue then pure (.emptyStruct ty)
  else match value with
    | .word w =>
      if w.head? = some '"' then pure (.string ty (unquoted w))
      else fail ⟨line.number, .malformedConstant [value]⟩
    | .group _ .brace inner => Constant.struct ty <$> elements line (segments inner)
    | .group _ .angle inner =>
      match inner.head?.bind (Token.innerOf? .brace) with
      | some packed => Constant.struct ty <$> elements line (segments packed)
      | none => Constant.list ty <$> elements line (segments inner)
    | .group _ .bracket inner => Constant.list ty <$> elements line (segments inner)
    | .group _ .paren _ => fail ⟨line.number, .malformedConstant [value]⟩

end LlvmAsm
