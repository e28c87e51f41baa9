/-
  Segments: the runs of tokens between the commas of a line, e.g. `i32* %x` or
  `i8* bitcast (i32* @x to i8*)`.

  * `segments` cuts a token list at its commas and at the word `to`, and ends
    with the comment;
  * `dropAttributes` takes the attributes off the tokens that follow a type,
    and tells whether `byval` was among them;
  * the weights of the segments of a list are bounded by the weight of the
    list, which bounds the recursion of the readers.
-/
import LlvmAsm.Token
import LlvmAsm.Vocabulary

namespace LlvmAsm

/-! ## Segments -/

/-- The token stands between two segments. -/
def Token.isDelimiter (t : Token) : Bool := t.isSeparator || t.isWord "to"

/-- The segments of a token list after the tokens `current` of the first one.
    A segment may be empty, except for the last one of a list that has no
    comment. -/
def segmentsFrom (current : List Token) : List Token → List (List Token)
  | [] => if current.isEmpty then [] else [current]
  | t :: ts =>
    if t.isDelimiter then current :: segmentsFrom [] ts
    else if t.isComment then [current]
    else segmentsFrom (current ++ [t]) ts

/-- The segments of a token list. -/
def segments (ts : List Token) : List (List Token) := segmentsFrom [] ts

/-! ## Attributes -/

/-- The word begins an expression. -/
def Token.isExpression (t : Token) : Bool := t.isOneOf Vocabulary.expressions

/-- The tokens behind a type without the attributes that come first, and
    whether `byval` is one of them. An alignment is taken off together with its
    number, but only if something is left then. -/
def dropAttributes : List Token → List Token × Bool
  | .word w :: rest =>
    if w = "byval" then ((dropAttributes rest).1, true)
    else if Vocabulary.parameterAttributes.contains w then dropAttributes rest
    else if w = "align" then
      match rest with
      | _ :: t :: more => dropAttributes (t :: more)
      | _ => (.word w :: rest, false)
    else (.word w :: rest, false)
  | ts => (ts, false)

/-- The tokens without those words of the given set that stand at a position
    one after the other. -/
def dropWordsAt (ws : List Text) (position : Nat) (ts : List Token) : List Token :=
  ts.take position ++ (ts.drop position).dropWhile (Token.isOneOf ws)

/-- The tokens without the word, if it is among the first `within` of them. -/
def dropWord (w : Text) (within : Nat) (ts : List Token) : List Token :=
  match findWord? w (ts.take within) with
  | some position => ts.eraseIdx position
  | none => ts

/-! ## Weights -/

namespace Token

/-- The weight of segments, with one for the delimiter of each. -/
def segmentWeights (parts : List (List Token)) : Nat :=
  parts.foldr (fun p n => weights p + 1 + n) 0

@[simp] theorem segmentWeights_nil : segmentWeights [] = 0 := rfl

@[simp] theorem segmentWeights_cons (part : List Token) (parts : List (List Token)) :
    segmentWeights (part :: parts) = weights part + 1 + segmentWeights parts := rfl

@[simp] theorem weights_nil : weights [] = 0 := rfl

@[simp] theorem weights_cons (t : Token) (ts : List Token) :
    weights (t :: ts) = t.weight + weights ts := rfl

theorem weight_pos (t : Token) : 0 < t.weight := by
  cases t <;> simp +arith [weight]

@[simp] theorem weights_append (ts us : List Token) :
    weights (ts ++ us) = weights ts + weights us := by
  induction ts with
  | nil => simp
  | cons t ts ih => simp +arith [ih]

theorem weights_dropWhile_le (p : Token → Bool) (ts : List Token) :
    weights (ts.dropWhile p) ≤ weights ts := by
  have := congrArg weights (List.takeWhile_append_dropWhile (p := p) (l := ts))
  rw [weights_append] at this
  omega

theorem weights_inner_lt {e : Encloser} {t : Token} {inner : List Token}
    (h : t.innerOf? e = some inner) : weights inner < t.weight := by
  cases t with
  | word w => simp [innerOf?] at h
  | group text e' inner' =>
    simp only [innerOf?] at h
    split at h
    · cases h
      simp +arith [weight]
    · cases h

theorem segmentWeights_segmentsFrom (current ts : List Token) :
    segmentWeights (segmentsFrom current ts) ≤ weights current + weights ts + 1 := by
  induction ts generalizing current with
  | nil =>
    simp only [segmentsFrom]
    split <;> simp
  | cons t ts ih =>
    have := weight_pos t
    simp only [segmentsFrom]
    split
    · have := ih []
      simp only [segmentWeights_cons, weights_cons, weights_nil] at *
      omega
    · split
      · simp only [segmentWeights_cons, segmentWeights_nil, weights_cons]
        omega
      · have := ih (current ++ [t])
        simp only [weights_append, weights_cons, weights_nil] at *
        omega

theorem segmentWeights_segments (ts : List Token) :
    segmentWeights (segments ts) ≤ weights ts + 1 := by
  simpa [segments] using segmentWeights_segmentsFrom [] ts

theorem segmentWeights_splitWhere (p : Token → Bool) (ts : List Token) :
    segmentWeights (splitWhere p ts) ≤ weights ts + 1 := by
  induction ts with
  | nil => simp [splitWhere]
  | cons t ts ih =>
    have := weight_pos t
    simp only [splitWhere]
    split
    · simp only [segmentWeights_cons, weights_cons, weights_nil]
      omega
    · split
      · simp +arith
      · rename_i heq
        rw [heq] at ih
        simp only [segmentWeights_cons, weights_cons] at *
        omega

theorem segmentWeights_splitCommas (ts : List Token) :
    segmentWeights (splitCommas ts) ≤ weights ts + 1 := by
  cases ts with
  | nil => simp [splitCommas]
  | cons t ts => exact segmentWeights_splitWhere isSeparator (t :: ts)

theorem weights_dropAttributes_le (ts : List Token) :
    weights (dropAttributes ts).1 ≤ weights ts := by
  fun_induction dropAttributes ts <;> simp_all <;> omega

end Token

end LlvmAsm
