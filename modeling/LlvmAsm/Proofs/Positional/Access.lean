/-
  Token lists by position.

  The library takes a token list apart by its shape. The same can be done as on an array,
  with a position for each end of a part, and then a position may be out of range.

  * `slice?`, `remove?` and `drain?` are the accesses by position; there is no result if a
    position is past the end or a part would end before it begins;
  * `removeWhile?`, `removeWord?`, `removeAttributes?` and `cut?` are loops over such
    accesses, and `cutBehind?` cuts the end of a list;
  * none of the loops leaves its list (`removeWhile?_eq`, `removeWord?_eq`,
    `removeAttributes?_eq`, `cut?_eq`): they come to `dropWordsAt`, `dropWord`,
    `dropAttributes` and `segments`.
-/
import LlvmAsm.Segment

namespace LlvmAsm.Positional

/-! ## Accesses -/

section
variable {α : Type}

/-- The elements from position `first` up to position `last`. -/
def slice? (as : List α) (first last : Nat) : Option (List α) :=
  if first ≤ last ∧ last ≤ as.length then some ((as.take last).drop first) else none

/-- The list without the element at a position. -/
def remove? (as : List α) (position : Nat) : Option (List α) :=
  if position < as.length then some (as.eraseIdx position) else none

/-- The list without the elements from position `first` up to position `last`. -/
def drain? (as : List α) (first last : Nat) : Option (List α) :=
  if first ≤ last ∧ last ≤ as.length then some (as.take first ++ as.drop last) else none

theorem slice?_eq {as : List α} {first last : Nat} (h : first ≤ last) (hlast : last ≤ as.length) :
    slice? as first last = some ((as.take last).drop first) := if_pos ⟨h, hlast⟩

/-- All elements from a position on. -/
theorem slice?_length {as : List α} {first : Nat} (h : first ≤ as.length) :
    slice? as first as.length = some (as.drop first) := by
  rw [slice?_eq h (Nat.le_refl _), List.take_length]

/-- The part of a list behind another one. -/
theorem slice?_append (before part after : List α) :
    slice? (before ++ (part ++ after)) before.length (before.length + part.length) =
      some part := by
  rw [slice?_eq (by omega) (by simp only [List.length_append]; omega),
    List.take_length_add_append, List.drop_left, List.take_left]

theorem remove?_eq {as : List α} {position : Nat} (h : position < as.length) :
    remove? as position = some (as.eraseIdx position) := if_pos h

theorem length_of_remove? {as bs : List α} {position : Nat} (h : remove? as position = some bs) :
    bs.length < as.length := by
  unfold remove? at h
  split at h
  · rename_i hposition
    rw [← Option.some.inj h, List.length_eraseIdx_of_lt hposition]
    omega
  · cases h

theorem length_of_drain? {as bs : List α} {first last : Nat} (hlt : first < last)
    (h : drain? as first last = some bs) : bs.length < as.length := by
  unfold drain? at h
  split at h
  · rw [← Option.some.inj h, List.length_append, List.length_take, List.length_drop]
    omega
  · cases h

/-- An element that passes a test is there. -/
theorem lt_length_of_any {p : α → Bool} {as : List α} {position : Nat}
    (h : as[position]?.any p = true) : position < as.length := by
  refine Nat.lt_of_not_le fun hle => ?_
  rw [List.getElem?_eq_none hle] at h
  cases h

end

/-! ## Removals -/

/-- Removes what stands at a position as long as it satisfies `p`. -/
def removeWhile? (p : Token → Bool) (position : Nat) (ts : List Token) : Option (List Token) :=
  if ts[position]?.any p then
    match _h : remove? ts position with
    | some rest => removeWhile? p position rest
    | none => none
  else some ts
termination_by ts.length
decreasing_by exact length_of_remove? _h

/-- Removes a word if it is among the first `within` tokens. -/
def removeWord? (w : Text) (within : Nat) (ts : List Token) : Option (List Token) :=
  match findWord? w (ts.take within) with
  | some position => remove? ts position
  | none => some ts

/-- Removes the attributes behind the first token of a segment, and tells whether `byval` is
    one of them or was removed before. -/
def removeAttributes? (segment : List Token) (byVal : Bool) : Option (List Token × Bool) :=
  if 1 < segment.length then
    match segment[1]? with
    | none => none
    | some (Token.group ..) => some (segment, byVal)
    | some (Token.word w) =>
      if w = "byval" then
        match _h : remove? segment 1 with
        | some rest => removeAttributes? rest true
        | none => none
      else if Vocabulary.parameterAttributes.contains w then
        match _h : remove? segment 1 with
        | some rest => removeAttributes? rest byVal
        | none => none
      else if w = "align" ∧ 3 < segment.length then
        match _h : drain? segment 1 3 with
        | some rest => removeAttributes? rest byVal
        | none => none
      else some (segment, byVal)
  else some (segment, byVal)
termination_by segment.length
decreasing_by
  · exact length_of_remove? _h
  · exact length_of_remove? _h
  · exact length_of_drain? (by omega) _h

theorem removeWhile?_eq (p : Token → Bool) (position : Nat) (ts : List Token) :
    removeWhile? p position ts =
      some (ts.take position ++ (ts.drop position).dropWhile p) := by
  fun_induction removeWhile? p position ts with
  | case1 ts hany rest hrest ih =>
    have hlt : position < ts.length := lt_length_of_any hany
    rw [remove?_eq hlt, Option.some.injEq] at hrest
    rw [List.getElem?_eq_getElem hlt, Option.any_some] at hany
    rw [ih, ← hrest, List.eraseIdx_eq_take_drop_succ, List.drop_eq_getElem_cons hlt,
      List.dropWhile_cons_of_pos hany, List.take_left' (by simp; omega),
      List.drop_left' (by simp; omega)]
  | case2 ts hany hnone =>
    rw [remove?_eq (lt_length_of_any hany)] at hnone
    cases hnone
  | case3 ts hany =>
    rw [dropWhile_eq_self, List.take_append_drop]
    intro t ht
    rw [List.head?_drop] at ht
    rw [ht] at hany
    exact Bool.eq_false_iff.2 hany

theorem removeWords?_eq (ws : List Text) (position : Nat) (ts : List Token) :
    removeWhile? (Token.isOneOf ws) position ts = some (dropWordsAt ws position ts) :=
  removeWhile?_eq _ position ts

theorem removeWord?_eq (w : Text) (within : Nat) (ts : List Token) :
    removeWord? w within ts = some (dropWord w within ts) := by
  unfold removeWord? dropWord
  cases h : findWord? w (ts.take within) with
  | none => rfl
  | some position =>
    have hlt : position < (ts.take within).length := (List.findIdx?_eq_some_iff_getElem.1 h).1
    rw [List.length_take] at hlt
    exact remove?_eq (by omega)

theorem removeAttributes?_word (ty : Token) (w : Text) (rest : List Token) (byVal : Bool) :
    removeAttributes? (ty :: .word w :: rest) byVal =
      if w = "byval" then removeAttributes? (ty :: rest) true
      else if Vocabulary.parameterAttributes.contains w then removeAttributes? (ty :: rest) byVal
      else if w = "align" ∧ 1 < rest.length then removeAttributes? (ty :: rest.drop 1) byVal
      else some (ty :: .word w :: rest, byVal) := by
  have hlength : 3 < (ty :: .word w :: rest).length ↔ 1 < rest.length := by
    simp only [List.length_cons]
    omega
  rw [removeAttributes?, if_pos (by simp)]
  simp only [List.getElem?_cons_succ, List.getElem?_cons_zero, hlength]
  split
  · rfl
  split
  · rfl
  split
  · rename_i halign
    have hdrain : drain? (ty :: .word w :: rest) 1 3 = some (ty :: rest.drop 1) :=
      if_pos ⟨by omega, by simp only [List.length_cons]; omega⟩
    split
    · rename_i rest' hrest
      rw [← Option.some.inj (hdrain.symm.trans hrest)]
    · rename_i hnone
      exact absurd (hdrain.symm.trans hnone) (Option.some_ne_none _)
  · rfl

/-- **The attributes are removed in range**: an alignment together with the token behind it
    only if something is left then. -/
theorem removeAttributes?_eq (ty : Token) (rest : List Token) (byVal : Bool) :
    removeAttributes? (ty :: rest) byVal =
      some (ty :: (dropAttributes rest).1, byVal || (dropAttributes rest).2) := by
  fun_induction dropAttributes rest generalizing byVal with
  | case1 rest ih => rw [removeAttributes?_word, if_pos rfl, ih, Bool.true_or, Bool.or_true]
  | case2 w rest hbyval hattribute ih =>
    rw [removeAttributes?_word, if_neg hbyval, if_pos hattribute, ih]
  | case3 number t more hbyval hattribute ih =>
    rw [removeAttributes?_word, if_neg hbyval, if_neg hattribute, if_pos ⟨rfl, by simp⟩,
      List.drop_one, List.tail_cons, ih]
  | case4 rest hshort hbyval hattribute =>
    have hlength : ¬ 1 < rest.length := by
      rcases rest with _ | ⟨number, _ | ⟨t, more⟩⟩
      · simp
      · simp
      · exact absurd rfl (hshort number t more)
    rw [removeAttributes?_word, if_neg hbyval, if_neg hattribute, if_neg (hlength ·.2),
      Bool.or_false]
  | case5 w rest hbyval hattribute halign =>
    rw [removeAttributes?_word, if_neg hbyval, if_neg hattribute, if_neg (halign ·.1),
      Bool.or_false]
  | case6 rest hword =>
    rw [removeAttributes?, Bool.or_false]
    rcases rest with _ | ⟨⟨w⟩ | ⟨text, e, inner⟩, more⟩
    · rfl
    · exact absurd rfl (hword w more)
    · rfl

/-! ## Segments -/

/-- The segments of a token list by the positions of its delimiters, when the tokens from
    position `position` on are still to come and the segment under way began at `first`. -/
def cutFrom? (ts : List Token) (first position : Nat) :
    List Token → Option (List (List Token))
  | [] =>
    if first < ts.length then (fun part => [part]) <$> slice? ts first ts.length else some []
  | t :: rest =>
    if t.isDelimiter then do
      let part ← slice? ts first position
      let parts ← cutFrom? ts (position + 1) (position + 1) rest
      return part :: parts
    else if t.isComment then (fun part => [part]) <$> slice? ts first position
    else cutFrom? ts first (position + 1) rest

/-- The segments of a token list. -/
def cut? (ts : List Token) : Option (List (List Token)) := cutFrom? ts 0 0 ts

theorem cutFrom?_eq (before current rest : List Token) :
    cutFrom? (before ++ (current ++ rest)) before.length (before.length + current.length) rest =
      some (segmentsFrom current rest) := by
  induction rest generalizing before current with
  | nil =>
    rw [cutFrom?, segmentsFrom, List.append_nil]
    cases current with
    | nil => rw [if_neg (by simp), List.isEmpty_nil, if_pos rfl]
    | cons t current =>
      rw [if_pos (by simp), slice?_length (by simp), List.drop_left]
      rfl
  | cons t rest ih =>
    have hnext : (before ++ (current ++ [t])).length = before.length + current.length + 1 := by
      simp only [List.length_append, List.length_singleton, Nat.add_assoc]
    rw [cutFrom?, segmentsFrom, slice?_append]
    split
    · have htail := ih (before ++ (current ++ [t])) []
      simp only [List.append_assoc, List.nil_append, List.singleton_append, hnext,
        List.length_nil, Nat.add_zero] at htail
      simp [htail]
    split
    · rfl
    · have htail := ih before (current ++ [t])
      simpa [← Nat.add_assoc] using htail

/-- The segments of the tokens from position `first` on. -/
def cutBehind? (ts : List Token) (first : Nat) : Option (List (List Token)) :=
  (slice? ts first ts.length).bind cut?

/-- **A token list is cut in range.** -/
theorem cut?_eq (ts : List Token) : cut? ts = some (segments ts) := cutFrom?_eq [] [] ts

theorem cutBehind?_eq {ts : List Token} {first : Nat} (h : first ≤ ts.length) :
    cutBehind? ts first = some (segments (ts.drop first)) := by
  rw [cutBehind?, slice?_length h, Option.bind_some, cut?_eq]

end LlvmAsm.Positional
