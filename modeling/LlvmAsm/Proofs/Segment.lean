/-
  Cutting a token list into segments.

  * `Woven parts ds ts`: the parts, with one of the delimiters `ds` between each and the
    next, are the tokens `ts`;
  * `woven_segmentsFrom`: the segments after the tokens held so far, with the empty one
    that is left out at the end, and the delimiters of the list make up what stands
    before the comment;
  * `segments_exact`: the segments hold no delimiter and no comment, they lose nothing but
    an empty segment after a last delimiter, and a group is never cut.
-/
import LlvmAsm.Proofs.Variable

namespace LlvmAsm

/-! ## Delimiters -/

/-- The delimiters at which a token list is cut, in order. -/
def delimiters (ts : List Token) : List Token := (beforeComment ts).filter Token.isDelimiter

/-- The list has no comment and ends with a delimiter. Nothing follows that delimiter, and
    the empty segment there is left out. -/
def endsWithDelimiter (ts : List Token) : Bool :=
  ts.all (!·.isComment) && ts.getLast?.any Token.isDelimiter

/-- Parts with one delimiter between each and the next. -/
inductive Woven : List (List Token) → List Token → List Token → Prop
  | none : Woven [] [] []
  | last (part : List Token) : Woven [part] [] part
  | next (part : List Token) (d : Token) {parts : List (List Token)} {ds ts : List Token} :
      Woven parts ds ts → parts ≠ [] → Woven (part :: parts) (d :: ds) (part ++ d :: ts)

/-- A comment is no delimiter. -/
theorem Token.isDelimiter_of_isComment {t : Token} (h : t.isComment = true) :
    t.isDelimiter = false := by
  cases t with
  | group => rfl
  | word w =>
    have hw : w = ";" := of_decide_eq_true h
    subst hw
    decide

section
variable {t : Token} {ts : List Token}

theorem beforeComment_cons_of_isComment (h : t.isComment = true) :
    beforeComment (t :: ts) = [] :=
  List.takeWhile_cons_of_neg (by simp [h])

theorem beforeComment_cons (h : t.isComment = false) :
    beforeComment (t :: ts) = t :: beforeComment ts :=
  List.takeWhile_cons_of_pos (by simp [h])

theorem delimiters_cons_of_isComment (h : t.isComment = true) : delimiters (t :: ts) = [] := by
  rw [delimiters, beforeComment_cons_of_isComment h, List.filter_nil]

theorem delimiters_cons_of_isDelimiter (h : t.isDelimiter = true) (hc : t.isComment = false) :
    delimiters (t :: ts) = t :: delimiters ts := by
  rw [delimiters, beforeComment_cons hc, List.filter_cons_of_pos h, delimiters]

theorem delimiters_cons_of_inSegment (h : t.InSegment) :
    delimiters (t :: ts) = delimiters ts := by
  rw [delimiters, beforeComment_cons h.2, List.filter_cons_of_neg (by simp [h.1]), delimiters]

end

/-! ## What the cuts keep -/

theorem inSegment_of_mem_segmentsFrom {current : List Token} {ts : List Token}
    (hcurrent : ∀ t ∈ current, t.InSegment) :
    ∀ part ∈ segmentsFrom current ts, ∀ t ∈ part, t.InSegment := by
  induction ts generalizing current with
  | nil =>
    intro part hpart
    rw [segmentsFrom] at hpart
    split at hpart
    · cases hpart
    · rw [List.mem_singleton.1 hpart]
      exact hcurrent
  | cons t ts ih =>
    intro part hpart
    rw [segmentsFrom] at hpart
    split at hpart
    · rcases List.mem_cons.1 hpart with rfl | hpart
      · exact hcurrent
      · exact ih (by simp) part hpart
    · rename_i hdelimiter
      split at hpart
      · rw [List.mem_singleton.1 hpart]
        exact hcurrent
      · rename_i hcomment
        refine ih (fun u hu => ?_) part hpart
        rcases List.mem_append.1 hu with hu | hu
        · exact hcurrent u hu
        · rw [List.mem_singleton.1 hu]
          exact ⟨eq_false_of_ne_true hdelimiter, eq_false_of_ne_true hcomment⟩

/-- The segment that is left out at the end of the list, if there is one: the list has no
    comment, and its last token, if it has one at all, is a delimiter. -/
def leftOut (current ts : List Token) : List (List Token) :=
  if ts.all (!·.isComment) && ts.getLast?.elim current.isEmpty Token.isDelimiter then [[]] else []

theorem leftOut_nil (current : List Token) :
    segmentsFrom current [] ++ leftOut current [] = [current] := by
  cases current <;> rfl

theorem leftOut_cons_of_isDelimiter {t : Token} (h : t.isDelimiter = true)
    (hc : t.isComment = false) (current ts : List Token) :
    leftOut current (t :: ts) = leftOut [] ts := by
  have hlast : (t :: ts).getLast?.elim current.isEmpty Token.isDelimiter =
      ts.getLast?.elim true Token.isDelimiter := by
    rw [List.getLast?_cons]
    cases ts.getLast? with
    | none => exact h
    | some u => rfl
  rw [leftOut, leftOut, hlast, List.all_cons, hc]
  rfl

theorem leftOut_cons_of_inSegment {t : Token} (h : t.InSegment) (current ts : List Token) :
    leftOut current (t :: ts) = leftOut (current ++ [t]) ts := by
  have hempty : (current ++ [t]).isEmpty = false := by simp
  have hlast : (t :: ts).getLast?.elim current.isEmpty Token.isDelimiter =
      ts.getLast?.elim (current ++ [t]).isEmpty Token.isDelimiter := by
    rw [List.getLast?_cons, hempty]
    cases ts.getLast? with
    | none => exact h.1
    | some u => rfl
  rw [leftOut, leftOut, hlast, List.all_cons, h.2]
  rfl

/-- The induction follows the list; what is held of the first segment grows with every
    token that is no delimiter. -/
theorem woven_segmentsFrom (current ts : List Token) :
    segmentsFrom current ts ++ leftOut current ts ≠ [] ∧
    Woven (segmentsFrom current ts ++ leftOut current ts) (delimiters ts)
      (current ++ beforeComment ts) := by
  induction ts generalizing current with
  | nil =>
    rw [leftOut_nil]
    refine ⟨List.cons_ne_nil _ _, ?_⟩
    rw [beforeComment, List.takeWhile_nil, List.append_nil]
    exact .last current
  | cons t ts ih =>
    by_cases hcomment : t.isComment = true
    · have hdelimiter := Token.isDelimiter_of_isComment hcomment
      have hleft : leftOut current (t :: ts) = [] := by
        rw [leftOut, List.all_cons, hcomment]
        rfl
      have hcut : segmentsFrom current (t :: ts) = [current] := by
        rw [segmentsFrom, hdelimiter, hcomment]
        rfl
      rw [hcut, hleft, delimiters_cons_of_isComment hcomment,
        beforeComment_cons_of_isComment hcomment, List.append_nil, List.append_nil]
      exact ⟨List.cons_ne_nil _ _, .last current⟩
    · have hcomment := eq_false_of_ne_true hcomment
      by_cases hdelimiter : t.isDelimiter = true
      · obtain ⟨hne, hwoven⟩ := ih []
        have hcut : segmentsFrom current (t :: ts) = current :: segmentsFrom [] ts := by
          rw [segmentsFrom, hdelimiter, if_pos rfl]
        rw [hcut, leftOut_cons_of_isDelimiter hdelimiter hcomment,
          delimiters_cons_of_isDelimiter hdelimiter hcomment, beforeComment_cons hcomment]
        exact ⟨List.cons_ne_nil _ _, hwoven.next current t hne⟩
      · have hsegment : t.InSegment := ⟨eq_false_of_ne_true hdelimiter, hcomment⟩
        have hcut : segmentsFrom current (t :: ts) = segmentsFrom (current ++ [t]) ts :=
          segmentsFrom_append (List.forall_mem_singleton.2 hsegment) ts
        rw [hcut, leftOut_cons_of_inSegment hsegment, delimiters_cons_of_inSegment hsegment,
          beforeComment_cons hcomment, List.append_cons current t (beforeComment ts)]
        exact ih (current ++ [t])

/-- Only an empty segment after a last delimiter is left out. -/
theorem woven_segments (ts : List Token) :
    Woven (segments ts ++ if endsWithDelimiter ts then [[]] else []) (delimiters ts)
      (beforeComment ts) := by
  cases ts with
  | nil => exact .none
  | cons t ts =>
    have hleft : leftOut [] (t :: ts) = if endsWithDelimiter (t :: ts) then [[]] else [] := by
      rw [leftOut, endsWithDelimiter, List.getLast?_cons]
      rfl
    rw [← hleft]
    exact (woven_segmentsFrom [] (t :: ts)).2

/-! ## Groups -/

/-- The token with another text and other tokens inside, if it is a group. -/
def Token.refill (text : Text → Text) (inner : List Token → List Token) : Token → Token
  | .word w => .word w
  | .group t e ts => .group (text t) e (inner ts)

section
variable (text : Text → Text) (inner : List Token → List Token)

theorem Token.isDelimiter_refill (t : Token) :
    (t.refill text inner).isDelimiter = t.isDelimiter := by
  cases t <;> rfl

theorem Token.isComment_refill (t : Token) : (t.refill text inner).isComment = t.isComment := by
  cases t <;> rfl

/-- What stands in the groups has no part in where the list is cut. -/
theorem segmentsFrom_refill (current ts : List Token) :
    segmentsFrom (current.map (Token.refill text inner)) (ts.map (Token.refill text inner)) =
      (segmentsFrom current ts).map (List.map (Token.refill text inner)) := by
  induction ts generalizing current with
  | nil => cases current <;> rfl
  | cons t ts ih =>
    have hnext := ih (current ++ [t])
    rw [List.map_append] at hnext
    rw [List.map_cons, segmentsFrom, segmentsFrom, Token.isDelimiter_refill,
      Token.isComment_refill, apply_ite (List.map _), apply_ite (List.map _), List.map_cons,
      List.map_singleton, ← ih [], ← hnext]
    rfl

end

/-! ## The law of the cuts -/

/-- **Segments, exactly.** No segment holds a delimiter or a comment. The segments with the
    delimiters between them are the tokens before the comment, but for the empty segment
    after a last delimiter of a list without comment, which is left out. What stands inside
    the groups does not change the cuts. -/
theorem segments_exact (ts : List Token) :
    (∀ part ∈ segments ts, ∀ t ∈ part, t.InSegment) ∧
    Woven (segments ts ++ if endsWithDelimiter ts then [[]] else []) (delimiters ts)
      (beforeComment ts) ∧
    ∀ text inner, segments (ts.map (Token.refill text inner)) =
      (segments ts).map (List.map (Token.refill text inner)) :=
  ⟨inSegment_of_mem_segmentsFrom (by simp), woven_segments ts,
    fun text inner => segmentsFrom_refill text inner [] ts⟩

-- The delimiter before the comment has its empty segment; the one at the end has not.
example : segments [.word "a", Token.separator, .word ";"] = [[.word "a"], []] := by decide

example : segments [.word "a", Token.separator] = [[.word "a"]] := by decide

end LlvmAsm
