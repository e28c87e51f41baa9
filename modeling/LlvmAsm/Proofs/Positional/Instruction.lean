/-
  Instructions by position.

  The readers of instructions, with the registry at hand and with every slice, element and
  removal by its position. What holds when a reading gets to an access, such as that a line has
  a token with a certain number, puts the access in range: each reader comes to the one of the
  same name.
  The only one that may break off is `branch` (`branch_eq`): the condition ends at the first
  comma of the line, and that may stand before it begins.
-/
import LlvmAsm.Instruction.Access
import LlvmAsm.Instruction.Computation
import LlvmAsm.Instruction.Flow
import LlvmAsm.Proofs.Positional.Operand

namespace LlvmAsm.Positional

open Reading Instruction

/-! ## Tokens that are there -/

section
variable {β : Type} {line : Line} {tokens : List Token} {position : Nat}

/-- What follows a token matters only if the token is there. -/
theorem tokenAt_bind_congr {f g : Token → PositionalReading β}
    (h : ∀ t, tokens[position]? = some t → f t = g t) :
    (liftM (tokenAt line tokens position) >>= f) =
      liftM (tokenAt line tokens position) >>= g := by
  unfold tokenAt
  split
  · rename_i t ht
    rw [liftM_pure, pure_bind, pure_bind, h t ht]
  · rfl

theorem textAt_bind_congr {f g : Text → PositionalReading β}
    (h : position < tokens.length → ∀ w, f w = g w) :
    (liftM (textAt line tokens position) >>= f) =
      liftM (textAt line tokens position) >>= g := by
  rw [textAt, liftM_map, bind_map_left, bind_map_left]
  exact tokenAt_bind_congr fun t ht => h (List.getElem?_eq_some_iff.1 ht).1 t.text

end

/-! ## Memory and aggregates -/

/-- `store [volatile] T value, T* pointer[, align N]` -/
def store (line : Line) : PositionalReading Node := do
  let tokens ← removeWord? "volatile" 2 line.tokens
  let valueType ← textAt line tokens 1
  let parts ← cutBehind? tokens 1
  match parts with
  | first :: second :: _ =>
    let pointerType ← textAt line second 0
    let value ← operand line first
    let pointer ← operand line second
    enter valueType
    enter pointerType
    return ⟨line.number, pointer.ident?, false, .store valueType value pointerType pointer⟩
  | _ => liftM (fail (line.lacks .storeOperands tokens) : Reading Node)

/-- `load [volatile] T* pointer[, align N]` -/
def load (line : Line) : PositionalReading Node := do
  let tokens ← removeWord? "volatile" 2 line.tokens
  let pointerType ← textAt line tokens 1
  let valueType := TypeText.pointee pointerType
  let parts ← cutBehind? tokens 1
  match parts with
  | first :: _ =>
    let pointer ← operand line first
    enter valueType
    enter pointerType
    return ⟨line.number, pointer.ident?, false, .load valueType pointerType pointer⟩
  | [] => liftM (fail (line.lacks .loadPointer tokens) : Reading Node)

/-- `alloca T[, iN count][, align N]` -/
def alloca (line : Line) : PositionalReading Node := do
  let ty ← textAt line line.tokens 1
  enter ty
  return ⟨line.number, none, false,
    .alloca (TypeText.pointerTo ty) ty (allocatedNum line.tokens)⟩

/-- The position of the first token that spells a type. -/
def typePosition? : List Token → Option (Option Nat)
  | [] => some none
  | t :: ts => do
    if ← isType? t.text then return some 0
    else return (← typePosition? ts).map (· + 1)

/-- The position of the comment, or the end of the tokens. -/
def commentPosition (tokens : List Token) : Nat := (findWord? ";" tokens).getD tokens.length

/-- `getelementptr [inbounds] T* base, indexes...` -/
def elementPointer (line : Line) : PositionalReading Node := do
  let tokens := line.tokens
  let last := commentPosition tokens
  match ← typePosition? (← slice? tokens 0 last) with
  | none => liftM (fail (line.lacks .addressBase tokens) : Reading Node)
  | some first =>
    let operands := Token.group [] .paren (← slice? tokens first last)
    let base ← tokens[first]?
    let e ← expression line [base, .word "getelementptr", operands]
    return ⟨line.number, e.ident, false, .elementPointer "*" e.params⟩

/-- `extractvalue T aggregate, index...`. There are no indexes if the comment comes before
    their place. -/
def extractValue (line : Line) : PositionalReading Node := do
  let ty ← textAt line line.tokens 1
  let aggregate ← textAt line line.tokens 2
  let indexes := (slice? line.tokens 4 (commentPosition line.tokens)).getD []
  enter ty
  return ⟨line.number, none, false,
    .extractValue ty aggregate ((indexes.filter (!·.isSeparator)).map Token.text)⟩

section
variable (line : Line)

theorem store_eq : store line = liftM (Instruction.store line) := by
  rw [store, Instruction.store, removeWord?_eq, liftM_some, pure_bind, liftM_bind]
  refine textAt_bind_congr fun hlength valueType => ?_
  rw [cutBehind?_eq (Nat.le_of_lt hlength), liftM_some, pure_bind]
  generalize segments _ = parts
  match parts with
  | [] | [_] => rfl
  | first :: second :: _ => simp only [liftM_bind, liftM_pure, liftM_note, operand_eq]

theorem load_eq : load line = liftM (Instruction.load line) := by
  rw [load, Instruction.load, removeWord?_eq, liftM_some, pure_bind, liftM_bind]
  refine textAt_bind_congr fun hlength pointerType => ?_
  rw [cutBehind?_eq (Nat.le_of_lt hlength), liftM_some, pure_bind]
  dsimp only
  generalize segments _ = parts
  cases parts with
  | nil => rfl
  | cons first parts => simp only [liftM_bind, liftM_pure, liftM_note, operand_eq]

theorem alloca_eq : alloca line = liftM (Instruction.alloca line) := by
  rw [alloca, Instruction.alloca]
  simp only [liftM_bind, liftM_pure, liftM_note]

theorem typePosition?_eq (ts : List Token) :
    typePosition? ts = some (ts.findIdx? (TypeText.isType ·.text)) := by
  induction ts with
  | nil => rfl
  | cons t ts ih =>
    rw [typePosition?, isType?_eq, ih, List.findIdx?_cons]
    cases TypeText.isType t.text <;> rfl

theorem commentPosition_eq (tokens : List Token) :
    commentPosition tokens = tokens.findIdx Token.isComment :=
  (List.findIdx_eq_getD_findIdx? (p := Token.isComment)).symm

theorem commentPosition_le (tokens : List Token) : commentPosition tokens ≤ tokens.length := by
  rw [commentPosition_eq]
  exact List.findIdx_le_length

/-- The tokens up to the comment are those before it. -/
theorem take_commentPosition (tokens : List Token) :
    tokens.take (commentPosition tokens) = beforeComment tokens := by
  rw [commentPosition_eq, beforeComment, List.takeWhile_eq_take_findIdx_not]
  simp only [Bool.not_not]

theorem elementPointer_eq : elementPointer line = liftM (Instruction.elementPointer line) := by
  have hlast := commentPosition_le line.tokens
  have hbefore := take_commentPosition line.tokens
  rw [elementPointer, Instruction.elementPointer]
  dsimp only
  rw [slice?_eq (Nat.zero_le _) hlast, List.drop_zero, hbefore, liftM_some, pure_bind,
    typePosition?_eq, liftM_some, pure_bind, List.dropWhile_eq_drop_findIdx_not]
  simp only [Bool.not_not]
  cases hfirst : (beforeComment line.tokens).findIdx? (TypeText.isType ·.text) with
  | none =>
    rw [List.findIdx_eq_length.2 (List.findIdx?_eq_none_iff.1 hfirst), List.drop_length]
  | some first =>
    obtain ⟨hlt, hindex⟩ := List.findIdx?_eq_some_iff_findIdx_eq.1 hfirst
    have hbound : first < commentPosition line.tokens := by
      rw [← hbefore, List.length_take] at hlt
      omega
    have hbase : line.tokens[first]? = some (beforeComment line.tokens)[first] := by
      rw [← List.getElem?_eq_getElem hlt, ← hbefore, List.getElem?_take_of_lt hbound]
    have hoperands : slice? line.tokens first (commentPosition line.tokens) =
        some ((beforeComment line.tokens)[first] :: (beforeComment line.tokens).drop (first + 1)) := by
      rw [slice?_eq (Nat.le_of_lt hbound) hlast, hbefore, List.drop_eq_getElem_cons hlt]
    rw [hindex, List.drop_eq_getElem_cons hlt]
    dsimp only
    rw [hoperands, hbase, liftM_some, pure_bind, liftM_some, pure_bind, liftM_bind, expression_eq]
    simp only [liftM_pure]

theorem extractValue_eq : extractValue line = liftM (Instruction.extractValue line) := by
  have hindexes : (slice? line.tokens 4 (commentPosition line.tokens)).getD [] =
      (beforeComment line.tokens).drop 4 := by
    rw [← take_commentPosition]
    by_cases hle : 4 ≤ commentPosition line.tokens
    · rw [slice?_eq hle (commentPosition_le _), Option.getD_some]
    · rw [slice?, if_neg (hle ·.1), List.drop_eq_nil_of_le (by rw [List.length_take]; omega),
        Option.getD_none]
  rw [extractValue, Instruction.extractValue, hindexes]
  simp only [liftM_bind, liftM_pure, liftM_note]

end

/-! ## Computations -/

/-- `op [flags] [relation] T a, b`. All operands take the type of the result. -/
def operation (line : Line) : PositionalReading Node := do
  let op ← textAt line line.tokens 0
  let tokens ← removeWhile? (Token.isOneOf Vocabulary.overflowFlags) 1 line.tokens
  let (variant, tokens) ←
    if Vocabulary.comparisons.contains op then do
      let relation ← textAt line tokens 1
      pure (some relation, ← remove? tokens 1)
    else pure (none, tokens)
  let parts ← cutBehind? tokens 1
  let params ← operands line (parts.filter (!·.isEmpty))
  let ty ← resultType line tokens op params
  enter ty
  return ⟨line.number, none, false, .operation op variant ty (params.map (·.withType ty))⟩

/-- `bitcast T value to U` -/
def bitcast (line : Line) : PositionalReading Node := do
  let fromType ← textAt line line.tokens 1
  let value ← textAt line line.tokens 2
  let ty ← textAt line line.tokens 4
  enter fromType
  enter ty
  return ⟨line.number, some value, false, .bitcast ty fromType value⟩

section
variable (line : Line)

theorem operation_eq : operation line = liftM (Instruction.operation line) := by
  rw [operation, Instruction.operation, liftM_bind]
  refine textAt_bind_congr fun hlength op => ?_
  rw [removeWords?_eq, liftM_some, pure_bind]
  have htokens : 1 ≤ (dropWordsAt Vocabulary.overflowFlags 1 line.tokens).length := by
    rw [dropWordsAt, List.length_append, List.length_take]
    omega
  dsimp only
  generalize dropWordsAt Vocabulary.overflowFlags 1 line.tokens = tokens at htokens ⊢
  split
  · rw [liftM_bind]
    simp only [liftM_bind]
    refine textAt_bind_congr fun hlength relation => ?_
    have hrest : 1 ≤ (tokens.eraseIdx 1).length := by
      rw [List.length_eraseIdx_of_lt hlength]
      omega
    simp only [remove?_eq hlength, cutBehind?_eq hrest, liftM_some, liftM_pure, pure_bind,
      liftM_note, operands_eq]
  · simp only [cutBehind?_eq htokens, liftM_some, liftM_pure, pure_bind, liftM_bind, liftM_note,
      operands_eq]

theorem bitcast_eq : bitcast line = liftM (Instruction.bitcast line) := by
  rw [bitcast, Instruction.bitcast]
  simp only [liftM_bind, liftM_pure, liftM_note]

end

/-! ## Flow of control -/

/-- `br label %dest` or `br i1 condition, label %true, label %false` -/
def branch (line : Line) : PositionalReading Node := do
  let tokens := line.tokens
  let target ← tokenAt line tokens 1
  if target.is "label" then
    let label ← textAt line tokens 2
    return ⟨line.number, none, false, .branch (.unconditional label)⟩
  else
    match tokens.findIdx? Token.isSeparator with
    | none => liftM (fail (line.lacks .branchLabels tokens) : Reading Node)
    | some comma =>
      let condition ← operand line (← slice? tokens 1 comma)
      let labelTrue ← textAt line tokens (comma + 2)
      let labelFalse ← textAt line tokens (comma + 5)
      return ⟨line.number, none, false, .branch (.conditional condition labelTrue labelFalse)⟩

/-- `ret void` or `ret T value` -/
def ret (line : Line) : PositionalReading Node := do
  let ty ← textAt line line.tokens 1
  let value ←
    if TypeText.isVoid ty then pure none
    else do
      match ← cutBehind? line.tokens 1 with
      | part :: _ => if 1 < part.length then some <$> operand line part else pure none
      | [] => pure none
  enter ty
  return ⟨line.number, none, false, .ret ty value⟩

/-- The case of a switch has fewer than five tokens, or no comma in third place. -/
def isMalformedCase? (case : List Token) : Option Bool :=
  if case.length < 5 then some true else (!·.isSeparator) <$> case[2]?

/-- The cases of a switch, five tokens each. -/
def switchCases (line : Line) (table : List Token) : PositionalReading (List SwitchCase) :=
  if table.isEmpty then pure []
  else do
    let case := table.take 5
    if ← isMalformedCase? case then
      liftM (fail (line.lacks .switchCase case) : Reading (List SwitchCase))
    else
      let value ← case[1]?
      let label ← case[4]?
      let cases ← switchCases line (table.drop 5)
      return ⟨value.text, label.text⟩ :: cases
termination_by table.length
decreasing_by
  rename_i htable
  have := List.length_pos_iff.2 (mt List.isEmpty_iff.2 htable)
  rw [List.length_drop]
  omega

/-- `switch T value, label %default [ T v, label %dest ... ]` -/
def switch (line : Line) : PositionalReading Node := do
  let ty ← textAt line line.tokens 1
  let value ← textAt line line.tokens 2
  let defaultLabel ← textAt line line.tokens 5
  let table := (line.tokens[6]?.bind (Token.innerOf? .bracket)).getD []
  let cases ← switchCases line table
  enter ty
  return ⟨line.number, some value, false, .switch ty value defaultLabel cases⟩

/-- `indirectbr T* address, [ label %a, label %b ]` -/
def indirectBranch (line : Line) : PositionalReading Node := do
  let ty ← textAt line line.tokens 1
  match ← cutBehind? line.tokens 1 with
  | first :: _ =>
    let pointer ← operand line first
    let inner := (line.tokens.findSome? (Token.innerOf? .bracket)).getD []
    let destinations := (splitCommas inner).filterMap fun part => part.getLast?.map Token.text
    enter ty
    return ⟨line.number, pointer.ident?, false, .indirectBranch ty pointer destinations⟩
  | [] => liftM (fail (line.lacks .branchAddress line.tokens) : Reading Node)

/-- The incoming edges of a phi, each from the tokens between its brackets. -/
def incoming (line : Line) (ty : Token) : List (List Token) → PositionalReading (List Incoming)
  | [] => pure []
  | inner :: rest => do
    match splitCommas inner with
    | value :: (label :: _) :: _ =>
      let value ← operand line (ty :: value)
      let edges ← incoming line ty rest
      return ⟨label.text, value⟩ :: edges
    | _ => liftM (fail (line.lacks .phiEntry inner) : Reading (List Incoming))

/-- `phi T [ value, %label ], ...` -/
def phi (line : Line) : PositionalReading Node := do
  let ty ← tokenAt line line.tokens 1
  let rest ← slice? line.tokens 2 line.tokens.length
  let edges ← incoming line ty ((beforeComment rest).filterMap (Token.innerOf? .bracket))
  enter ty.text
  return ⟨line.number, none, false, .phi ty.text edges⟩

/-- The line begins with a comma, and its second token is another word than `label`: the
    condition of the branch would end before it begins. -/
def isReversed (line : Line) : Bool :=
  match line.tokens with
  | first :: target :: _ => first.isSeparator && !target.is "label"
  | _ => false

section
variable (line : Line)

/-- **A branch breaks off iff its condition ends before it begins.** -/
theorem branch_eq :
    branch line = if isReversed line then failure else liftM (Instruction.branch line) := by
  rw [branch, Instruction.branch, isReversed]
  match line.tokens with
  | [] | [_] => rfl
  | first :: target :: rest =>
    have htarget : tokenAt line (first :: target :: rest) 1 = pure target := rfl
    dsimp only
    rw [htarget, liftM_pure, pure_bind, pure_bind, List.findIdx?_cons]
    by_cases hlabel : target.is "label" = true
    · rw [if_pos hlabel, if_pos hlabel, if_neg (by rw [hlabel, Bool.not_true, Bool.and_false]; decide)]
      simp only [liftM_bind, liftM_pure]
    rw [if_neg hlabel, if_neg hlabel]
    by_cases hfirst : first.isSeparator = true
    · rw [if_pos hfirst, if_pos (by rw [hfirst, Bool.eq_false_iff.2 hlabel]; rfl)]
      rfl
    rw [if_neg hfirst, if_neg (by rw [Bool.eq_false_iff.2 hfirst, Bool.false_and]; decide)]
    cases hcomma : (target :: rest).findIdx? Token.isSeparator with
    | none => rfl
    | some position =>
      have hlt : position < (target :: rest).length :=
        (List.findIdx?_eq_some_iff_findIdx_eq.1 hcomma).1
      have hcondition : slice? (first :: target :: rest) 1 (position + 1) =
          some (((first :: target :: rest).take (position + 1)).drop 1) :=
        slice?_eq (by omega) (Nat.succ_le_succ (Nat.le_of_lt hlt))
      simp only [Option.map_some, hcondition, liftM_some, pure_bind, liftM_bind, liftM_pure,
        operand_eq]

theorem ret_eq : ret line = liftM (Instruction.ret line) := by
  rw [ret, Instruction.ret, liftM_bind]
  refine textAt_bind_congr fun hlength ty => ?_
  dsimp only
  split
  · simp only [liftM_bind, liftM_pure, liftM_note]
  rw [cutBehind?_eq (Nat.le_of_lt hlength), liftM_some, pure_bind]
  generalize segments _ = parts
  match parts with
  | [] => simp only [liftM_bind, liftM_pure, liftM_note]
  | [] :: _ | [_] :: _ =>
    simp only [liftM_bind, liftM_pure, liftM_note]
    exact if_neg (by simp)
  | (t :: u :: ts) :: _ =>
    dsimp only
    rw [if_pos (by simp)]
    simp only [liftM_bind, liftM_pure, liftM_map, liftM_note, operand_eq]

theorem switchCases_cons (ty value comma word label : Token) (rest : List Token) :
    switchCases line (ty :: value :: comma :: word :: label :: rest) =
      if !comma.isSeparator then
        liftM (fail (line.lacks .switchCase [ty, value, comma, word, label]) :
          Reading (List SwitchCase))
      else do
        let cases ← switchCases line rest
        return ⟨value.text, label.text⟩ :: cases := by
  rw [switchCases]
  rfl

theorem switchCases_eq (table : List Token) :
    switchCases line table = liftM (Instruction.switchCases line table) := by
  fun_induction Instruction.switchCases line table with
  | case1 =>
    rw [switchCases]
    rfl
  | case2 ty value comma word label rest hcomma ih =>
    rw [switchCases_cons, if_neg (by rw [hcomma]; decide), ih]
    simp only [liftM_bind, liftM_pure]
  | case3 ty value comma word label rest hcomma =>
    rw [switchCases_cons, if_pos (by rw [Bool.eq_false_iff.2 hcomma]; rfl)]
  | case4 table hne hshort =>
    rcases table with _ | ⟨ty, _ | ⟨value, _ | ⟨comma, _ | ⟨word, _ | ⟨label, rest⟩⟩⟩⟩⟩
    case nil => exact absurd rfl hne
    case cons.cons.cons.cons.cons => exact absurd rfl (hshort ty value comma word label rest)
    all_goals
      rw [switchCases]
      rfl

theorem switch_eq : switch line = liftM (Instruction.switch line) := by
  rw [switch, Instruction.switch]
  simp only [liftM_bind, liftM_pure, liftM_note, switchCases_eq]

theorem indirectBranch_eq : indirectBranch line = liftM (Instruction.indirectBranch line) := by
  rw [indirectBranch, Instruction.indirectBranch, liftM_bind]
  refine textAt_bind_congr fun hlength ty => ?_
  rw [cutBehind?_eq (Nat.le_of_lt hlength), liftM_some, pure_bind]
  generalize segments _ = parts
  cases parts with
  | nil => rfl
  | cons first parts => simp only [liftM_bind, liftM_pure, liftM_note, operand_eq]

theorem incoming_eq (ty : Token) (edges : List (List Token)) :
    incoming line ty edges = liftM (Instruction.incoming line ty edges) := by
  induction edges with
  | nil => rfl
  | cons inner edges ih =>
    rw [incoming, Instruction.incoming]
    generalize splitCommas inner = parts
    match parts with
    | [] | [_] | _ :: [] :: _ => rfl
    | value :: (label :: _) :: _ => simp only [liftM_bind, liftM_pure, operand_eq, ih]

theorem phi_eq : phi line = liftM (Instruction.phi line) := by
  rw [phi, Instruction.phi, liftM_bind]
  refine tokenAt_bind_congr fun ty hty => ?_
  have hlength : 1 < line.tokens.length := (List.getElem?_eq_some_iff.1 hty).1
  rw [slice?_length hlength, liftM_some, pure_bind]
  simp only [liftM_bind, liftM_pure, liftM_note, incoming_eq]

end

end LlvmAsm.Positional
