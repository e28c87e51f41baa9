/-
  Comments behind statements.

  The readers of statements look for their operands in many ways: by position, at the
  first comma or group, up to a certain word. None of them looks behind the semicolon
  of a comment for a value that the tokens before it give, except that an `alloca` may
  take its count from there, and an `indirectbr` its table.

  * one lemma for each statement: its node is kept when a comment follows;
  * `fits_commented`: so is the category of five tokens or more;
  * `comment_irrelevant` puts them together.
-/
import LlvmAsm.Proofs.Commented
import LlvmAsm.Proofs.Statement

namespace LlvmAsm

open Reading

/-! ## Instructions -/

namespace Instruction

section
variable (line line' : Line)

theorem kept_typeOfOperand (tokens tokens' : List Token) (op : Text) (params : List Operand)
    (index : Nat) :
    (typeOfOperand line tokens op params index).Kept
      (typeOfOperand line' tokens' op params index) := by
  unfold typeOfOperand
  split
  · exact Kept.refl _
  · exact refinedBy_fail _ _

theorem kept_resultType (tokens tokens' : List Token) (op : Text) (params : List Operand) :
    (resultType line tokens op params).Kept (resultType line' tokens' op params) := by
  unfold resultType
  split
  · refine (kept_typeOfOperand _ _ _ _ _ _ _).bind fun ty => ?_
    refine (kept_typeOfOperand _ _ _ _ _ _ _).bind fun ty' => ?_
    split
    · exact Kept.refl _
    · exact refinedBy_fail _ _
  · split
    · exact kept_typeOfOperand _ _ _ _ _ _ _
    · exact kept_typeOfOperand _ _ _ _ _ _ _

theorem kept_switchCases (table : List Token) :
    (switchCases line table).Kept (switchCases line' table) := by
  fun_induction switchCases line table
  case case1 => exact Kept.refl _
  case case2 ty value comma word label rest hcomma ih =>
    rw [switchCases, if_pos hcomma]
    exact ih.bind fun cases => Kept.refl _
  case case3 => exact refinedBy_fail _ _
  case case4 => exact refinedBy_fail _ _

theorem kept_incoming (ty : Token) (edges : List (List Token)) :
    (incoming line ty edges).Kept (incoming line' ty edges) := by
  induction edges with
  | nil => exact Kept.refl _
  | cons inner rest ih =>
    rw [incoming, incoming]
    split
    · exact (kept_operand _ _ _).bind fun value => ih.bind fun edges => Kept.refl _
    · exact refinedBy_fail _ _

end

section
variable {ts ts' : List Token} (h : Commented ts ts') (line : Line)
include h

theorem kept_store :
    (store { line with tokens := ts }).Kept (store { line with tokens := ts' }) := by
  have htokens := h.dropWord (w := "volatile") (by decide) 2
  refine (htokens.textAt _ _ 1).bind_ok fun valueType hvalue => ?_
  obtain ⟨more, hmore, -⟩ := (htokens.drop (Nat.le_of_lt (lt_length_of_textAt hvalue))).segments
  dsimp only
  rw [hmore]
  split
  · rename_i hsegments
    rw [hsegments]
    refine (kept_textAt _ _ fun _ => id).bind fun pointerType => ?_
    refine (kept_operand _ _ _).bind fun value => (kept_operand _ _ _).bind fun pointer => ?_
    exact Kept.refl _
  · exact refinedBy_fail _ _

theorem kept_load :
    (load { line with tokens := ts }).Kept (load { line with tokens := ts' }) := by
  have htokens := h.dropWord (w := "volatile") (by decide) 2
  refine (htokens.textAt _ _ 1).bind_ok fun pointerType hpointer => ?_
  obtain ⟨more, hmore, -⟩ := (htokens.drop (Nat.le_of_lt (lt_length_of_textAt hpointer))).segments
  dsimp only
  rw [hmore]
  split
  · rename_i hsegments
    rw [hsegments]
    exact (kept_operand _ _ _).bind fun pointer => Kept.refl _
  · exact refinedBy_fail _ _

theorem kept_elementPointer :
    (elementPointer { line with tokens := ts }).Kept
      (elementPointer { line with tokens := ts' }) := by
  unfold elementPointer
  dsimp only
  rw [h.beforeComment, h.self.beforeComment]
  split
  · exact (kept_expression _ _ _ _).bind fun e => Kept.refl _
  · exact refinedBy_fail _ _

theorem kept_extractValue :
    (extractValue { line with tokens := ts }).Kept
      (extractValue { line with tokens := ts' }) := by
  refine (h.textAt _ _ 1).bind fun ty => (h.textAt _ _ 2).bind fun aggregate => ?_
  dsimp only
  rw [h.beforeComment, h.self.beforeComment]
  exact Kept.refl _

theorem kept_operation :
    (operation { line with tokens := ts }).Kept (operation { line with tokens := ts' }) := by
  have hflags : [';'] ∉ Vocabulary.overflowFlags := by decide
  have htokens := h.dropWordsAt hflags 1
  refine (h.textAt _ _ 0).bind_ok fun op hop => ?_
  have hlength := le_length_dropWordsAt Vocabulary.overflowFlags (lt_length_of_textAt hop)
  dsimp only
  split
  · refine (htokens.textAt _ _ 1).bind_ok fun relation hrelation => ?_
    have hposition := lt_length_of_textAt hrelation
    have hlength' : 1 ≤ ((dropWordsAt Vocabulary.overflowFlags 1 ts).eraseIdx 1).length := by
      rw [List.length_eraseIdx_of_lt hposition]
      omega
    refine (((htokens.eraseIdx hposition).drop hlength').kept_operands _ _).bind fun params => ?_
    exact (kept_resultType _ _ _ _ _ _).bind fun ty => Kept.refl _
  · refine ((htokens.drop hlength).kept_operands _ _).bind fun params => ?_
    exact (kept_resultType _ _ _ _ _ _).bind fun ty => Kept.refl _

theorem kept_bitcast :
    (bitcast { line with tokens := ts }).Kept (bitcast { line with tokens := ts' }) := by
  refine (h.textAt _ _ 1).bind fun fromType => (h.textAt _ _ 2).bind fun value => ?_
  exact (h.textAt _ _ 4).bind fun ty => Kept.refl _

theorem kept_branch :
    (branch { line with tokens := ts }).Kept (branch { line with tokens := ts' }) := by
  refine (h.tokenAt _ _ 1).bind fun target => ?_
  split
  · exact (h.textAt _ _ 2).bind fun label => Kept.refl _
  · cases hcomma : ts.findIdx? Token.isSeparator with
    | none => exact refinedBy_fail _ _
    | some comma =>
      have htake := h.take (Nat.le_of_lt (List.findIdx?_eq_some_iff_getElem.1 hcomma).1)
      rw [h.findIdx? hcomma]
      cases comma with
      | zero => exact refinedBy_fail _ _
      | succ comma =>
        simp only [htake]
        refine (kept_operand _ _ _).bind fun condition => (h.textAt _ _ _).bind fun labelTrue => ?_
        exact (h.textAt _ _ _).bind fun labelFalse => Kept.refl _

theorem kept_ret : (ret { line with tokens := ts }).Kept (ret { line with tokens := ts' }) := by
  refine (h.textAt _ _ 1).bind_ok fun ty hty => ?_
  obtain ⟨more, hmore, hempty⟩ := (h.drop (Nat.le_of_lt (lt_length_of_textAt hty))).segments
  dsimp only
  split
  · exact Kept.refl _
  · rw [hmore]
    rcases segments (ts.drop 1) with _ | ⟨part, parts⟩
    · rcases more with _ | ⟨part, parts⟩
      · exact Kept.refl _
      · rw [hempty part List.mem_cons_self]
        exact Kept.refl _
    · rcases part with _ | ⟨t, _ | ⟨u, part⟩⟩
      · exact Kept.refl _
      · exact Kept.refl _
      · exact ((kept_operand _ _ _).map some).bind fun value => Kept.refl _

theorem kept_switch :
    (switch { line with tokens := ts }).Kept (switch { line with tokens := ts' }) := by
  refine (h.textAt _ _ 1).bind fun ty => (h.textAt _ _ 2).bind fun value => ?_
  refine (h.textAt _ _ 5).bind_ok fun defaultLabel hlabel => ?_
  dsimp only
  rw [h.bind_getElem? (lt_length_of_textAt hlabel) rfl]
  exact (kept_switchCases _ _ _).bind fun cases => Kept.refl _

/-- The table of labels is the first one on the line, so it has to be there. -/
theorem kept_indirectBranch (htable : ∃ t ∈ ts, (t.innerOf? .bracket).isSome = true) :
    (indirectBranch { line with tokens := ts }).Kept
      (indirectBranch { line with tokens := ts' }) := by
  refine (h.textAt _ _ 1).bind_ok fun ty hty => ?_
  obtain ⟨more, hmore, -⟩ := (h.drop (Nat.le_of_lt (lt_length_of_textAt hty))).segments
  have hfind : ts'.findSome? (Token.innerOf? .bracket) =
      ts.findSome? (Token.innerOf? .bracket) := by
    obtain ⟨inner, hinner⟩ := Option.isSome_iff_exists.1 (List.findSome?_isSome_iff.2 htable)
    obtain ⟨-, c, -, rfl⟩ := h
    rw [List.findSome?_append, hinner, Option.some_or]
  dsimp only
  rw [hmore, hfind]
  split
  · rename_i hsegments
    rw [hsegments]
    exact (kept_operand _ _ _).bind fun pointer => Kept.refl _
  · exact refinedBy_fail _ _

theorem kept_phi : (phi { line with tokens := ts }).Kept (phi { line with tokens := ts' }) := by
  refine (h.tokenAt _ _ 1).bind_ok fun ty hty => ?_
  have hrest := h.drop (List.getElem?_eq_some_iff.1 (getElem?_of_tokenAt hty)).1
  dsimp only
  rw [hrest.beforeComment, hrest.self.beforeComment]
  exact (kept_incoming _ _ _ _).bind fun edges => Kept.refl _

end

/-! ## Calls -/

/-- The same is called, and a comment may follow the arguments. -/
inductive CommentedCallee : Callee → Callee → Prop where
  | named (name : Text) (rest rest' : List Token) (h : Commented rest rest') :
    CommentedCallee (.named name rest) (.named name rest')
  | applied (name : Text) : CommentedCallee (.applied name) (.applied name)

section
variable {ts ts' : List Token} {line line' : Line}

theorem refinedBy_callTarget (h : Commented ts ts')
    (before before' : List Token) (functionType : Text) :
    (callTarget line before functionType ts).RefinedBy
      (fun found found' => found'.1 = found.1 ∧ found'.2.1 = found.2.1 ∧
        Commented found.2.2 found'.2.2)
      (callTarget line' before' functionType ts') := by
  induction ts generalizing ts' functionType with
  | nil => exact refinedBy_fail _ _
  | cons target rest ih =>
    obtain ⟨rest', rfl, hrest⟩ := h.exists_cons
    rw [callTarget, callTarget]
    split
    · exact refinedBy_pure ⟨rfl, rfl, hrest⟩
    split
    · exact refinedBy_fail _ _
    split
    · exact refinedBy_fail _ _
    · exact ih hrest _

theorem refinedBy_callee (h : Commented ts ts') (before before' : List Token) (target : Token) :
    (callee line before target ts).RefinedBy CommentedCallee
      (callee line' before' target ts') := by
  unfold callee
  split
  · cases hclose : ts.findIdx? fun t => t.encloser? = some .paren with
    | none => exact refinedBy_fail _ _
    | some close =>
      have hlength : close + 1 ≤ ts.length := (List.findIdx?_eq_some_iff_getElem.1 hclose).1
      rw [h.findIdx? hclose]
      dsimp only
      rw [h.take hlength]
      refine (kept_expression _ _ _ _).bind fun e => ?_
      exact refinedBy_pure (.named _ _ _ (h.drop hlength))
  split
  · exact refinedBy_pure (.applied _)
  · exact refinedBy_pure (.named _ _ _ h)

end

section
variable {ts ts' : List Token} (h : Commented ts ts') (line : Line)
include h

theorem kept_callSite (us us' : List Token) :
    (callSite { line with tokens := us } ts).Kept (callSite { line with tokens := us' } ts') := by
  by_cases hts : ts = []
  · subst hts
    exact refinedBy_fail _ _
  have htail := h.dropHead hts (·.is "tail")
  unfold callSite
  dsimp only
  generalize (if ts.head?.any (·.is "tail") then ts.tail else ts) = words at *
  generalize (if ts'.head?.any (·.is "tail") then ts'.tail else ts') = words' at *
  rcases words with _ | ⟨word, rest⟩
  · exact refinedBy_fail _ _
  obtain ⟨rest', rfl, -⟩ := htail.exists_cons
  by_cases hword : (!((word :: rest).head?.any fun t => t.is "call" || t.is "invoke")) = true
  · rw [if_pos hword]
    exact refinedBy_fail _ _
  rw [if_neg hword, List.head?_cons, if_neg (by exact hword)]
  have hattributes : [';'] ∉ Vocabulary.parameterAttributes := by decide
  have hconventions : [';'] ∉ Vocabulary.callingConventions := by decide
  have hfound := ((htail.dropWordsAt hattributes 1).dropWordsAt hconventions 1).dropWordsAt
    hattributes 1
  refine (hfound.textAt _ _ 1).bind_ok fun ty hty => ?_
  have hlength := lt_length_of_textAt hty
  rw [hfound.take hlength]
  refine (refinedBy_callTarget (hfound.drop hlength) _ _ _).bind ?_
  rintro ⟨functionType, target, args⟩ ⟨_, _, args'⟩ ⟨rfl, rfl, hargs⟩
  refine (refinedBy_callee hargs _ _ _).bind ?_
  rintro _ _ (⟨name, rest, rest', hrest⟩ | name)
  · dsimp only
    cases hargs : rest.head?.bind (Token.innerOf? .paren) with
    | none => exact refinedBy_fail _ _
    | some args =>
      rw [hrest.head?_bind hargs]
      exact ((kept_parameters _ _ _).map _).bind fun found => Kept.refl _
  · exact Kept.refl _

theorem kept_call :
    (call { line with tokens := ts }).Kept (call { line with tokens := ts' }) :=
  (kept_callSite h line _ _).bind fun _ => Kept.refl _

theorem kept_invoke :
    (invoke { line with tokens := ts }).Kept (invoke { line with tokens := ts' }) := by
  unfold invoke
  dsimp only
  split
  · rename_i normal unwind hnormal hunwind
    have hlength : min normal unwind ≤ ts.length := by
      have := (List.findIdx?_eq_some_iff_getElem.1 hnormal).1
      omega
    have hnormal' : findWord? "to" ts' = some normal := h.findIdx? hnormal
    have hunwind' : findWord? "unwind" ts' = some unwind := h.findIdx? hunwind
    rw [hnormal', hunwind']
    dsimp only
    rw [h.take hlength]
    refine (h.textAt _ _ _).bind fun toLabel => (h.textAt _ _ _).bind fun unwindLabel => ?_
    refine (kept_callSite (Commented.refl fun t ht => ?_) line _ _).bind fun site => Kept.refl _
    exact h.plain t (List.mem_of_mem_take (List.mem_filter.1 ht).1)
  · exact refinedBy_fail _ _

end

end Instruction

/-! ## Definitions -/

namespace Definition

section
variable {ts ts' : List Token} (line line' : Line)

theorem kept_signature (h : Commented ts ts') :
    (signature line ts).Kept (signature line' ts') := by
  refine (h.textAt _ _ 0).bind fun returnType => (h.textAt _ _ 1).bind fun ident => ?_
  cases hinner : ts[2]?.bind (Token.innerOf? .paren) with
  | none => exact refinedBy_fail _ _
  | some inner =>
    obtain ⟨t, ht, hparams⟩ := Option.bind_eq_some_iff.1 hinner
    rw [h.getElem? ht, Option.bind_some, hparams]
    exact (kept_parameters _ _ _).bind fun params => Kept.refl _

theorem kept_variableValue (h : Commented ts ts') (ty : Text) (hlength : 3 < ts.length) :
    (variableValue line ty ts).Kept (variableValue line' ty ts') := by
  have hvalue : ts'[3]? = ts[3]? := h.getElem?_of_lt hlength
  have hrest : Commented (if ts[3]?.any (·.isWord "c") then ts.eraseIdx 3 else ts)
      (if ts'[3]?.any (·.isWord "c") then ts'.eraseIdx 3 else ts') := by
    rw [hvalue]
    split
    · exact h.eraseIdx hlength
    · exact h
  refine (hrest.tokenAt _ _ 3).bind_ok fun value htoken => ?_
  have hposition := (List.getElem?_eq_some_iff.1 (getElem?_of_tokenAt htoken)).1
  rw [(hrest.drop (Nat.le_of_succ_le (Nat.le_of_lt hposition))).headD_segments]
  split
  · exact (kept_expressionOf _ _ _).map _
  · exact kept_initialValue _ _ _ _

/-- No modifier is taken from the comment if a type follows the modifiers. -/
theorem commented_dropModifiers {ty : Token} (h : Commented ts ts')
    (hty : (dropModifiers ts).1[2]? = some ty) :
    Commented (dropModifiers ts).1 (dropModifiers ts').1 ∧
      (dropModifiers ts').2 = (dropModifiers ts).2 := by
  have hmodifiers : [';'] ∉ Vocabulary.globalModifiers := by decide
  have hrest := (h.dropWordsAt hmodifiers 3).dropWordsAt hmodifiers 2
  unfold dropModifiers at hty ⊢
  dsimp only at hty ⊢
  by_cases hlength : 2 < (dropWordsAt Vocabulary.globalModifiers 2
      (dropWordsAt Vocabulary.globalModifiers 3 ts)).length
  · rw [hrest.getElem?_of_lt hlength]
    split
    · exact ⟨(hrest.eraseIdx hlength).dropWordsAt hmodifiers 2, rfl⟩
    · exact ⟨hrest, rfl⟩
  · rw [List.getElem?_eq_none (Nat.le_of_not_lt hlength)] at hty
    exact absurd (List.getElem?_eq_some_iff.1 hty).1 hlength

end

section
variable {ts ts' : List Token} (h : Commented ts ts') (line : Line)
include h

theorem kept_functionHeader :
    (functionHeader { line with tokens := ts }).Kept
      (functionHeader { line with tokens := ts' }) :=
  (kept_signature _ _ (h.filter (by decide))).bind fun _ => Kept.refl _

theorem kept_declaration :
    (declaration { line with tokens := ts }).Kept
      (declaration { line with tokens := ts' }) := by
  rcases ts with _ | ⟨t, ts⟩
  · exact refinedBy_fail _ _
  · have hrest := (h.drop (Nat.le_add_left 1 ts.length)).filter (p := (!isDecoration ·)) (by decide)
    exact (kept_signature _ _ hrest).bind fun _ => Kept.refl _

theorem kept_label :
    (label { line with tokens := ts }).Kept (label { line with tokens := ts' }) := by
  refine Kept.bind ((h.tokenAt _ _ 0).bind fun first => ?_) fun name => Kept.refl _
  split
  · exact Kept.refl _
  · exact (h.textAt _ _ 2).bind fun mark => Kept.refl _

theorem kept_aliasDefinition :
    (aliasDefinition { line with tokens := ts }).Kept
      (aliasDefinition { line with tokens := ts' }) := by
  have hlinkages : [';'] ∉ Vocabulary.linkages := by decide
  have hvisibilities : [';'] ∉ Vocabulary.visibilities := by decide
  have htokens := (h.dropWordsAt hlinkages 3).dropWordsAt hvisibilities 3
  exact (htokens.textAt _ _ 3).bind fun ty => (htokens.textAt _ _ 4).bind fun aliasee => Kept.refl _

theorem kept_typeDefinition (ident : Text) :
    (typeDefinition { line with tokens := ts } ident).Kept
      (typeDefinition { line with tokens := ts' } ident) :=
  (Kept.refl _).bind fun _ => (h.tokenAt _ _ 3).bind fun _ => Kept.refl _

theorem kept_globalVariable (ident : Text) :
    (globalVariable { line with tokens := ts } ident).Kept
      (globalVariable { line with tokens := ts' } ident) := by
  unfold globalVariable
  dsimp only
  cases hty : (dropModifiers ts).1[2]? with
  | none =>
    have hfail : textAt { line with tokens := ts } (dropModifiers ts).1 2 =
        fail (Line.lacks { line with tokens := ts } (.token 2) (dropModifiers ts).1) := by
      rw [textAt, tokenAt, hty]
      rfl
    rw [hfail]
    exact refinedBy_fail _ _
  | some ty =>
    obtain ⟨htokens, hexternal⟩ := commented_dropModifiers h hty
    rw [hexternal]
    generalize (dropModifiers ts).1 = words at *
    generalize (dropModifiers ts').1 = words' at *
    refine (htokens.textAt _ _ 2).bind_ok fun ty hty => (Kept.refl _).bind fun _ => ?_
    have hposition := lt_length_of_textAt hty
    split
    · rw [htokens.bind_getElem? hposition rfl]
      exact Kept.refl _
    · rw [htokens.any_getElem? hposition rfl]
      split
      · rename_i hpresent
        have hlength : 3 < words.length := by
          by_contra hle
          rw [List.getElem?_eq_none (Nat.le_of_not_lt hle)] at hpresent
          cases hpresent
        exact (kept_variableValue _ _ htokens ty hlength).bind fun value => Kept.refl _
      split
      · exact Kept.refl _
      · exact refinedBy_fail _ _

theorem kept_symbol :
    (symbol { line with tokens := ts }).Kept (symbol { line with tokens := ts' }) := by
  refine (h.textAt _ _ 0).bind fun ident => (h.tokenAt _ _ 2).bind fun word => ?_
  dsimp only
  split
  · exact (kept_aliasDefinition h line).bind fun kind => Kept.refl _
  split
  · exact (kept_typeDefinition h line ident).bind fun kind => Kept.refl _
  · exact (kept_globalVariable h line ident).bind fun kind => Kept.refl _

end

end Definition

/-! ## Statements -/

theorem kept_ofCategory {ts ts' : List Token} (h : Commented ts ts') (line : Line) {c : Category}
    (hc : c ≠ .alloca)
    (htable : c = .indirectBranch → ∃ t ∈ ts, (t.innerOf? .bracket).isSome = true) :
    (Statement.ofCategory c { line with tokens := ts }).Kept
      (Statement.ofCategory c { line with tokens := ts' }) := by
  cases c with
  | discard | unreachable | functionEnd => exact Kept.refl _
  | assign => exact refinedBy_fail _ _
  | alloca => exact absurd rfl hc
  | store => exact (Instruction.kept_store h line).map _
  | load => exact (Instruction.kept_load h line).map _
  | elementPointer => exact (Instruction.kept_elementPointer h line).map _
  | extractValue => exact (Instruction.kept_extractValue h line).map _
  | bitcast => exact (Instruction.kept_bitcast h line).map _
  | operation => exact (Instruction.kept_operation h line).map _
  | phi => exact (Instruction.kept_phi h line).map _
  | branch => exact (Instruction.kept_branch h line).map _
  | ret => exact (Instruction.kept_ret h line).map _
  | switch => exact (Instruction.kept_switch h line).map _
  | indirectBranch => exact (Instruction.kept_indirectBranch h line (htable rfl)).map _
  | call => exact (Instruction.kept_call h line).map _
  | invoke => exact (Instruction.kept_invoke h line).map _
  | label => exact (Definition.kept_label h line).map _
  | declaration => exact (Definition.kept_declaration h line).map _
  | functionHeader => exact (Definition.kept_functionHeader h line).map _
  | global => exact (Definition.kept_symbol h line).map _

theorem textAt_of_lt {ts ts' : List Token} (h : Commented ts ts') {i : Nat} (hi : i < ts.length) :
    Category.textAt ts' i = Category.textAt ts i := by
  rw [Category.textAt, Category.textAt, h.getElem?_of_lt hi]

/-- The categories look at the first two tokens and count up to five of them. -/
theorem fits_commented {ts ts' : List Token} (h : Commented ts ts') (hlength : 5 ≤ ts.length)
    (hdefine : Category.textAt ts 0 ≠ "define") (c : Category) :
    c.fits ts' = c.fits ts := by
  have hfirst := textAt_of_lt h (show 0 < ts.length by omega)
  have hsecond := textAt_of_lt h (show 1 < ts.length by omega)
  have hlength' : ts.length ≤ ts'.length := by
    obtain ⟨-, c, -, rfl⟩ := h
    rw [List.length_append]
    omega
  have hcount : ∀ n ≤ 5, decide (ts'.length ≥ n) = decide (ts.length ≥ n) := fun n hn => by
    rw [decide_eq_true (show ts.length ≥ n by omega), decide_eq_true (show ts'.length ≥ n by omega)]
  have hhead : ts'.head? = ts.head? := by
    rw [List.head?_eq_getElem?, List.head?_eq_getElem?, h.getElem?_of_lt (by omega)]
  have hleads : ∀ w, Category.leads w ts' = Category.leads w ts := fun w => by
    rw [Category.leads, Category.leads, hfirst, hsecond]
  have hbegins : ∀ w, Category.begins w ts' = Category.begins w ts := fun w => by
    rw [Category.begins, Category.begins, hfirst]
  cases c with
  | functionHeader =>
    have hno : Category.begins "define" ts = false := decide_eq_false hdefine
    simp only [Category.fits, hbegins, hno, Bool.and_false, Bool.false_and]
  | _ =>
    simp only [Category.fits, h.beforeComment, h.self.beforeComment, hfirst, hsecond, hhead,
      hleads, hbegins, hcount 2 (by decide), hcount 3 (by decide), hcount 4 (by decide),
      hcount 5 (by decide)]

theorem ofLine_commented {ts ts' : List Token} (h : Commented ts ts') (hlength : 5 ≤ ts.length)
    (hdefine : Category.textAt ts 0 ≠ "define") (line : Line) :
    Category.ofLine { line with tokens := ts' } = Category.ofLine { line with tokens := ts } := by
  have hsuits : Category.suits line.indent ts' = Category.suits line.indent ts := by
    funext c
    rw [Category.suits, Category.suits, fits_commented h hlength hdefine]
  unfold Category.ofLine
  dsimp only
  rw [hsuits]

/-- **Comments do not matter to statements.** Let a semicolon and any tokens follow the
    tokens of a line. A node that was read from the line in a category is still read
    from it, with the same types: in any category but that of `alloca`, and in that of
    `indirectbr` if the line has a table of labels. With five tokens or more, the line
    is still of the same category, or of none, unless it defines a function. -/
theorem comment_irrelevant (line : Line) {ts : List Token} (h : ∀ t ∈ ts, t.isComment = false)
    (comment : List Token) :
    (∀ c : Category, c ≠ .alloca →
      (c = .indirectBranch → ∃ t ∈ ts, (t.innerOf? .bracket).isSome = true) →
      ∀ (node : Option Node) (known known' : Registry),
        (Statement.ofCategory c { line with tokens := ts }).run known = (.ok node, known') →
        (Statement.ofCategory c { line with tokens := ts ++ Token.semicolon :: comment }).run
          known = (.ok node, known')) ∧
    (5 ≤ ts.length → Category.textAt ts 0 ≠ "define" →
      Category.ofLine { line with tokens := ts ++ Token.semicolon :: comment } =
        Category.ofLine { line with tokens := ts }) := by
  have hcommented : Commented ts (ts ++ Token.semicolon :: comment) :=
    ⟨h, Token.semicolon :: comment, fun t ht => (Option.some.inj ht).symm, rfl⟩
  refine ⟨fun c hc htable node known known' hrun => ?_, fun hlength hdefine => ?_⟩
  · exact (kept_ofCategory hcommented line hc htable).run hrun
  · exact ofLine_commented hcommented hlength hdefine line

/-- A jump through a table, before a comment that mentions a table and a label of its
    own: the targets are those of the statement, and so is the category. -/
theorem comment_irrelevant_indirectBranch :
    let labels : Token := .group "[label %a]" .bracket [.word "label", .word "%a"]
    let others : Token := .group "[label %b]" .bracket [.word "label", .word "%b"]
    let ts : List Token :=
      [.word "indirectbr", .word "i8*", .word "%p", Token.separator, labels]
    let line : Line := ⟨"indirectbr i8* %p, [label %a] ; to [label %b]", 4, .statement, ts⟩
    let commented : Line := { line with tokens := ts ++ [.word ";", .word "to", others] }
    (Statement.ofCategory .indirectBranch commented).run .empty =
      (.ok (some ⟨4, some "%p".toList, false,
        .indirectBranch "i8*" (.scalar "i8*" "%p" false) ["%a".toList]⟩), ⟨["i8*".toList]⟩) ∧
    Category.ofLine commented = .ok .indirectBranch := by
  intro labels others ts line commented
  have hplain : ∀ t ∈ ts, t.isComment = false := by decide
  obtain ⟨hnode, hcategory⟩ := comment_irrelevant line hplain [.word "to", others]
  have htable : ∃ t ∈ ts, (t.innerOf? .bracket).isSome = true :=
    ⟨labels, by decide, rfl⟩
  have hpointer : operand line [.word "i8*", .word "%p"] =
      (do note "i8*"; return .scalar "i8*" "%p" false) := by
    rw [operand_value rfl]
    rfl
  have hrun : (Statement.ofCategory .indirectBranch line).run .empty =
      (.ok (some ⟨4, some "%p".toList, false,
        .indirectBranch "i8*" (.scalar "i8*" "%p" false) ["%a".toList]⟩), ⟨["i8*".toList]⟩) := by
    have hsegments : segments (line.tokens.drop 1) = [[.word "i8*", .word "%p"], [labels]] := rfl
    rw [Statement.ofCategory, Instruction.indirectBranch, hsegments]
    dsimp only
    rw [hpointer]
    rfl
  exact ⟨hnode .indirectBranch (by decide) (fun _ => htable) _ _ _ hrun,
    (hcategory (by decide) (by decide)).trans rfl⟩

end LlvmAsm
