/-
  Initial values are read as they are meant.

  * `Initializer.element_tokens`: the tokens of a constant and of its type are read as the
    constant, by induction on it;
  * `Initializer.sameAtTop`: at the top, they are read as the element that they are in an
    aggregate;
  * `Listing.ofLines_initializer`: so a line that defines a variable has one node, with the
    constant as its value.
-/
import LlvmAsm.Proofs.Comment
import LlvmAsm.Proofs.Initializer.Token

namespace LlvmAsm

open Reading Token

/-! ## Literals -/

theorem IntLiteral.IsLiteralChar.isLower {c : Char} (h : IsLiteralChar c) : c.isLower = false := by
  rcases h with h | rfl
  · simp only [Char.isDigit, Bool.and_eq_true, decide_eq_true_eq] at h
    refine Bool.and_eq_false_iff.2 (Or.inl (decide_eq_false fun hlower => ?_))
    exact absurd (UInt32.le_trans hlower h.2) (by decide)
  · rfl

namespace Literal

theorem normal_eq_self {t : Text} (hwords : t ∉ (["null", "false", "true"] : List Text))
    (hhex : t.after? "0x" = none) (hnumber : finiteNumber? t = none) : normal t = t := by
  have hzero : ¬(t = "null" ∨ t = "false") := by
    rintro (rfl | rfl) <;> exact hwords (by decide)
  have hone : t ≠ "true" := by
    rintro rfl
    exact hwords (by decide)
  rw [normal, if_neg hzero, if_neg hone, hhex]
  dsimp only
  rw [hnumber]
  rfl

/-- Names with a sigil are no numbers. -/
theorem normal_symbol (name : Text) : normal ('@' :: name) = '@' :: name := by
  refine normal_eq_self (by simp) rfl ?_
  have hdecimal : Decimal.ofText? ('@' :: name) = none := rfl
  rw [finiteNumber?, hdecimal]
  split <;> rfl

theorem normal_local (name : Text) : normal ('%' :: name) = '%' :: name := by
  refine normal_eq_self (by simp) rfl ?_
  have hdecimal : Decimal.ofText? ('%' :: name) = none := rfl
  rw [finiteNumber?, hdecimal]
  split <;> rfl

/-- Integers are in their normal form. -/
theorem normal_intLiteral (l : IntLiteral) : normal l.text = l.text := by
  have hchar : ∀ c ∈ l.text, c ∉ ['n', 'f', 't', 'x', '.', 'e', 'E'] := fun c hc =>
    (l.isLiteralChar_of_mem hc).not_mem (by decide)
  refine normal_eq_self ?_ ?_ ?_
  · intro hmem
    have hfirst : ∀ w ∈ (["null", "false", "true"] : List Text),
        w.any (fun c => decide (c ∈ ['n', 'f', 't', 'x', '.', 'e', 'E'])) = true := by decide
    obtain ⟨c, hc, hno⟩ := List.any_eq_true.1 (hfirst _ hmem)
    exact hchar c hc (of_decide_eq_true hno)
  · cases hafter : l.text.after? "0x" with
    | none => rfl
    | some rest =>
      have hx : 'x' ∈ l.text := by
        rw [Text.after?_eq_some_iff.1 hafter]
        exact List.mem_append_left _ (by decide)
      exact absurd (by decide) (hchar 'x' hx)
  · refine if_neg ?_
    intro hany
    obtain ⟨c, hc, hno⟩ := List.any_eq_true.1 hany
    refine hchar c hc ?_
    simp only [Bool.or_eq_true, decide_eq_true_eq] at hno
    rcases hno with (rfl | rfl) | rfl <;> decide

end Literal

/-! ## Elements -/

/-- The words that tell a value by themselves, or begin one, start with a small letter. -/
theorem Token.not_keyword {t : Token} (h : ∀ c ∈ t.text.head?, c.isLower = false) :
    t.is "null" = false ∧ t.isEmptyValue = false ∧ t.isExpression = false := by
  have hne : ∀ v ∈ ["null".toList, "zeroinitializer".toList, "undef".toList] ++
      Vocabulary.expressions, t.text ≠ v := by
    intro v hv heq
    have hlower : v.head?.any Char.isLower = true :=
      (by decide : ∀ v ∈ ["null".toList, "zeroinitializer".toList, "undef".toList] ++
        Vocabulary.expressions, v.head?.any Char.isLower = true) v hv
    rw [← heq] at hlower
    cases hhead : t.text.head? with
    | none =>
      rw [hhead] at hlower
      cases hlower
    | some c =>
      rw [hhead, Option.any_some, h c hhead] at hlower
      cases hlower
  refine ⟨decide_eq_false (hne _ (by simp)), ?_, ?_⟩
  · rw [isEmptyValue, Token.is, Token.is, decide_eq_false (hne _ (by simp)),
      decide_eq_false (hne _ (by simp))]
    rfl
  · cases t with
    | group text e inner => rfl
    | word w =>
      rw [Bool.eq_false_iff]
      intro hexpr
      have hw : w ∈ Vocabulary.expressions := by simpa [isExpression, isOneOf] using hexpr
      exact hne w (List.mem_append_right _ hw) rfl

namespace Initializer

section
variable (line : Line) {ty : Token}

/-- A word that is no keyword is a plain value. -/
theorem element_word {w : Text} (h : ∀ c ∈ w.head?, c.isLower = false)
    (hnormal : Literal.normal w = w) :
    element line [ty, word w] = pure (.value ty.text w) := by
  obtain ⟨hnull, hempty, hexpr⟩ := Token.not_keyword (t := word w) h
  rw [element.eq_def]
  simp only [hnull, hempty, hexpr, Bool.false_eq_true, if_false]
  exact congrArg (fun v => pure (Constant.value ty.text v)) hnormal

theorem element_brace {text : Text} {inner : List Token}
    (h : ∀ c ∈ text.head?, c.isLower = false) :
    element line [ty, group text .brace inner] =
      Constant.struct ty.text <$> elements line (segments inner) := by
  obtain ⟨hnull, hempty, hexpr⟩ := Token.not_keyword (t := group text .brace inner) h
  rw [element.eq_def]
  simp only [hnull, hempty, hexpr, Bool.false_eq_true, if_false]

theorem element_bracket {text : Text} {inner : List Token}
    (h : ∀ c ∈ text.head?, c.isLower = false) :
    element line [ty, group text .bracket inner] =
      Constant.list ty.text <$> elements line (segments inner) := by
  obtain ⟨hnull, hempty, hexpr⟩ := Token.not_keyword (t := group text .bracket inner) h
  rw [element.eq_def]
  simp only [hnull, hempty, hexpr, Bool.false_eq_true, if_false]

/-- The text between the quotes is the text. -/
theorem unquoted_quoted (t : Text) : unquoted ('"' :: t ++ ['"']) = t := by
  have hlast : (t ++ ['"']).getLast? = some '"' := List.getLast?_concat
  show (if (t ++ ['"']).getLast? = some '"' then (t ++ ['"']).dropLast else _) = t
  rw [if_pos hlast, List.dropLast_concat]

theorem element_null : element line [ty, word "null"] = pure (.value ty.text "0") := by
  rw [element.eq_def]
  rfl

theorem element_zero : element line [ty, word "zeroinitializer"] = pure (.emptyStruct ty.text) := by
  rw [element.eq_def]
  rfl

theorem element_chars (t : Text) :
    element line [ty, word ['c'], word ('"' :: t ++ ['"'])] = pure (.string ty.text t) := by
  rw [element.eq_def]
  exact congrArg (fun u => pure (Constant.string ty.text u)) (unquoted_quoted t)

/-- Several constants are read one after the other. -/
theorem elements_tokensAll {cs : List Initializer}
    (h : ∀ c ∈ cs, (element line (c.ty.token :: c.tokens)).result = .ok c.tree) :
    (elements line (tokensAll cs)).result = .ok (treeAll cs) := by
  induction cs with
  | nil =>
    rw [tokensAll, elements]
    rfl
  | cons c cs ih =>
    obtain ⟨hc, hcs⟩ := List.forall_mem_cons.1 h
    rw [tokensAll, elements, result_bind_ok hc, result_bind_ok (ih hcs)]
    rfl

/-- **A constant is read as it is meant**: the reader finds the tree of a constant in the
    tokens of its type and its text. -/
theorem element_tokens (c : Initializer) :
    (element line (c.ty.token :: c.tokens)).result = .ok c.tree := by
  induction c using Initializer.induction with
  | int bits literal =>
    have hlower : ∀ c ∈ literal.text.head?, c.isLower = false := fun c hc =>
      (literal.isLiteralChar_of_mem (List.mem_of_head? hc)).isLower
    rw [tokens, element_word line hlower (Literal.normal_intLiteral literal), Ty.text_token]
    rfl
  | null T =>
    rw [tokens, element_null, Ty.text_token]
    rfl
  | symbol T name =>
    rw [tokens, element_word line (by rintro _ ⟨⟩; rfl) (Literal.normal_symbol name.text),
      Ty.text_token]
    rfl
  | zero T =>
    rw [tokens, element_zero, Ty.text_token]
    rfl
  | chars length content =>
    rw [tokens, element_chars, Ty.text_token]
    rfl
  | struct T first rest hfirst hrest =>
    have hmembers := elements_tokensAll line (List.forall_mem_cons.2 ⟨hfirst, hrest⟩)
    rw [← segments_tokensAll] at hmembers
    rw [tokens, braceGroup, element_brace line (by rintro _ ⟨⟩; rfl), Ty.text_token, result_map]
    exact congrArg (Except.map _) hmembers
  | array length elementTy elements helements =>
    have hmembers := elements_tokensAll line helements
    rw [← segments_tokensAll] at hmembers
    rw [tokens, element_bracket line (by rintro _ ⟨⟩; rfl), Ty.text_token, result_map, hmembers]
    rfl

end

theorem sameAtTop_word {ty w : Text} (h : ∀ c ∈ w.head?, c.isLower = false)
    (hscalar : TypeText.IsScalar ty) : SameAtTop ty (word w) [] := by
  obtain ⟨hnull, hempty, hexpr⟩ := Token.not_keyword (t := word w) h
  have hc : (word w).isWord "c" = false := by
    refine decide_eq_false ?_
    rintro rfl
    exact absurd (h 'c' rfl) (by decide)
  unfold SameAtTop
  rw [hnull, hempty, hexpr]
  exact ⟨hscalar, hc⟩

theorem sameAtTop_group {ty text : Text} {e : Encloser} {inner rest : List Token}
    (h : ∀ c ∈ text.head?, c.isLower = false) (he : e = .brace ∨ e = .bracket)
    (hscalar : ¬TypeText.IsScalar ty) : SameAtTop ty (group text e inner) rest := by
  obtain ⟨hnull, hempty, hexpr⟩ := Token.not_keyword (t := group text e inner) h
  unfold SameAtTop
  rw [hnull, hempty, hexpr]
  rcases he with rfl | rfl
  · exact hscalar
  · exact hscalar

/-- **A constant at the top is the element** with the same tokens. -/
theorem sameAtTop (c : Initializer) :
    ∃ head rest, c.tokens = head :: rest ∧ SameAtTop c.ty.print head rest := by
  cases c with
  | int bits literal =>
    have hlower : ∀ c ∈ literal.text.head?, c.isLower = false := fun c hc =>
      (literal.isLiteralChar_of_mem (List.mem_of_head? hc)).isLower
    refine ⟨_, _, rfl, sameAtTop_word hlower (Ty.isScalar_print_int bits)⟩
  | null T => exact ⟨_, _, rfl, T.2.isScalar_print⟩
  | symbol T name =>
    exact ⟨_, _, rfl, sameAtTop_word (by rintro _ ⟨⟩; rfl) T.2.isScalar_print⟩
  | zero T => exact ⟨_, _, rfl, T.2.not_isScalar_print⟩
  | chars length content =>
    have hscalar : ¬TypeText.IsScalar (Ty.array length (.int 8)).print :=
      Ty.IsAggregate.not_isScalar_print trivial
    exact ⟨_, _, rfl, hscalar, rfl, rfl⟩
  | struct T first rest =>
    exact ⟨_, _, rfl, sameAtTop_group (by rintro _ ⟨⟩; rfl) (Or.inl rfl)
      T.2.isAggregate.not_isScalar_print⟩
  | array length elementTy elements =>
    exact ⟨_, _, rfl, sameAtTop_group (by rintro _ ⟨⟩; rfl) (Or.inr rfl)
      (Ty.IsAggregate.not_isScalar_print trivial)⟩

end Initializer

/-! ## The line of a variable -/

/-- No type is a modifier of a variable. -/
theorem Ty.isTypeToken_token (T : Ty) : Definition.IsTypeToken T.token :=
  Definition.isTypeToken_of_isType (by rw [T.text_token, T.isType_print])

/-- A line that begins with a name is a logical line of its own. -/
theorem Outline.ofLines_sigil {c : Char} (hc : c = '%' ∨ c = '@') (deferred : Bool) (base : Nat)
    (rest : Text) :
    (ofLines deferred base [c :: rest]).result = .ok ⟨[⟨c :: rest, base + 1⟩], []⟩ := by
  have hchar : isBlank c = false ∧ c ≠ 'd' ∧ c ≠ ' ' := by rcases hc with rfl | rfl <;> decide
  obtain ⟨hblank, hdefine, hspace⟩ := hchar
  have hfunction : opensFunction (c :: rest) = false := by
    simp [opensFunction, Text.startsWith, Text.after?, hdefine.symm]
  have htable : opensTable (c :: rest) = false := by
    simp [opensTable, Text.afterSpaces?, hspace]
  have hstep : Progress.start.step deferred (base + 1) (c :: rest) =
      pure ⟨[⟨c :: rest, base + 1⟩], [], none, false⟩ := by
    have hstatement : Progress.start.statementStep (base + 1) (c :: rest) =
        ⟨[⟨c :: rest, base + 1⟩], [], none, false⟩ := by
      simp [Progress.statementStep, Progress.start, Text.allBlank, hblank, htable]
    rw [Progress.step, hfunction, Bool.and_false]
    exact congrArg pure hstatement
  rw [ofLines, Progress.run, hstep]
  rfl

/-- A line that begins with the name of a symbol is a logical line of its own. -/
theorem Outline.ofLines_symbol (deferred : Bool) (base : Nat) (rest : Text) :
    (ofLines deferred base ['@' :: rest]).result = .ok ⟨[⟨'@' :: rest, base + 1⟩], []⟩ :=
  ofLines_sigil (Or.inr rfl) deferred base rest

/-- A name does not end in characters that are in no name. -/
theorem PlainName.not_endsWith (name : PlainName) {mark : Text} {c d : Char} (hmark : d ∈ mark)
    (hd : isNameChar d = false) (hc : c ≠ d) : Text.endsWith (c :: name.text) mark = false :=
  Text.endsWith_eq_false hmark (List.not_mem_cons_of_ne_of_not_mem hc.symm (name.not_mem_text hd))

theorem PlainName.not_endsWith_colon (name : PlainName) {c : Char} (hc : c = '%' ∨ c = '@') :
    Text.endsWith (c :: name.text) [':'] = false := by
  refine name.not_endsWith List.mem_cons_self (by decide) ?_
  rcases hc with rfl | rfl <;> decide

/-- An equals sign behind a name defines it. -/
theorem Category.ofLine_global {line : Line} {name : PlainName} {c : Char} {rest : List Token}
    (hc : c = '%' ∨ c = '@') (hindent : line.indent = .topLevel)
    (htokens : line.tokens = word (c :: name.text) :: word "=" :: rest) (hrest : rest ≠ []) :
    ofLine line = .ok .global := by
  have hlabel : suits .topLevel line.tokens label = false := by
    rw [suits, fits, htokens]
    simp [text, textAt, isGroup, name.not_endsWith_colon hc]
  have hdeclaration : suits .topLevel line.tokens declaration = false := by
    have hdeclare : c ≠ 'd' := by rcases hc with rfl | rfl <;> decide
    rw [suits, fits, htokens]
    simp [begins, textAt, text, hdeclare]
  have hglobal : suits .topLevel line.tokens global = true := by
    rw [suits, fits, htokens]
    have := List.length_pos_of_ne_nil hrest
    simp [indent?, textAt, text]
    omega
  rw [ofLine_eq_ok, hindent, find?_all_topLevel, List.find?_cons_of_neg (by simp [hlabel]),
    List.find?_cons_of_neg (by simp [hdeclaration]), List.find?_cons_of_pos hglobal]

namespace Initializer

variable (name : PlainName) (c : Initializer)

/-- The line that defines a variable with the constant as its value. -/
def line : Text :=
  '@' :: name.text ++ " = global " ++ c.ty.print ++ ' ' :: c.print

/-- The tokens of the line. -/
def lineTokens : List Token :=
  Definition.globalTokens (word ('@' :: name.text)) c.ty.token c.tokens

theorem yields_line : Yields (line name c) (lineTokens name c) := by
  have hequals : Yields "=" [word "="] :=
    yields_keyword (w := "=") (c := '=') rfl (by decide) (by decide) (by decide)
  have hglobal : Yields "global" [word "global"] :=
    yields_keyword (w := "global") (c := 'g') rfl (by decide) (by decide) (by decide)
  have hty : Yields c.ty.print [c.ty.token] := by
    simpa using c.ty.yields_print (List.forall_mem_nil _)
  have := name.yields_symbol.append_blank
    (hequals.append_blank (hglobal.append_blank (hty.append_blank c.yields_print)))
  simpa [line, lineTokens, Definition.globalTokens] using this

/-- The line is read as the definition of the variable. -/
theorem result_ofLogicalLine (hname : '@' :: name.text ≠ Definition.constructorsName)
    (number : Nat) :
    (Statement.ofLogicalLine ⟨line name c, number⟩).result =
      .ok (some ⟨number, some ('@' :: name.text), false,
        .globalVariable c.ty.print false (some c.tree) none⟩) := by
  have hline : Line.ofText (line name c) number =
      .ok ⟨(line name c).trim, number, .topLevel, lineTokens name c⟩ := by
    rw [Line.ofText, tokensOf_eq_ok.2 (yields_line name c).tokenize]
    rfl
  have hcategory : Category.ofLine ⟨(line name c).trim, number, .topLevel, lineTokens name c⟩ =
      .ok .global := Category.ofLine_global (Or.inr rfl) rfl rfl (List.cons_ne_nil _ _)
  obtain ⟨head, rest, htokens, hsame⟩ := c.sameAtTop
  have hsegment : ∀ t ∈ c.ty.token :: head :: rest, t.InSegment := by
    intro t ht
    rw [← htokens] at ht
    rcases List.mem_cons.1 ht with rfl | ht
    · exact c.ty.isContent_token.inSegment
    · exact (c.isContent_of_mem_tokens t ht).inSegment
  have hhead : head.InSegment := hsegment head (List.mem_cons_of_mem _ List.mem_cons_self)
  have hword : (word ('@' :: name.text)).text ≠ Definition.constructorsName := hname
  have helement := c.element_tokens ⟨(line name c).trim, number, .topLevel, lineTokens name c⟩
  rw [htokens] at helement
  rw [← Ty.text_token] at hsame
  rw [Statement.result_ofText hline, Statement.result_of_category hcategory (by decide),
    lineTokens, htokens,
    Definition.result_global c.ty.isTypeToken_token hword hhead rest,
    (variableValue_eq_element_iff _ _ hsegment helement).2 hsame, Ty.text_token]
  rfl

end Initializer

/-- **Initial values survive.** The line that defines a variable has one node, whose type is
    the type and whose value is the constant that the line spells, at every depth. -/
theorem Listing.ofLines_initializer (c : Initializer) (name : PlainName)
    (hname : '@' :: name.text ≠ Definition.constructorsName) (deferred : Bool) (base : Nat) :
    (Listing.ofLines deferred base
        ['@' :: name.text ++ " = global " ++ c.ty.print ++ ' ' :: c.print]).result =
      .ok ⟨[⟨base + 1, some ('@' :: name.text), false,
        .globalVariable c.ty.print false (some c.tree) none⟩], []⟩ := by
  have hresult := c.result_ofLogicalLine name hname (base + 1)
  have houtline : (Outline.ofLines deferred base [c.line name]).result =
      .ok ⟨[⟨c.line name, base + 1⟩], []⟩ := Outline.ofLines_symbol deferred base _
  have hreadable : ∀ line ∈ [(⟨c.line name, base + 1⟩ : LogicalLine)], line.IsReadable := by
    simpa using ⟨_, hresult⟩
  have hnode : LogicalLine.node? ⟨c.line name, base + 1⟩ = _ :=
    LogicalLine.node?_of_result hresult
  have hlisting := (Listing.ofLines_of_readable houtline hreadable).1
  rw [List.filterMap_cons, hnode] at hlisting
  exact hlisting

/-- An array of texts and a null pointer in a structure with a name; the text holds what
    would end an array, a member or a line elsewhere. -/
theorem Listing.ofLines_initializer_nested :
    let S : PlainName := ⟨"S", by decide, List.all_eq_true.1 (by decide)⟩
    let chars : Initializer := .chars 4 ⟨"],;]", by decide⟩
    let texts : Initializer := .array 1 chars.ty [chars]
    let pointer : Initializer := .null ⟨.pointer (.int 8), trivial⟩
    let c : Initializer := .struct ⟨.named S, trivial⟩ texts [pointer]
    c.print = "\x7b [1 x [4 x i8]] [[4 x i8] c\"],;]\"], i8* null \x7d".toList ∧
      (Listing.ofLines false 0 ["@x = global %S ".toList ++ c.print]).result =
        .ok ⟨[⟨1, some "@x".toList, false, .globalVariable "%S" false
          (some (.struct "%S" [.list "[1 x [4 x i8]]" [.string "[4 x i8]" "],;]"],
            .value "i8*" "0"])) none⟩], []⟩ := by
  intro S chars texts pointer c
  have hplain : ∀ ch ∈ ("x" : Text), isNameChar ch = true := List.all_eq_true.1 (by decide)
  have hname : '@' :: ("x" : Text) ≠ Definition.constructorsName := by decide
  exact ⟨by decide, Listing.ofLines_initializer c ⟨"x", by decide, hplain⟩ hname false 0⟩

end LlvmAsm
