/-
  The two readers of operands.

  The operands of an instruction are read from segments by `operand`, those of a call or
  an expression from parts of a list by `parameters`. They take an operand apart in
  different orders:

  * `parameters_singleton`: both read a name, a literal or an expression alike;
  * `operand_blockAddress`, `parameters_blockAddress`: `operand` does not know the address
    of a label, and takes its first word for a name;
  * `parameters_eq_operand_iff`: this is all in which they differ.
-/
import LlvmAsm.Proofs.Operand

namespace LlvmAsm

open Reading

/-! ## Forms of operands -/

/-- What follows the type of an operand. -/
inductive OperandForm where
  /-- a name or a literal -/
  | simple (value : Token)
  /-- an operation, words, and operands in parentheses -/
  | expression (op : Token) (rest : List Token)
  /-- `blockaddress(function, label)`; the text is that of the parentheses -/
  | blockAddress (text : Text) (func label : Token)

namespace OperandForm

/-- The tokens behind the type. -/
def tokens : OperandForm → List Token
  | simple value => [value]
  | expression op rest => op :: rest
  | blockAddress text func label =>
    [.word "blockaddress", .group text .paren [func, .separator, label]]

/-- No name is a word with a meaning of its own, and no literal is a structure; the
    operands of an operation are behind one of the words for operations, and there is no
    comma outside of groups. -/
def Proper : OperandForm → Prop
  | simple value =>
    value.isExpression = false ∧ value.isOneOf Vocabulary.parameterAttributes = false ∧
      value.is "blockaddress" = false ∧ value.innerOf? .brace = none ∧ value.isSeparator = false
  | expression op rest => op.isExpression = true ∧ ∀ t ∈ rest, t.isSeparator = false
  | blockAddress .. => True

/-- The operand is the address of a label. -/
def IsBlockAddress : OperandForm → Prop
  | blockAddress .. => True
  | simple _ | expression .. => False

end OperandForm

/-! ## One parameter -/

section
variable {line : Line} {ty value : Token} {rest : List Token}

/-- A list without commas has one part. -/
theorem splitCommas_singleton {t : Token} {ts : List Token}
    (h : ∀ u ∈ t :: ts, u.isSeparator = false) : splitCommas (t :: ts) = [t :: ts] := by
  have hsplit : ∀ us : List Token, (∀ u ∈ us, u.isSeparator = false) →
      splitWhere Token.isSeparator us = [us] := by
    intro us hus
    induction us with
    | nil => rfl
    | cons u us ih =>
      obtain ⟨hu, hus⟩ := List.forall_mem_cons.1 hus
      rw [splitWhere, ih hus, hu]
      rfl
  exact hsplit (t :: ts) h

theorem render_singleton (t : Token) : render [t] = t.text := List.append_nil t.text

/-- A type and a name are a parameter. -/
theorem result_namedParameter (ty name : Token) (byVal : Bool) :
    (namedParameter [ty, name] byVal).result =
      .ok (.scalar ty.text (Literal.normal name.text) byVal) := by
  show Except.ok (Operand.scalar (render [ty]) (Literal.normal name.text) byVal) = _
  rw [render_singleton]

/-- What is no attribute stays, and so does all that follows it. -/
theorem dropAttributes_cons (hattribute : value.isOneOf Vocabulary.parameterAttributes = false)
    (halign : value.isWord "align" = false ∨ rest = []) :
    dropAttributes (value :: rest) = (value :: rest, false) := by
  cases value with
  | group text e inner => rfl
  | word w =>
    have hbyVal : w ≠ "byval" := by
      rintro rfl
      exact absurd hattribute (by decide)
    have hother : Vocabulary.parameterAttributes.contains w = false := hattribute
    rw [dropAttributes.eq_def]
    simp only [hbyVal, hother, Bool.false_eq_true, if_false]
    rcases halign with halign | rfl
    · rw [if_neg (by simpa [Token.isWord] using halign)]
    · split <;> rfl

/-- An operation is no attribute. -/
theorem dropAttributes_of_isExpression (hop : value.isExpression = true) :
    dropAttributes (value :: rest) = (value :: rest, false) := by
  cases value with
  | group text e inner => rfl
  | word w =>
    have hw : w ∈ Vocabulary.expressions := by simpa [Token.isExpression, Token.isOneOf] using hop
    refine dropAttributes_cons ?_ (Or.inl ?_)
    · exact (by decide : ∀ w ∈ Vocabulary.expressions,
        Vocabulary.parameterAttributes.contains w = false) w hw
    · exact (by decide : ∀ w ∈ Vocabulary.expressions, decide (w = "align") = false) w hw

/-- A list of one part that begins with a type and a value. -/
theorem parameters_singleton (hsep : ∀ t ∈ ty :: value :: rest, t.isSeparator = false)
    (hvalue : dropAttributes (value :: rest) = (value :: rest, false)) :
    parameters line (ty :: value :: rest) = ([·]) <$> parameterOf line ty value rest false := by
  rw [parameters, splitCommas_singleton hsep, parametersFrom_value hvalue, parametersFrom,
    ← bind_pure_comp]
  simp only [pure_bind]

end

/-! ## Both readers -/

section
variable (line : Line) {ty : Token}

theorem operand_blockAddress (hty : ty.isExpression = false) (text : Text) (func label : Token) :
    (operand line (ty :: (OperandForm.blockAddress text func label).tokens)).result =
      .ok (.scalar ty.text "blockaddress" false) := by
  rw [OperandForm.tokens, operand_value rfl, hty]
  rfl

/-- The names are those of the first parentheses, which are the operands of the address
    unless the type has some. -/
theorem parameters_blockAddress (hsep : ty.isSeparator = false) (text : Text)
    (func label : Token) :
    parameters line (ty :: (OperandForm.blockAddress text func label).tokens) =
      (fun (func, label) => [.blockAddress func label]) <$>
        blockAddress line (ty :: (OperandForm.blockAddress text func label).tokens) := by
  have hseps : ∀ t ∈ ty :: (OperandForm.blockAddress text func label).tokens,
      t.isSeparator = false := by
    refine List.forall_mem_cons.2 ⟨hsep, ?_⟩
    simp [OperandForm.tokens, Token.isSeparator, Token.isWord]
  rw [OperandForm.tokens, parameters_singleton hseps rfl, parameterOf, if_neg (by decide),
    if_pos (by decide), Functor.map_map]

/-- A name or a literal is read alike. -/
theorem parameters_simple (hty : ty.isExpression = false) (hsep : ty.isSeparator = false)
    {value : Token} (h : (OperandForm.simple value).Proper) :
    (parameters line [ty, value]).result = ([·]) <$> (operand line [ty, value]).result := by
  obtain ⟨hexpr, hattribute, hblock, hbrace, hvalue⟩ := h
  have hseps : ∀ t ∈ [ty, value], t.isSeparator = false := by simp [hsep, hvalue]
  rw [parameters_singleton hseps (dropAttributes_cons hattribute (Or.inr rfl)), parameterOf,
    operand_value hbrace, hty, hexpr, hblock]
  show Except.ok [Operand.scalar (render [ty]) _ false] = Except.ok [Operand.scalar ty.text _ false]
  rw [render_singleton]
  rfl

/-- An expression is read alike, whatever its operands are. -/
theorem parameters_expression (hty : ty.isExpression = false) (hsep : ty.isSeparator = false)
    {op : Token} {rest : List Token} (h : (OperandForm.expression op rest).Proper) :
    (parameters line (ty :: op :: rest)).result =
      ([·]) <$> (operand line (ty :: op :: rest)).result := by
  obtain ⟨hop, hrest⟩ := h
  have hword : op.isSeparator = false ∧ op.innerOf? .brace = none := by
    cases op with
    | group text e inner => cases hop
    | word w =>
      refine ⟨decide_eq_false ?_, rfl⟩
      rintro rfl
      exact absurd hop (by decide)
  have hseps : ∀ t ∈ ty :: op :: rest, t.isSeparator = false :=
    List.forall_mem_cons.2 ⟨hsep, List.forall_mem_cons.2 ⟨hword.1, hrest⟩⟩
  rw [parameters_singleton hseps (dropAttributes_of_isExpression hop), parameterOf, if_pos hop,
    operand_value hword.2, if_neg (by simp [hty]), if_pos hop, result_map]
  rfl

end

/-- **One operand, two readers.** An operand that is made of a type and a name, a literal
    or an expression means the same in an instruction and in a list of arguments. The
    address of a label does not. -/
theorem parameters_eq_operand_iff (line : Line) {ty : Token} (hty : ty.isExpression = false)
    (hsep : ty.isSeparator = false) {form : OperandForm} (h : form.Proper) :
    (parameters line (ty :: form.tokens)).result =
        ([·]) <$> (operand line (ty :: form.tokens)).result ↔
      ¬form.IsBlockAddress := by
  cases form with
  | simple value => exact iff_of_true (parameters_simple line hty hsep h) id
  | expression op rest => exact iff_of_true (parameters_expression line hty hsep h) id
  | blockAddress text func label =>
    refine iff_of_false ?_ (not_not_intro trivial)
    rw [operand_blockAddress line hty, parameters_blockAddress line hsep]
    intro heq
    obtain ⟨names, -, hnames⟩ := exists_of_map_ok heq
    cases hnames

/-- A cast of an address that is computed by another expression. -/
theorem parameters_eq_operand_of_cast :
    let line : Line := ⟨"call void @f(...)", 6, .statement, []⟩
    let indexes : Token := .group "(%S* @x, i32 0)" .paren
      [.word "%S*", .word "@x", .separator, .word "i32", .word "0"]
    let address : Token := .group "(i8* getelementptr (%S* @x, i32 0) to i32*)" .paren
      [.word "i8*", .word "getelementptr", indexes, .word "to", .word "i32*"]
    let form : OperandForm := .expression (.word "bitcast") [address]
    form.Proper ∧ ¬form.IsBlockAddress ∧
      (parameters line (.word "i32*" :: form.tokens)).result =
        ([·]) <$> (operand line (.word "i32*" :: form.tokens)).result := by
  intro line indexes address form
  have hform : form.Proper := ⟨rfl, by decide⟩
  exact ⟨hform, id, (parameters_eq_operand_iff line rfl rfl hform).2 id⟩

/-- An instruction takes the address of a label for a name. -/
theorem blockAddress_misread :
    let line : Line := ⟨"ret i8* blockaddress(@f, %bb)", 1, .statement, []⟩
    let address : List Token := [.word "i8*", .word "blockaddress",
      .group "(@f, %bb)" .paren [.word "@f", .separator, .word "%bb"]]
    (operand line address).result = .ok (.scalar "i8*" "blockaddress" false) ∧
      (parameters line address).result = .ok [.blockAddress "@f" "%bb"] ∧
      (parameters line address).result ≠ ([·]) <$> (operand line address).result := by
  intro line address
  have hoperand : (operand line address).result = .ok (.scalar "i8*" "blockaddress" false) :=
    operand_blockAddress line rfl "(@f, %bb)" _ _
  have hparameters : (parameters line address).result = .ok [.blockAddress "@f" "%bb"] :=
    congrArg Reading.result (parameters_blockAddress line rfl "(@f, %bb)" _ _)
  refine ⟨hoperand, hparameters, ?_⟩
  rw [hoperand, hparameters]
  intro heq
  cases heq

end LlvmAsm
