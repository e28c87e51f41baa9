/-
  Lists of operands are read as they are meant.

  `Parameter` is an operand of a call, a signature or an expression as a tree of any depth,
  `Parameter.listTokens` the tokens of a list of them, with commas between them and perhaps
  the mark of further arguments at its end, and `Parameter.operand` the operand that is
  meant.

  * `Parameter.induction` is the induction over trees, with the operands of an expression as
    a list;
  * `Reads` says that the tokens between two commas are read as an operand, and
    `Parameter.reads` that this is so of every tree, also if a cast to another type follows;
  * `Parameter.parameters_listTokens`: so a list is read as the list that is meant.
-/
import LlvmAsm.Proofs.Argument
import LlvmAsm.Proofs.Value

namespace LlvmAsm

open Reading Token

/-! ## Operands as trees -/

/-- A token that may stand for a type: any but the comma and a group in parentheses. -/
structure TypeToken where
  token : Token
  not_separator : token.isSeparator = false
  not_parenthesized : token.innerOf? .paren = none

/-- The text of a type. -/
def TypeToken.text (T : TypeToken) : Text := T.token.text

/-- A name or an integer. -/
inductive Ident where
  | symbol (s : Symbol)
  | int (l : IntLiteral)

/-- The text of a name or an integer. -/
def Ident.text : Ident → Text
  | symbol s => s.text
  | int l => l.text

/-- What stands before the operands of an expression: its type, its operation and perhaps
    a word that tells the variant. -/
structure Operation where
  ty : TypeToken
  op : Text
  variant : Option Text
  ty_known : ty.text ≠ TypeText.unknown
  op_mem : op ∈ Vocabulary.expressions
  variant_ne : ∀ w ∈ variant, w ≠ ",".toList

/-- An operand in a list. The texts of groups may be any. -/
inductive Parameter where
  | scalar (ty : TypeToken) (ident : Ident)
  | blockAddress (ty : TypeToken) (text func label : Text)
  /-- an expression on a list of operands, with more arguments than that if it is
      variadic -/
  | expression (head : Operation) (text : Text) (params : List Parameter) (variadic : Bool)
  /-- an expression on one operand that is followed by the type of the expression -/
  | cast (head : Operation) (text : Text) (source : Parameter)

/-- The tokens of an expression with the given tokens in parentheses. -/
def Operation.tokens (head : Operation) (text : Text) (args : List Token) : List Token :=
  head.ty.token :: .word head.op :: (head.variant.toList.map .word ++ [.group text .paren args])

/-- The expression with the given operands. -/
def Operation.expression (head : Operation) (params : List Operand) (ident : Option Text) :
    Expression Operand :=
  ⟨head.op, head.variant, head.ty.text, params, ident⟩

namespace Parameter

mutual

/-- The tokens of an operand. -/
def tokens : Parameter → List Token
  | scalar T ident => [T.token, .word ident.text]
  | blockAddress T text func label =>
    [T.token, .word "blockaddress", .group text .paren [.word func, separator, .word label]]
  | expression head text params variadic =>
    head.tokens text
      (List.intercalate [separator] (argList [.word ellipsis] variadic (tokensAll params)))
  | cast head text source =>
    head.tokens text (source.tokens ++ [.word "to", head.ty.token])

/-- The tokens of several operands. -/
def tokensAll : List Parameter → List (List Token)
  | [] => []
  | p :: ps => p.tokens :: tokensAll ps

end

/-- The tokens of a list of operands, with commas between them. -/
def listTokens (params : List Parameter) (variadic : Bool) : List Token :=
  List.intercalate [separator] (argList [.word ellipsis] variadic (tokensAll params))

mutual

/-- The name of the leftmost leaf, where a path along first operands ends: the name of a
    scalar, or the function of a block address. -/
def leaf? : Parameter → Option Text
  | scalar _ ident => some ident.text
  | blockAddress _ _ func _ => some func
  | expression _ _ params _ => leafOfAll? params
  | cast _ _ source => source.leaf?

/-- The name of the leftmost leaf of several operands. -/
def leafOfAll? : List Parameter → Option Text
  | [] => none
  | p :: _ => p.leaf?

end

mutual

/-- The operand that is meant. -/
def operand : Parameter → Operand
  | scalar T ident => .scalar T.text ident.text false
  | blockAddress _ _ func label => .blockAddress func label
  | expression head _ params variadic =>
    .expr (head.expression (argList .varargs variadic (operandAll params)) (leafOfAll? params))
  | cast head _ source => .expr (head.expression [source.operand] source.leaf?)

/-- The operands that are meant. -/
def operandAll : List Parameter → List Operand
  | [] => []
  | p :: ps => p.operand :: operandAll ps

end

/-- Induction over an operand, with all operands in it. -/
theorem induction {motive : Parameter → Prop} (scalar : ∀ T ident, motive (scalar T ident))
    (blockAddress : ∀ T text func label, motive (blockAddress T text func label))
    (expression : ∀ head text params variadic, (∀ p ∈ params, motive p) →
      motive (expression head text params variadic))
    (cast : ∀ head text source, motive source → motive (cast head text source))
    (p : Parameter) : motive p :=
  @Parameter.rec motive (fun ps => ∀ p ∈ ps, motive p) scalar blockAddress
    (fun head text params variadic h => expression head text params variadic h)
    (fun head text source h => cast head text source h)
    (by simp) (fun _ _ hp hps => List.forall_mem_cons.2 ⟨hp, hps⟩) p

end Parameter

/-! ## Parts of a list -/

/-- Parts with commas between them are the parts of the list. -/
theorem splitCommas_intercalate {parts : List (List Token)}
    (h : ∀ part ∈ parts, part ≠ [] ∧ ∀ t ∈ part, t.isSeparator = false) :
    splitCommas (List.intercalate [separator] parts) = parts := by
  induction parts with
  | nil => rfl
  | cons part parts ih =>
    obtain ⟨⟨hne, hpart⟩, hparts⟩ := List.forall_mem_cons.1 h
    obtain ⟨t, ts, rfl⟩ := List.exists_cons_of_ne_nil hne
    cases parts with
    | nil => rw [List.intercalate_singleton, splitCommas_singleton hpart]
    | cons next parts =>
      obtain ⟨⟨hnext, -⟩, -⟩ := List.forall_mem_cons.1 hparts
      obtain ⟨u, us, rfl⟩ := List.exists_cons_of_ne_nil hnext
      have hlist : ∃ rest, List.intercalate [separator] ((u :: us) :: parts) = u :: rest := by
        cases parts with
        | nil => exact ⟨us, List.intercalate_singleton⟩
        | cons part parts =>
          rw [List.intercalate_cons_cons]
          exact ⟨_, rfl⟩
      obtain ⟨rest, hrest⟩ := hlist
      have hsplit := ih hparts
      rw [hrest] at hsplit
      rw [List.intercalate_cons_cons, hrest, List.append_assoc]
      exact (splitWhere_append_cons hpart rfl (u :: rest)).trans (congrArg _ hsplit)

/-- The tokens of a part begin with a type and a value and are read as the operand. -/
def Reads (line : Line) (part : List Token) (o : Operand) : Prop :=
  ∃ ty value rest, part = ty :: value :: rest ∧
    dropAttributes (value :: rest) = (value :: rest, false) ∧
    (parameterOf line ty value rest false).result = .ok o

section
variable {line : Line} {parts : List (List Token)} {os : List Operand}

theorem parametersFrom_reads (h : List.Forall₂ (Reads line) parts os) (variadic : Bool)
    (unnamed : Nat) :
    (parametersFrom line unnamed (argList [.word ellipsis] variadic parts)).result =
      .ok (argList .varargs variadic os) := by
  induction h with
  | nil =>
    cases variadic with
    | false =>
      rw [argList, parametersFrom.eq_def]
      rfl
    | true =>
      have hempty : parametersFrom line unnamed [] = pure [] := parametersFrom.eq_def ..
      show (parametersFrom line unnamed [[.word ellipsis]]).result = _
      rw [parametersFrom_type rfl, if_pos (by decide), hempty]
      rfl
  | @cons part o parts os hpart _ ih =>
    obtain ⟨ty, value, rest, rfl, hvalue, ho⟩ := hpart
    have hcons : ∀ {α : Type} (more a : α) (as : List α),
        argList more variadic (a :: as) = a :: argList more variadic as := by
      intro α more a as
      cases variadic <;> rfl
    rw [hcons, hcons, parametersFrom_value hvalue, result_bind_ok ho, result_bind_ok ih]
    rfl

theorem ne_nil_of_reads (h : List.Forall₂ (Reads line) parts os) : ∀ part ∈ parts, part ≠ [] := by
  induction h with
  | nil => exact List.forall_mem_nil _
  | cons hpart _ ih =>
    obtain ⟨ty, value, rest, rfl, -⟩ := hpart
    exact List.forall_mem_cons.2 ⟨List.cons_ne_nil _ _, ih⟩

/-- Parts that are read as operands make a list that is read as the list of these. -/
theorem parameters_reads (hparts : ∀ part ∈ parts, ∀ t ∈ part, t.isSeparator = false)
    (h : List.Forall₂ (Reads line) parts os) (variadic : Bool) :
    (parameters line (List.intercalate [separator]
        (argList [.word ellipsis] variadic parts))).result =
      .ok (argList .varargs variadic os) := by
  have hmembers : ∀ part ∈ argList [.word ellipsis] variadic parts,
      part ≠ [] ∧ ∀ t ∈ part, t.isSeparator = false := by
    have hmore : ([.word ellipsis] : List Token) ≠ [] ∧
        ∀ t ∈ ([.word ellipsis] : List Token), t.isSeparator = false := by decide
    exact forall_mem_argList (p := fun part => part ≠ [] ∧ ∀ t ∈ part, t.isSeparator = false)
      (fun part hpart => ⟨ne_nil_of_reads h part hpart, hparts part hpart⟩) hmore variadic
  rw [parameters, splitCommas_intercalate hmembers]
  exact parametersFrom_reads h variadic 0

end

/-! ## Names -/

/-- Names and integers are among the words for values. -/
theorem Ident.exists_valueWord (ident : Ident) : ∃ v : ValueWord, v.text = ident.text := by
  cases ident with
  | symbol s => exact ⟨.symbol s, rfl⟩
  | int l =>
    refine ⟨.numeral ⟨l.text, ?_, ?_⟩, rfl⟩
    · obtain ⟨c, hhead, hc⟩ := l.exists_head
      rcases hc with hdigit | rfl
      · exact ⟨c, hhead, by simp [beginsNumeral, hdigit]⟩
      · exact ⟨_, hhead, by decide⟩
    · intro c hc
      rcases l.isLiteralChar_of_mem hc with hdigit | rfl
      · exact Or.inl (by simp [Char.isAlphanum, hdigit])
      · exact Or.inr (by decide)

theorem Ident.isSeparator_word (ident : Ident) : (word ident.text).isSeparator = false := by
  obtain ⟨v, hv⟩ := ident.exists_valueWord
  have hcomma : v.text ∉ ([","] : List Text) := v.not_mem (by decide)
  rw [hv, List.mem_singleton] at hcomma
  exact decide_eq_false hcomma

theorem Ident.normal_text (ident : Ident) : Literal.normal ident.text = ident.text := by
  cases ident with
  | symbol s => exact s.normal_text
  | int l => exact Literal.normal_intLiteral l

/-! ## The operands of a list -/

/-- What may follow an operand in parentheses: the type to which it is cast, if any. -/
def castTail : Option TypeToken → List Token
  | none => []
  | some T => [.word "to", T.token]

theorem reads_scalar (line : Line) (T : TypeToken) (ident : Ident) (target : Option TypeToken) :
    Reads line (T.token :: .word ident.text :: castTail target)
      (.scalar T.text ident.text false) := by
  obtain ⟨v, hv⟩ := ident.exists_valueWord
  have hattribute : (word ident.text).isOneOf Vocabulary.parameterAttributes = false := by
    have hmem : v.text ∉ Vocabulary.parameterAttributes := v.not_mem (by decide)
    simpa [isOneOf, hv] using hmem
  have hwords : v.text ∉ (["align", "blockaddress"] : List Text) := v.not_mem (by decide)
  simp only [hv, List.mem_cons, List.not_mem_nil, or_false, not_or] at hwords
  have hexpr : (word ident.text).isExpression = false := hv ▸ v.isExpression_word
  have hblock : (word ident.text).is "blockaddress" = false := decide_eq_false hwords.2
  refine ⟨_, _, _, rfl, dropAttributes_cons hattribute (Or.inl (decide_eq_false hwords.1)), ?_⟩
  rw [parameterOf, hexpr, hblock]
  have hscalar : (namedParameter [T.token, .word ident.text] false).result =
      .ok (.scalar T.text ident.text false) := by
    have hnormal : Literal.normal (word ident.text).text = ident.text := ident.normal_text
    rw [result_namedParameter, hnormal]
    rfl
  -- a cast is cut off before the name is looked for
  cases target with
  | none => exact hscalar
  | some target => exact hscalar

theorem reads_blockAddress (line : Line) (T : TypeToken) (text func label : Text)
    (tail : List Token) :
    Reads line (T.token :: .word "blockaddress" ::
        .group text .paren [.word func, separator, .word label] :: tail)
      (.blockAddress func label) := by
  refine ⟨_, _, _, rfl, dropAttributes_cons (by decide) (Or.inl (by decide)), ?_⟩
  rw [parameterOf, if_neg (by decide), if_pos (by decide), result_map, blockAddress,
    List.findSome?_cons, T.not_parenthesized]
  rfl

namespace Operation

variable (head : Operation) (text : Text) {line : Line} {args : List Token}

theorem isExpression_op : (word head.op).isExpression = true := by
  simpa [isExpression, isOneOf] using head.op_mem

/-- The type before an expression is its type, unless it is unknown. -/
theorem expressionType_eq (args : List Token) :
    expressionType head.ty.token.text head.op args = head.ty.text := if_neg head.ty_known

/-- The first token behind an operation is the variant, unless it is the group of the
    operands, which come next then. -/
theorem exists_next (args tail : List Token) :
    ∃ next rest, head.variant.toList.map .word ++ [.group text .paren args] ++ tail =
        next :: rest ∧
      (next :: rest).dropWhile (!·.isGroup) = .group text .paren args :: tail ∧
      (if next.isGroup then none else some next.text) = head.variant := by
  cases head.variant with
  | none => exact ⟨_, _, rfl, rfl, rfl⟩
  | some w => exact ⟨_, _, rfl, rfl, rfl⟩

/-- An expression is read if its operands are. -/
theorem reads_tokens {os : List Operand} (hargs : (parameters line args).result = .ok os)
    (tail : List Token) :
    Reads line (head.tokens text args ++ tail)
      (.expr (head.expression os (os.head?.bind Operand.ident?))) := by
  have hop := head.isExpression_op
  obtain ⟨next, rest, hnext, hgroup, hvariant⟩ := head.exists_next text args tail
  have htokens : head.tokens text args ++ tail =
      head.ty.token :: .word head.op :: next :: rest := by
    rw [← hnext]
    rfl
  have hdrop : dropAttributes (.word head.op :: next :: rest) =
      (.word head.op :: next :: rest, false) := dropAttributes_of_isExpression hop
  refine ⟨_, _, _, htokens, hdrop, ?_⟩
  rw [parameterOf, if_pos hop, result_map, expression_eq (congrArg Prod.fst hdrop) hop hgroup,
    result_bind_ok hargs, hvariant]
  show Except.ok (Operand.expr ⟨_, _, expressionType head.ty.token.text head.op args, _, _⟩) = _
  rw [head.expressionType_eq]
  rfl

theorem isSeparator_of_mem_tokens (args : List Token) :
    ∀ t ∈ head.tokens text args, t.isSeparator = false := by
  refine List.forall_mem_cons.2 ⟨head.ty.not_separator, List.forall_mem_cons.2 ⟨?_, ?_⟩⟩
  · refine decide_eq_false fun hop => ?_
    exact absurd (hop ▸ head.op_mem) (by decide)
  · refine List.forall_mem_append.2 ⟨?_, by simp [isSeparator, isWord]⟩
    intro t ht
    obtain ⟨w, hw, rfl⟩ := List.mem_map.1 ht
    exact decide_eq_false (head.variant_ne w (Option.mem_toList.1 hw))

end Operation

namespace Parameter

/-- The name of an operand is that of its leftmost leaf. -/
theorem ident?_operand (p : Parameter) : p.operand.ident? = p.leaf? := by
  cases p <;> rfl

theorem head?_operandAll (params : List Parameter) (variadic : Bool) :
    (argList .varargs variadic (operandAll params)).head?.bind Operand.ident? =
      leafOfAll? params := by
  cases params with
  | nil => cases variadic <;> rfl
  | cons p ps => cases variadic <;> exact p.ident?_operand

/-- There are no commas between the tokens of an operand. -/
theorem isSeparator_of_mem_tokens (p : Parameter) : ∀ t ∈ p.tokens, t.isSeparator = false := by
  cases p with
  | scalar T ident =>
    exact List.forall_mem_cons.2
      ⟨T.not_separator, List.forall_mem_singleton.2 ident.isSeparator_word⟩
  | blockAddress T text func label =>
    exact List.forall_mem_cons.2 ⟨T.not_separator, by simp [isSeparator, isWord]⟩
  | expression head text params variadic => exact head.isSeparator_of_mem_tokens text _
  | cast head text source => exact head.isSeparator_of_mem_tokens text _

theorem isSeparator_of_mem_tokensAll (params : List Parameter) :
    ∀ part ∈ tokensAll params, ∀ t ∈ part, t.isSeparator = false := by
  induction params with
  | nil => exact List.forall_mem_nil _
  | cons p ps ih => exact List.forall_mem_cons.2 ⟨p.isSeparator_of_mem_tokens, ih⟩

section
variable (line : Line) {params : List Parameter}

theorem forall₂_reads (h : ∀ p ∈ params, Reads line p.tokens p.operand) :
    List.Forall₂ (Reads line) (tokensAll params) (operandAll params) := by
  induction params with
  | nil => exact .nil
  | cons p ps ih =>
    obtain ⟨hp, hps⟩ := List.forall_mem_cons.1 h
    exact .cons hp (ih hps)

/-- Operands that are read one by one are read as a list. -/
theorem parameters_of_reads (h : ∀ p ∈ params, Reads line p.tokens p.operand)
    (variadic : Bool) :
    (parameters line (listTokens params variadic)).result =
      .ok (argList .varargs variadic (operandAll params)) :=
  parameters_reads (isSeparator_of_mem_tokensAll params) (forall₂_reads line h) variadic

/-- **An operand is read as it is meant**, also if it is cast to another type: the reader
    finds the tree of an operand in its tokens, and cuts off what follows them. -/
theorem reads (p : Parameter) (target : Option TypeToken) :
    Reads line (p.tokens ++ castTail target) p.operand := by
  induction p using Parameter.induction generalizing target with
  | scalar T ident => exact reads_scalar line T ident target
  | blockAddress T text func label => exact reads_blockAddress line T text func label _
  | expression head text params variadic ih =>
    have hoperands : ∀ p ∈ params, Reads line p.tokens p.operand := by
      intro p hp
      simpa [castTail] using ih p hp none
    have hparams := parameters_of_reads line hoperands variadic
    have hexpr := head.reads_tokens text hparams (castTail target)
    rwa [head?_operandAll] at hexpr
  | cast head text source ih =>
    -- the operand and the type behind `to` are one part
    have hpart : ∀ t ∈ source.tokens ++ castTail (some head.ty), t.isSeparator = false := by
      refine List.forall_mem_append.2 ⟨source.isSeparator_of_mem_tokens, ?_⟩
      exact List.forall_mem_cons.2 ⟨rfl, by simpa [castTail] using head.ty.not_separator⟩
    have hparams : (parameters line (source.tokens ++ castTail (some head.ty))).result =
        .ok [source.operand] := by
      have hlist := parameters_reads (List.forall_mem_singleton.2 hpart) (.cons (ih _) .nil) false
      rwa [argList, if_neg Bool.false_ne_true, List.intercalate_singleton] at hlist
    have hexpr := head.reads_tokens text hparams (castTail target)
    rwa [show [source.operand].head?.bind Operand.ident? = source.leaf? from
      source.ident?_operand] at hexpr

end

/-- **A list of operands is read as it is meant**, whatever the line: the same operands in
    the same order, with their operations, variants, types and operands at every level, and
    with the name of the leftmost leaf for each expression. -/
theorem parameters_listTokens (line : Line) (params : List Parameter) (variadic : Bool) :
    (parameters line (listTokens params variadic)).result =
      .ok (argList .varargs variadic (operandAll params)) :=
  parameters_of_reads line (fun p _ => by simpa [castTail] using p.reads line none) variadic

end Parameter

end LlvmAsm
