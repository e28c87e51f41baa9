/-
  Constants at the top and inside of aggregates.

  The initial value of a variable is read by `initialValue`, which asks the type first,
  and an element of an aggregate by `element`, which asks the value first. `SameAtTop`
  tells when they read the same constant, case by case in the order of `element`, and
  `globalVariable_eq_element_iff` is the proof. They differ on the addresses of labels and
  on vectors, and where the value does not fit the type as the top expects it: a number
  or a pointer has a value of one token, and all other types have an aggregate, a text or
  no content.
-/
import LlvmAsm.Proofs.Variable

namespace LlvmAsm

open Reading Definition

/-! ## When two readers agree -/

/-- The values of the type are written as one token: numbers and pointers. -/
def TypeText.IsScalar (ty : Text) : Prop := TypeText.isNumber ty ∨ TypeText.levels ty ≥ 1

/-- The token is a word that begins with a quote. -/
def Token.IsQuoted : Token → Prop
  | .word w => w.head? = some '"'
  | .group .. => False

/-- A variable of the type `ty` whose value begins with the tokens `head :: rest` has the
    value of the element that is spelled alike. -/
def SameAtTop (ty : Text) (head : Token) (rest : List Token) : Prop :=
  if head.is "null" then TypeText.IsScalar ty
  else if head.isEmptyValue then ¬TypeText.IsScalar ty
  else if head.isExpression then True
  else match head, rest with
    | .group _ .brace _, _ | .group _ .bracket _, _ => ¬TypeText.IsScalar ty
    | .group _ .angle inner, _ =>
      ¬TypeText.IsScalar ty ∧ (inner.head?.bind (Token.innerOf? .brace)).isSome
    | _, [] => TypeText.IsScalar ty ∧ head.isWord "c" = false
    | _, next :: _ => ¬TypeText.IsScalar ty ∧ head.isWord "c" = true ∧ next.IsQuoted

/-! ## Initial values by their types -/

theorem TypeText.isScalar_iff {ty : Text} :
    (TypeText.isNumber ty || decide (TypeText.levels ty ≥ 1)) = true ↔ TypeText.IsScalar ty := by
  rw [Bool.or_eq_true, decide_eq_true_iff]
  exact Iff.rfl

section
variable (line : Line) {ty : Text}

theorem initialValue_of_isScalar (h : TypeText.IsScalar ty) (value : Token) :
    (initialValue line ty value).result = .ok (.value ty (Literal.normal value.text)) := by
  rw [initialValue.eq_def, if_pos (TypeText.isScalar_iff.2 h)]
  rfl

theorem initialValue_of_isEmptyValue (h : ¬TypeText.IsScalar ty) {value : Token}
    (hempty : value.isEmptyValue = true) :
    initialValue line ty value = pure (.emptyStruct ty) := by
  rw [initialValue.eq_def, if_neg (mt TypeText.isScalar_iff.1 h), if_pos hempty]

section
variable (h : ¬TypeText.IsScalar ty) {text : Text} {inner : List Token}

include h

theorem initialValue_brace (hempty : (Token.group text .brace inner).isEmptyValue = false) :
    initialValue line ty (.group text .brace inner) =
      Constant.struct ty <$> elements line (segments inner) := by
  rw [initialValue.eq_def, if_neg (mt TypeText.isScalar_iff.1 h), if_neg (by simp [hempty])]

theorem initialValue_bracket (hempty : (Token.group text .bracket inner).isEmptyValue = false) :
    initialValue line ty (.group text .bracket inner) =
      Constant.list ty <$> elements line (segments inner) := by
  rw [initialValue.eq_def, if_neg (mt TypeText.isScalar_iff.1 h), if_neg (by simp [hempty])]

/-- Braces in angles are a structure, and anything else in them is a vector. -/
theorem initialValue_angle (hempty : (Token.group text .angle inner).isEmptyValue = false) :
    initialValue line ty (.group text .angle inner) =
      if (inner.head?.bind (Token.innerOf? .brace)).isSome then
        Constant.struct ty <$> elements line (segments (unpacked inner))
      else Constant.list ty <$> elements line (segments inner) := by
  rw [initialValue.eq_def, if_neg (mt TypeText.isScalar_iff.1 h), if_neg (by simp [hempty])]
  cases inner with
  | nil => rfl
  | cons t ts =>
    cases hbrace : t.innerOf? .brace <;> simp [unpacked, hbrace]

theorem initialValue_isQuoted {value : Token} (hquote : value.IsQuoted) :
    initialValue line ty value = pure (.string ty (unquoted value.text)) := by
  cases value with
  | group text e inner => cases hquote
  | word w =>
    have hempty : (Token.word w).isEmptyValue = false := by
      cases w with
      | nil => cases hquote
      | cons c w =>
        obtain rfl : c = '"' := Option.some.inj hquote
        rfl
    rw [initialValue.eq_def, if_neg (mt TypeText.isScalar_iff.1 h), if_neg (by simp [hempty])]
    exact if_pos hquote

end

/-- What is read at other types. -/
theorem initialValue_cases (h : ¬TypeText.IsScalar ty) {value : Token} {c : Constant}
    (hc : (initialValue line ty value).result = .ok c) :
    (c = .emptyStruct ty ∧ value.isEmptyValue = true) ∨
    (∃ w, value = .word w ∧ w.head? = some '"' ∧ c = .string ty (unquoted w)) ∨
    (∃ cs, c = .struct ty cs) ∨ ∃ cs, c = .list ty cs := by
  rw [initialValue.eq_def, if_neg (mt TypeText.isScalar_iff.1 h)] at hc
  split at hc
  case isTrue hempty =>
    cases hc
    exact Or.inl ⟨rfl, hempty⟩
  split at hc
  case h_1 w _ =>
    split at hc
    case isTrue hquote =>
      cases hc
      exact Or.inr (Or.inl ⟨w, rfl, hquote, rfl⟩)
    case isFalse => cases hc
  case h_2 text inner =>
    obtain ⟨cs, -, rfl⟩ := exists_of_map_ok hc
    exact Or.inr (Or.inr (Or.inl ⟨cs, rfl⟩))
  case h_3 text inner =>
    split at hc
    · obtain ⟨cs, -, rfl⟩ := exists_of_map_ok hc
      exact Or.inr (Or.inr (Or.inl ⟨cs, rfl⟩))
    · obtain ⟨cs, -, rfl⟩ := exists_of_map_ok hc
      exact Or.inr (Or.inr (Or.inr ⟨cs, rfl⟩))
  case h_4 text inner =>
    obtain ⟨cs, -, rfl⟩ := exists_of_map_ok hc
    exact Or.inr (Or.inr (Or.inr ⟨cs, rfl⟩))
  case h_5 => cases hc

/-- Only numbers and pointers have plain values. -/
theorem initialValue_eq_value_iff {value : Token} {ty' text : Text} :
    (initialValue line ty value).result = .ok (.value ty' text) ↔
      TypeText.IsScalar ty ∧ ty' = ty ∧ text = Literal.normal value.text := by
  by_cases h : TypeText.IsScalar ty
  · rw [initialValue_of_isScalar line h]
    constructor
    · rintro ⟨⟩
      exact ⟨h, rfl, rfl⟩
    · rintro ⟨-, rfl, rfl⟩
      rfl
  · refine iff_of_false (fun hc => ?_) fun hscalar => h hscalar.1
    rcases initialValue_cases line h hc with ⟨hno, -⟩ | ⟨w, -, -, hno⟩ | ⟨cs, hno⟩ | ⟨cs, hno⟩ <;>
      cases hno

/-- Only quoted words are texts, and only at other types. -/
theorem initialValue_eq_string_iff {value : Token} {ty' text : Text} :
    (initialValue line ty value).result = .ok (.string ty' text) ↔
      ¬TypeText.IsScalar ty ∧ value.IsQuoted ∧ ty' = ty ∧ text = unquoted value.text := by
  by_cases h : TypeText.IsScalar ty
  · rw [initialValue_of_isScalar line h]
    exact iff_of_false (by rintro ⟨⟩) fun hno => hno.1 h
  constructor
  · intro hc
    rcases initialValue_cases line h hc with
      ⟨hno, -⟩ | ⟨w, rfl, hquote, heq⟩ | ⟨cs, hno⟩ | ⟨cs, hno⟩
    · cases hno
    · cases heq
      exact ⟨h, hquote, rfl, rfl⟩
    · cases hno
    · cases hno
  · rintro ⟨-, hquote, rfl, rfl⟩
    rw [initialValue_isQuoted line h hquote]
    rfl

/-- No value at the top is the address of a label. -/
theorem initialValue_ne_blockAddress {value : Token} {func label : Text} :
    (initialValue line ty value).result ≠ .ok (.blockAddress func label) := by
  intro hc
  by_cases h : TypeText.IsScalar ty
  · rw [initialValue_of_isScalar line h] at hc
    cases hc
  · rcases initialValue_cases line h hc with ⟨hno, -⟩ | ⟨w, -, -, hno⟩ | ⟨cs, hno⟩ | ⟨cs, hno⟩ <;>
      cases hno

end

/-! ## Both readers -/

section
variable {line line' : Line} {ty head : Token} {rest : List Token} {c : Constant}

/-- The words that tell a value by themselves begin no expression. -/
theorem isExpression_of_text {w : Text} (hw : Vocabulary.expressions.contains w = false)
    (h : head.text = w) : head.isExpression = false := by
  cases head with
  | group text e inner => rfl
  | word w' =>
    obtain rfl : w' = w := h
    exact hw

theorem isExpression_of_isEmptyValue (h : head.isEmptyValue = true) :
    head.isExpression = false := by
  rcases Bool.or_eq_true_iff.1 h with h | h
  · exact isExpression_of_text (by decide) (of_decide_eq_true h)
  · exact isExpression_of_text (by decide) (of_decide_eq_true h)

theorem Token.IsQuoted.not_isExpression {t : Token} (h : t.IsQuoted) : ¬t.isExpression = true := by
  intro hexpr
  cases t with
  | group text e inner => cases hexpr
  | word w =>
    have hw : w ∈ Vocabulary.expressions := by
      simpa [Token.isExpression, Token.isOneOf] using hexpr
    exact (by decide : ∀ w ∈ Vocabulary.expressions, w.head? ≠ some '"') w hw h

/-- An aggregate is read alike at types that are not scalar. -/
theorem initialValue_eq_aggregate_iff {ty : Text} {value : Token} {make : List Constant → Constant}
    {parts : List (List Token)} (hmake : ∀ cs ty' text, make cs ≠ .value ty' text)
    (hvalue : ¬TypeText.IsScalar ty → initialValue line' ty value = make <$> elements line' parts)
    (hc : (make <$> elements line parts).result = .ok c) :
    (initialValue line' ty value).result = .ok c ↔ ¬TypeText.IsScalar ty := by
  constructor
  · intro heq hscalar
    rw [initialValue_of_isScalar line' hscalar] at heq
    obtain ⟨cs, -, rfl⟩ := exists_of_map_ok hc
    exact hmake cs _ _ (Except.ok.inj heq).symm
  · intro h
    rw [hvalue h]
    obtain ⟨_, hresult, -, rfl⟩ := ((kept_elements line line' parts).map make) c hc
    exact hresult

/-- At the top, angles are a structure only with braces in them; an element in angles
    always is one. -/
theorem initialValue_eq_angle_iff {ty text : Text} {inner : List Token}
    (hempty : (Token.group text .angle inner).isEmptyValue = false)
    (hc : (Constant.struct ty <$> elements line (segments (unpacked inner))).result = .ok c) :
    (initialValue line' ty (.group text .angle inner)).result = .ok c ↔
      ¬TypeText.IsScalar ty ∧ (inner.head?.bind (Token.innerOf? .brace)).isSome = true := by
  by_cases hpacked : (inner.head?.bind (Token.innerOf? .brace)).isSome = true
  · refine Iff.trans ?_ (and_iff_left hpacked).symm
    refine initialValue_eq_aggregate_iff (by rintro _ _ _ ⟨⟩) (fun hscalar => ?_) hc
    rw [initialValue_angle line' hscalar hempty, if_pos hpacked]
  · refine iff_of_false (fun heq => ?_) fun hsame => hpacked hsame.2
    obtain ⟨cs, -, rfl⟩ := exists_of_map_ok hc
    by_cases hscalar : TypeText.IsScalar ty
    · rw [initialValue_of_isScalar line' hscalar] at heq
      cases heq
    · rw [initialValue_angle line' hscalar hempty, if_neg hpacked] at heq
      obtain ⟨cs', -, hno⟩ := exists_of_map_ok heq
      cases hno

/-- A plain value of one token is known at the top. -/
theorem initialValue_eq_plain_iff (hword : head.isWord "c" = false)
    (hc : (pure (.value ty.text (Literal.normal head.text)) : Reading Constant).result = .ok c) :
    (initialValue line' ty.text head).result = .ok c ↔
      TypeText.IsScalar ty.text ∧ head.isWord "c" = false := by
  obtain rfl := Except.ok.inj hc
  rw [initialValue_eq_value_iff]
  exact ⟨fun h => ⟨h.1, hword⟩, fun h => ⟨h.1, rfl, rfl⟩⟩

/-- A token that has others behind it, and is no aggregate, is not known at the top: the
    element is an address, or a text behind parentheses. -/
theorem initialValue_ne_of_next {next : Token} {segment : List Token} {f : Failure}
    (hquote : head.is "c" = true → ¬head.IsQuoted)
    (hc : (if head.is "c" then pure (.string ty.text (unquoted next.text))
      else if head.is "blockaddress" then
        (fun (func, label) => Constant.blockAddress func label) <$> blockAddress line segment
      else fail f).result = .ok c) :
    (initialValue line' ty.text head).result ≠ .ok c := by
  intro heq
  by_cases hhead : head.is "c" = true
  · rw [if_pos hhead] at hc
    obtain rfl := Except.ok.inj hc
    exact hquote hhead ((initialValue_eq_string_iff line').1 heq).2.1
  rw [if_neg hhead] at hc
  by_cases hblock : head.is "blockaddress" = true
  · rw [if_pos hblock] at hc
    obtain ⟨names, -, rfl⟩ := exists_of_map_ok hc
    exact initialValue_ne_blockAddress line' heq
  · rw [if_neg hblock] at hc
    cases hc

/-- After the word `c`. -/
theorem variableValue_word_c_iff (name eq : Token)
    (hc : (element line (ty :: .word "c" :: rest)).result = .ok c) :
    (variableValue line' ty.text (name :: eq :: ty :: .word "c" :: rest)).result = .ok c ↔
      SameAtTop ty.text (.word "c") rest := by
  cases rest with
  | nil => exact iff_of_false (by rintro ⟨⟩) (by rintro ⟨-, ⟨⟩⟩)
  | cons next more =>
    have helement : element line (ty :: .word "c" :: next :: more) =
        pure (.string ty.text (unquoted next.text)) := by
      rw [element.eq_def]
      rfl
    rw [helement] at hc
    obtain rfl := Except.ok.inj hc
    rw [variableValue_word_c]
    have hsame : SameAtTop ty.text (.word "c") (next :: more) ↔
        ¬TypeText.IsScalar ty.text ∧ next.IsQuoted :=
      ⟨fun h => ⟨h.1, h.2.2⟩, fun h => ⟨h.1, rfl, h.2⟩⟩
    rw [hsame]
    by_cases hexpr : next.isExpression = true
    · rw [if_pos hexpr]
      refine iff_of_false (fun hno => ?_) fun hno => ?_
      · obtain ⟨e, -, he⟩ := exists_of_map_ok hno
        cases he
      · exact hno.2.not_isExpression hexpr
    · rw [if_neg hexpr, initialValue_eq_string_iff]
      simp

/-- The value of a variable is the element with the same tokens in the cases of
    `SameAtTop`. -/
theorem variableValue_eq_element_iff (name eq : Token)
    (h : ∀ t ∈ ty :: head :: rest, t.InSegment)
    (hc : (element line (ty :: head :: rest)).result = .ok c) :
    (variableValue line' ty.text (name :: eq :: ty :: head :: rest)).result = .ok c ↔
      SameAtTop ty.text head rest := by
  by_cases hword : head = .word "c"
  · subst hword
    exact variableValue_word_c_iff name eq hc
  have hword' : head.isWord "c" = false := by
    cases head with
    | group text e inner => rfl
    | word w => exact decide_eq_false fun hw => hword (by rw [hw])
  rw [variableValue_eq line' eq hword' h]
  rw [element.eq_def] at hc
  unfold SameAtTop
  dsimp only at hc
  by_cases hnull : head.is "null" = true
  · have hexpr := isExpression_of_text (by decide) (of_decide_eq_true hnull)
    rw [if_pos hnull] at hc ⊢
    obtain rfl := Except.ok.inj hc
    rw [hexpr, if_neg (by decide), initialValue_eq_value_iff, of_decide_eq_true hnull]
    exact and_iff_left ⟨rfl, rfl⟩
  rw [if_neg hnull] at hc ⊢
  by_cases hempty : head.isEmptyValue = true
  · rw [if_pos hempty] at hc ⊢
    obtain rfl := Except.ok.inj hc
    rw [isExpression_of_isEmptyValue hempty, if_neg (by decide)]
    constructor
    · intro heq hscalar
      rw [initialValue_of_isScalar line' hscalar] at heq
      cases heq
    · intro hscalar
      rw [initialValue_of_isEmptyValue line' hscalar hempty]
      rfl
  rw [if_neg hempty] at hc ⊢
  by_cases hexpr : head.isExpression = true
  · rw [if_pos hexpr] at hc ⊢
    rw [if_pos hexpr]
    refine iff_of_true ?_ trivial
    obtain ⟨_, hresult, -, rfl⟩ := ((kept_expression line line' ty (head :: rest)).map _) c hc
    exact hresult
  rw [if_neg hexpr] at hc ⊢
  rw [if_neg hexpr]
  have hempty' : head.isEmptyValue = false := by simpa using hempty
  cases head with
  | group text e inner =>
    cases e with
    | brace =>
      exact initialValue_eq_aggregate_iff (by rintro _ _ _ ⟨⟩)
        (fun hscalar => initialValue_brace line' hscalar hempty') hc
    | bracket =>
      exact initialValue_eq_aggregate_iff (by rintro _ _ _ ⟨⟩)
        (fun hscalar => initialValue_bracket line' hscalar hempty') hc
    | angle => exact initialValue_eq_angle_iff hempty' hc
    | paren =>
      cases rest with
      | nil => exact initialValue_eq_plain_iff hword' hc
      | cons next more =>
        exact iff_of_false (initialValue_ne_of_next (by rintro - ⟨⟩) hc) (by rintro ⟨-, ⟨⟩, -⟩)
  | word w =>
    cases rest with
    | nil => exact initialValue_eq_plain_iff hword' hc
    | cons next more =>
      refine iff_of_false (initialValue_ne_of_next (fun hw => ?_) hc) fun hsame => ?_
      · exact absurd (congrArg Token.word (of_decide_eq_true hw)) hword
      · exact hword (congrArg Token.word (of_decide_eq_true hsame.2.1))

end

/-- **A constant at the top and in an aggregate.** Let a type and the tokens of a value
    spell an element. The definition of a variable with that type and value has a node
    whose value is the element exactly in the cases of `SameAtTop`. -/
theorem globalVariable_eq_element_iff {name ty head : Token} {rest : List Token} {c : Constant}
    {line : Line} (hname : name.text ≠ constructorsName) (hty : IsTypeToken ty)
    (hsegment : ∀ t ∈ ty :: head :: rest, t.InSegment)
    (hc : (element line (ty :: head :: rest)).result = .ok c)
    (text : Text) (number : Nat) (indent : Indent) :
    (Statement.ofCategory .global
        ⟨text, number, indent, globalTokens name ty (head :: rest)⟩).result =
      .ok (some ⟨number, some name.text, false,
        .globalVariable ty.text false (some c) none⟩) ↔
      SameAtTop ty.text head rest := by
  have hhead : head.InSegment := hsegment head (List.mem_cons_of_mem ty List.mem_cons_self)
  rw [result_global hty hname hhead, ← variableValue_eq_element_iff name (.word "=") hsegment hc]
  rcases (variableValue _ ty.text (name :: .word "=" :: ty :: head :: rest)).result with f | value
  · exact iff_of_false (by rintro ⟨⟩) (by rintro ⟨⟩)
  · simp [Except.map]

/-- A text at the top and in an aggregate. -/
theorem globalVariable_eq_element_of_text :
    let line : Line := ⟨"@s = global [2 x i8] c\"a;\"", 1, .topLevel, []⟩
    let ty : Token := .group "[2 x i8]" .bracket [.word "2", .word "x", .word "i8"]
    let value : List Token := [.word "c", .word "\"a;\""]
    (element line (ty :: value)).result = .ok (.string "[2 x i8]" "a;") ∧
      (Statement.ofCategory .global
          ⟨line.text, 1, .topLevel, globalTokens (.word "@s") ty value⟩).result =
        .ok (some ⟨1, some "@s".toList, false,
          .globalVariable "[2 x i8]" false (some (.string "[2 x i8]" "a;")) none⟩) := by
  intro line ty value
  have helement : (element line (ty :: value)).result = .ok (.string "[2 x i8]" "a;") := by
    rw [element.eq_def]
    rfl
  have hsegment : ∀ t ∈ ty :: value, t.InSegment := by
    simp [ty, value, Token.InSegment, Token.isDelimiter, Token.isSeparator, Token.isComment,
      Token.isWord]
  have hsame : SameAtTop "[2 x i8]" (.word "c") [.word "\"a;\""] := by
    have hscalar : ¬TypeText.IsScalar "[2 x i8]" := by
      unfold TypeText.IsScalar
      decide
    exact ⟨hscalar, rfl, rfl⟩
  have hname : (Token.word "@s").text ≠ constructorsName := by decide
  exact ⟨helement, (globalVariable_eq_element_iff hname ⟨rfl, rfl⟩ hsegment helement _ _ _).2
    hsame⟩

/-- The address of a label is an element, and at the top a pointer with the name of its
    first word. -/
theorem blockAddress_lost_at_top :
    let value : List Token := [.word "blockaddress",
      .group "(@main, %bb)" .paren [.word "@main", .separator, .word "%bb"]]
    let line : Line := ⟨"@g = global i8* blockaddress(@main, %bb)", 1, .topLevel,
      globalTokens (.word "@g") (.word "i8*") value⟩
    (element line (.word "i8*" :: value)).result = .ok (.blockAddress "@main" "%bb") ∧
      (Statement.ofCategory .global line).result =
        .ok (some ⟨1, some "@g".toList, false,
          .globalVariable "i8*" false (some (.value "i8*" "blockaddress")) none⟩) := by
  intro value line
  constructor
  · rw [element.eq_def]
    rfl
  · rfl

end LlvmAsm
