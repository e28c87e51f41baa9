/-
  The address of an element.

  The instruction `getelementptr` and the expression of that name have the same list of
  operands. The instruction has it behind its words, where it begins with the first type;
  the expression has it between parentheses. In either place the list has the tokens that it
  has by itself, so both lead to the same parameters (`elementPointer_eq_expression`).

  * `result_elementPointer` and `result_expressionOf`: the nodes that the two forms make of
    the tokens of their operands.
-/
import LlvmAsm.Instruction.Access
import LlvmAsm.Proofs.Argument
import LlvmAsm.Proofs.Token.Content
import LlvmAsm.Proofs.Token.Yield

namespace LlvmAsm

open Reading Token

/-! ## The two forms -/

/-- The words in front of the operands. -/
def addressText (inbounds : Bool) : Text :=
  if inbounds then "getelementptr inbounds" else "getelementptr"

/-- The tokens of these words. -/
def addressWords (inbounds : Bool) : List Token :=
  if inbounds then [word "getelementptr", word "inbounds"] else [word "getelementptr"]

section
variable {line : Line} {ts : List Token}

theorem yields_addressText (inbounds : Bool) :
    Yields (addressText inbounds) (addressWords inbounds) := by
  have hfirst : Yields "getelementptr" [word "getelementptr"] := by
    have := yields_word (w := "getelementptr") rfl (by decide) (plainChars_of_all (by decide))
      (by decide) (List.forall_mem_nil _)
    simpa using this
  cases inbounds with
  | false => exact hfirst
  | true =>
    have hsecond : Yields "inbounds" [word "inbounds"] := by
      have := yields_word (w := "inbounds") rfl (by decide) (plainChars_of_all (by decide))
        (by decide) (List.forall_mem_nil _)
      simpa using this
    exact hfirst.append_blank hsecond

theorem addressWords_spec (inbounds : Bool) :
    ∀ t ∈ addressWords inbounds, t.Inert ∧ t.Settled ∧ t.isComment = false := by
  have hwords : ∀ t ∈ addressWords true, t.Inert ∧ t.Settled ∧ t.isComment = false := by
    refine List.forall_mem_cons.2 ⟨?_, List.forall_mem_singleton.2 ?_⟩
    · exact ⟨⟨by decide, by decide⟩, by decide, by decide⟩
    · exact ⟨⟨by decide, by decide⟩, by decide, by decide⟩
  cases inbounds with
  | true => exact hwords
  | false => exact fun t ht => hwords t (List.mem_cons.2 (Or.inl (List.mem_singleton.1 ht)))

/-- An expression has the parameters of the tokens between its parentheses. -/
theorem result_expression {ty op next : Token} {tokens rest args tail : List Token} {text : Text}
    {e : Encloser} (hop : op.isExpression = true) (htokens : tokens = op :: next :: rest)
    (hargs : (next :: rest).dropWhile (!·.isGroup) = .group text e args :: tail) :
    (expression line ty tokens).result = (parameters line args).result.map fun params =>
      { op := op.text
        variant := if next.isGroup then none else some next.text
        ty := expressionType ty.text op.text args
        params := params
        ident := params.head?.bind Operand.ident? } := by
  have hattributes : (dropAttributes tokens).1 = op :: next :: rest := by
    rw [htokens, dropAttributes_of_isExpression hop]
  rw [expression_eq hattributes hop hargs]
  simp only [result_bind]
  cases (parameters line args).result <;> rfl

/-- The instruction has the parameters of the tokens behind its words. -/
theorem result_elementPointer {inbounds : Bool} {first : Token} {rest : List Token}
    (htokens : line.tokens = addressWords inbounds ++ first :: rest)
    (hcomment : ∀ t ∈ first :: rest, t.isComment = false)
    (htype : TypeText.isType first.text = true) :
    (Instruction.elementPointer line).result =
      (parameters line (first :: rest)).result.map fun params =>
        ⟨line.number, params.head?.bind Operand.ident?, false, .elementPointer "*" params⟩ := by
  have hbefore : beforeComment line.tokens = line.tokens := by
    refine List.takeWhile_eq_self_iff.2 fun t ht => ?_
    rw [htokens] at ht
    rcases List.mem_append.1 ht with ht | ht
    · simp [(addressWords_spec inbounds t ht).2.2]
    · simp [hcomment t ht]
  have hoperands : (beforeComment line.tokens).dropWhile (!TypeText.isType ·.text) =
      first :: rest := by
    rw [hbefore, htokens]
    refine dropWhile_exact (fun t ht => ?_) fun t ht => ?_
    · simp [(addressWords_spec inbounds t ht).1.type]
    · obtain rfl : first = t := Option.some.inj ht
      simp [htype]
  have hresult : (expression line first
      [word "getelementptr", .group [] .paren (first :: rest)]).result = _ :=
    result_expression (by decide) rfl rfl
  rw [Instruction.elementPointer, hoperands]
  dsimp only
  rw [result_bind, hresult]
  cases (parameters line (first :: rest)).result <;> rfl

/-- The expression has the parameters of the tokens between its parentheses. -/
theorem result_expressionOf (inbounds : Bool) (ty : Token) (text : Text) (inner : List Token) :
    (expressionOf line (ty :: addressWords inbounds ++ [.group text .paren inner])).result =
      (parameters line inner).result.map fun params =>
        { op := "getelementptr", variant := if inbounds then some "inbounds" else none,
          ty := expressionType ty.text "getelementptr" inner, params := params,
          ident := params.head?.bind Operand.ident? } := by
  cases inbounds with
  | false => exact result_expression (by decide) rfl rfl
  | true => exact result_expression (by decide) rfl rfl

end

/-- **The address of an element has the same operands in both forms**: the instruction and
    the expression lead to the same parameters and to the same name, or to the same failure.
    The operands only have to begin with a type, so that the instruction finds them; the
    type `R` of the expression does not matter. -/
theorem elementPointer_eq_expression {a R : Text} {number : Nat} {ts : List Token}
    {first r : Token} (inbounds : Bool) (hsemi : ';' ∉ a) (ha : tokensOf a number = .ok ts)
    (hfirst : ts.head? = some first) (htype : TypeText.isType first.text = true)
    (hstar : first.text.head? ≠ some '*') (hR : tokensOf R number = .ok [r])
    (hr : TypeText.isType r.text = true) :
    ∃ tokens segment, tokensOf (addressText inbounds ++ " " ++ a) number = .ok tokens ∧
      tokensOf (R ++ " " ++ addressText inbounds ++ " (" ++ a ++ ")") number = .ok segment ∧
      ∀ line : Line, line.tokens = tokens →
        (Instruction.elementPointer line).result =
          (expressionOf line segment).result.map fun e =>
            ⟨line.number, e.ident, false, .elementPointer "*" e.params⟩ := by
  rw [tokensOf_eq_ok, tokenize_eq_tokenizeAll hsemi] at ha
  obtain ⟨qs, hqs, rfl⟩ := tokenizeAll_eq_ok.1 ha
  obtain ⟨rest, hrest⟩ := List.head?_eq_some_iff.1 hfirst
  have hcomment : ∀ t ∈ arrange qs, t.isComment = false := by
    intro t ht
    rw [Bool.eq_false_iff]
    intro hcomment
    have hmem : ';' ∈ Text.content ((arrange qs).flatMap Token.text) := by
      rw [isWord_iff.1 hcomment] at ht
      exact List.mem_filter.2 ⟨List.mem_flatMap.2 ⟨_, ht, by simp [text]⟩, by decide⟩
    rw [content_tokenize hqs.tokenize] at hmem
    exact hsemi (List.mem_filter.1 hmem).1
  have hlast : ∀ last ∈ (addressWords inbounds).getLast?, last.Inert := fun last h =>
    (addressWords_spec inbounds last (List.mem_of_getLast? h)).1
  have hsettled : ∀ t ∈ addressWords inbounds, t.Settled := fun t ht =>
    (addressWords_spec inbounds t ht).2.1
  have hne : addressWords inbounds ≠ [] := by cases inbounds <;> simp [addressWords]
  -- the operands have their own tokens in both places
  have hline := (yields_addressText inbounds).tokenize_behind hsettled hlast hqs
    (by simpa [hfirst] using hstar)
  obtain ⟨ps, hps, hone⟩ := exists_pieces_of_type (tokensOf_eq_ok.1 hR) hr
  have hsegment := tokenize_groupBehind hps (yields_addressText inbounds) hne hlast hqs
  have hspace : addressText inbounds ++ " " ++ a = addressText inbounds ++ ' ' :: a := by simp
  have hparens : R ++ " " ++ addressText inbounds ++ " (" ++ a ++ ")" =
      R ++ ' ' :: (addressText inbounds ++ ' ' :: ('(' :: a ++ [')'])) := by simp
  rw [hrest, ← hspace] at hline
  rw [hone, ← hparens] at hsegment
  rw [hrest] at hcomment
  refine ⟨_, _, tokensOf_eq_ok.2 hline, tokensOf_eq_ok.2 hsegment, fun line htokens => ?_⟩
  rw [result_elementPointer htokens hcomment htype, List.singleton_append, result_expressionOf,
    hrest]
  cases (parameters line (first :: rest)).result <;> rfl

/-- The operands are an expression and two indices. -/
theorem elementPointer_eq_expression_of_cast :
    let a : Text := "%S* bitcast (i8* @g to %S*), i32 0, i64 %i"
    let R : Text := "[2 x i8]*"
    let cast := group "(i8* @g to %S*)" .paren [word "i8*", word "@g", word "to", word "%S*"]
    let ts := [word "%S*", word "bitcast", cast, separator, word "i32", word "0", separator,
      word "i64", word "%i"]
    let r := group "[2 x i8]*" .bracket [word "2", word "x", word "i8"]
    ';' ∉ a ∧ tokensOf a 5 = .ok ts ∧ TypeText.isType (word "%S*").text = true ∧
      tokensOf R 5 = .ok [r] ∧ TypeText.isType r.text = true ∧
      ∃ tokens segment, tokensOf (addressText true ++ " " ++ a) 5 = .ok tokens ∧
        tokensOf (R ++ " " ++ addressText true ++ " (" ++ a ++ ")") 5 = .ok segment ∧
        ∀ line : Line, line.tokens = tokens →
          (Instruction.elementPointer line).result =
            (expressionOf line segment).result.map fun e =>
              ⟨line.number, e.ident, false, .elementPointer "*" e.params⟩ := by
  intro a R cast ts r
  have hcast : Pieces "i8* @g to %S*" [word "i8*", word "@g", word "to", word "%S*"] :=
    ⟨by decide, .cons (.word rfl) (.cons (.word rfl) (.cons (.word rfl) (.cons (.word rfl) .nil)))⟩
  have hcast' : Lexeme.Reads (.run '(' "i8* @g to %S*)") cast := .group rfl hcast.tokenize
  have hpieces : Pieces a ts := by
    refine ⟨by decide, ?_⟩
    exact .cons (.word rfl) (.cons (.word rfl) (.cons hcast' (.cons .comma (.cons (.word rfl)
      (.cons (.word rfl) (.cons .comma (.cons (.word rfl) (.cons (.word rfl) .nil))))))))
  have harray : Pieces "2 x i8" [word "2", word "x", word "i8"] :=
    ⟨by decide, .cons (.word rfl) (.cons (.word rfl) (.cons (.word rfl) .nil))⟩
  have hR : Pieces R [group "[2 x i8]" .bracket [word "2", word "x", word "i8"], word "*"] :=
    ⟨by decide, .cons (.group rfl harray.tokenize) (.cons (.word rfl) .nil)⟩
  have hsemi : ';' ∉ a := by decide
  have hts : tokensOf a 5 = .ok ts := by
    rw [tokensOf_eq_ok, hpieces.tokenize]
    decide
  have hr : tokensOf R 5 = .ok [r] := by
    rw [tokensOf_eq_ok, hR.tokenize]
    decide
  have htype : TypeText.isType (word "%S*").text = true := by decide
  have htype' : TypeText.isType r.text = true := by decide
  exact ⟨hsemi, hts, htype, hr, htype',
    elementPointer_eq_expression true hsemi hts rfl htype (by decide) hr htype'⟩

end LlvmAsm
