/-
  Reading the line of a global variable.

  * `segmentsFrom_append`: tokens that neither stand between segments nor begin a comment
    stay together;
  * `dropModifiers_global`: the word `global` and a type that is no modifier;
  * `result_global`: such a line has a node as soon as its value can be read, and
    `variableValue_word_c`, `variableValue_eq` say how that is done.
-/
import LlvmAsm.Proofs.Modifier
import LlvmAsm.Proofs.Refinement

namespace LlvmAsm

open Reading

/-! ## Segments -/

/-- The token belongs to a segment. -/
def Token.InSegment (t : Token) : Prop := t.isDelimiter = false ∧ t.isComment = false

theorem segmentsFrom_append {current ts : List Token} (h : ∀ t ∈ ts, t.InSegment)
    (us : List Token) : segmentsFrom current (ts ++ us) = segmentsFrom (current ++ ts) us := by
  induction ts generalizing current with
  | nil => rw [List.nil_append, List.append_nil]
  | cons t ts ih =>
    obtain ⟨⟨hdelimiter, hcomment⟩, hts⟩ := List.forall_mem_cons.1 h
    rw [List.cons_append, segmentsFrom, hdelimiter, hcomment]
    simp only [Bool.false_eq_true, if_false]
    rw [ih hts, List.append_assoc, List.singleton_append]

theorem segments_singleton {t : Token} {ts : List Token} (h : ∀ u ∈ t :: ts, u.InSegment) :
    segments (t :: ts) = [t :: ts] := by
  have happend : segmentsFrom [] (t :: ts ++ []) = segmentsFrom ([] ++ t :: ts) [] :=
    segmentsFrom_append h []
  rw [List.append_nil] at happend
  rw [segments, happend]
  rfl

/-! ## Variables -/

namespace Definition

/-- The tokens of a variable with nothing between the equals sign and its type but the
    word `global`. -/
def globalTokens (name ty : Token) (value : List Token) : List Token :=
  name :: .word "=" :: .word "global" :: ty :: value

section
variable {name ty : Token} (hty : IsTypeToken ty) (line : Line)

include hty in
theorem dropModifiers_global (name : Token) (value : List Token) :
    dropModifiers (globalTokens name ty value) = (name :: .word "=" :: ty :: value, false) :=
  dropModifiers_modifiers (.plain false) hty name (.word "=") value

include hty in
/-- A variable has a node if its value can be read. -/
theorem result_global (hname : name.text ≠ constructorsName) {head : Token}
    (hhead : head.InSegment) (rest : List Token) (text : Text) (number : Nat) (indent : Indent) :
    let line : Line := ⟨text, number, indent, globalTokens name ty (head :: rest)⟩
    (Statement.ofCategory .global line).result =
      (variableValue line ty.text (name :: .word "=" :: ty :: head :: rest)).result.map
        fun value => some ⟨number, some name.text, false,
          .globalVariable ty.text false (some value) none⟩ := by
  intro line
  have htext : textAt line (name :: .word "=" :: ty :: head :: rest) 2 = pure ty.text := rfl
  have hpresent : ((name :: .word "=" :: ty :: head :: rest)[3]?.any
      fun t => !(t.isSeparator || t.isComment)) = true := by
    have hseparator : head.isSeparator = false := (Bool.or_eq_false_iff.1 hhead.1).1
    show (!(head.isSeparator || head.isComment)) = true
    rw [hseparator, hhead.2]
    rfl
  have hkind : globalVariable line name.text = do
      note ty.text
      let value ← variableValue line ty.text (name :: .word "=" :: ty :: head :: rest)
      return .globalVariable ty.text false (some value) none := by
    rw [globalVariable, dropModifiers_global hty]
    simp only [htext, pure_bind, if_neg hname, if_pos hpresent]
  have hsymbol : symbol line = do
      let kind ← globalVariable line name.text
      return ⟨number, some name.text, false, kind⟩ := rfl
  rw [Statement.ofCategory, hsymbol, hkind]
  simp only [← bind_pure_comp, bind_assoc, pure_bind, result_bind]
  cases (variableValue line ty.text (name :: .word "=" :: ty :: head :: rest)).result <;> rfl

/-- The `c` before a text is left out. -/
theorem variableValue_word_c (eq next : Token) (more : List Token) :
    variableValue line ty.text (name :: eq :: ty :: .word "c" :: next :: more) =
      if next.isExpression then
        Constant.expr <$> expressionOf line ((segments (ty :: next :: more)).headD [])
      else initialValue line ty.text next := rfl

theorem variableValue_eq (eq : Token) {head : Token} (hhead : head.isWord "c" = false)
    {rest : List Token} (h : ∀ t ∈ ty :: head :: rest, t.InSegment) :
    variableValue line ty.text (name :: eq :: ty :: head :: rest) =
      if head.isExpression then Constant.expr <$> expression line ty (head :: rest)
      else initialValue line ty.text head := by
  have hsegment : (segments (ty :: head :: rest)).headD [] = ty :: head :: rest := by
    rw [segments_singleton h]
    rfl
  have htoken : tokenAt line (name :: eq :: ty :: head :: rest) 3 = pure head := rfl
  have hc : (name :: eq :: ty :: head :: rest)[3]?.any (·.isWord "c") = false := hhead
  rw [variableValue, hc]
  simp only [Bool.false_eq_true, if_false, htoken, pure_bind]
  rw [List.drop_succ_cons, List.drop_succ_cons, List.drop_zero, hsegment]
  rfl

end

end Definition

end LlvmAsm
