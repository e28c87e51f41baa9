/-
  Readers note the types of the operands that they read.

  `Operand.types` are the types in an operand at every depth, and `Operand.Covered` says
  that a registry knows them all. A type may be known without the stars at its end: the
  readers of parameters note it in this form.

  * `Secures known P` says of a reading that its value satisfies `P` if all that it notes
    is in the registry `known`; `Secures.bind` goes through a sequence step by step, and no
    step has to say what the others noted;
  * `secures_operand`, `secures_expression`, `secures_parameters` and `secures_element`:
    what these readers yield is covered, by induction on how they read.
-/
import LlvmAsm.Proofs.Constant
import LlvmAsm.Proofs.Registry

namespace LlvmAsm

open Reading

/-! ## Known types -/

namespace Registry

/-- The registry knows the type, if it is one that may be entered. -/
def Knows (r : Registry) (ty : Text) : Prop := Enters ty → ty ∈ r.names

/-- The registry knows the type or what is left of it without its stars, if that is
    neither empty nor the unknown type. -/
def KnowsBare (r : Registry) (ty : Text) : Prop :=
  Enters (TypeText.bare ty) → ty ∈ r.names ∨ TypeText.bare ty ∈ r.names

variable {r : Registry} {ty : Text}

theorem Enters.of_bare (h : Enters (TypeText.bare ty)) : Enters ty := by
  refine ⟨?_, ?_⟩
  · rintro rfl
    exact h.1 rfl
  · rintro rfl
    exact h.2 (by decide)

theorem Knows.knowsBare (h : r.Knows ty) : r.KnowsBare ty := fun hty => Or.inl (h hty.of_bare)

theorem KnowsBare.of_bare (h : r.Knows (TypeText.bare ty)) : r.KnowsBare ty :=
  fun hty => Or.inr (h hty)

theorem knowsBare_unknown : r.KnowsBare TypeText.unknown := fun hty => absurd rfl hty.of_bare.2

/-- All that is noted is known afterwards. -/
theorem knows_learn (r : Registry) {tys : List Text} (h : ty ∈ tys) : (r.learn tys).Knows ty :=
  fun hty => mem_names_learn.2 (Or.inr ⟨h, hty⟩)

end Registry

/-! ## Readings with known types -/

namespace Reading

variable {α β : Type} {known : Registry} {P : α → Prop} {Q : β → Prop}

/-- The value of the reading satisfies `P` if all the types that it notes are known. -/
def Secures (known : Registry) (P : α → Prop) (r : Reading α) : Prop :=
  (∀ ty ∈ r.noted, known.Knows ty) → ∀ a, r.result = .ok a → P a

theorem Secures.mono {P' : α → Prop} {r : Reading α} (h : r.Secures known P)
    (hP : ∀ a, P a → P' a) : r.Secures known P' :=
  fun hnoted a ha => hP a (h hnoted a ha)

/-- Of a reading whose notes do not matter, only that it has a value is of use. -/
theorem secures_any (known : Registry) (r : Reading α) :
    r.Secures known fun a => r.result = .ok a := fun _ _ ha => ha

theorem secures_pure {a : α} (h : P a) : (pure a : Reading α).Secures known P := by
  rintro - _ ⟨⟩
  exact h

theorem secures_fail (f : Failure) : (fail f : Reading α).Secures known P := by
  rintro - _ ⟨⟩

theorem secures_note (known : Registry) (ty : Text) :
    (note ty).Secures known fun _ => known.Knows ty :=
  fun hnoted _ _ => hnoted ty List.mem_cons_self

/-- The steps of a sequence one after the other. -/
theorem Secures.bind {r : Reading α} {f : α → Reading β} (h : r.Secures known P)
    (hf : ∀ a, P a → (f a).Secures known Q) : (r >>= f).Secures known Q := by
  intro hnoted b hb
  obtain ⟨a, ha, hb⟩ := exists_of_bind_ok hb
  rw [noted_bind_ok ha] at hnoted
  have hPa : P a := h (fun ty hty => hnoted ty (List.mem_append_left _ hty)) a ha
  exact hf a hPa (fun ty hty => hnoted ty (List.mem_append_right _ hty)) b hb

theorem Secures.map {r : Reading α} {g : α → β} (h : r.Secures known P)
    (hg : ∀ a, P a → Q (g a)) : (g <$> r).Secures known Q := by
  rw [← bind_pure_comp]
  exact h.bind fun a ha => secures_pure (hg a ha)

/-- A run knows all that it noted. -/
theorem Secures.of_run {r : Reading α} {known' : Registry} {a : α}
    (h : r.Secures known' P) (hrun : r.run known = (.ok a, known')) : P a := by
  refine h (fun ty hty => ?_) a (congrArg Prod.fst hrun)
  rw [← show (r.run known).2 = known' from congrArg Prod.snd hrun]
  exact Registry.knows_learn known hty

end Reading

/-! ## Types in operands -/

namespace Operand

mutual

/-- The types in an operand, at every depth. -/
def types : Operand → List Text
  | scalar ty _ _ => [ty]
  | struct ty values => ty :: typesAll values
  | expr e => e.ty :: typesAll e.params
  | blockAddress _ _ | varargs => []

/-- The types in several operands. -/
def typesAll : List Operand → List Text
  | [] => []
  | o :: os => o.types ++ typesAll os

end

/-- All types in the operand are known, perhaps without their stars. -/
def Covered (known : Registry) (o : Operand) : Prop := ∀ ty ∈ o.types, known.KnowsBare ty

/-- All types in the operands are known, perhaps without their stars. -/
def CoveredAll (known : Registry) (os : List Operand) : Prop := ∀ o ∈ os, o.Covered known

variable {known : Registry}

theorem coveredAll_iff {os : List Operand} :
    CoveredAll known os ↔ ∀ ty ∈ typesAll os, known.KnowsBare ty := by
  induction os with
  | nil => simp [CoveredAll, typesAll]
  | cons o os ih =>
    rw [CoveredAll, List.forall_mem_cons, typesAll, List.forall_mem_append, ← ih]
    rfl

theorem coveredAll_nil : CoveredAll known [] := List.forall_mem_nil _

theorem coveredAll_cons {o : Operand} {os : List Operand} :
    CoveredAll known (o :: os) ↔ o.Covered known ∧ CoveredAll known os := List.forall_mem_cons

theorem covered_scalar {ty ident : Text} {byVal : Bool} :
    (scalar ty ident byVal).Covered known ↔ known.KnowsBare ty := by
  rw [Covered, types, List.forall_mem_singleton]

theorem covered_struct {ty : Text} {values : List Operand} :
    (struct ty values).Covered known ↔ known.KnowsBare ty ∧ CoveredAll known values := by
  rw [Covered, types, List.forall_mem_cons, coveredAll_iff]

theorem covered_expr {e : Expression Operand} :
    (expr e).Covered known ↔ known.KnowsBare e.ty ∧ CoveredAll known e.params := by
  rw [Covered, types, List.forall_mem_cons, coveredAll_iff]

theorem covered_blockAddress (func label : Text) : (blockAddress func label).Covered known :=
  List.forall_mem_nil _

theorem covered_varargs : varargs.Covered known := List.forall_mem_nil _

/-- Another type that is known does no harm. -/
theorem Covered.withType {o : Operand} (h : o.Covered known) {ty : Text}
    (hty : known.KnowsBare ty) : (o.withType ty).Covered known := by
  cases o with
  | scalar => exact covered_scalar.2 hty
  | struct => exact covered_struct.2 ⟨hty, (covered_struct.1 h).2⟩
  | expr => exact covered_expr.2 ⟨hty, (covered_expr.1 h).2⟩
  | blockAddress | varargs => exact h

end Operand

open Operand

/-! ## Readers of operands -/

section
variable (known : Registry) (line : Line)

/-- A parameter is known by its type without stars. -/
theorem secures_namedParameter (segment : List Token) (byVal : Bool) :
    (namedParameter segment byVal).Secures known (Covered known) :=
  (secures_note known _).bind fun _ hty => secures_pure (covered_scalar.2 (.of_bare hty))

/-- Expressions and parameters by induction on how they are read. -/
theorem secures_expression_parameters :
    (∀ (ty : Token) (ts : List Token),
      (expression line ty ts).Secures known fun e => (expr e).Covered known) ∧
    (∀ ts : List Token, (parameters line ts).Secures known (CoveredAll known)) ∧
    ∀ (unnamed : Nat) (parts : List (List Token)),
      (parametersFrom line unnamed parts).Secures known (CoveredAll known) := by
  apply expression.mutual_induct line
  case case1 =>
    intro ty tokens op next rest htokens hop text e args tail hargs ih
    rw [expression_eq htokens hop hargs]
    refine ih.bind fun params hparams => (secures_note known _).bind fun _ hty => ?_
    exact secures_pure (covered_expr.2 ⟨hty.knowsBare, hparams⟩)
  case case2 =>
    intro ty tokens op next rest htokens hop hargs
    rw [expression_of_no_operands htokens hop hargs]
    exact secures_fail _
  case case3 =>
    intro ty tokens op next rest htokens hop
    rw [expression_of_no_operation htokens hop]
    exact secures_fail _
  case case4 =>
    intro ty tokens hshort
    rw [expression_of_short hshort]
    exact secures_fail _
  case case5 =>
    intro ts ih
    rwa [parameters]
  case case6 =>
    intro unnamed
    rw [parametersFrom]
    exact secures_pure coveredAll_nil
  case case7 =>
    intro unnamed parts ih
    rwa [parametersFrom]
  case case8 =>
    intro unnamed ty rest parts byVal hrest hty ih
    rw [parametersFrom_type hrest, if_pos hty]
    exact ih.bind fun os hos => secures_pure (coveredAll_cons.2 ⟨covered_varargs, hos⟩)
  case case9 =>
    intro unnamed ty rest parts byVal hrest hty ih
    rw [parametersFrom_type hrest, if_neg hty]
    refine (secures_note known _).bind fun _ hknown => ih.bind fun os hos => ?_
    exact secures_pure (coveredAll_cons.2 ⟨covered_scalar.2 hknown.knowsBare, hos⟩)
  case case10 =>
    intro unnamed ty rest parts value more byVal hrest hexpr ih ihexpr
    rw [parametersFrom_value hrest, parameterOf, if_pos hexpr]
    refine (ihexpr.map (fun e he => he)).bind fun o ho => ih.bind fun os hos => ?_
    exact secures_pure (coveredAll_cons.2 ⟨ho, hos⟩)
  case case11 =>
    intro unnamed ty rest parts value more byVal hrest hexpr hblock ih
    rw [parametersFrom_value hrest, parameterOf, if_neg hexpr, if_pos hblock]
    refine Secures.bind (P := Covered known) ?_ fun o ho => ih.bind fun os hos =>
      secures_pure (coveredAll_cons.2 ⟨ho, hos⟩)
    exact (secures_any known _).map fun names _ => covered_blockAddress names.1 names.2
  case case12 =>
    intro unnamed ty rest parts value more byVal hrest hexpr hblock ih
    rw [parametersFrom_value hrest, parameterOf, if_neg hexpr, if_neg hblock]
    refine (secures_namedParameter known _ _).bind fun o ho => ih.bind fun os hos => ?_
    exact secures_pure (coveredAll_cons.2 ⟨ho, hos⟩)

theorem secures_expression (ty : Token) (ts : List Token) :
    (expression line ty ts).Secures known fun e => (expr e).Covered known :=
  (secures_expression_parameters known line).1 ty ts

theorem secures_parameters (ts : List Token) :
    (parameters line ts).Secures known (CoveredAll known) :=
  (secures_expression_parameters known line).2.1 ts

/-- Operands of instructions, and those in braces, by induction on how they are read. -/
theorem secures_operand_operands :
    (∀ segment : List Token, (operand line segment).Secures known (Covered known)) ∧
    ∀ parts : List (List Token), (operands line parts).Secures known (CoveredAll known) := by
  apply operand.mutual_induct
  case case1 =>
    rw [operand]
    exact secures_fail _
  case case2 =>
    intro t ht
    rw [operand, if_pos ht]
    exact (secures_note known _).bind fun _ hty => secures_pure (covered_scalar.2 hty.knowsBare)
  case case3 =>
    intro t ht
    rw [operand, if_neg ht]
    exact secures_pure (covered_scalar.2 Registry.knowsBare_unknown)
  case case4 =>
    intro ty value rest inner h ih
    rw [operand_struct h]
    refine (secures_note known _).bind fun _ hty => ih.bind fun os hos => ?_
    exact secures_pure (covered_struct.2 ⟨hty.knowsBare, hos⟩)
  case case5 =>
    intro ty value rest h hty
    rw [operand_value h, if_pos hty]
    exact (secures_expression known line _ _).map fun e he => he
  case case6 =>
    intro ty value rest h hty hvalue
    rw [operand_value h, if_neg hty, if_pos hvalue]
    exact (secures_expression known line _ _).map fun e he => he
  case case7 =>
    intro ty value rest h hty hvalue
    rw [operand_value h, if_neg hty, if_neg hvalue]
    refine (secures_note known _).bind fun _ hknown => ?_
    exact secures_pure (covered_scalar.2 hknown.knowsBare)
  case case8 =>
    rw [operands]
    exact secures_pure coveredAll_nil
  case case9 =>
    intro part parts ih ih'
    rw [operands]
    refine ih.bind fun o ho => ih'.bind fun os hos => ?_
    exact secures_pure (coveredAll_cons.2 ⟨ho, hos⟩)

theorem secures_operand (segment : List Token) :
    (operand line segment).Secures known (Covered known) :=
  (secures_operand_operands known line).1 segment

theorem secures_operands (parts : List (List Token)) :
    (operands line parts).Secures known (CoveredAll known) :=
  (secures_operand_operands known line).2 parts

end

/-! ## Operands in constants -/

namespace Constant

mutual

/-- The operands in a constant, at every depth: its expressions. -/
def operands : Constant → List Operand
  | struct _ contents | list _ contents => operandsAll contents
  | expr e => [.expr e]
  | value .. | emptyStruct _ | string .. | blockAddress .. => []

/-- The operands in several constants. -/
def operandsAll : List Constant → List Operand
  | [] => []
  | c :: cs => c.operands ++ operandsAll cs

end

end Constant

section
variable (known : Registry) (line : Line)

/-- Elements by induction on how they are read: only expressions have operands. -/
theorem secures_element_elements :
    (∀ segment : List Token,
      (element line segment).Secures known fun c => CoveredAll known c.operands) ∧
    ∀ parts : List (List Token),
      (elements line parts).Secures known fun cs => CoveredAll known (Constant.operandsAll cs) := by
  apply element.mutual_induct
  case case1 | case2 | case7 | case8 =>
    intros
    rw [element.eq_def]
    simp_all only [Bool.false_eq_true, if_false, if_true]
    exact secures_pure coveredAll_nil
  case case10 | case11 =>
    intros
    rw [element.eq_def]
    simp_all only [Bool.false_eq_true, if_false]
    exact secures_fail _
  case case3 =>
    intro ty head rest hnull hempty hexpr
    rw [element.eq_def]
    simp only [hnull, hempty, hexpr, Bool.false_eq_true, if_false, if_true]
    exact (secures_expression known line ty _).map fun e he => List.forall_mem_singleton.2 he
  case case4 | case5 | case6 =>
    intro ty rest text inner hnull hempty hexpr ih
    rw [element.eq_def]
    simp only [hnull, hempty, hexpr, Bool.false_eq_true, if_false]
    exact ih.map fun cs hcs => hcs
  case case9 =>
    intro ty head hnull hempty hexpr next tail hc hblock hbrace hangle hbracket
    rw [element.eq_def]
    simp only [hnull, hempty, hexpr, hc, hblock, Bool.false_eq_true, if_false, if_true]
    exact (secures_any known _).map fun _ _ => coveredAll_nil
  case case12 =>
    rw [elements]
    exact secures_pure coveredAll_nil
  case case13 =>
    intro parts ih
    rwa [elements]
  case case14 =>
    intro t ts parts ih ih'
    rw [elements]
    refine ih.bind fun c hc => ih'.bind fun cs hcs => secures_pure ?_
    exact List.forall_mem_append.2 ⟨hc, hcs⟩

theorem secures_elements (parts : List (List Token)) :
    (elements line parts).Secures known fun cs => CoveredAll known (Constant.operandsAll cs) :=
  (secures_element_elements known line).2 parts

theorem secures_initialValue (ty : Text) (value : Token) :
    (initialValue line ty value).Secures known fun c => CoveredAll known c.operands := by
  unfold initialValue
  split
  · exact secures_pure coveredAll_nil
  split
  · exact secures_pure coveredAll_nil
  split
  · split
    · exact secures_pure coveredAll_nil
    · exact secures_fail _
  · exact (secures_elements known line _).map fun cs hcs => hcs
  · split
    · exact (secures_elements known line _).map fun cs hcs => hcs
    · exact (secures_elements known line _).map fun cs hcs => hcs
  · exact (secures_elements known line _).map fun cs hcs => hcs
  · exact secures_fail _

end

end LlvmAsm
