/-
  Parameters with their names and without.

  The declaration of a function may leave out the names that its definition gives to the
  parameters; types and attributes are the same. `NamedFormal` is a parameter with its name,
  `NamedFormal.declared` the operand that is read where the name is left out, and
  `NamedFormal.defined` the one that is read where it is given.

  * `FormalAttribute.dropAttributes_flatMap`: without a name behind them, all attributes are
    taken off but an alignment at their end, which is taken for a value;
  * `NamedFormal.result_parametersFrom_declared`: so such a parameter is read with the word
    `align` in its type, and it does not count as one without a name;
  * `NamedFormal.parameters_declared_defined`: a parameter has the same type with its name
    and without iff no alignment ends its attributes.
-/
import LlvmAsm.Proofs.Signature

namespace LlvmAsm

open Reading Token

/-! ## Attributes at the end of a parameter -/

namespace FormalAttribute

/-- The attribute is an alignment by a number, or no alignment. -/
def IsNumeric : FormalAttribute → Prop
  | keyword _ => True
  | align amount => ∀ c ∈ amount.1.text, isDigit c = true

/-- The tokens that are left of attributes with nothing behind them. -/
def leftover (as : List FormalAttribute) : List Token :=
  match as.getLast? with
  | some (align amount) => [word "align", amount]
  | _ => []

theorem dropAttributes_tokens (a : FormalAttribute) :
    dropAttributes a.tokens = (leftover [a], a.isByVal) := by
  cases a with
  | keyword w =>
    have hnone : dropAttributes [] = ([], false) := rfl
    have hdrop : dropAttributes ([keyword w].flatMap tokens ++ []) = _ :=
      dropAttributes_append [keyword w] fun _ => List.forall_mem_singleton.2 rfl
    simpa [hnone, leftover] using hdrop
  | align amount => rfl

/-- **What is left of attributes** that nothing follows: the last one is by itself, and it is
    what follows the others. -/
theorem dropAttributes_flatMap (as : List FormalAttribute) :
    dropAttributes (as.flatMap tokens) = (leftover as, as.any isByVal) := by
  rcases List.eq_nil_or_concat as with rfl | ⟨init, last, rfl⟩
  · rfl
  · have hne : last.tokens ≠ [] := by cases last <;> exact List.cons_ne_nil _ _
    have hlast : leftover (init ++ [last]) = leftover [last] := by
      rw [leftover, List.getLast?_concat]
      rfl
    rw [List.concat_eq_append, List.flatMap_append, List.flatMap_singleton,
      dropAttributes_append init (fun hnil => absurd hnil hne), dropAttributes_tokens, hlast]
    simp

end FormalAttribute

/-! ## Parameters with a name -/

/-- A parameter of a function, with its name. Its alignments are by numbers. -/
structure NamedFormal where
  ty : FormalType
  attributes : List FormalAttribute
  name : Text
  numeric : ∀ a ∈ attributes, a.IsNumeric

namespace NamedFormal

/-- The tokens of a parameter of which the name is left out. -/
def declaredTokens (p : NamedFormal) : List Token :=
  p.ty.token :: p.attributes.flatMap FormalAttribute.tokens

/-- The tokens of a parameter with its name. -/
def definedTokens (p : NamedFormal) : List Token :=
  p.declaredTokens ++ [word ('%' :: p.name)]

/-- The parameter is passed by value. -/
def isByVal (p : NamedFormal) : Bool := p.attributes.any FormalAttribute.isByVal

/-- An alignment ends the attributes. -/
def endsAligned (p : NamedFormal) : Bool := p.attributes.getLast?.any FormalAttribute.isAlign

/-- The operand that is read if the name is left out and so many parameters without a name
    come before. The word `align` is taken for a part of the type, and the number behind it
    for the name. -/
def declared (unnamed : Nat) (p : NamedFormal) : Operand :=
  match p.attributes.getLast? with
  | some (.align amount) =>
    .scalar (p.ty.token.text ++ " align") (Literal.normal amount.1.text) p.isByVal
  | _ => .scalar p.ty.token.text ('%' :: Text.ofNat unnamed) p.isByVal

/-- The operands that are read if all names are left out. -/
def declaredAll (unnamed : Nat) : List NamedFormal → List Operand
  | [] => []
  | p :: ps =>
    p.declared unnamed :: declaredAll (if p.endsAligned then unnamed else unnamed + 1) ps

/-- The operand that is read with the name. -/
def defined (p : NamedFormal) : Operand :=
  .scalar p.ty.token.text ('%' :: p.name) p.isByVal

/-! ## Reading them -/

section
variable (line : Line) (p : NamedFormal)

/-- The parameter, as one that may have a name. -/
def formal : Formal := ⟨p.ty, p.attributes, some p.name, nofun⟩

theorem operand_formal (unnamed : Nat) : p.formal.operand unnamed = p.defined := rfl

theorem operands_formal (ps : List NamedFormal) (unnamed : Nat) :
    Formal.operands unnamed (ps.map formal) = ps.map defined := by
  induction ps generalizing unnamed with
  | nil => rfl
  | cons p ps ih => rw [List.map_cons, Formal.operands_cons, ih, operand_formal, List.map_cons]

/-- An alignment without a name behind it is read as a type and a name. -/
theorem result_parameterOf_align {ty amount : Token} (hamount : amount.is "to" = false)
    (byVal : Bool) :
    (parameterOf line ty (word "align") [amount] byVal).result =
      .ok (.scalar (ty.text ++ " align") (Literal.normal amount.text) byVal) := by
  have hrender : render [ty, word "align"] = ty.text ++ " align" := rfl
  rw [parameterOf, if_neg (by decide), if_neg (by decide), namedParameter]
  simp only [List.getElem?_cons_succ, List.getElem?_cons_zero, Option.any_some, hamount,
    Bool.false_eq_true, if_false]
  exact congrArg (fun ty => Except.ok (Operand.scalar ty _ byVal)) hrender

/-- A number is not the word that cuts a parameter off. -/
theorem not_to_of_getLast? {amount : {t : Token // t.isSeparator = false}}
    (h : p.attributes.getLast? = some (.align amount)) : amount.1.is "to" = false := by
  refine decide_eq_false fun hto => ?_
  have hdigit : isDigit 't' = true :=
    p.numeric _ (List.mem_of_getLast? h) 't' (by rw [hto]; exact List.mem_cons_self)
  exact absurd hdigit (by decide)

/-- **One parameter without its name**: it counts among those without a name unless an
    alignment ends its attributes. -/
theorem result_parametersFrom_declared (unnamed : Nat) (parts : List (List Token)) :
    (parametersFrom line unnamed (p.declaredTokens :: parts)).result =
      (parametersFrom line (if p.endsAligned then unnamed else unnamed + 1) parts).result.map
        (p.declared unnamed :: ·) := by
  have hdrop := FormalAttribute.dropAttributes_flatMap p.attributes
  have hellipsis : p.ty.token.is "..." = false := decide_eq_false p.ty.not_ellipsis
  have htype (h : FormalAttribute.leftover p.attributes = []) :
      (parametersFrom line unnamed (p.declaredTokens :: parts)).result =
        (parametersFrom line (unnamed + 1) parts).result.map
          (.scalar p.ty.token.text ('%' :: Text.ofNat unnamed) p.isByVal :: ·) := by
    rw [h] at hdrop
    rw [declaredTokens, parametersFrom_type hdrop, hellipsis, if_neg Bool.false_ne_true,
      result_bind_ok (a := ()) rfl, bind_pure_comp, result_map]
    rfl
  rw [endsAligned, declared]
  cases hlast : p.attributes.getLast? with
  | none => exact htype (by rw [FormalAttribute.leftover, hlast])
  | some a =>
    cases a with
    | keyword w => exact htype (by rw [FormalAttribute.leftover, hlast])
    | align amount =>
      have hleft : FormalAttribute.leftover p.attributes = [word "align", amount] := by
        rw [FormalAttribute.leftover, hlast]
      rw [hleft] at hdrop
      rw [declaredTokens, parametersFrom_value hdrop,
        result_bind_ok (result_parameterOf_align line (p.not_to_of_getLast? hlast) _),
        bind_pure_comp, result_map]
      rfl

end

variable (line : Line)

theorem isSeparator_of_mem_definedTokens (p : NamedFormal) :
    ∀ t ∈ p.definedTokens, t.isSeparator = false := p.formal.isSeparator_of_mem_tokens

/-- Parameters without their names, one after the other. -/
theorem result_parametersFrom_declaredAll (ps : List NamedFormal) (unnamed : Nat) :
    (parametersFrom line unnamed (ps.map declaredTokens)).result =
      .ok (declaredAll unnamed ps) := by
  induction ps generalizing unnamed with
  | nil =>
    rw [List.map_nil, parametersFrom.eq_def]
    rfl
  | cons p ps ih =>
    rw [List.map_cons, result_parametersFrom_declared, ih]
    rfl

/-- A list of parameters without their names. -/
theorem result_parameters_declared (ps : List NamedFormal) :
    (parameters line (List.intercalate [separator] (ps.map declaredTokens))).result =
      .ok (declaredAll 0 ps) := by
  have hparts : ∀ part ∈ ps.map declaredTokens,
      part ≠ [] ∧ ∀ t ∈ part, t.isSeparator = false := by
    intro part hpart
    obtain ⟨p, -, rfl⟩ := List.mem_map.1 hpart
    refine ⟨List.cons_ne_nil _ _, fun t ht => ?_⟩
    exact p.isSeparator_of_mem_definedTokens t (List.mem_append_left _ ht)
  rw [parameters, splitCommas_intercalate hparts, result_parametersFrom_declaredAll]

/-- A list of parameters with their names. -/
theorem result_parameters_defined (ps : List NamedFormal) :
    (parameters line (List.intercalate [separator] (ps.map definedTokens))).result =
      .ok (ps.map defined) := by
  have hread := Formal.result_parameters line (ps.map formal) false
  rw [operands_formal, Formal.listTokens, argList, if_neg Bool.false_ne_true, List.map_map] at hread
  exact hread

/-! ## Comparing them -/

/-- Without its name, a parameter is passed as with it; only an alignment at the end of its
    attributes changes its type. -/
theorem exists_declared_eq (p : NamedFormal) (unnamed : Nat) :
    ∃ ty ident, p.declared unnamed = .scalar ty ident p.isByVal ∧
      (ty = p.ty.token.text ↔ p.endsAligned = false) := by
  rw [declared, endsAligned]
  cases p.attributes.getLast? with
  | none => exact ⟨_, _, rfl, iff_of_true rfl rfl⟩
  | some a =>
    cases a with
    | keyword w => exact ⟨_, _, rfl, iff_of_true rfl rfl⟩
    | align amount =>
      refine ⟨_, _, rfl, iff_of_false (fun heq => ?_) nofun⟩
      cases List.append_right_eq_self.1 heq

theorem forall₂_declaredAll (ps : List NamedFormal) (unnamed : Nat) :
    List.Forall₂ (fun p o => ∃ ty ident, o = .scalar ty ident p.isByVal ∧
      (ty = p.ty.token.text ↔ p.endsAligned = false)) ps (declaredAll unnamed ps) := by
  induction ps generalizing unnamed with
  | nil => exact .nil
  | cons p ps ih => exact .cons (p.exists_declared_eq unnamed) (ih _)

/-- **A name and the type of a parameter.** With their names, parameters are read with their
    types and attributes, whatever these are. Without them, they are passed in the same way,
    and a parameter has the same type iff no alignment ends its attributes. -/
theorem parameters_declared_defined (line : Line) (ps : List NamedFormal) :
    (parameters line (List.intercalate [separator] (ps.map definedTokens))).result =
        .ok (ps.map fun p => .scalar p.ty.token.text ('%' :: p.name) p.isByVal) ∧
      (parameters line (List.intercalate [separator] (ps.map declaredTokens))).result =
        .ok (declaredAll 0 ps) ∧
      List.Forall₂ (fun p o => ∃ ty ident, o = .scalar ty ident p.isByVal ∧
        (ty = p.ty.token.text ↔ p.endsAligned = false)) ps (declaredAll 0 ps) :=
  ⟨result_parameters_defined line ps, result_parameters_declared line ps,
    forall₂_declaredAll ps 0⟩

end NamedFormal

/-- The alignment of a structure that is passed by value becomes a part of its type in the
    declaration of the function, and not in its definition. -/
theorem Listing.aligned_type_of_declaration :
    let declared := Listing.ofLines false 0 ["declare void @f(%S* byval align 4)"]
    let node (params : List Operand) : Node :=
      ⟨1, some "@f".toList, false, .declaration ⟨"void", params, false⟩⟩
    declared.result = .ok ⟨[node [.scalar "%S* align" "4" true]], []⟩ ∧
      (Listing.ofLines false 0 ["define void @f(%S* byval align 4 %s) \x7b"]).result =
        .ok ⟨[⟨1, some "@f".toList, false,
          .function ⟨"void", [.scalar "%S*" "%s" true], false⟩⟩], []⟩ ∧
      ¬∃ ident, declared.result = .ok ⟨[node [.scalar "%S*" ident true]], []⟩ := by
  intro declared node
  have hdeclared : declared.result = .ok ⟨[node [.scalar "%S* align" "4" true]], []⟩ := by
    decide +kernel
  refine ⟨hdeclared, by decide +kernel, ?_⟩
  rintro ⟨ident, hident⟩
  rw [hdeclared] at hident
  exact absurd hident (by simp [node])

end LlvmAsm
