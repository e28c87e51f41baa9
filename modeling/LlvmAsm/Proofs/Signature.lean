/-
  The signatures of functions.

  `SignatureLine` is the line of a function behind its first word: the type, the name and the
  parameters of the function, with words for linkage, visibility, calling convention and
  attributes before each of them, and anything behind them. `Formal` is a parameter: a type,
  attributes, and a name or not.

  * `FormalAttribute.dropAttributes_append`: attributes are taken off one after the other;
  * `Formal.result_parametersFrom`: parameters are read in order, and those without a name
    are numbered;
  * `Definition.signature_of_line`: headers and declarations have the signature of the line.
-/
import LlvmAsm.Definition.Function
import LlvmAsm.Proofs.Parameter

namespace LlvmAsm

open Reading Token

/-! ## Parameters -/

/-- A token that may be the type of a parameter: any but the comma and the mark of further
    arguments. -/
structure FormalType where
  token : Token
  not_separator : token.isSeparator = false
  not_ellipsis : token.text ≠ ellipsis

/-- What may stand between the type of a parameter and its name. -/
inductive FormalAttribute where
  | keyword (w : {w : Text // w ∈ Vocabulary.parameterAttributes})
  | align (amount : {t : Token // t.isSeparator = false})

namespace FormalAttribute

/-- The tokens of an attribute. -/
def tokens : FormalAttribute → List Token
  | keyword w => [word w]
  | align amount => [word "align", amount]

/-- The attribute says that the parameter is passed by value. -/
def isByVal : FormalAttribute → Bool
  | keyword w => w.1 = "byval"
  | align _ => false

/-- The attribute is an alignment. -/
def isAlign : FormalAttribute → Bool
  | keyword _ => false
  | align _ => true

end FormalAttribute

/-- A parameter of a function. An alignment belongs to a parameter with a name. -/
structure Formal where
  ty : FormalType
  attributes : List FormalAttribute
  name? : Option Text
  unaligned : name? = none → ∀ a ∈ attributes, a.isAlign = false

namespace Formal

/-- The token of the name, if there is one. -/
def nameTokens (p : Formal) : List Token := p.name?.toList.map fun name => word ('%' :: name)

/-- The tokens of a parameter. -/
def tokens (p : Formal) : List Token :=
  p.ty.token :: (p.attributes.flatMap FormalAttribute.tokens ++ p.nameTokens)

/-- The operand that is meant, if so many parameters before have no name. -/
def operand (unnamed : Nat) (p : Formal) : Operand :=
  .scalar p.ty.token.text ('%' :: p.name?.getD (Text.ofNat unnamed))
    (p.attributes.any FormalAttribute.isByVal)

/-- The operands that are meant. A parameter without a name has the number of those before
    it, with so many more before the list. -/
def operands (unnamed : Nat) (ps : List Formal) : List Operand :=
  ps.mapIdx fun i p => p.operand (unnamed + (ps.take i).countP (·.name?.isNone))

/-- The tokens of a list of parameters. -/
def listTokens (ps : List Formal) (variadic : Bool) : List Token :=
  List.intercalate [separator] (argList [word ellipsis] variadic (ps.map tokens))

end Formal

/-! ## Reading parameters -/

namespace FormalAttribute

/-- Attributes are taken off up to the name, or all of them if there is no alignment. -/
theorem dropAttributes_append {rest : List Token} (as : List FormalAttribute)
    (h : rest = [] → ∀ a ∈ as, a.isAlign = false) :
    dropAttributes (as.flatMap tokens ++ rest) =
      ((dropAttributes rest).1, as.any isByVal || (dropAttributes rest).2) := by
  induction as with
  | nil => rfl
  | cons a as ih =>
    have ih := ih fun hrest => (List.forall_mem_cons.1 (h hrest)).2
    cases a with
    | keyword w =>
      obtain ⟨w, hw⟩ := w
      have hcontains : Vocabulary.parameterAttributes.contains w = true := by simpa using hw
      have hcons : (keyword ⟨w, hw⟩ :: as).flatMap tokens ++ rest =
          word w :: (as.flatMap tokens ++ rest) := rfl
      rw [hcons, dropAttributes.eq_def, List.any_cons, isByVal]
      dsimp only
      by_cases hbyVal : w = "byval"
      · rw [if_pos hbyVal, ih, decide_eq_true hbyVal, Bool.true_or, Bool.true_or]
      · rw [if_neg hbyVal, if_pos hcontains, ih, decide_eq_false hbyVal, Bool.false_or]
    | align amount =>
      -- an alignment is taken off only if something is left behind its number
      have hrest : rest ≠ [] := by
        intro hrest
        exact absurd (h hrest _ List.mem_cons_self) (by simp [isAlign])
      obtain ⟨t, more, hmore⟩ : ∃ t more, as.flatMap tokens ++ rest = t :: more :=
        List.exists_cons_of_ne_nil (by simp [hrest])
      have hcons : (align amount :: as).flatMap tokens ++ rest =
          word "align" :: amount :: (as.flatMap tokens ++ rest) := rfl
      rw [hcons, hmore, dropAttributes, if_neg (by decide), if_neg (by decide), if_pos rfl,
        ← hmore, ih]
      rfl

theorem isSeparator_of_mem_tokens (a : FormalAttribute) :
    ∀ t ∈ a.tokens, t.isSeparator = false := by
  cases a with
  | keyword w =>
    have hcomma : ",".toList ∉ Vocabulary.parameterAttributes := by decide
    refine List.forall_mem_singleton.2 (decide_eq_false ?_)
    exact fun heq => hcomma (heq ▸ w.2)
  | align amount =>
    exact List.forall_mem_cons.2 ⟨by decide, List.forall_mem_singleton.2 amount.2⟩

end FormalAttribute

namespace Formal

variable (line : Line) (p : Formal)

theorem isSeparator_of_mem_tokens : ∀ t ∈ p.tokens, t.isSeparator = false := by
  refine List.forall_mem_cons.2 ⟨p.ty.not_separator, List.forall_mem_append.2 ⟨?_, ?_⟩⟩
  · intro t ht
    obtain ⟨a, -, ha⟩ := List.mem_flatMap.1 ht
    exact a.isSeparator_of_mem_tokens t ha
  · intro t ht
    obtain ⟨name, -, rfl⟩ := List.mem_map.1 ht
    simp [isSeparator, isWord]

theorem operands_cons (unnamed : Nat) (ps : List Formal) :
    operands unnamed (p :: ps) =
      p.operand unnamed :: operands (unnamed + if p.name?.isNone then 1 else 0) ps := by
  simp [operands, List.mapIdx_cons, List.countP_cons, Nat.add_assoc, Nat.add_comm]

theorem result_parameterOf_local (ty : Token) (name : Text) (byVal : Bool) :
    (parameterOf line ty (word ('%' :: name)) [] byVal).result =
      .ok (.scalar ty.text ('%' :: name) byVal) := by
  have hexpr : (word ('%' :: name)).isExpression = false := by
    simp [isExpression, isOneOf, Vocabulary.expressions]
  have hblock : (word ('%' :: name)).is "blockaddress" = false := by
    simp [Token.is, Token.text]
  have hnormal : Literal.normal (word ('%' :: name)).text = '%' :: name :=
    Literal.normal_local name
  rw [parameterOf, hexpr, hblock, if_neg Bool.false_ne_true, if_neg Bool.false_ne_true,
    result_namedParameter, hnormal]

/-- One parameter is read from its tokens. -/
theorem result_parametersFrom_cons (unnamed : Nat) (parts : List (List Token)) :
    (parametersFrom line unnamed (p.tokens :: parts)).result =
      (parametersFrom line (unnamed + if p.name?.isNone then 1 else 0) parts).result.map
        (p.operand unnamed :: ·) := by
  have hattributes : p.nameTokens = [] → ∀ a ∈ p.attributes, a.isAlign = false := by
    intro hname
    apply p.unaligned
    cases h : p.name? with
    | none => rfl
    | some name => simp [nameTokens, h] at hname
  have hdrop := FormalAttribute.dropAttributes_append p.attributes hattributes
  have hellipsis : p.ty.token.is "..." = false := decide_eq_false p.ty.not_ellipsis
  cases hname : p.name? with
  | none =>
    have hnone : p.nameTokens = [] := by simp [nameTokens, hname]
    have hbyVal : dropAttributes (p.attributes.flatMap FormalAttribute.tokens ++ p.nameTokens) =
        ([], p.attributes.any FormalAttribute.isByVal) := by
      rw [hdrop, hnone, dropAttributes.eq_def]
      simp
    rw [tokens, parametersFrom_type hbyVal, hellipsis, if_neg Bool.false_ne_true,
      result_bind_ok (a := ()) rfl, bind_pure_comp, result_map, operand, hname]
    rfl
  | some name =>
    have hsome : p.nameTokens = [word ('%' :: name)] := by simp [nameTokens, hname]
    have hbyVal : dropAttributes (p.attributes.flatMap FormalAttribute.tokens ++ p.nameTokens) =
        ([word ('%' :: name)], p.attributes.any FormalAttribute.isByVal) := by
      rw [hdrop, hsome, dropAttributes_cons (by simp [isOneOf, Vocabulary.parameterAttributes])
        (Or.inr rfl), Bool.or_false]
    rw [tokens, parametersFrom_value hbyVal, result_bind_ok (result_parameterOf_local ..),
      bind_pure_comp, result_map, operand, hname]
    rfl

/-- **Parameters are read in order**, whatever follows them. -/
theorem result_parametersFrom (ps : List Formal) (unnamed : Nat) (parts : List (List Token)) :
    (parametersFrom line unnamed (ps.map tokens ++ parts)).result =
      (parametersFrom line (unnamed + ps.countP (·.name?.isNone)) parts).result.map
        (operands unnamed ps ++ ·) := by
  induction ps generalizing unnamed with
  | nil =>
    cases h : (parametersFrom line unnamed parts).result <;> simp [h, operands, Except.map]
  | cons p ps ih =>
    rw [List.map_cons, List.cons_append, result_parametersFrom_cons, ih, operands_cons,
      List.countP_cons, Nat.add_assoc, Nat.add_comm (List.countP _ ps)]
    generalize (parametersFrom line _ parts).result = r
    cases r <;> rfl

/-- A list of parameters is read as it is meant. -/
theorem result_parameters (ps : List Formal) (variadic : Bool) :
    (parameters line (listTokens ps variadic)).result =
      .ok (argList .varargs variadic (operands 0 ps)) := by
  have hmore : ([word ellipsis] : List Token) ≠ [] ∧
      ∀ t ∈ ([word ellipsis] : List Token), t.isSeparator = false := by decide
  have hparts : ∀ part ∈ ps.map tokens, part ≠ [] ∧ ∀ t ∈ part, t.isSeparator = false := by
    intro part hpart
    obtain ⟨p, -, rfl⟩ := List.mem_map.1 hpart
    exact ⟨List.cons_ne_nil _ _, p.isSeparator_of_mem_tokens⟩
  have hmembers := forall_mem_argList
    (p := fun part : List Token => part ≠ [] ∧ ∀ t ∈ part, t.isSeparator = false)
    hparts hmore variadic
  have hempty : ∀ unnamed, parametersFrom line unnamed [] = pure [] :=
    fun _ => parametersFrom.eq_def ..
  rw [parameters, listTokens, splitCommas_intercalate hmembers]
  cases variadic with
  | false =>
    have := result_parametersFrom line ps 0 []
    rw [List.append_nil, hempty] at this
    simpa [argList, Except.map] using this
  | true =>
    have := result_parametersFrom line ps 0 [[word ellipsis]]
    rw [parametersFrom_type rfl, if_pos (by decide), hempty] at this
    exact this

end Formal

/-! ## Lines -/

/-- A word that may decorate the line of a function. -/
abbrev Decoration := {w : Text // w ∈ Vocabulary.decorations}

/-- The tokens of such words. -/
def Decoration.tokens (ws : List Decoration) : List Token := ws.map fun w => word w.1

/-- The words that are passed over on the line of a function. -/
def passedOver : List Text := ['{'] :: "define" :: Vocabulary.decorations

/-- A token that may be the type of a result: any but those words. -/
structure ReturnType where
  token : Token
  not_passedOver : token.isOneOf passedOver = false

/-- The line of a function without its first word. What follows the parameters may be any. -/
structure SignatureLine where
  beforeType : List Decoration
  returnType : ReturnType
  beforeName : List Decoration
  name : Text
  beforeList : List Decoration
  listText : Text
  params : List Formal
  variadic : Bool
  rest : List Token

namespace SignatureLine

variable (s : SignatureLine)

/-- The tokens with the words for decorations. -/
def tokens : List Token :=
  Decoration.tokens s.beforeType ++ s.returnType.token ::
    (Decoration.tokens s.beforeName ++ word ('@' :: s.name) ::
      (Decoration.tokens s.beforeList ++
        group s.listText .paren (Formal.listTokens s.params s.variadic) :: s.rest))

/-- The signature that is meant. -/
def signature : Signature :=
  ⟨s.returnType.token.text, Formal.operands 0 s.params, s.variadic⟩

/-- If words for decorations are left out and the signature is not, then the signature comes
    first. -/
theorem filter_tokens {p : Token → Bool}
    (hdecoration : ∀ w ∈ Vocabulary.decorations, p (word w) = false)
    (htype : p s.returnType.token = true) (hname : p (word ('@' :: s.name)) = true)
    (hlist : ∀ text e inner, p (group text e inner) = true) :
    s.tokens.filter p = s.returnType.token :: word ('@' :: s.name) ::
      group s.listText .paren (Formal.listTokens s.params s.variadic) :: s.rest.filter p := by
  have hwords : ∀ ws : List Decoration, (Decoration.tokens ws).filter p = [] := by
    intro ws
    refine List.filter_eq_nil_iff.2 fun t ht => ?_
    obtain ⟨w, -, rfl⟩ := List.mem_map.1 ht
    simp [hdecoration w.1 w.2]
  simp [tokens, hwords, htype, hname, hlist]

end SignatureLine

namespace Definition

theorem splitVarArgs_argList {os : List Operand} (h : .varargs ∉ os) (variadic : Bool) :
    splitVarArgs (argList .varargs variadic os) = (os, variadic) := by
  cases variadic with
  | false => exact if_neg fun hlast => h (List.mem_of_getLast? hlast)
  | true => simp [argList, splitVarArgs]

theorem result_signature (line : Line) (s : SignatureLine) (rest : List Token) :
    (signature line (s.returnType.token :: word ('@' :: s.name) ::
        group s.listText .paren (Formal.listTokens s.params s.variadic) :: rest)).result =
      .ok ('@' :: s.name, s.signature) := by
  -- only the mark at the end of the list says that there may be further arguments
  have hscalars : .varargs ∉ Formal.operands 0 s.params := by
    simp [Formal.operands, Formal.operand, List.mem_mapIdx]
  have hread : signature line (s.returnType.token :: word ('@' :: s.name) ::
      group s.listText .paren (Formal.listTokens s.params s.variadic) :: rest) = do
        let os ← parameters line (Formal.listTokens s.params s.variadic)
        note s.returnType.token.text
        return ('@' :: s.name,
          ⟨s.returnType.token.text, (splitVarArgs os).1, (splitVarArgs os).2⟩) := rfl
  rw [hread, result_bind_ok (Formal.result_parameters line s.params s.variadic),
    splitVarArgs_argList hscalars]
  rfl

/-- The type of a result is kept by the readers of signatures. -/
theorem isPassedOver_returnType (T : ReturnType) :
    isDecoration T.token = false ∧ T.token.isWord "define" = false ∧
      T.token.isWord ['{'] = false := by
  obtain ⟨token, h⟩ := T
  cases token with
  | group => exact ⟨rfl, rfl, rfl⟩
  | word w =>
    have hw : w ∉ passedOver := by simpa [isOneOf] using h
    simp only [passedOver, List.mem_cons, not_or] at hw
    exact ⟨by simpa [isDecoration, isOneOf] using hw.2.2, decide_eq_false hw.2.1,
      decide_eq_false hw.1⟩

/-- Neither is a name with the sigil of functions a word for decorations. -/
theorem isDecoration_name (name : Text) : isDecoration (word ('@' :: name)) = false := by
  have hsigil : ∀ w ∈ Vocabulary.decorations, w.head? ≠ some '@' := by decide
  refine Bool.eq_false_iff.2 fun h => ?_
  have hmem : '@' :: name ∈ Vocabulary.decorations := by simpa [isDecoration, isOneOf] using h
  exact hsigil _ hmem rfl

end Definition

/-- **Signatures are read in full**, whatever words decorate the line: the header of a function
    and its declaration have the type, the name and the parameters of the line, the latter in
    order, with their types and names, the numbers of those without a name, and which of them
    are passed by value; and they tell whether there may be further arguments. -/
theorem Definition.signature_of_line (s : SignatureLine) (text : Text) (number : Nat)
    (indent : Indent) :
    (header ⟨text, number, indent, word "define" :: s.tokens⟩).result =
        .ok ('@' :: s.name, s.signature) ∧
      (declaration ⟨text, number, indent, word "declare" :: s.tokens⟩).result =
        .ok ⟨number, some ('@' :: s.name), false, .declaration s.signature⟩ := by
  obtain ⟨htype, hdefine, hbrace⟩ := isPassedOver_returnType s.returnType
  have hname := isDecoration_name s.name
  have hdecoration : ∀ w ∈ Vocabulary.decorations, isDecoration (word w) = true := by
    intro w hw
    simpa [isDecoration, isOneOf] using hw
  constructor
  · have hfilter := s.filter_tokens
      (p := fun t => !(isDecoration t || t.isWord "define" || t.isWord ['{']))
      (fun w hw => by simp [hdecoration w hw]) (by rw [htype, hdefine, hbrace]; rfl)
      (by simp [hname, isWord]) (fun _ _ _ => rfl)
    rw [header, List.filter_cons_of_neg (by simp [isWord]), hfilter]
    exact result_signature _ s _
  · have hfilter := s.filter_tokens (p := (!isDecoration ·))
      (fun w hw => by simp [hdecoration w hw]) (by simp [htype]) (by simp [hname])
      (fun _ _ _ => rfl)
    rw [declaration, List.drop_one, List.tail_cons, hfilter,
      result_bind_ok (result_signature _ s _)]
    rfl

end LlvmAsm
