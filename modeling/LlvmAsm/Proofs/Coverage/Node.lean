/-
  The registry is complete: it knows the types of all nodes.

  `Node.types` are the types that a node names itself, and `Kind.operands` its operands.
  Every reader of statements notes the former as they are and covers the latter; this is
  said once for each reader (`secures_store` and so on). `Listing.knows_types`: so after any
  lines are read, the types of all their nodes are in the registry.
-/
import LlvmAsm.Module
import LlvmAsm.Proofs.Coverage.Operand
import LlvmAsm.Proofs.Statement

namespace LlvmAsm

open Reading Operand

/-! ## Types of nodes -/

namespace Kind

/-- The types that a statement names, apart from those of its operands. A definition of a
    type names the type that it defines. -/
def types (ident : Option Text) : Kind → List Text
  | load valueType pointerType _ => [valueType, pointerType]
  | store valueType _ pointerType _ => [valueType, pointerType]
  | bitcast ty fromType _ => [ty, fromType]
  | ret ty _ | switch ty _ _ _ | phi ty _ | operation _ _ ty _ | extractValue ty _ _
  | indirectBranch ty _ _ | globalVariable ty _ _ _ | aliasOf ty _ => [ty]
  | call site | invoke site _ _ => [site.ty]
  | alloca _ allocatedType _ => [allocatedType]
  | function signature | declaration signature => [signature.returnType]
  | typeDefinition _ _ => ident.toList
  | branch _ | elementPointer _ _ | label | functionEnd | unreachable => []

/-- The operands of a statement, those in the value of a variable included. -/
def operands : Kind → List Operand
  | load _ _ pointer => [pointer]
  | store _ value _ pointer => [value, pointer]
  | branch (.conditional condition _ _) => [condition]
  | ret _ value => value.toList
  | call site | invoke site _ _ => site.params
  | phi _ params => params.map Incoming.value
  | operation _ _ _ params | elementPointer _ params => params
  | indirectBranch _ pointer _ => [pointer]
  | globalVariable _ _ value _ => value.toList.flatMap Constant.operands
  | function signature | declaration signature => signature.params
  | branch (.unconditional _) | switch _ _ _ _ | alloca _ _ _ | bitcast _ _ _
  | extractValue _ _ _ | label | typeDefinition _ _ | aliasOf _ _ | functionEnd
  | unreachable => []

/-- The types of the statement are known, and its operands are covered. -/
structure Covered (known : Registry) (ident : Option Text) (k : Kind) : Prop where
  types : ∀ ty ∈ k.types ident, known.Knows ty
  operands : CoveredAll known k.operands

end Kind

/-- The types that a node names, apart from those of its operands. -/
def Node.types (n : Node) : List Text := n.kind.types n.ident

/-- The types of the node are known, whatever name it is given. -/
def Node.Covered (known : Registry) (n : Node) : Prop :=
  ∀ ident, n.kind.Covered known ident

/-- Most statements name one type. -/
theorem Kind.Covered.of_type {known : Registry} {ident : Option Text} {k : Kind} {ty : Text}
    (hty : known.Knows ty) (htypes : k.types ident = [ty])
    (hoperands : CoveredAll known k.operands) : k.Covered known ident := by
  refine ⟨?_, hoperands⟩
  rw [htypes]
  exact List.forall_mem_singleton.2 hty

namespace Instruction

variable (known : Registry) (line : Line)

/-! ## Memory and aggregates -/

theorem secures_store : (store line).Secures known (Node.Covered known) := by
  refine (secures_any known _).bind fun _ _ => ?_
  split
  · refine (secures_any known _).bind fun _ _ => ?_
    refine (secures_operand known line _).bind fun _ hvalue => ?_
    refine (secures_operand known line _).bind fun _ hpointer => ?_
    refine (secures_note known _).bind fun _ hty => (secures_note known _).bind fun _ hty' => ?_
    refine secures_pure fun _ => ⟨?_, ?_⟩
    · exact List.forall_mem_cons.2 ⟨hty, List.forall_mem_singleton.2 hty'⟩
    · exact coveredAll_cons.2 ⟨hvalue, coveredAll_cons.2 ⟨hpointer, coveredAll_nil⟩⟩
  · exact secures_fail _

theorem secures_load : (load line).Secures known (Node.Covered known) := by
  refine (secures_any known _).bind fun _ _ => ?_
  dsimp only
  split
  · refine (secures_operand known line _).bind fun _ hpointer => ?_
    refine (secures_note known _).bind fun _ hty => (secures_note known _).bind fun _ hty' => ?_
    refine secures_pure fun _ => ⟨?_, List.forall_mem_singleton.2 hpointer⟩
    exact List.forall_mem_cons.2 ⟨hty, List.forall_mem_singleton.2 hty'⟩
  · exact secures_fail _

theorem secures_alloca : (alloca line).Secures known (Node.Covered known) := by
  refine (secures_any known _).bind fun _ _ => (secures_note known _).bind fun _ hty => ?_
  exact secures_pure fun _ => .of_type hty rfl coveredAll_nil

/-- The type of an address is not known yet, but those of its operands are. -/
theorem secures_elementPointer : (elementPointer line).Secures known (Node.Covered known) := by
  unfold elementPointer
  split
  · refine (secures_expression known line _ _).bind fun e he => secures_pure fun _ => ?_
    exact ⟨List.forall_mem_nil _, (covered_expr.1 he).2⟩
  · exact secures_fail _

theorem secures_extractValue : (extractValue line).Secures known (Node.Covered known) := by
  refine (secures_any known _).bind fun _ _ => (secures_any known _).bind fun _ _ => ?_
  refine (secures_note known _).bind fun _ hty => secures_pure fun _ => ?_
  exact .of_type hty rfl coveredAll_nil

/-! ## Computations -/

/-- What the operands of an operation are after all of them took its type. -/
theorem secures_operation_tail (tokens : List Token) (op : Text) (variant : Option Text) :
    (do
      let params ← operands line ((segments (tokens.drop 1)).filter (!·.isEmpty))
      let ty ← resultType line tokens op params
      note ty
      return ⟨line.number, none, false,
        .operation op variant ty (params.map (·.withType ty))⟩ : Reading Node).Secures known
      (Node.Covered known) := by
  refine (secures_operands known line _).bind fun params hparams => ?_
  refine (secures_any known _).bind fun ty _ => (secures_note known _).bind fun _ hty => ?_
  refine secures_pure fun _ => .of_type hty rfl fun o ho => ?_
  obtain ⟨o', ho', rfl⟩ := List.mem_map.1 ho
  exact (hparams o' ho').withType hty.knowsBare

theorem secures_operation : (operation line).Secures known (Node.Covered known) := by
  refine (secures_any known _).bind fun _ _ => ?_
  dsimp only
  split
  · refine (secures_any known _).bind fun _ _ => (secures_any known _).bind fun _ _ => ?_
    exact secures_operation_tail known line _ _ _
  · exact (secures_any known _).bind fun _ _ => secures_operation_tail known line _ _ _

theorem secures_bitcast : (bitcast line).Secures known (Node.Covered known) := by
  refine (secures_any known _).bind fun _ _ => (secures_any known _).bind fun _ _ => ?_
  refine (secures_any known _).bind fun _ _ => ?_
  refine (secures_note known _).bind fun _ hty => (secures_note known _).bind fun _ hty' => ?_
  refine secures_pure fun _ => ⟨?_, coveredAll_nil⟩
  exact List.forall_mem_cons.2 ⟨hty', List.forall_mem_singleton.2 hty⟩

/-! ## Flow of control -/

theorem secures_branch : (branch line).Secures known (Node.Covered known) := by
  refine (secures_any known _).bind fun _ _ => ?_
  split
  · refine (secures_any known _).bind fun _ _ => secures_pure fun _ => ?_
    exact ⟨List.forall_mem_nil _, coveredAll_nil⟩
  · split
    · exact secures_fail _
    · exact secures_fail _
    · refine (secures_operand known line _).bind fun _ hcondition => ?_
      refine (secures_any known _).bind fun _ _ => (secures_any known _).bind fun _ _ => ?_
      refine secures_pure fun _ => ?_
      exact ⟨List.forall_mem_nil _, List.forall_mem_singleton.2 hcondition⟩

theorem secures_ret : (ret line).Secures known (Node.Covered known) := by
  refine (secures_any known _).bind fun ty _ => ?_
  have hvalue : ∀ r : Reading (Option Operand),
      r.Secures known (fun value => CoveredAll known value.toList) →
      (do
        let value ← r
        note ty
        return ⟨line.number, none, false, .ret ty value⟩ : Reading Node).Secures known
        (Node.Covered known) := by
    intro r hr
    refine hr.bind fun value hvalue => (secures_note known _).bind fun _ hty => ?_
    exact secures_pure fun _ => .of_type hty rfl hvalue
  dsimp only
  split
  · exact hvalue _ (secures_pure coveredAll_nil)
  · split
    · exact hvalue _ ((secures_operand known line _).map fun _ ho => List.forall_mem_singleton.2 ho)
    · exact hvalue _ (secures_pure coveredAll_nil)

theorem secures_switch : (switch line).Secures known (Node.Covered known) := by
  refine (secures_any known _).bind fun _ _ => (secures_any known _).bind fun _ _ => ?_
  refine (secures_any known _).bind fun _ _ => (secures_any known _).bind fun _ _ => ?_
  refine (secures_note known _).bind fun _ hty => secures_pure fun _ => ?_
  exact .of_type hty rfl coveredAll_nil

theorem secures_indirectBranch : (indirectBranch line).Secures known (Node.Covered known) := by
  refine (secures_any known _).bind fun _ _ => ?_
  split
  · refine (secures_operand known line _).bind fun _ hpointer => ?_
    refine (secures_note known _).bind fun _ hty => secures_pure fun _ => ?_
    exact .of_type hty rfl (List.forall_mem_singleton.2 hpointer)
  · exact secures_fail _

theorem secures_incoming (ty : Token) (edges : List (List Token)) :
    (incoming line ty edges).Secures known
      fun params => CoveredAll known (params.map Incoming.value) := by
  fun_induction incoming line ty edges
  case case1 => exact secures_pure coveredAll_nil
  case case2 ih =>
    refine (secures_operand known line _).bind fun _ hvalue => ih.bind fun _ hedges => ?_
    exact secures_pure (coveredAll_cons.2 ⟨hvalue, hedges⟩)
  case case3 => exact secures_fail _

theorem secures_phi : (phi line).Secures known (Node.Covered known) := by
  refine (secures_any known _).bind fun _ _ => ?_
  refine (secures_incoming known line _ _).bind fun _ hedges => ?_
  refine (secures_note known _).bind fun _ hty => secures_pure fun _ => ?_
  exact .of_type hty rfl hedges

/-! ## Calls -/

theorem secures_callSite (tokens : List Token) : (callSite line tokens).Secures known
    fun site => known.Knows site.ty ∧ CoveredAll known site.params := by
  unfold callSite
  dsimp only
  generalize (if tokens.head?.any _ then tokens.tail else tokens) = words
  split
  · exact secures_fail _
  · refine (secures_any known _).bind fun ty _ => (secures_any known _).bind fun found _ => ?_
    refine (secures_any known _).bind fun called _ => ?_
    split
    · refine (secures_any known _).bind fun _ h => (secures_note known _).bind fun _ hty => ?_
      cases h
      exact secures_pure ⟨hty, coveredAll_nil⟩
    · split
      · refine ((secures_parameters known line _).map (Q := fun p => CoveredAll known p.2)
          fun _ h => h).bind fun _ hparams => ?_
        exact (secures_note known _).bind fun _ hty => secures_pure ⟨hty, hparams⟩
      · exact secures_fail _

theorem secures_call : (call line).Secures known (Node.Covered known) := by
  refine (secures_callSite known line _).bind fun _ h => secures_pure fun _ => ?_
  exact .of_type h.1 rfl h.2

theorem secures_invoke : (invoke line).Secures known (Node.Covered known) := by
  unfold invoke
  dsimp only
  split
  · refine (secures_any known _).bind fun _ _ => (secures_any known _).bind fun _ _ => ?_
    refine (secures_callSite known line _).bind fun _ h => secures_pure fun _ => ?_
    exact .of_type h.1 rfl h.2
  · exact secures_fail _

end Instruction

/-! ## Definitions -/

namespace Definition

variable (known : Registry) (line : Line)

/-- The parameters without the mark of further arguments are among all of them. -/
theorem coveredAll_splitVarArgs {params : List Operand} (h : CoveredAll known params) :
    CoveredAll known (splitVarArgs params).1 := by
  unfold splitVarArgs
  split
  · exact fun o ho => h o (List.dropLast_subset params ho)
  · exact h

theorem secures_signature (tokens : List Token) : (signature line tokens).Secures known
    fun s => known.Knows s.2.returnType ∧ CoveredAll known s.2.params := by
  refine (secures_any known _).bind fun _ _ => (secures_any known _).bind fun _ _ => ?_
  split
  · refine (secures_parameters known line _).bind fun _ hparams => ?_
    refine (secures_note known _).bind fun _ hty => ?_
    exact secures_pure ⟨hty, coveredAll_splitVarArgs known hparams⟩
  · exact secures_fail _

theorem secures_functionHeader : (functionHeader line).Secures known (Node.Covered known) := by
  refine (secures_signature known line _).bind fun _ h => secures_pure fun _ => ?_
  exact .of_type h.1 rfl h.2

theorem secures_declaration : (declaration line).Secures known (Node.Covered known) := by
  refine (secures_signature known line _).bind fun _ h => secures_pure fun _ => ?_
  exact .of_type h.1 rfl h.2

theorem secures_label : (label line).Secures known (Node.Covered known) := by
  refine (secures_any known _).bind fun _ _ => secures_pure fun _ => ?_
  exact ⟨List.forall_mem_nil _, coveredAll_nil⟩

section
variable (ident : Text)

theorem secures_aliasDefinition :
    (aliasDefinition line).Secures known (Kind.Covered known (some ident)) := by
  refine (secures_any known _).bind fun _ _ => (secures_any known _).bind fun _ _ => ?_
  refine (secures_note known _).bind fun _ hty => secures_pure ?_
  exact .of_type hty rfl coveredAll_nil

theorem secures_typeDefinition :
    (typeDefinition line ident).Secures known (Kind.Covered known (some ident)) := by
  refine (secures_note known _).bind fun _ hident => (secures_any known _).bind fun _ _ => ?_
  exact secures_pure (.of_type hident rfl coveredAll_nil)

theorem secures_variableValue (ty : Text) (tokens : List Token) :
    (variableValue line ty tokens).Secures known fun c => CoveredAll known c.operands := by
  refine (secures_any known _).bind fun value _ => ?_
  split
  · have hexpression : ∀ segment : List Token,
        (expressionOf line segment).Secures known fun e => (Operand.expr e).Covered known := by
      intro segment
      cases segment with
      | nil => exact secures_fail _
      | cons ty rest => exact secures_expression known line ty rest
    exact (hexpression _).map fun e he => List.forall_mem_singleton.2 he
  · exact secures_initialValue known line _ _

theorem secures_globalVariable :
    (globalVariable line ident).Secures known (Kind.Covered known (some ident)) := by
  refine (secures_any known _).bind fun _ _ => (secures_note known _).bind fun _ hty => ?_
  split
  · exact secures_pure (.of_type hty rfl coveredAll_nil)
  split
  · refine (secures_variableValue known line _ _).bind fun c hc => secures_pure ?_
    exact .of_type hty rfl (by simpa [Kind.operands] using hc)
  split
  · exact secures_pure (.of_type hty rfl coveredAll_nil)
  · exact secures_fail _

end

/-- The name of a definition is that of its node. -/
theorem secures_symbol :
    (symbol line).Secures known fun node => node.kind.Covered known node.ident := by
  refine (secures_any known _).bind fun ident _ => (secures_any known _).bind fun _ _ => ?_
  have hnode : ∀ r : Reading Kind, r.Secures known (Kind.Covered known (some ident)) →
      (do
        let kind ← r
        return ⟨line.number, some ident, false, kind⟩ : Reading Node).Secures known
        fun node => node.kind.Covered known node.ident :=
    fun r hr => hr.bind fun kind hkind => secures_pure hkind
  dsimp only
  split
  · exact hnode _ (secures_aliasDefinition known line ident)
  split
  · exact hnode _ (secures_typeDefinition known line ident)
  · exact hnode _ (secures_globalVariable known line ident)

end Definition

/-! ## Statements -/

namespace Statement

variable (known : Registry)

/-- Only at the top level, the name of a node matters. -/
theorem secures_ofCategory {c : Category} (hc : c ≠ .global) (line : Line) :
    (ofCategory c line).Secures known fun node? => ∀ node ∈ node?, node.Covered known := by
  have some_of_secures {r : Reading Node} (h : r.Secures known (Node.Covered known)) :
      (some <$> r).Secures known fun node? => ∀ node ∈ node?, node.Covered known :=
    h.map fun node hnode => by simpa using hnode
  have hplain : ∀ {node : Node}, (node.kind = .unreachable ∨ node.kind = .functionEnd) →
      node.Covered known := by
    rintro ⟨number, ident, assigned, kind⟩ (rfl | rfl) _
    · exact ⟨List.forall_mem_nil _, coveredAll_nil⟩
    · exact ⟨List.forall_mem_nil _, coveredAll_nil⟩
  cases c with
  | discard => exact secures_pure (by simp)
  | assign => exact secures_fail _
  | store => exact some_of_secures (Instruction.secures_store known line)
  | load => exact some_of_secures (Instruction.secures_load known line)
  | alloca => exact some_of_secures (Instruction.secures_alloca known line)
  | elementPointer => exact some_of_secures (Instruction.secures_elementPointer known line)
  | extractValue => exact some_of_secures (Instruction.secures_extractValue known line)
  | bitcast => exact some_of_secures (Instruction.secures_bitcast known line)
  | operation => exact some_of_secures (Instruction.secures_operation known line)
  | phi => exact some_of_secures (Instruction.secures_phi known line)
  | branch => exact some_of_secures (Instruction.secures_branch known line)
  | ret => exact some_of_secures (Instruction.secures_ret known line)
  | switch => exact some_of_secures (Instruction.secures_switch known line)
  | indirectBranch => exact some_of_secures (Instruction.secures_indirectBranch known line)
  | unreachable => exact secures_pure (by simpa using hplain (Or.inl rfl))
  | call => exact some_of_secures (Instruction.secures_call known line)
  | invoke => exact some_of_secures (Instruction.secures_invoke known line)
  | label => exact some_of_secures (Definition.secures_label known line)
  | declaration => exact some_of_secures (Definition.secures_declaration known line)
  | functionHeader => exact some_of_secures (Definition.secures_functionHeader known line)
  | functionEnd => exact secures_pure (by simpa using hplain (Or.inr rfl))
  | global => exact absurd rfl hc

/-- The right-hand side of an assignment is not a definition at the top level. -/
theorem ne_global_of_splitAssignment {line value : Line} {name : Text} {c : Category}
    (h : splitAssignment line = .ok (name, value)) (hc : Category.ofLine value = .ok c) :
    c ≠ .global := by
  have hindent : value.indent = .continuation := by
    unfold splitAssignment at h
    split at h
    · cases h
      rfl
    · cases h
  rintro rfl
  have hsuits := Category.suits_of_ofLine hc
  rw [Category.suits, hindent] at hsuits
  cases hsuits

/-- **A line covers its node**: the types that the node names are known, and so are those
    of its operands. -/
theorem secures_ofLine (line : Line) : (ofLine line).Secures known
    fun node? => ∀ node ∈ node?, node.kind.Covered known node.ident := by
  refine (secures_any known _).bind fun c _ => ?_
  split
  · by_cases hc : c = .global
    · subst hc
      exact (Definition.secures_symbol known line).map fun node h => by simpa using h
    · exact (secures_ofCategory known hc line).mono fun node? h node hnode => h node hnode _
  · refine (secures_any known _).bind fun (name, value) hsplit => ?_
    refine (secures_any known _).bind fun c hc => ?_
    have hglobal := ne_global_of_splitAssignment hsplit hc
    refine (secures_ofCategory known hglobal value).bind fun node? hnode => ?_
    split
    · rename_i node
      refine secures_pure fun node' hnode' => ?_
      obtain rfl := Option.some.inj hnode'
      exact hnode node rfl (some name)
    · exact secures_fail _

end Statement

/-! ## Listings -/

section
variable (known : Registry)

theorem secures_nodesOf (lines : List LogicalLine) : (nodesOf lines).Secures known
    fun nodes => ∀ node ∈ nodes, node.kind.Covered known node.ident := by
  induction lines with
  | nil => exact secures_pure (List.forall_mem_nil _)
  | cons line lines ih =>
    refine ((secures_any known _).bind fun l _ => Statement.secures_ofLine known l).bind
      fun node? hnode => ih.bind fun nodes hnodes => secures_pure ?_
    exact List.forall_mem_append.2 ⟨fun node h => hnode node (Option.mem_toList.1 h), hnodes⟩

end

/-- **The registry is complete.** After lines are read, it knows the types that their nodes
    name, and those of all operands of the nodes, perhaps without the stars at the end. Only
    types are missing that may not be entered, as they are or without their stars. -/
theorem Listing.knows_types {deferred : Bool} {base : Nat} {lines : List Text}
    {known known' : Registry} {l : Listing}
    (h : (ofLines deferred base lines).run known = (.ok l, known')) {node : Node}
    (hnode : node ∈ l.nodes) :
    (∀ ty ∈ node.types, Registry.Enters ty → ty ∈ known'.names) ∧
      ∀ o ∈ node.kind.operands, ∀ ty ∈ o.types, Registry.Enters (TypeText.bare ty) →
        ty ∈ known'.names ∨ TypeText.bare ty ∈ known'.names := by
  have hlisting : (ofLines deferred base lines).Secures known'
      fun l => ∀ node ∈ l.nodes, node.kind.Covered known' node.ident := by
    refine (secures_any known' _).bind fun o _ => ?_
    exact (secures_nodesOf known' o.lines).bind fun nodes hnodes => secures_pure hnodes
  have hcovered := hlisting.of_run h node hnode
  exact ⟨hcovered.types, hcovered.operands⟩

/-- The address in the value of a variable: the type of the operand `@s` is known without
    its star only. -/
theorem Listing.knows_types_of_address :
    let lines : List Text :=
      ["@g = global \x7b i8*, i32 \x7d \x7b i8* bitcast " ++
          "(i32* getelementptr (%S* @s, i32 0, i32 1) to i8*), i32 7 \x7d",
        "  %v = load i32** %p"]
    let base : Operand := .scalar "%S*" "@s" false
    let address : Operand := .expr ⟨"getelementptr", none, "i32*",
      [base, .scalar "i32" "0" false, .scalar "i32" "1" false], some "@s".toList⟩
    let value : Constant := .struct "\x7b i8*, i32 \x7d"
      [.expr ⟨"bitcast", none, "i8*", [address], some "@s".toList⟩, .value "i32" "7"]
    let global : Node :=
      ⟨5, some "@g".toList, false, .globalVariable "\x7b i8*, i32 \x7d" false (some value) none⟩
    let load : Node :=
      ⟨6, some "%v".toList, true, .load "i32*" "i32**" (.scalar "i32**" "%p" false)⟩
    let known : Registry := ⟨["\x7b i8*, i32 \x7d", "%S", "i32", "i32*", "i8*", "i32**"]⟩
    (ofLines false 4 lines).run .empty = (.ok ⟨[global, load], []⟩, known) ∧
      global ∈ [global, load] ∧ "%S*".toList ∉ known.names ∧
      (∀ ty ∈ global.types, Registry.Enters ty → ty ∈ known.names) ∧
      ∀ o ∈ global.kind.operands, ∀ ty ∈ o.types, Registry.Enters (TypeText.bare ty) →
        ty ∈ known.names ∨ TypeText.bare ty ∈ known.names := by
  intro lines base address value global load known
  have hrun : (ofLines false 4 lines).run .empty = (.ok ⟨[global, load], []⟩, known) := by
    decide +kernel
  have hglobal : global ∈ [global, load] := List.mem_cons_self
  exact ⟨hrun, hglobal, by decide, knows_types hrun hglobal⟩

end LlvmAsm
