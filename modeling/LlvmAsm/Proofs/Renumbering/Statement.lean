/-
  A statement means the same on every line.

  No reader of statements looks at the number of its line. Each of them is followed once,
  on a line and on the same line with another number (`Reading.Moves`):

  * it fails on the line that it reads, and comes upon no assignment in place of a
    right-hand side;
  * or its node stands on that line (`Node.StandsOn`), is of a kind that says whether the
    value is given a name (`Kind.AssignedAs`), and moves with the line.

  `Statement.parallel_ofCategory` says so of a line of any category. So a line with another
  number yields the same node or the same failure, with that number
  (`renumbered_ofCategory`, `renumbered_ofLine`, `renumbered_ofLogicalLine`).
-/
import LlvmAsm.Proofs.Constant
import LlvmAsm.Statement

namespace LlvmAsm

open Reading

/-- The line with another number. -/
def Line.renumber (f : Nat → Nat) (line : Line) : Line := { line with number := f line.number }

/-- The node with another number of its line. -/
def Node.renumber (f : Nat → Nat) (node : Node) : Node := { node with number := f node.number }

/-- The logical line with another number. -/
def LogicalLine.renumber (f : Nat → Nat) (line : LogicalLine) : LogicalLine :=
  { line with number := f line.number }

section
variable {f : Nat → Nat} {line : Line}

@[simp] theorem Line.text_renumber : (line.renumber f).text = line.text := rfl

@[simp] theorem Line.number_renumber : (line.renumber f).number = f line.number := rfl

@[simp] theorem Line.indent_renumber : (line.renumber f).indent = line.indent := rfl

@[simp] theorem Line.tokens_renumber : (line.renumber f).tokens = line.tokens := rfl

end

/-! ## Nodes of lines -/

/-- The node has the number of the line, and no name is assigned by it. -/
structure Node.StandsOn (node : Node) (line : Line) : Prop where
  number : node.number = line.number
  unassigned : node.assigned = false

/-- What a kind of node says about whether its value is given a name. A value that is read
    or computed always is; a call knows whether it is; and the other kinds have no name for
    a value. -/
def Kind.AssignedAs (assigned : Bool) : Kind → Prop
  | load .. | operation .. | bitcast .. | elementPointer .. | alloca .. | extractValue ..
  | phi .. => assigned = true
  | call site | invoke site .. => site.standalone = !assigned
  | store .. | branch .. | ret .. | switch .. | indirectBranch .. | unreachable | label
  | globalVariable .. | typeDefinition .. | aliasOf .. | function .. | functionEnd
  | declaration .. => assigned = false

/-- `node` is made of the line, and `node'` of the same line with another number. -/
structure Node.Moved (f : Nat → Nat) (line : Line) (assigned : Bool) (node node' : Node) :
    Prop where
  stands : node.StandsOn line
  kind : node.kind.AssignedAs assigned
  moved : node' = node.renumber f

/-- The two readings make a node of the line, and of the same line with another number. -/
abbrev Reading.Moves (f : Nat → Nat) (line : Line) (assigned : Bool) (r s : Reading Node) :
    Prop := r.Parallel line (line.renumber f) (Node.Moved f line assigned) s

/-- A node for the line at the end of a sequence. -/
theorem Reading.moves_pure {f : Nat → Nat} {line : Line} {assigned : Bool} {kind : Kind}
    (ident : Option Text) (h : kind.AssignedAs assigned) :
    (pure ⟨line.number, ident, false, kind⟩ : Reading Node).Moves f line assigned
      (pure ⟨(line.renumber f).number, ident, false, kind⟩) :=
  parallel_pure ⟨⟨rfl, rfl⟩, h, rfl⟩

namespace Instruction

section
variable {line line' : Line}

/-! ## Parts of instructions -/

theorem agree_typeOfOperand (tokens : List Token) (op : Text) (params : List Operand)
    (index : Nat) :
    (typeOfOperand line tokens op params index).Agree line line'
      (typeOfOperand line' tokens op params index) := by
  unfold typeOfOperand
  split
  · exact agree_pure _
  · exact parallel_lacks _ _

theorem agree_resultType (tokens : List Token) (op : Text) (params : List Operand) :
    (resultType line tokens op params).Agree line line' (resultType line' tokens op params) := by
  unfold resultType
  split
  · refine (agree_typeOfOperand _ _ _ _).bind fun ty => ?_
    refine (agree_typeOfOperand _ _ _ _).bind fun ty' => ?_
    split
    · exact agree_pure _
    · exact parallel_lacks _ _
  · split
    · exact agree_typeOfOperand _ _ _ _
    · exact agree_typeOfOperand _ _ _ _

theorem agree_switchCases (tokens : List Token) :
    (switchCases line tokens).Agree line line' (switchCases line' tokens) := by
  fun_induction switchCases line tokens
  case case1 => exact agree_pure _
  case case2 hcomma ih =>
    rw [switchCases, if_pos hcomma]
    exact ih.bind fun cases => agree_pure _
  case case3 hcomma =>
    rw [switchCases, if_neg hcomma]
    exact parallel_lacks _ _
  case case4 hnil hlong =>
    rw [switchCases]
    · exact parallel_lacks _ _
    · exact hnil
    · exact hlong

theorem agree_incoming (ty : Token) (edges : List (List Token)) :
    (incoming line ty edges).Agree line line' (incoming line' ty edges) := by
  induction edges with
  | nil => exact agree_pure _
  | cons inner rest ih =>
    unfold incoming
    split
    · exact (agree_operand _).bind fun value => ih.bind fun edges => agree_pure _
    · exact parallel_lacks _ _

theorem agree_callee (before : List Token) (target : Token) (rest : List Token) :
    (callee line before target rest).Agree line line' (callee line' before target rest) := by
  unfold callee
  split
  · split
    · exact parallel_lacks _ _
    · exact (agree_expression _ _).bind fun e => agree_pure _
  · split
    · exact agree_pure _
    · exact agree_pure _

theorem agree_callTarget (before : List Token) (functionType : Text) (tokens : List Token) :
    (callTarget line before functionType tokens).Agree line line'
      (callTarget line' before functionType tokens) := by
  induction tokens generalizing functionType with
  | nil => exact parallel_lacks _ _
  | cons target rest ih =>
    unfold callTarget
    split
    · exact agree_pure _
    split
    · exact parallel_fail (by simp)
    split
    · exact parallel_fail (by simp)
    · exact ih _

end

section
variable (f : Nat → Nat) (line : Line)

/-! ## Memory and aggregates -/

theorem moves_store : (store line).Moves f line false (store (line.renumber f)) := by
  unfold store
  refine (agree_textAt _ _).bind fun valueType => ?_
  dsimp only [Line.tokens_renumber]
  split
  · refine (agree_textAt _ _).bind fun pointerType => ?_
    refine (agree_operand _).bind fun value => (agree_operand _).bind fun pointer => ?_
    exact (agree_note _).bind fun _ => (agree_note _).bind fun _ => moves_pure _ rfl
  · exact parallel_lacks _ _

theorem moves_load : (load line).Moves f line true (load (line.renumber f)) := by
  unfold load
  refine (agree_textAt _ _).bind fun pointerType => ?_
  dsimp only [Line.tokens_renumber]
  split
  · refine (agree_operand _).bind fun pointer => ?_
    exact (agree_note _).bind fun _ => (agree_note _).bind fun _ => moves_pure _ rfl
  · exact parallel_lacks _ _

theorem moves_alloca : (alloca line).Moves f line true (alloca (line.renumber f)) :=
  (agree_textAt _ _).bind fun _ => (agree_note _).bind fun _ => moves_pure _ rfl

theorem moves_elementPointer :
    (elementPointer line).Moves f line true (elementPointer (line.renumber f)) := by
  unfold elementPointer
  dsimp only [Line.tokens_renumber]
  split
  · exact (agree_expression _ _).bind fun e => moves_pure _ rfl
  · exact parallel_lacks _ _

theorem moves_extractValue :
    (extractValue line).Moves f line true (extractValue (line.renumber f)) := by
  refine (agree_textAt _ _).bind fun ty => (agree_textAt _ _).bind fun aggregate => ?_
  exact (agree_note _).bind fun _ => moves_pure _ rfl

/-! ## Computations -/

theorem moves_operation : (operation line).Moves f line true (operation (line.renumber f)) := by
  unfold operation
  refine (agree_textAt _ _).bind fun op => ?_
  dsimp only [Line.tokens_renumber]
  split
  · refine (agree_textAt _ _).bind fun relation => (agree_pure _).bind fun _ => ?_
    refine (agree_operands _).bind fun params => (agree_resultType _ _ _).bind fun _ => ?_
    exact (agree_note _).bind fun _ => moves_pure _ rfl
  · refine (agree_pure _).bind fun _ => ?_
    refine (agree_operands _).bind fun params => (agree_resultType _ _ _).bind fun _ => ?_
    exact (agree_note _).bind fun _ => moves_pure _ rfl

theorem moves_bitcast : (bitcast line).Moves f line true (bitcast (line.renumber f)) := by
  refine (agree_textAt _ _).bind fun fromType => (agree_textAt _ _).bind fun value => ?_
  refine (agree_textAt _ _).bind fun ty => ?_
  exact (agree_note _).bind fun _ => (agree_note _).bind fun _ => moves_pure _ rfl

/-! ## Flow of control -/

theorem moves_branch : (branch line).Moves f line false (branch (line.renumber f)) := by
  unfold branch
  refine (agree_tokenAt _ _).bind fun target => ?_
  dsimp only [Line.tokens_renumber]
  split
  · exact (agree_textAt _ _).bind fun label => moves_pure _ rfl
  · split
    · exact parallel_lacks _ _
    · exact parallel_fail (by simp)
    · refine (agree_operand _).bind fun condition => (agree_textAt _ _).bind fun _ => ?_
      exact (agree_textAt _ _).bind fun _ => moves_pure _ rfl

theorem moves_ret : (ret line).Moves f line false (ret (line.renumber f)) := by
  unfold ret
  refine (agree_textAt _ _).bind fun ty => ?_
  dsimp only [Line.tokens_renumber]
  split
  · exact (agree_pure _).bind fun _ => (agree_note _).bind fun _ => moves_pure _ rfl
  · split
    · refine ((agree_operand _).map _).bind fun value => ?_
      exact (agree_note _).bind fun _ => moves_pure _ rfl
    · exact (agree_pure _).bind fun _ => (agree_note _).bind fun _ => moves_pure _ rfl

theorem moves_switch : (switch line).Moves f line false (switch (line.renumber f)) := by
  refine (agree_textAt _ _).bind fun ty => (agree_textAt _ _).bind fun value => ?_
  refine (agree_textAt _ _).bind fun label => (agree_switchCases _).bind fun cases => ?_
  exact (agree_note _).bind fun _ => moves_pure _ rfl

theorem moves_indirectBranch :
    (indirectBranch line).Moves f line false (indirectBranch (line.renumber f)) := by
  unfold indirectBranch
  refine (agree_textAt _ _).bind fun ty => ?_
  dsimp only [Line.tokens_renumber]
  split
  · refine (agree_operand _).bind fun pointer => ?_
    exact (agree_note _).bind fun _ => moves_pure _ rfl
  · exact parallel_lacks _ _

theorem moves_phi : (phi line).Moves f line true (phi (line.renumber f)) := by
  refine (agree_tokenAt _ _).bind fun ty => (agree_incoming _ _).bind fun edges => ?_
  exact (agree_note _).bind fun _ => moves_pure _ rfl

/-! ## Calls -/

/-- A call stands alone unless it is the right-hand side of an assignment. Besides the
    number, the indentation matters to it. -/
theorem parallel_callSite (tokens : List Token) :
    (callSite line tokens).Parallel line (line.renumber f)
      (fun site site' => site' = site ∧
        site.standalone = !decide (line.indent = .continuation))
      (callSite (line.renumber f) tokens) := by
  unfold callSite
  dsimp only [Line.indent_renumber]
  generalize (if tokens.head?.any _ then tokens.tail else tokens) = words
  split
  · exact parallel_lacks _ _
  · refine (agree_textAt _ _).bind fun ty => (agree_callTarget _ _ _).bind fun found => ?_
    refine (agree_callee _ _ _).bind fun callee => ?_
    split
    · refine (agree_pure _).bind fun _ => (agree_note _).bind fun _ => ?_
      exact parallel_pure ⟨rfl, decide_not⟩
    · split
      · refine ((agree_parameters _).map _).bind fun _ => (agree_note _).bind fun _ => ?_
        exact parallel_pure ⟨rfl, decide_not⟩
      · exact parallel_lacks _ _

theorem moves_call :
    (call line).Moves f line (decide (line.indent = .continuation))
      (call (line.renumber f)) := by
  refine (parallel_callSite f line _).bind ?_
  rintro site _ ⟨rfl, hsite⟩
  exact moves_pure _ hsite

theorem moves_invoke :
    (invoke line).Moves f line (decide (line.indent = .continuation))
      (invoke (line.renumber f)) := by
  unfold invoke
  dsimp only [Line.tokens_renumber]
  split
  · refine (agree_textAt _ _).bind fun toLabel => (agree_textAt _ _).bind fun _ => ?_
    refine (parallel_callSite f line _).bind ?_
    rintro site _ ⟨rfl, hsite⟩
    exact moves_pure _ hsite
  · exact parallel_lacks _ _

end

end Instruction

/-! ## Definitions -/

namespace Definition

section
variable {line line' : Line}

theorem agree_signature (tokens : List Token) :
    (signature line tokens).Agree line line' (signature line' tokens) := by
  unfold signature
  refine (agree_textAt _ _).bind fun returnType => (agree_textAt _ _).bind fun ident => ?_
  split
  · refine (agree_parameters _).bind fun params => ?_
    exact (agree_note _).bind fun _ => agree_pure _
  · exact parallel_lacks _ _

theorem agree_variableValue (ty : Text) (tokens : List Token) :
    (variableValue line ty tokens).Agree line line' (variableValue line' ty tokens) := by
  unfold variableValue
  refine (agree_tokenAt _ _).bind fun value => ?_
  split
  · exact (agree_expressionOf _).map _
  · exact agree_initialValue _ _

/-- Lines that are the same without their modifiers define the same variable. -/
theorem agreeWith_globalVariable
    (hdrop : dropModifiers line'.tokens = dropModifiers line.tokens) (ident : Text) :
    (globalVariable line ident).AgreeWith line line' (Kind.AssignedAs false)
      (globalVariable line' ident) := by
  unfold globalVariable
  rw [hdrop]
  refine (agree_textAt _ _).bind fun ty => (agree_note _).bind fun _ => ?_
  split
  · exact agreeWith_pure rfl
  split
  · exact (agree_variableValue _ _).bind fun value => agreeWith_pure rfl
  split
  · exact agreeWith_pure rfl
  · exact parallel_lacks _ _

end

section
variable (f : Nat → Nat) (line : Line)

theorem agree_header : (header line).Agree line (line.renumber f) (header (line.renumber f)) :=
  agree_signature _

theorem agree_labelName :
    (labelName line).Agree line (line.renumber f) (labelName (line.renumber f)) := by
  unfold labelName
  refine (agree_tokenAt _ _).bind fun first => ?_
  split
  · exact agree_pure _
  · exact (agree_textAt _ _).bind fun mark => agree_pure _

theorem agreeWith_aliasDefinition :
    (aliasDefinition line).AgreeWith line (line.renumber f) (Kind.AssignedAs false)
      (aliasDefinition (line.renumber f)) := by
  refine (agree_textAt _ _).bind fun ty => (agree_textAt _ _).bind fun aliasee => ?_
  exact (agree_note _).bind fun _ => agreeWith_pure rfl

theorem agreeWith_typeDefinition (ident : Text) :
    (typeDefinition line ident).AgreeWith line (line.renumber f) (Kind.AssignedAs false)
      (typeDefinition (line.renumber f) ident) :=
  (agree_note _).bind fun _ => (agree_tokenAt _ _).bind fun _ => agreeWith_pure rfl

theorem moves_functionHeader :
    (functionHeader line).Moves f line false (functionHeader (line.renumber f)) :=
  (agree_header f line).bind fun _ => moves_pure _ rfl

theorem moves_declaration :
    (declaration line).Moves f line false (declaration (line.renumber f)) :=
  (agree_signature _).bind fun _ => moves_pure _ rfl

theorem moves_label : (label line).Moves f line false (label (line.renumber f)) :=
  (agree_labelName f line).bind fun _ => moves_pure _ rfl

theorem moves_symbol : (symbol line).Moves f line false (symbol (line.renumber f)) := by
  have hdrop : dropModifiers (line.renumber f).tokens = dropModifiers line.tokens := rfl
  unfold symbol
  refine (agree_textAt _ _).bind fun ident => (agree_tokenAt _ _).bind fun word => ?_
  split
  · exact (agreeWith_aliasDefinition f line).bind fun _ h => moves_pure _ h
  split
  · exact (agreeWith_typeDefinition f line _).bind fun _ h => moves_pure _ h
  · exact (agreeWith_globalVariable hdrop _).bind fun _ h => moves_pure _ h

end

end Definition

/-! ## Statements of any category -/

namespace Statement

/-- `node?` is made of the line as a statement of the category, and `node?'` of the same
    line with another number. A value is given a name on a continuation only; statements
    of most categories stand at one indentation, and the others at that of the line. -/
structure Moved (f : Nat → Nat) (c : Category) (line : Line) (node? node?' : Option Node) :
    Prop where
  discarded : node? = none ↔ c = .discard
  stands : ∀ node ∈ node?, node.StandsOn line
  kind : ∀ node ∈ node?,
    node.kind.AssignedAs (decide (c.indent?.getD line.indent = .continuation))
  moved : node?' = node?.map (Node.renumber f)

section
variable (f : Nat → Nat) (line : Line)

/-- **A line of a category is read alike under every number**: as a node that stands on the
    line unless it is to be discarded, or with a failure on the line. -/
theorem parallel_ofCategory {c : Category} (hassign : c ≠ .assign) :
    (ofCategory c line).Parallel line (line.renumber f) (Moved f c line)
      (ofCategory c (line.renumber f)) := by
  have some_of {assigned : Bool} {r s : Reading Node} (h : r.Moves f line assigned s)
      (hassigned : decide (c.indent?.getD line.indent = .continuation) = assigned)
      (hc : c ≠ .discard) :
      (some <$> r).Parallel line (line.renumber f) (Moved f c line) (some <$> s) :=
    h.map fun node node' hnode => {
      discarded := by simp [hc]
      stands := by simpa using hnode.stands
      kind := by simpa [hassigned] using hnode.kind
      moved := by simpa using hnode.moved }
  cases c with
  | discard => exact parallel_pure ⟨by simp, nofun, nofun, rfl⟩
  | assign => exact absurd rfl hassign
  | store => exact some_of (Instruction.moves_store f line) rfl (by decide)
  | load => exact some_of (Instruction.moves_load f line) rfl (by decide)
  | alloca => exact some_of (Instruction.moves_alloca f line) rfl (by decide)
  | elementPointer => exact some_of (Instruction.moves_elementPointer f line) rfl (by decide)
  | extractValue => exact some_of (Instruction.moves_extractValue f line) rfl (by decide)
  | bitcast => exact some_of (Instruction.moves_bitcast f line) rfl (by decide)
  | operation => exact some_of (Instruction.moves_operation f line) rfl (by decide)
  | phi => exact some_of (Instruction.moves_phi f line) rfl (by decide)
  | branch => exact some_of (Instruction.moves_branch f line) rfl (by decide)
  | ret => exact some_of (Instruction.moves_ret f line) rfl (by decide)
  | switch => exact some_of (Instruction.moves_switch f line) rfl (by decide)
  | indirectBranch => exact some_of (Instruction.moves_indirectBranch f line) rfl (by decide)
  | unreachable => exact some_of (r := pure _) (s := pure _) (moves_pure _ rfl) rfl (by decide)
  -- calls stand at any indentation
  | call => exact some_of (Instruction.moves_call f line) rfl (by decide)
  | invoke => exact some_of (Instruction.moves_invoke f line) rfl (by decide)
  | label => exact some_of (Definition.moves_label f line) rfl (by decide)
  | declaration => exact some_of (Definition.moves_declaration f line) rfl (by decide)
  | functionHeader => exact some_of (Definition.moves_functionHeader f line) rfl (by decide)
  | functionEnd => exact some_of (r := pure _) (s := pure _) (moves_pure _ rfl) rfl (by decide)
  | global => exact some_of (Definition.moves_symbol f line) rfl (by decide)

theorem renumbered_ofCategory (c : Category) :
    (ofCategory c line).Renumbered f (Option.map (Node.renumber f))
      (ofCategory c (line.renumber f)) := by
  by_cases hassign : c = .assign
  · subst hassign
    exact renumbered_fail rfl
  · exact (parallel_ofCategory f line hassign).renumbered rfl fun _ _ h => h.moved

theorem alike_categoryOf :
    (liftM (Category.ofLine line) : Reading Category).Alike f
      (liftM (Category.ofLine (line.renumber f))) := by
  refine renumbered_ofExcept ?_
  unfold Category.ofLine
  dsimp only [Line.tokens_renumber, Line.indent_renumber]
  split <;> rfl

/-- The name that is assigned stays, and the right-hand side moves with its line. -/
theorem renumbered_splitAssignment :
    (liftM (splitAssignment line) : Reading (Text × Line)).Renumbered f
      (Prod.map id (Line.renumber f)) (liftM (splitAssignment (line.renumber f))) := by
  refine renumbered_ofExcept ?_
  unfold splitAssignment
  dsimp only [Line.tokens_renumber]
  split <;> rfl

/-- **A line means the same whatever its number is.** -/
theorem renumbered_ofLine :
    (ofLine line).Renumbered f (Option.map (Node.renumber f)) (ofLine (line.renumber f)) := by
  unfold ofLine
  refine (alike_categoryOf f line).bind fun c => ?_
  split
  · exact renumbered_ofCategory f line c
  · refine (renumbered_splitAssignment f line).bind fun (name, value) => ?_
    refine (alike_categoryOf f value).bind fun c => ?_
    refine (renumbered_ofCategory f value c).bind fun node? => ?_
    cases node? with
    | none => exact renumbered_fail rfl
    | some node => exact renumbered_pure rfl

end

end Statement

/-- The tokens of a text do not depend on its number. -/
theorem Line.renumbered_ofText (f : Nat → Nat) (text : Text) (number : Nat) :
    (liftM (ofText text number) : Reading Line).Renumbered f (Line.renumber f)
      (liftM (ofText text (f number))) := by
  refine renumbered_ofExcept ?_
  unfold ofText tokensOf
  cases tokenize text <;> rfl

/-- **A logical line means the same whatever its number is.** -/
theorem Statement.renumbered_ofLogicalLine (f : Nat → Nat) (line : LogicalLine) :
    (ofLogicalLine line).Renumbered f (Option.map (Node.renumber f))
      (ofLogicalLine (line.renumber f)) :=
  (Line.renumbered_ofText f line.text line.number).bind fun l => renumbered_ofLine f l

end LlvmAsm
