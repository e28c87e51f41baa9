/-
  Listings by position.

  The readers of all lines of a source and of the functions set aside, with one registry from
  the first line to the last: the signature of a function is read with the registry that the
  lines before it have left, and so is each statement. Every access to tokens is by position.

  None of the readers breaks off, and each comes to the one of the same name (`listing_eq`,
  `functionNodes_eq`). A line is read as a branch only if it begins with the word for one, so
  its condition does not end before it begins (`ofCategory_eq_of_ofLine`).
-/
import LlvmAsm.Proofs.Positional.Statement
import LlvmAsm.Proofs.WorkList

namespace LlvmAsm.Positional

open Reading

/-! ## The lines of a source -/

/-- The function with the given lines, the first of which has the given number and holds the
    signature. -/
def stub (number : Nat) (lines : List Text) : PositionalReading Stub := do
  let first ← Line.ofText (lines.head?.getD []) number
  let (ident, signature) ← header first
  return ⟨ident, signature.params, signature.hasVarArgs, number, lines⟩

/-- The effect of a line of a definition that is set aside. -/
def functionStep (p : Progress) (function : OpenFunction) (text : Text) :
    PositionalReading Progress := do
  let lines := text :: function.lines
  if closesFunction text then
    let stub ← stub function.number lines.reverse
    return { p with stubs := stub :: p.stubs, function := none }
  else return { p with function := some { function with lines := lines } }

/-- The effect of a line. -/
def step (deferred : Bool) (p : Progress) (number : Nat) (text : Text) :
    PositionalReading Progress :=
  match p.function with
  | some function => functionStep p function text
  | none =>
    if deferred && opensFunction text then functionStep p ⟨number, []⟩ text
    else pure (p.statementStep number text)

/-- The effect of several lines, the first of which has the given number. -/
def run (deferred : Bool) (p : Progress) (number : Nat) :
    List Text → PositionalReading Progress
  | [] => pure p
  | text :: rest => do
    let p ← step deferred p number text
    run deferred p (number + 1) rest

/-- The outline of the lines that follow line `base`. -/
def outline (deferred : Bool) (base : Nat) (lines : List Text) : PositionalReading Outline := do
  let p ← run deferred .start (base + 1) lines
  p.finish base

section
variable {deferred : Bool}

theorem stub_eq (number : Nat) (lines : List Text) :
    stub number lines = liftM (Stub.ofLines number lines) := by
  rw [stub, Stub.ofLines]
  simp only [liftM_bind, liftM_pure, liftM_ofExcept, header_eq]

theorem functionStep_eq (p : Progress) (function : OpenFunction) (text : Text) :
    functionStep p function text = liftM (p.functionStep function text) := by
  rw [functionStep, Progress.functionStep]
  split
  · simp only [liftM_bind, liftM_pure, stub_eq]
  · rfl

theorem step_eq (p : Progress) (number : Nat) (text : Text) :
    step deferred p number text = liftM (p.step deferred number text) := by
  rw [step, Progress.step]
  cases p.function with
  | some function => exact functionStep_eq p function text
  | none =>
    dsimp only
    split
    · exact functionStep_eq p _ text
    · rfl

theorem run_eq (p : Progress) (number : Nat) (lines : List Text) :
    run deferred p number lines = liftM (p.run deferred number lines) := by
  induction lines generalizing p number with
  | nil => rfl
  | cons text lines ih => simp only [run, Progress.run, liftM_bind, step_eq, ih]

theorem outline_eq (base : Nat) (lines : List Text) :
    outline deferred base lines = liftM (Outline.ofLines deferred base lines) := by
  rw [outline, Outline.ofLines]
  simp only [liftM_bind, liftM_ofExcept, run_eq]

end

/-! ## Statements in a row -/

/-- The node of a line of the given category, if it has one; an assignment is split, and put
    together again. -/
def resolve (line : Line) (c : Category) : PositionalReading (Option Node) := do
  if c ≠ .assign then ofCategory c line
  else
    let (name, value) ← Statement.splitAssignment line
    let c ← Category.ofLine value
    match ← ofCategory c value with
    | some node => return some (Statement.assigned line name node)
    | none => liftM (fail (line.lacks .assignedValue line.tokens) : Reading (Option Node))

/-- The node of a line, if it has one. -/
def ofLine (line : Line) : PositionalReading (Option Node) := do
  resolve line (← Category.ofLine line)

/-- The nodes of logical lines, in order. -/
def nodes : List LogicalLine → PositionalReading (List Node)
  | [] => pure []
  | line :: lines => do
    let node ← ofLine (← Line.ofText line.text line.number)
    let nodes ← nodes lines
    return node.toList ++ nodes

/-- The listing of the lines that follow line `base`. -/
def listing (deferred : Bool) (base : Nat) (lines : List Text) : PositionalReading Listing := do
  let outline ← outline deferred base lines
  let nodes ← nodes outline.lines
  return ⟨nodes, outline.stubs⟩

/-- The nodes of a function that was set aside. -/
def functionNodes (s : Stub) : PositionalReading (List Node) :=
  Listing.nodes <$> listing false (s.number - 1) s.lines

/-- A line of the category of branches does not begin with a comma. -/
theorem not_isReversed_of_fits {line : Line} (h : Category.branch.fits line.tokens = true) :
    isReversed line = false := by
  rw [Category.fits, Bool.and_eq_true, Category.begins, decide_eq_true_eq, decide_eq_true_eq] at h
  unfold isReversed
  split
  · rename_i first target rest htokens
    rw [htokens] at h
    have hfirst : first.isSeparator = false := by
      cases first with
      | word w =>
        have hw : w = "br" := h.2
        rw [hw]
        rfl
      | group text e inner => rfl
    rw [hfirst, Bool.false_and]
  · rfl

/-- **In its own category, a line is read in range.** -/
theorem ofCategory_eq_of_ofLine {line : Line} {c : Category} (h : Category.ofLine line = .ok c) :
    ofCategory c line = liftM (Statement.ofCategory c line) := by
  refine ofCategory_eq ?_
  rintro ⟨rfl, hreversed⟩
  have hfits := (Bool.and_eq_true_iff.1 (Category.suits_of_ofLine h)).2
  rw [not_isReversed_of_fits hfits] at hreversed
  cases hreversed

theorem resolve_eq {line : Line} {c : Category} (h : Category.ofLine line = .ok c) :
    resolve line c = liftM (Statement.resolve line c) := by
  rw [resolve, Statement.resolve]
  split
  · exact ofCategory_eq_of_ofLine h
  rw [liftM_bind, liftM_ofExcept]
  refine bind_congr fun (name, value) => ?_
  dsimp only
  rw [liftM_bind, liftM_ofExcept]
  refine liftM_bind_congr fun c hc => ?_
  rw [ofCategory_eq_of_ofLine hc, liftM_bind]
  refine bind_congr fun node => ?_
  cases node <;> rfl

theorem ofLine_eq (line : Line) : ofLine line = liftM (Statement.ofLine line) := by
  rw [ofLine, Statement.ofLine_eq_resolve, liftM_bind, liftM_ofExcept]
  exact liftM_bind_congr fun c hc => resolve_eq hc

theorem nodes_eq (lines : List LogicalLine) : nodes lines = liftM (nodesOf lines) := by
  induction lines with
  | nil => rfl
  | cons line lines ih =>
    simp only [nodes, nodesOf, Statement.ofLogicalLine, liftM_bind, liftM_pure, liftM_ofExcept,
      bind_assoc, ofLine_eq, ih]

/-- **The lines of a source are read in range.** -/
theorem listing_eq (deferred : Bool) (base : Nat) (lines : List Text) :
    listing deferred base lines = liftM (Listing.ofLines deferred base lines) := by
  rw [listing, Listing.ofLines]
  simp only [liftM_bind, liftM_pure, outline_eq, nodes_eq]

theorem functionNodes_eq (s : Stub) : functionNodes s = liftM s.nodes :=
  map_eq_liftM (listing_eq false _ _) _

end LlvmAsm.Positional
