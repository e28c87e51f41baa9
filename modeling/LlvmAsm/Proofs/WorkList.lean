/-
  The listing of lines by a work list.

  A front end may keep all that is still to be done in a queue: the lines of a
  source, logical lines, lines with their tokens, and lines whose category is
  known. A round takes the first item and puts what comes of it in front of the
  others (`WorkList.step`), so that a line is done with before the next one is
  begun. `WorkList.run` goes on until nothing is left; every round makes the
  queue lighter (`weight_step_lt`).

  `run_eq_outcome`: the work list does what its items do one after the other.
  `run_start_eq_ofLines`: it yields the listing of the lines, which is a pass
  from left to right, and what such a pass yields.
-/
import LlvmAsm.Proofs.Listing

namespace LlvmAsm

open Reading

/-- The node of a line of the given category, if it has one; an assignment is
    split, and put together again. -/
def Statement.resolve (line : Line) (c : Category) : Reading (Option Node) :=
  if c ≠ .assign then ofCategory c line
  else do
    let (name, value) ← splitAssignment line
    let c ← Category.ofLine value
    match ← ofCategory c value with
    | some node => return some (assigned line name node)
    | none => fail (line.lacks .assignedValue line.tokens)

theorem Statement.ofLine_eq_resolve (line : Line) :
    ofLine line = (liftM (Category.ofLine line) : Reading Category) >>= resolve line := rfl

/-! ## Rounds -/

/-- What is still to be done. -/
inductive WorkItem where
  | source (lines : List Text)
  | logical (line : LogicalLine)
  | tokenized (line : Line)
  | classified (line : Line) (c : Category)
deriving DecidableEq, Repr

/-- The rounds that an item takes, at most. -/
def WorkItem.weight : WorkItem → Nat
  | source lines => 3 * lines.length + 1
  | logical _ => 3
  | tokenized _ => 2
  | classified _ _ => 1

/-- The state between two rounds. -/
structure WorkList where
  queue : List WorkItem
  nodes : List Node
  stubs : List Stub
  known : Registry
deriving DecidableEq, Repr

namespace WorkList

/-- The rounds that are left, at most. -/
def weight (queue : List WorkItem) : Nat := queue.foldr (fun item n => item.weight + n) 0

@[simp] theorem weight_cons (item : WorkItem) (rest : List WorkItem) :
    weight (item :: rest) = item.weight + weight rest := rfl

theorem weight_logical_append (lines : List LogicalLine) (rest : List WorkItem) :
    weight (lines.map .logical ++ rest) = 3 * lines.length + weight rest := by
  induction lines with
  | nil => simp
  | cons line lines ih =>
    rw [List.map_cons, List.cons_append, weight_cons, ih, List.length_cons, WorkItem.weight]
    omega

/-- A round for the first item, before the other items `rest`: the next state,
    or a failure and the registry that is left. -/
def step (deferred : Bool) (base : Nat) (w : WorkList) (item : WorkItem) (rest : List WorkItem) :
    Except (Failure × Registry) WorkList :=
  match item with
  | .source lines =>
    match (Outline.ofLines deferred base lines).run w.known with
    | (.error e, known) => .error (e, known)
    | (.ok o, known) =>
      .ok ⟨o.lines.map .logical ++ rest, w.nodes, w.stubs ++ o.stubs, known⟩
  | .logical l =>
    match Line.ofText l.text l.number with
    | .error e => .error (e, w.known)
    | .ok line => .ok { w with queue := .tokenized line :: rest }
  | .tokenized line =>
    match Category.ofLine line with
    | .error e => .error (e, w.known)
    | .ok c => .ok { w with queue := .classified line c :: rest }
  | .classified line c =>
    match (Statement.resolve line c).run w.known with
    | (.error e, known) => .error (e, known)
    | (.ok node?, known) => .ok ⟨rest, w.nodes ++ node?.toList, w.stubs, known⟩

/-- Every round makes the queue lighter. -/
theorem weight_step_lt {deferred : Bool} {base : Nat} {w w' : WorkList} {item : WorkItem}
    {rest : List WorkItem} (h : w.step deferred base item rest = .ok w') :
    weight w'.queue < weight (item :: rest) := by
  cases item with
  | source lines =>
    simp only [step] at h
    split at h
    · cases h
    · rename_i o known heq
      cases h
      have ho : (Outline.ofLines deferred base lines).result = .ok o := congrArg Prod.fst heq
      have hlength := ((Outline.ensures_numbered_ofLines deferred base lines).ok ho).length
      simp only [weight_logical_append, weight_cons, WorkItem.weight]
      omega
  | logical l =>
    simp only [step] at h
    split at h
    · cases h
    · cases h
      simp [WorkItem.weight]
  | tokenized line =>
    simp only [step] at h
    split at h
    · cases h
    · cases h
      simp [WorkItem.weight]
  | classified line c =>
    simp only [step] at h
    split at h
    · cases h
    · cases h
      simp [WorkItem.weight]

/-- Rounds until nothing is left to be done or one of them fails. -/
def run (deferred : Bool) (base : Nat) (w : WorkList) : Except Failure Listing × Registry :=
  match _hqueue : w.queue with
  | [] => (.ok ⟨w.nodes, w.stubs⟩, w.known)
  | item :: rest =>
    match _hstep : w.step deferred base item rest with
    | .error (e, known) => (.error e, known)
    | .ok w' => run deferred base w'
termination_by weight w.queue
decreasing_by
  rw [_hqueue]
  exact weight_step_lt _hstep

/-- The state before the first round. -/
def start (lines : List Text) (known : Registry) : WorkList := ⟨[.source lines], [], [], known⟩

/-! ## What the items do -/

section
variable (deferred : Bool) (base : Nat)

/-- The listing of an item by itself. -/
def listingOf : WorkItem → Reading Listing
  | .source lines => Listing.ofLines deferred base lines
  | .logical l => (fun node? => ⟨node?.toList, []⟩) <$> Statement.ofLogicalLine l
  | .tokenized line => (fun node? => ⟨node?.toList, []⟩) <$> Statement.ofLine line
  | .classified line c => (fun node? => ⟨node?.toList, []⟩) <$> Statement.resolve line c

/-- The listing of items that are read one after the other. -/
def listingOfAll : List WorkItem → Reading Listing
  | [] => pure ⟨[], []⟩
  | item :: rest => do
    let l ← listingOf deferred base item
    let more ← listingOfAll rest
    return ⟨l.nodes ++ more.nodes, l.stubs ++ more.stubs⟩

/-- What a work list comes to if its items are read one after the other. -/
def outcome (w : WorkList) : Except Failure Listing × Registry :=
  ((fun l => ⟨w.nodes ++ l.nodes, w.stubs ++ l.stubs⟩) <$>
    listingOfAll deferred base w.queue).run w.known

variable {deferred base}

/-- The outcome for a queue with a first item. -/
theorem outcome_cons (item : WorkItem) (rest : List WorkItem) (nodes : List Node)
    (stubs : List Stub) (known : Registry) :
    outcome deferred base ⟨item :: rest, nodes, stubs, known⟩ =
      match (listingOf deferred base item).run known with
      | (.error e, known') => (.error e, known')
      | (.ok l, known') =>
        outcome deferred base ⟨rest, nodes ++ l.nodes, stubs ++ l.stubs, known'⟩ := by
  simp only [outcome, listingOfAll, run_map, run_bind, run_pure]
  rcases (listingOf deferred base item).run known with ⟨e | l, known'⟩
  · rfl
  · dsimp only
    rcases (listingOfAll deferred base rest).run known' with ⟨e | more, known''⟩
    · rfl
    · simp [Except.map]

/-- The outcome for a queue that begins with logical lines. -/
theorem outcome_logical (lines : List LogicalLine) (rest : List WorkItem) (nodes : List Node)
    (stubs : List Stub) (known : Registry) :
    outcome deferred base ⟨lines.map .logical ++ rest, nodes, stubs, known⟩ =
      match (nodesOf lines).run known with
      | (.error e, known') => (.error e, known')
      | (.ok more, known') => outcome deferred base ⟨rest, nodes ++ more, stubs, known'⟩ := by
  induction lines generalizing nodes known with
  | nil => simp [nodesOf]
  | cons line lines ih =>
    simp only [List.map_cons, List.cons_append, outcome_cons, listingOf, nodesOf, run_map,
      run_bind, run_pure]
    rcases (Statement.ofLogicalLine line).run known with ⟨e | node?, known'⟩
    · rfl
    · simp only [Except.map, List.append_nil, ih]
      rcases (nodesOf lines).run known' with ⟨e | more, known''⟩
      · rfl
      · simp

/-- **A round does not change the outcome**, or it fails with the outcome. -/
theorem outcome_step (item : WorkItem) (rest : List WorkItem) (w : WorkList) :
    outcome deferred base { w with queue := item :: rest } =
      match w.step deferred base item rest with
      | .error (e, known) => (.error e, known)
      | .ok w' => outcome deferred base w' := by
  rw [outcome_cons]
  cases item with
  | source lines =>
    simp only [step, listingOf, Listing.ofLines, run_bind, run_pure]
    rcases (Outline.ofLines deferred base lines).run w.known with ⟨e | o, known⟩
    · rfl
    · simp only [outcome_logical]
      rcases (nodesOf o.lines).run known with ⟨e | nodes, known'⟩ <;> rfl
  | logical l =>
    simp only [step, listingOf, Statement.ofLogicalLine]
    cases hline : Line.ofText l.text l.number with
    | error e => simp [run_bind, liftM_eq]
    | ok line =>
      have hpure : (liftM (.ok line : Except Failure Line) : Reading Line) = pure line := rfl
      dsimp only
      rw [hpure, pure_bind, outcome_cons, listingOf]
  | tokenized line =>
    simp only [step, listingOf, Statement.ofLine_eq_resolve]
    cases hc : Category.ofLine line with
    | error e => simp [run_bind, liftM_eq]
    | ok c =>
      have hpure : (liftM (.ok c : Except Failure Category) : Reading Category) = pure c := rfl
      dsimp only
      rw [hpure, pure_bind, outcome_cons, listingOf]
  | classified line c =>
    simp only [step, listingOf, run_map]
    rcases (Statement.resolve line c).run w.known with ⟨e | node?, known⟩
    · rfl
    · simp [Except.map]

/-- **The work list does what its items do one after the other.** -/
theorem run_eq_outcome (w : WorkList) : w.run deferred base = outcome deferred base w := by
  fun_induction run deferred base w with
  | case1 w hqueue =>
    obtain ⟨queue, nodes, stubs, known⟩ := w
    subst hqueue
    simp [outcome, listingOfAll]
  | case2 w item rest hqueue e known hstep =>
    have h : outcome deferred base { w with queue := item :: rest } = _ := outcome_step item rest w
    rw [hstep] at h
    rw [← hqueue] at h
    exact h.symm
  | case3 w item rest hqueue w' hstep ih =>
    have h : outcome deferred base { w with queue := item :: rest } = _ := outcome_step item rest w
    rw [hstep] at h
    rw [← hqueue] at h
    exact ih.trans h.symm

end

/-! ## The pass from left to right -/

/-- The registry after lines that are read one after the other. -/
def knownAfter (known : Registry) (lines : List LogicalLine) : Registry :=
  lines.foldl (fun known line => ((Statement.ofLogicalLine line).run known).2) known

theorem knownAfter_eq (known : Registry) (lines : List LogicalLine) :
    knownAfter known lines = known.learn (lines.flatMap LogicalLine.noted) := by
  induction lines generalizing known with
  | nil => rfl
  | cons line rest ih =>
    rw [List.flatMap_cons, Registry.learn_append, ← ih]
    rfl

/-- The listing of lines whose outline is known. -/
theorem run_ofLines_of_outline {deferred : Bool} {base : Nat} {lines : List Text} {o : Outline}
    {known known' : Registry}
    (h : (Outline.ofLines deferred base lines).run known = (.ok o, known')) :
    (Listing.ofLines deferred base lines).run known =
      (((nodesOf o.lines).run known').1.map (⟨·, o.stubs⟩), ((nodesOf o.lines).run known').2) := by
  rw [Listing.ofLines, run_bind, h]
  dsimp only
  rw [bind_pure_comp, run_map]

/-- **The work list is a pass from left to right.** The lines are joined first,
    and no statement is read if that fails. Else the logical lines are read in
    order with the registry that the one before left: on success, there is
    exactly one node with the number of the line for each line that is not to be
    discarded; on failure, it is the failure of the first line that cannot be
    read and has its number, and the registry is the one after that line. -/
theorem run_start_eq_ofLines (deferred : Bool) (base : Nat) (lines : List Text)
    (known : Registry) :
    (start lines known).run deferred base = (Listing.ofLines deferred base lines).run known ∧
    match (Outline.ofLines deferred base lines).run known with
    | (.error e, known') => (start lines known).run deferred base = (.error e, known')
    | (.ok o, known') =>
      match (start lines known).run deferred base with
      | (.ok l, known'') => l.Follows base lines.length o ∧ known'' = knownAfter known' o.lines
      | (.error e, known'') =>
        ∃ before line rest, o.lines = before ++ line :: rest ∧
          (∀ l ∈ before, l.IsReadable) ∧ (Statement.ofLogicalLine line).result = .error e ∧
          e.number = line.number ∧ known'' = knownAfter known' (before ++ [line]) := by
  have hrun : (start lines known).run deferred base =
      (Listing.ofLines deferred base lines).run known := by
    rw [run_eq_outcome, start, outcome_cons, listingOf]
    rcases (Listing.ofLines deferred base lines).run known with ⟨e | l, known'⟩
    · rfl
    · simp [outcome, listingOfAll]
  refine ⟨hrun, ?_⟩
  rw [hrun]
  rcases houtline : (Outline.ofLines deferred base lines).run known with ⟨e | o, known'⟩
  · dsimp only
    rw [Listing.ofLines, run_bind, houtline]
  · dsimp only
    rw [run_ofLines_of_outline houtline]
    have hnumbered := (Outline.ensures_numbered_ofLines deferred base lines).ok
      (congrArg Prod.fst houtline)
    cases hnodes : (nodesOf o.lines).result with
    | ok nodes =>
      have hreadable := readable_of_nodesOf hnodes
      obtain ⟨hresult, hnoted⟩ := nodesOf_eq_ok hreadable
      rw [hnodes, Except.ok.injEq] at hresult
      simp only [Reading.run, hnodes, hnoted, hresult, Except.map]
      exact ⟨Listing.follows hnumbered hreadable, (knownAfter_eq _ _).symm⟩
    | error e =>
      obtain ⟨before, line, rest, heq, hbefore, hline, hnoted⟩ := nodesOf_eq_error hnodes
      simp only [Reading.run, hnodes, hnoted, Except.map]
      exact ⟨before, line, rest, heq, hbefore, hline,
        (Statement.ensures_ofLogicalLine line).error hline, (knownAfter_eq _ _).symm⟩

end WorkList

end LlvmAsm
