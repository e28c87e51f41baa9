/-
  Nodes stand on their lines.

  Every reader of statements fails at the line that it reads, or yields a node
  with the number of that line (`StandsOn`). `ensures_ofLine` says so of a line
  of any category, and that the lines without a node are those to be discarded.
  A line whose category is known is read as a statement of that category
  (`result_of_category`, and `result_of_assignment` if its value has a name).
-/
import LlvmAsm.Proofs.Renumbering.Statement

namespace LlvmAsm

open Reading

namespace Statement

theorem result_ofText {text : Text} {number : Nat} {line : Line}
    (h : Line.ofText text number = .ok line) :
    (ofLogicalLine ⟨text, number⟩).result = (ofLine line).result := by
  rw [ofLogicalLine, liftM_eq, result_bind_ok (by rw [result_ofExcept, h])]

/-- A statement without a name for its value. -/
theorem result_of_category {line : Line} {c : Category} (h : Category.ofLine line = .ok c)
    (hc : c ≠ .assign) : (ofLine line).result = (ofCategory c line).result := by
  rw [ofLine, liftM_eq, result_bind_ok (by rw [result_ofExcept, h]), if_pos hc]

/-- The name of an assignment is given to the node of its right-hand side. -/
theorem result_of_assignment {line value : Line} {name : Text} {c : Category} {r : Reading Node}
    (h : Category.ofLine line = .ok .assign) (hsplit : splitAssignment line = .ok (name, value))
    (hc : Category.ofLine value = .ok c) (hr : ofCategory c value = some <$> r) :
    (ofLine line).result = r.result.map fun node => some (assigned line name node) := by
  rw [ofLine, liftM_eq, result_bind_ok (by rw [result_ofExcept, h]), if_neg (by simp), liftM_eq,
    result_bind_ok (by rw [result_ofExcept, hsplit])]
  dsimp only
  rw [liftM_eq, result_bind_ok (by rw [result_ofExcept, hc]), hr]
  simp only [result_bind, result_map]
  cases r.result with
  | error e => rfl
  | ok node => rfl

/-- A line of a category has a node exactly if it is not to be discarded. -/
theorem ensures_ofCategory (c : Category) (line : Line) :
    (ofCategory c line).Ensures (·.number = line.number) fun node? _ =>
      (node? = none ↔ c = .discard) ∧ ∀ node ∈ node?, node.StandsOn line := by
  by_cases hassign : c = .assign
  · subst hassign
    exact rfl
  · exact (parallel_ofCategory id line hassign).ensures (fun _ _ => rfl)
      fun _ _ h => ⟨h.discarded, h.stands⟩

theorem number_of_ofLine_error {line : Line} {e : Failure} (h : Category.ofLine line = .error e) :
    e.number = line.number := by
  simp only [Category.ofLine] at h
  split at h
  · cases h
  · cases h
    rfl

theorem number_of_splitAssignment {line value : Line} {name : Text}
    (h : splitAssignment line = .ok (name, value)) : value.number = line.number := by
  simp only [splitAssignment] at h
  split at h
  · cases h
    rfl
  · cases h

theorem number_of_splitAssignment_error {line : Line} {e : Failure}
    (h : splitAssignment line = .error e) : e.number = line.number := by
  simp only [splitAssignment] at h
  split at h
  · cases h
  · cases h
    rfl

/-- A line has a node with its number exactly if it is not to be discarded. -/
theorem ensures_ofLine (line : Line) :
    (ofLine line).Ensures (·.number = line.number) fun node? _ =>
      (node? = none ↔ Category.ofLine line = .ok .discard) ∧
        ∀ node ∈ node?, node.number = line.number := by
  have hcategory : (liftM (Category.ofLine line) : Reading Category).Ensures
      (·.number = line.number) fun c _ => Category.ofLine line = .ok c :=
    ensures_ofExcept fun e => number_of_ofLine_error
  refine hcategory.bind fun c _ hc => ?_
  split
  · refine (ensures_ofCategory c line).mono
      fun node? _ h => ⟨?_, fun node hn => (h.2 node hn).number⟩
    rw [h.1, hc, Except.ok.injEq]
  · rename_i hassign
    obtain rfl : c = .assign := Decidable.not_not.1 hassign
    refine (ensures_ofExcept fun e => number_of_splitAssignment_error).bind
      fun (name, value) _ h => ?_
    have hvalue := number_of_splitAssignment h
    rw [← hvalue]
    refine (ensures_ofExcept fun e => number_of_ofLine_error).bind fun c _ _ => ?_
    refine (ensures_ofCategory c value).bind fun node? _ _ => ?_
    split
    · simp [assigned, hc, hvalue]
    · exact hvalue.symm

end Statement

/-! ## Logical lines -/

/-- The statement on the line is a comment or a setting of the target. -/
def LogicalLine.IsDiscarded (line : LogicalLine) : Prop :=
  (Line.ofText line.text line.number).bind Category.ofLine = .ok .discard

theorem Line.number_of_ofText {text : Text} {n : Nat} {line : Line}
    (h : Line.ofText text n = .ok line) : line.number = n := by
  unfold Line.ofText at h
  cases ht : tokensOf text n with
  | error e => simp [ht, bind, Except.bind] at h
  | ok tokens =>
    simp only [ht, bind, Except.bind, pure, Except.pure, Except.ok.injEq] at h
    exact h ▸ rfl

theorem Line.number_of_ofText_error {text : Text} {n : Nat} {e : Failure}
    (h : Line.ofText text n = .error e) : e.number = n := by
  unfold Line.ofText tokensOf at h
  cases ht : tokenize text with
  | error reason =>
    rw [ht] at h
    have hfailure : Except.error (⟨n, .imbalance reason⟩ : Failure) = Except.error e := h
    exact Except.error.inj hfailure ▸ rfl
  | ok tokens =>
    rw [ht] at h
    cases h

/-- **A logical line fails with its number, or has a node with its number, or
    is to be discarded.** -/
theorem Statement.ensures_ofLogicalLine (line : LogicalLine) :
    (ofLogicalLine line).Ensures (·.number = line.number) fun node? _ =>
      (node? = none ↔ line.IsDiscarded) ∧ ∀ node ∈ node?, node.number = line.number := by
  refine (ensures_ofExcept fun e => Line.number_of_ofText_error).bind fun l _ h => ?_
  rw [← Line.number_of_ofText h]
  refine (ensures_ofLine l).mono fun node? _ hnode => ⟨?_, hnode.2⟩
  rw [hnode.1, LogicalLine.IsDiscarded, h]
  rfl

end LlvmAsm
