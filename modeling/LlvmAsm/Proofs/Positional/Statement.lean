/-
  Statements by position.

  `Positional.ofCategory` reads a line as a statement of a given category by position and with
  the registry at hand, whether or not the line looks like one. `ofCategory_in_range_unless_reversed` says that no
  slice, element or removal is out of range, so that the reading is the one of
  `Statement.ofCategory` and fails at the line if it fails, but for one case: a line that is
  read as a branch, begins with a comma, and goes on with something else than `label`.
-/
import LlvmAsm.Proofs.Positional.Calls
import LlvmAsm.Proofs.Positional.Definition
import LlvmAsm.Proofs.Statement

namespace LlvmAsm.Positional

open Reading

/-- The node of a line that belongs to the given category. A label has no access by position
    and no type, and is read as in the library. -/
def ofCategory (c : Category) (line : Line) : PositionalReading (Option Node) :=
  match c with
  | .discard => pure none
  | .assign => liftM (fail ⟨line.number, .nestedAssignment⟩ : Reading (Option Node))
  | .store => some <$> store line
  | .load => some <$> load line
  | .alloca => some <$> alloca line
  | .elementPointer => some <$> elementPointer line
  | .extractValue => some <$> extractValue line
  | .bitcast => some <$> bitcast line
  | .operation => some <$> operation line
  | .phi => some <$> phi line
  | .branch => some <$> branch line
  | .ret => some <$> ret line
  | .switch => some <$> switch line
  | .indirectBranch => some <$> indirectBranch line
  | .unreachable => pure (some (Instruction.unreachable line))
  | .call => some <$> call line
  | .invoke => some <$> invoke line
  | .label => some <$> liftM (Definition.label line)
  | .declaration => some <$> declaration line
  | .functionHeader => some <$> functionHeader line
  | .functionEnd => pure (some (Definition.functionEnd line))
  | .global => some <$> symbol line

theorem failsAt_ofCategory (c : Category) (line : Line) :
    (Statement.ofCategory c line).FailsAt line.number :=
  (Statement.ensures_ofCategory c line).mono fun _ _ _ => trivial

theorem ofCategory_eq {c : Category} {line : Line}
    (h : ¬ (c = .branch ∧ isReversed line = true)) :
    ofCategory c line = liftM (Statement.ofCategory c line) := by
  cases c with
  | branch =>
    have hbranch : branch line = liftM (Instruction.branch line) := by
      rw [branch_eq, if_neg (h ⟨rfl, ·⟩)]
    exact map_eq_liftM hbranch some
  | discard | assign | unreachable | functionEnd => rfl
  | label => exact map_eq_liftM rfl some
  | store => exact map_eq_liftM (store_eq line) some
  | load => exact map_eq_liftM (load_eq line) some
  | alloca => exact map_eq_liftM (alloca_eq line) some
  | elementPointer => exact map_eq_liftM (elementPointer_eq line) some
  | extractValue => exact map_eq_liftM (extractValue_eq line) some
  | bitcast => exact map_eq_liftM (bitcast_eq line) some
  | operation => exact map_eq_liftM (operation_eq line) some
  | phi => exact map_eq_liftM (phi_eq line) some
  | ret => exact map_eq_liftM (ret_eq line) some
  | switch => exact map_eq_liftM (switch_eq line) some
  | indirectBranch => exact map_eq_liftM (indirectBranch_eq line) some
  | call => exact map_eq_liftM (call_eq line) some
  | invoke => exact map_eq_liftM (invoke_eq line) some
  | declaration => exact map_eq_liftM (declaration_eq line) some
  | functionHeader => exact map_eq_liftM (functionHeader_eq line) some
  | global => exact map_eq_liftM (symbol_eq line) some

theorem ofCategory_eq_failure {line : Line} (h : isReversed line = true) :
    ofCategory .branch line = failure := by
  rw [ofCategory, branch_eq, if_pos h]
  rfl

theorem result_branch_of_isReversed {line : Line} (h : isReversed line = true) :
    (Instruction.branch line).result = .error ⟨line.number, .reversedRange⟩ := by
  unfold isReversed at h
  split at h
  · rename_i first target rest htokens
    rw [Bool.and_eq_true, Bool.not_eq_true'] at h
    obtain ⟨hfirst, htarget⟩ := h
    have htoken : tokenAt line (first :: target :: rest) 1 = pure target := rfl
    rw [Instruction.branch, htokens, htoken, pure_bind,
      if_neg (by rw [htarget]; decide), List.findIdx?_cons, if_pos hfirst]
    rfl
  · cases h

/-- **A line of any category is read in range**, and fails at the line if it fails, unless it
    is read as a branch whose condition would end before it begins: this reading breaks
    off. -/
theorem ofCategory_in_range_unless_reversed (c : Category) (line : Line) :
    (¬ (c = .branch ∧ isReversed line = true) →
      ofCategory c line = liftM (Statement.ofCategory c line) ∧
        (Statement.ofCategory c line).FailsAt line.number) ∧
    (c = .branch ∧ isReversed line = true →
      ofCategory c line = failure ∧
        (Statement.ofCategory c line).result = .error ⟨line.number, .reversedRange⟩) := by
  constructor
  · intro h
    exact ⟨ofCategory_eq h, failsAt_ofCategory c line⟩
  · rintro ⟨rfl, h⟩
    refine ⟨ofCategory_eq_failure h, ?_⟩
    rw [Statement.ofCategory, result_map, result_branch_of_isReversed h]
    rfl

/-- A comma at the beginning of a line that is read as a branch. -/
theorem breaks_off_of_leading_comma :
    let line : Line := ⟨", i1 %c, label %a, label %b", 1, .topLevel,
      [",", "i1", "%c", ",", "label", "%a", ",", "label", "%b"].map fun w : String => .word w⟩
    Line.ofText ", i1 %c, label %a, label %b" 1 = .ok line ∧
      (∀ r : Reading (Option Node), ofCategory .branch line ≠ liftM r) ∧
      (Statement.ofCategory .branch line).result = .error ⟨1, .reversedRange⟩ := by
  intro line
  have hreversed : isReversed line = true := by decide
  refine ⟨by decide +kernel, fun r => ofCategory_eq_failure hreversed ▸ failure_ne_liftM r, ?_⟩
  rw [Statement.ofCategory, result_map, result_branch_of_isReversed hreversed]
  rfl

end LlvmAsm.Positional
