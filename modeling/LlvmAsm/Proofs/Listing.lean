/-
  Laws of listings: nodes in a row.

  The nodes of logical lines are those of the single lines, in order
  (`nodesOf_eq_ok`); if some line cannot be read, the first such line fails for
  all of them (`nodesOf_eq_error`). `Follows` says what a listing has to do with
  the outline it was read from.
-/
import LlvmAsm.Module
import LlvmAsm.Proofs.Outline
import LlvmAsm.Proofs.Statement

namespace LlvmAsm

open Reading

/-! ## One line -/

namespace LogicalLine

instance : DecidablePred IsDiscarded := fun line =>
  decEq ((Line.ofText line.text line.number).bind Category.ofLine) (.ok .discard)

/-- The line can be read. -/
def IsReadable (line : LogicalLine) : Prop :=
  ∃ node?, (Statement.ofLogicalLine line).result = .ok node?

/-- The node of the line, if it can be read and has one. -/
def node? (line : LogicalLine) : Option Node :=
  match (Statement.ofLogicalLine line).result with
  | .ok node? => node?
  | .error _ => none

/-- The types that are met in the line. -/
def noted (line : LogicalLine) : List Text := (Statement.ofLogicalLine line).noted

theorem node?_of_result {line : LogicalLine} {node? : Option Node}
    (h : (Statement.ofLogicalLine line).result = .ok node?) : line.node? = node? := by
  simp [LogicalLine.node?, h]

theorem IsReadable.result {line : LogicalLine} (h : line.IsReadable) :
    (Statement.ofLogicalLine line).result = .ok line.node? := by
  obtain ⟨node?, h⟩ := h
  rw [h, node?_of_result h]

/-- A line that can be read has no node exactly if it is to be discarded. -/
theorem IsReadable.node?_eq_none_iff {line : LogicalLine} (h : line.IsReadable) :
    line.node? = none ↔ line.IsDiscarded :=
  ((Statement.ensures_ofLogicalLine line).ok h.result).1

/-- The node of a line has its number. -/
theorem number_of_mem_node? {line : LogicalLine} {node : Node} (h : node ∈ line.node?) :
    node.number = line.number := by
  cases hr : (Statement.ofLogicalLine line).result with
  | error e => simp [LogicalLine.node?, hr] at h
  | ok node? =>
    rw [node?_of_result hr] at h
    exact ((Statement.ensures_ofLogicalLine line).ok hr).2 node h

end LogicalLine

/-! ## Several lines -/

/-- **The nodes of lines that can be read**, and the types met in them. -/
theorem nodesOf_eq_ok {lines : List LogicalLine} (h : ∀ line ∈ lines, line.IsReadable) :
    (nodesOf lines).result = .ok (lines.filterMap LogicalLine.node?) ∧
      (nodesOf lines).noted = lines.flatMap LogicalLine.noted := by
  induction lines with
  | nil => exact ⟨rfl, rfl⟩
  | cons line rest ih =>
    have hline := (h line List.mem_cons_self).result
    obtain ⟨hresult, hnoted⟩ := ih fun l hl => h l (List.mem_cons_of_mem _ hl)
    rw [nodesOf, result_bind_ok hline, noted_bind_ok hline, result_bind_ok hresult,
      noted_bind_ok hresult, hnoted]
    constructor
    · cases hnode : line.node? with
      | none => simp [hnode]
      | some node => simp [hnode]
    · simp [LogicalLine.noted]

/-- **The first line that cannot be read fails for all**, after the types that
    were met up to it. -/
theorem nodesOf_eq_error {lines : List LogicalLine} {e : Failure}
    (h : (nodesOf lines).result = .error e) :
    ∃ before line rest, lines = before ++ line :: rest ∧
      (∀ l ∈ before, l.IsReadable) ∧ (Statement.ofLogicalLine line).result = .error e ∧
      (nodesOf lines).noted = (before ++ [line]).flatMap LogicalLine.noted := by
  induction lines with
  | nil => cases h
  | cons line rest ih =>
    cases hline : (Statement.ofLogicalLine line).result with
    | error e' =>
      rw [nodesOf, result_bind_error hline] at h
      cases h
      refine ⟨[], line, rest, rfl, by simp, hline, ?_⟩
      rw [nodesOf, noted_bind_error hline]
      simp [LogicalLine.noted]
    | ok node? =>
      rw [nodesOf, result_bind_ok hline] at h
      cases hrest : (nodesOf rest).result with
      | ok nodes =>
        rw [result_bind_ok hrest] at h
        cases h
      | error e' =>
        rw [result_bind_error hrest] at h
        cases h
        obtain ⟨before, line', rest', heq, hbefore, hline', hnoted⟩ := ih hrest
        refine ⟨line :: before, line', rest', by rw [heq, List.cons_append], ?_, hline', ?_⟩
        · intro l hl
          rcases List.mem_cons.1 hl with rfl | hl
          · exact ⟨node?, hline⟩
          · exact hbefore l hl
        · rw [nodesOf, noted_bind_ok hline, noted_bind_error hrest, hnoted]
          simp [LogicalLine.noted]

/-- If there are nodes, then every line can be read. -/
theorem readable_of_nodesOf {lines : List LogicalLine} {nodes : List Node}
    (h : (nodesOf lines).result = .ok nodes) : ∀ line ∈ lines, line.IsReadable := by
  induction lines generalizing nodes with
  | nil => simp
  | cons line rest ih =>
    obtain ⟨node?, hline, h⟩ := exists_of_bind_ok h
    obtain ⟨nodes', hrest, -⟩ := exists_of_bind_ok h
    intro l hl
    rcases List.mem_cons.1 hl with rfl | hl
    · exact ⟨node?, hline⟩
    · exact ih hrest l hl

/-- Nodes in a row have increasing numbers if their lines have. -/
theorem increasing_filterMap_node? {lines : List LogicalLine}
    (h : lines.Pairwise fun l l' => l.number < l'.number) :
    (lines.filterMap LogicalLine.node?).Pairwise fun a b => a.number < b.number := by
  refine List.Pairwise.filterMap _ (fun l l' hll' a ha b hb => ?_) h
  rw [LogicalLine.number_of_mem_node? ha, LogicalLine.number_of_mem_node? hb]
  exact hll'

/-! ## Listings -/

/-- The listing has exactly one node for each logical line of the outline that
    is not to be discarded, in order and with the number of the line, and these
    numbers increase within the `count` lines after line `base`. -/
structure Listing.Follows (base count : Nat) (o : Outline) (l : Listing) : Prop where
  stubs : l.stubs = o.stubs
  nodes : List.Forall₂
    (fun line node => (Statement.ofLogicalLine line).result = .ok (some node) ∧
      node.number = line.number)
    (o.lines.filter fun line => ¬ line.IsDiscarded) l.nodes
  discarded : ∀ line ∈ o.lines, line.IsDiscarded →
    (Statement.ofLogicalLine line).result = .ok none
  increasing : l.nodes.Pairwise fun a b => a.number < b.number
  bounds : ∀ node ∈ l.nodes, base < node.number ∧ node.number ≤ base + count

/-- The listing of lines whose outline is made of lines that can be read. -/
theorem Listing.ofLines_of_readable {deferred : Bool} {base : Nat} {lines : List Text}
    {o : Outline} (ho : (Outline.ofLines deferred base lines).result = .ok o)
    (h : ∀ line ∈ o.lines, line.IsReadable) :
    (ofLines deferred base lines).result =
        .ok ⟨o.lines.filterMap LogicalLine.node?, o.stubs⟩ ∧
      (ofLines deferred base lines).noted =
        (Outline.ofLines deferred base lines).noted ++ o.lines.flatMap LogicalLine.noted := by
  obtain ⟨hresult, hnoted⟩ := nodesOf_eq_ok h
  rw [ofLines, result_bind_ok ho, noted_bind_ok ho, result_bind_ok hresult, noted_bind_ok hresult,
    hnoted, noted_pure, List.append_nil]
  exact ⟨rfl, rfl⟩

/-- If there is a listing, then there is an outline, and all its lines can be
    read. -/
theorem Listing.readable_of_ofLines {deferred : Bool} {base : Nat} {lines : List Text}
    {l : Listing} (h : (ofLines deferred base lines).result = .ok l) :
    ∃ o, (Outline.ofLines deferred base lines).result = .ok o ∧
      ∀ line ∈ o.lines, line.IsReadable := by
  obtain ⟨o, ho, h⟩ := exists_of_bind_ok h
  obtain ⟨nodes, hnodes, -⟩ := exists_of_bind_ok h
  exact ⟨o, ho, readable_of_nodesOf hnodes⟩

theorem forall₂_node? {lines : List LogicalLine} (h : ∀ line ∈ lines, line.IsReadable) :
    List.Forall₂
      (fun line node => (Statement.ofLogicalLine line).result = .ok (some node) ∧
        node.number = line.number)
      (lines.filter fun line => ¬ line.IsDiscarded) (lines.filterMap LogicalLine.node?) := by
  induction lines with
  | nil => exact .nil
  | cons line rest ih =>
    have hline := h line List.mem_cons_self
    have hrest := ih fun l hl => h l (List.mem_cons_of_mem _ hl)
    rw [List.filter_cons, List.filterMap_cons]
    cases hnode : line.node? with
    | none =>
      have hdiscarded := hline.node?_eq_none_iff.1 hnode
      rwa [if_neg (by simpa using hdiscarded)]
    | some node =>
      have hkept : ¬ line.IsDiscarded := fun hd => by
        rw [hline.node?_eq_none_iff.2 hd] at hnode
        cases hnode
      rw [if_pos (by simpa using hkept)]
      exact .cons ⟨hnode ▸ hline.result, LogicalLine.number_of_mem_node? hnode⟩ hrest

/-- Lines that can be read are followed by the listing of their nodes. -/
theorem Listing.follows {base count : Nat} {o : Outline} (ho : o.Numbered base count)
    (h : ∀ line ∈ o.lines, line.IsReadable) :
    Follows base count o ⟨o.lines.filterMap LogicalLine.node?, o.stubs⟩ where
  stubs := rfl
  nodes := forall₂_node? h
  discarded line hl hd := by
    rw [(h line hl).result, (h line hl).node?_eq_none_iff.2 hd]
  increasing := increasing_filterMap_node? ho.increasing
  bounds node hn := by
    obtain ⟨line, hl, hnode⟩ := List.mem_filterMap.1 hn
    rw [LogicalLine.number_of_mem_node? hnode]
    exact ho.bounds line hl

end LlvmAsm
