/-
  Locations: where a node finds the annotation of its statement.

  A statement may stand on several lines of a source, and each of them may be annotated.
  The annotation is recorded under the number of its line, and a node has the number of
  the first one. So a node is located by the annotation on the first line of its
  statement, and by no other one (`Module.located`).
-/
import LlvmAsm.Proofs.Expansion
import LlvmAsm.Proofs.Extraction
import LlvmAsm.Proofs.Partition

namespace LlvmAsm

/-! ## Recorded locations -/

namespace Metadata

/-- The source location of a metadata id. -/
def locationOf? (m : Metadata) (id : Text) : Option SourceLocation :=
  (m.sourceLines.get? id).map fun line => ⟨m.fileOf? (m.parents.size + 1) id, line⟩

/-- A line is located through the id that is recorded for it. -/
theorem location?_eq_bind (m : Metadata) (n : Nat) :
    m.location? n = (m.annotations.get? n).bind m.locationOf? := by
  unfold location? locationOf?
  cases m.annotations.get? n with
  | none => rfl
  | some id => cases h : m.sourceLines.get? id <;> simp [h]

end Metadata

/-! ## Lines of a source and what is left of them -/

namespace LogicalLine

/-- What is left of a line without metadata. -/
def left (l : LogicalLine) : LogicalLine := ⟨Metadata.left l.text, l.number⟩

end LogicalLine

theorem numbered_map_left (n : Nat) (lines : List Text) :
    numbered n (lines.map Metadata.left) = (numbered n lines).map LogicalLine.left := by
  induction lines generalizing n with
  | nil => rfl
  | cons line rest ih =>
    rw [List.map_cons, numbered, numbered, List.map_cons, ih]
    rfl

theorem getElem?_of_mem_numbered {n : Nat} {lines : List Text} {l : LogicalLine}
    (h : l ∈ numbered n lines) : lines[l.number - n]? = some l.text := by
  induction lines generalizing n with
  | nil => cases h
  | cons text rest ih =>
    rcases List.mem_cons.1 h with rfl | h
    · rw [Nat.sub_self]
      rfl
    · have hindex : l.number - n = l.number - (n + 1) + 1 := by
        have := (bounds_of_mem_numbered h).1
        omega
      rw [hindex, List.getElem?_cons_succ, ih h]

/-- The pieces of a mapped list are mapped pieces. -/
theorem exists_flatten_of_flatten_eq_map {α β : Type} {f : α → β} {pieces : List (List β)}
    {as : List α} (h : pieces.flatten = as.map f) :
    ∃ parts : List (List α), parts.flatten = as ∧ parts.map (List.map f) = pieces := by
  induction pieces generalizing as with
  | nil =>
    rw [List.flatten_nil, eq_comm, List.map_eq_nil_iff] at h
    exact ⟨[], h.symm, rfl⟩
  | cons piece pieces ih =>
    rw [List.flatten_cons, eq_comm, List.map_eq_append_iff] at h
    obtain ⟨part, rest, rfl, rfl, hrest⟩ := h
    obtain ⟨parts, rfl, rfl⟩ := ih hrest.symm
    exact ⟨part :: parts, List.flatten_cons, rfl⟩

theorem exists_left_of_forall₂ {α β : Type} {r : α → β → Prop} {as : List α} {bs : List β}
    (h : List.Forall₂ r as bs) {b : β} (hb : b ∈ bs) : ∃ a ∈ as, r a b := by
  induction h with
  | nil => cases hb
  | @cons a b' as bs hab _ ih =>
    rcases List.mem_cons.1 hb with rfl | hb
    · exact ⟨a, List.mem_cons_self, hab⟩
    · obtain ⟨a', ha', h⟩ := ih hb
      exact ⟨a', List.mem_cons_of_mem _ ha', h⟩

/-! ## Nodes and their lines -/

namespace Metadata

variable {lines : List Text} {l : LogicalLine}

/-- A line of which something is left is recorded under its number if it is annotated. -/
theorem get?_annotations_of_left (hdefines : DefinesSome lines) (hl : l ∈ numbered 1 lines)
    (hleft : Text.allBlank (left l.text) = false) :
    (extract 0 lines).2.annotations.get? l.number = annotation? l.text := by
  have hdeclares : isDeclaration l.text = false := by
    by_contra h
    rw [left, if_pos (by simpa using h)] at hleft
    cases hleft
  rw [get?_annotations_extract hdefines, if_pos (bounds_of_mem_numbered hl).1,
    getElem?_of_mem_numbered hl, Option.bind_some, recorded?, hdeclares]
  rfl

end Metadata

/-- A node stands for a logical line, and has its number. -/
theorem Listing.exists_line_of_node {deferred : Bool} {base : Nat} {lines : List Text}
    {o : Outline} (ho : (Outline.ofLines deferred base lines).result = .ok o) {l : Listing}
    (h : (ofLines deferred base lines).result = .ok l) {node : Node} (hnode : node ∈ l.nodes) :
    ∃ line ∈ o.lines, (Statement.ofLogicalLine line).result = .ok (some node) ∧
      node.number = line.number := by
  obtain ⟨o', ho', hreadable⟩ := readable_of_ofLines h
  obtain rfl := Except.ok.inj (ho.symm.trans ho')
  obtain rfl := Except.ok.inj (h.symm.trans (ofLines_of_readable ho hreadable).1)
  obtain ⟨line, hline, hnode⟩ := List.mem_filterMap.1 hnode
  refine ⟨line, hline, ?_, LogicalLine.number_of_mem_node? hnode⟩
  rw [(hreadable line hline).result, hnode]

/-- The logical lines of what is left of a source, read at once, are joined from lines of
    the source. -/
theorem Outline.exists_statements {lines : List Text} {o : Outline}
    (h : (ofLines false 0 (lines.map Metadata.left)).result = .ok o) :
    ∃ statements : List (List LogicalLine),
      statements.flatten =
        (numbered 1 lines).filter (fun l => !Text.allBlank (Metadata.left l.text)) ∧
      ∀ line ∈ o.lines, ∃ first more, first :: more ∈ statements ∧
        line = LogicalLine.joined first.left (more.map LogicalLine.left) := by
  obtain ⟨⟨pieces, hpieces, -⟩, hstubs⟩ := partition_ofLines h
  have hflatten : pieces.flatten =
      ((numbered 1 lines).filter fun l => !Text.allBlank (Metadata.left l.text)).map
        LogicalLine.left := by
    rw [hpieces.rest, hstubs rfl, numbered_map_left, List.filter_map]
    refine congrArg _ (List.filter_congr fun l _ => ?_)
    simp [inStatement, LogicalLine.left]
  obtain ⟨statements, hstatements, rfl⟩ := exists_flatten_of_flatten_eq_map hflatten
  refine ⟨statements, hstatements, fun line hline => ?_⟩
  obtain ⟨_, hmem, _, _, hpiece, rfl⟩ := exists_left_of_forall₂ hpieces.joined hline
  obtain ⟨statement, hstatement, rfl⟩ := List.mem_map.1 hmem
  obtain ⟨first, more, rfl, rfl, rfl⟩ := List.map_eq_cons_iff.1 hpiece
  exact ⟨first, more, hstatement, rfl⟩

namespace Module

/-- **A node is located by the first line of its statement.** Let a source define
    metadata and be read at once. Its lines, those left out of which nothing is left, fall
    into the statements. Every line is recorded under its number with the id that
    annotates it. A node has the number of the first line of its statement, so it is found
    under the id that annotates this line, and under none if this line is not annotated. -/
theorem located {s : Settings} {known : Registry} {lines : List Text} {m : Module}
    (heager : s.readBodies = true) (hdefines : Metadata.DefinesSome lines)
    (h : (ofLines s known lines).1 = .ok m) :
    ∃ statements : List (List LogicalLine),
      statements.flatten =
        (numbered 1 lines).filter (fun l => !Text.allBlank (Metadata.left l.text)) ∧
      (∀ l ∈ statements.flatten,
        m.metadata.annotations.get? l.number = Metadata.annotation? l.text) ∧
      ∀ node ∈ m.nodes, ∃ first more, first :: more ∈ statements ∧
        (Statement.ofLogicalLine
          (LogicalLine.joined first.left (more.map LogicalLine.left))).result = .ok (some node) ∧
        node.number = first.number ∧
        m.metadata.annotations.get? node.number = Metadata.annotation? first.text ∧
        m.metadata.location? node.number =
          (Metadata.annotation? first.text).bind m.metadata.locationOf? := by
  obtain ⟨hlisting, -, hmetadata, -⟩ := ofLines_eq_ok h
  rw [heager, Metadata.extract_of_definesSome hdefines, Metadata.fst_extractLines] at hlisting
  obtain ⟨o, ho, -⟩ := Listing.readable_of_ofLines hlisting
  obtain ⟨statements, hstatements, hjoined⟩ := Outline.exists_statements ho
  have hannotations : ∀ l ∈ statements.flatten,
      m.metadata.annotations.get? l.number = Metadata.annotation? l.text := by
    intro l hl
    rw [hstatements, List.mem_filter, Bool.not_eq_true'] at hl
    rw [hmetadata]
    exact Metadata.get?_annotations_of_left hdefines hl.1 hl.2
  refine ⟨statements, hstatements, hannotations, fun node hnode => ?_⟩
  obtain ⟨line, hline, hresult, hnumber⟩ := Listing.exists_line_of_node ho hlisting hnode
  obtain ⟨first, more, hmem, rfl⟩ := hjoined line hline
  have hfirst := hannotations first (List.mem_flatten.2 ⟨_, hmem, List.mem_cons_self⟩)
  -- the number of a statement is that of its first line
  have hnumber : node.number = first.number := hnumber
  refine ⟨first, more, hmem, hresult, hnumber, ?_, ?_⟩
  · rw [hnumber, hfirst]
  · rw [Metadata.location?_eq_bind, hnumber, hfirst]

/-- An `invoke` on two lines, the first of which is annotated. -/
theorem located_of_invoke :
    let lines : List Text := ["  invoke void @f(), !dbg !5",
      "          to label %a unwind label %b", "!5 = metadata !\x7bi32 4, i32 3, metadata !7, null\x7d"]
    let node : Node :=
      ⟨1, some "@f".toList, false, .invoke ⟨"@f", "void", [], [], true⟩ "%a" "%b"⟩
    let m : Module := ⟨.new, [node], [], ⟨["void"]⟩,
      ⟨⟨[(1, "5")]⟩, ⟨[("5", 4)]⟩, ⟨[("5", "7")]⟩, .empty⟩⟩
    Settings.eager.readBodies = true ∧ Metadata.DefinesSome lines ∧
      (ofLines .eager .empty lines).1 = .ok m ∧ m.metadata.location? 1 = some ⟨none, 4⟩ ∧
      ∃ (first : LogicalLine) (more : List LogicalLine),
        (Statement.ofLogicalLine
          (LogicalLine.joined first.left (more.map LogicalLine.left))).result = .ok (some node) ∧
        first.number = 1 ∧ Metadata.annotation? first.text = some "5".toList := by
  intro lines node m
  have hdefines : Metadata.DefinesSome lines := Metadata.any_definition_iff.1 (by decide)
  have hm : (ofLines .eager .empty lines).1 = .ok m := by decide +kernel
  obtain ⟨statements, -, -, hnodes⟩ := located (s := .eager) rfl hdefines hm
  obtain ⟨first, more, -, hresult, hnumber, hannotation, -⟩ :=
    hnodes node List.mem_cons_self
  exact ⟨rfl, hdefines, hm, by decide, first, more, hresult, hnumber.symm, hannotation.symm⟩

/-- The annotation on the second line of an `invoke` is recorded under the number of this
    line, and the node is not located. -/
theorem not_located_of_annotated_destinations :
    let first : LogicalLine := ⟨"  invoke void @f()", 1⟩
    let second : LogicalLine := ⟨"          to label %a unwind label %b, !dbg !5", 2⟩
    let lines : List Text :=
      [first.text, second.text, "!5 = metadata !\x7bi32 4, i32 3, metadata !7, null\x7d"]
    let node : Node :=
      ⟨1, some "@f".toList, false, .invoke ⟨"@f", "void", [], [], true⟩ "%a" "%b"⟩
    let m : Module := ⟨.new, [node], [], ⟨["void"]⟩,
      ⟨⟨[(2, "5")]⟩, ⟨[("5", 4)]⟩, ⟨[("5", "7")]⟩, .empty⟩⟩
    Metadata.DefinesSome lines ∧ (ofLines .eager .empty lines).1 = .ok m ∧
      (Statement.ofLogicalLine (LogicalLine.joined first.left [second.left])).result =
        .ok (some node) ∧
      Metadata.annotation? second.text = some "5".toList ∧
      m.metadata.annotations.get? node.number = none ∧
      m.metadata.location? node.number = none ∧
      m.metadata.location? second.number = some ⟨none, 4⟩ := by
  refine ⟨Metadata.any_definition_iff.1 ?_, ?_, ?_, ?_, ?_, ?_, ?_⟩ <;> decide +kernel

end Module

end LlvmAsm
