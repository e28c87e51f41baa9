/-
  Expansion: the functions that were set aside are read after all.

  * `Listing.ofLines_of_deferred`: if no stub fails, the listing without
    deferral is the listing with deferral merged with the nodes of the stubs;
  * the types met are the same but for those of the headers of the stubs: to
    set a function aside, its first line is read as a header, whatever category
    it belongs to (`Stub.HasHeader`);
  * `Module.eager_of_deferred` is the same for whole modules.
-/
import LlvmAsm.Proofs.Metadata
import LlvmAsm.Proofs.Registry

namespace LlvmAsm

open Reading

/-! ## Nodes in the order of the source -/

/-- The order of the source. -/
def Node.precedes (a b : Node) : Bool := a.number ≤ b.number

/-- Nodes with increasing numbers are the merge of their parts. -/
theorem eq_merge_of_perm {nodes as bs : List Node} (hperm : nodes.Perm (as ++ bs))
    (hnodes : nodes.Pairwise fun a b => a.number < b.number)
    (has : as.Pairwise fun a b => a.number < b.number)
    (hbs : bs.Pairwise fun a b => a.number < b.number) :
    nodes = as.merge bs Node.precedes := by
  have hle : ∀ {l : List Node}, l.Pairwise (fun a b => a.number < b.number) →
      l.Pairwise fun a b => Node.precedes a b = true := fun h =>
    h.imp fun h' => by simpa [Node.precedes] using Nat.le_of_lt h'
  have hmerge : (as.merge bs Node.precedes).Pairwise fun a b => Node.precedes a b = true := by
    refine List.pairwise_merge (fun a b c hab hbc => ?_) (fun a b => ?_) as bs (hle has) (hle hbs)
    · simp only [Node.precedes, decide_eq_true_eq] at hab hbc ⊢
      exact Nat.le_trans hab hbc
    · simpa [Node.precedes] using Nat.le_total a.number b.number
  have hmergeperm : nodes.Perm (as.merge bs Node.precedes) :=
    hperm.trans (List.merge_perm_append Node.precedes).symm
  have hnodup : (nodes.map Node.number).Nodup :=
    (List.pairwise_map.2 hnodes).imp Nat.ne_of_lt
  refine List.Perm.eq_of_pairwise (fun a b ha hb hab hba => ?_) (hle hnodes) hmerge hmergeperm
  simp only [Node.precedes, decide_eq_true_eq] at hab hba
  exact List.inj_on_of_nodup_map hnodup ha (hmergeperm.mem_iff.2 hb) (Nat.le_antisymm hab hba)

/-! ## Headers -/

/-- The first line of the function is a statement by itself, and a header. -/
def Stub.HasHeader (s : Stub) : Prop :=
  ∃ first rest line, s.lines = first :: rest ∧ StartsAnew rest ∧
    Line.ofText first s.number = .ok line ∧ Category.ofLine line = .ok .functionHeader

/-- A first line that is not joined with others is the first logical line. -/
theorem Progress.mem_lines_statements {n : Nat} {first : Text} {rest : List Text}
    (hfirst : opensFunction first = true) (hrest : StartsAnew rest) :
    ⟨first, n⟩ ∈ (start.statements n (first :: rest)).lines := by
  have hblank := not_allBlank_of_opensFunction hfirst
  have htable : opensTable first = false :=
    opensTable_eq_false (by simp [head?_of_opensFunction hfirst])
  have hstep : start.statementStep n first = start.after [⟨first, n⟩] := by
    rw [statementStep, if_neg (by simp [hblank])]
    simp [start, after, htable]
  rw [statements, hstep, statements_after _ grounded_start (Or.inr hrest)]
  exact List.mem_append_right _ (List.mem_singleton_self _)

/-- A line that is a function header is read as one. -/
theorem LogicalLine.noted_of_functionHeader {l : LogicalLine} {line : Line}
    (hline : Line.ofText l.text l.number = .ok line)
    (hcategory : Category.ofLine line = .ok .functionHeader) :
    l.noted = (Definition.header line).noted := by
  have hofLine : (Statement.ofLine line).noted = (Definition.header line).noted := by
    rw [Statement.ofLine, hcategory]
    change (some <$> Definition.functionHeader line).noted = _
    rw [noted_map, Definition.functionHeader, noted_bind]
    cases (Definition.header line).result <;> simp
  rw [noted, Statement.ofLogicalLine, hline]
  exact hofLine

/-- The types of a header that is a statement are met when the function is read. -/
theorem Stub.HasHeader.headerTypes_subset {s : Stub} (h : s.HasHeader) (hplaced : s.IsPlaced) :
    s.headerTypes ⊆ s.outline.flatMap LogicalLine.noted := by
  obtain ⟨first, rest, line, hlines, hrest, hline, hcategory⟩ := h
  obtain ⟨hnumber, first', rest', hlines', hfirst⟩ := hplaced
  obtain ⟨rfl, rfl⟩ : first = first' ∧ rest = rest' := by simpa [hlines] using hlines'
  have hmem : ⟨first, s.number⟩ ∈ s.outline := by
    rw [outline, progress, hlines, Nat.sub_add_cancel hnumber]
    exact List.mem_reverse.2 (Progress.mem_lines_statements hfirst hrest)
  have hnoted := LogicalLine.noted_of_functionHeader (l := ⟨first, s.number⟩) hline hcategory
  have htypes : s.headerTypes = (Definition.header line).noted := by
    rw [headerTypes, ofLines, hlines, List.head?_cons, Option.getD_some, hline,
      noted_bind_ok (a := line) rfl, noted_bind]
    cases (Definition.header line).result <;> simp [liftM_eq]
  intro ty hty
  exact List.mem_flatMap.2 ⟨_, hmem, hnoted ▸ htypes ▸ hty⟩

/-! ## Listings -/

/-- The nodes of stubs none of which fails. -/
theorem Stub.allNodes_eq_ok {stubs : List Stub} {bodies : List (List Node)}
    (h : List.Forall₂ (fun s nodes => s.nodes.result = .ok nodes) stubs bodies) :
    (allNodes stubs).result = .ok bodies.flatten ∧
      (allNodes stubs).noted = stubs.flatMap fun s => s.nodes.noted := by
  induction h with
  | nil => exact ⟨rfl, rfl⟩
  | cons hs _ ih =>
    obtain ⟨hresult, hnoted⟩ := ih
    rw [allNodes, result_bind_ok hs, noted_bind_ok hs, result_bind_ok hresult,
      noted_bind_ok hresult, hnoted, noted_pure, List.append_nil]
    exact ⟨rfl, rfl⟩

/-- What is read from several stubs is read from their logical lines. -/
theorem Stub.Reads.all {stubs : List Stub} {bodies : List (List Node)}
    (h : List.Forall₂ Reads stubs bodies) :
    (∀ s ∈ stubs, s.progress.inTable = false) ∧
      (∀ line ∈ stubs.flatMap outline, line.IsReadable) ∧
      bodies.flatten = (stubs.flatMap outline).filterMap LogicalLine.node? ∧
      (stubs.flatMap fun s => s.nodes.noted) =
        (stubs.flatMap outline).flatMap LogicalLine.noted := by
  induction h with
  | nil => simp
  | cons hs _ ih =>
    obtain ⟨htable, hreadable, hnodes, hnoted⟩ := ih
    refine ⟨List.forall_mem_cons.2 ⟨hs.table, htable⟩, ?_, ?_, ?_⟩
    · rw [List.flatMap_cons]
      exact List.forall_mem_append.2 ⟨hs.readable, hreadable⟩
    · rw [List.flatten_cons, List.flatMap_cons, List.filterMap_append, hnodes, hs.nodes]
    · rw [List.flatMap_cons, List.flatMap_cons, List.flatMap_append, hnoted, hs.noted]

/-- **A listing with functions set aside**, if all of them can be read: the
    listing without deferral is that listing merged with the nodes of the stubs,
    and the types that are met are the same but for those of the stubs. -/
theorem Listing.ofLines_of_deferred {base : Nat} {lines : List Text} {l : Listing}
    {bodies : List (List Node)} (hplain : PlainOutside false lines)
    (hl : (ofLines true base lines).result = .ok l)
    (hbodies : List.Forall₂ (fun s nodes => s.nodes.result = .ok nodes) l.stubs bodies) :
    (ofLines false base lines).result =
        .ok ⟨l.nodes.merge bodies.flatten Node.precedes, []⟩ ∧
      (∀ ty, ty ∈ (ofLines true base lines).noted ∨ ty ∈ (Stub.allNodes l.stubs).noted ↔
        ty ∈ (ofLines false base lines).noted ∨ ty ∈ l.stubs.flatMap Stub.headerTypes) ∧
      ((∀ s ∈ l.stubs, s.HasHeader) →
        l.stubs.flatMap Stub.headerTypes ⊆ (ofLines false base lines).noted) := by
  obtain ⟨o, ho, hreadable⟩ := readable_of_ofLines hl
  obtain ⟨hresult, hnoted⟩ := ofLines_of_readable ho hreadable
  rw [hl, Except.ok.injEq] at hresult
  subst hresult
  obtain ⟨htable, hbodiesReadable, hnodes, hbodiesNoted⟩ :=
    Stub.Reads.all (hbodies.imp fun _ _ h => Stub.reads_of_nodes h)
  obtain ⟨hheaders, hplaced, o', ho', hstubs, hperm, hsublist⟩ :=
    Outline.ofLines_of_deferred hplain ho htable
  have hreadable' : ∀ line ∈ o'.lines, line.IsReadable := fun line hline => by
    rcases List.mem_append.1 (hperm.mem_iff.1 hline) with h | h
    · exact hreadable line h
    · exact hbodiesReadable line h
  obtain ⟨hresult', hnoted'⟩ := ofLines_of_readable ho' hreadable'
  have hincreasing := ((Outline.ensures_numbered_ofLines true base lines).ok ho).increasing
  have hincreasing' := ((Outline.ensures_numbered_ofLines false base lines).ok ho').increasing
  rw [Outline.ofLines_eager, noted_ofExcept, List.nil_append] at hnoted'
  refine ⟨?_, fun ty => ?_, fun hheader => ?_⟩
  · have hmerge := eq_merge_of_perm (List.filterMap_append ▸ hperm.filterMap LogicalLine.node?)
      (increasing_filterMap_node? hincreasing') (increasing_filterMap_node? hincreasing)
      (increasing_filterMap_node? (hincreasing'.sublist hsublist))
    rw [hresult', hstubs, hmerge, hnodes]
  · have hmem : ty ∈ o'.lines.flatMap LogicalLine.noted ↔
        ty ∈ o.lines.flatMap LogicalLine.noted ∨
          ty ∈ (o.stubs.flatMap Stub.outline).flatMap LogicalLine.noted := by
      rw [(hperm.flatMap_right _).mem_iff, List.flatMap_append, List.mem_append]
    rw [hnoted, hheaders, hnoted', (Stub.allNodes_eq_ok hbodies).2, hbodiesNoted, hmem,
      List.mem_append]
    tauto
  · intro ty hty
    obtain ⟨s, hs, hty⟩ := List.mem_flatMap.1 hty
    obtain ⟨line, hline, hty⟩ :=
      List.mem_flatMap.1 ((hheader s hs).headerTypes_subset (hplaced s hs) hty)
    have hmem : line ∈ o'.lines := hsublist.subset (List.mem_flatMap.2 ⟨s, hs, hline⟩)
    rw [hnoted']
    exact List.mem_flatMap.2 ⟨line, hmem, hty⟩

/-! ## Modules -/

namespace Module

/-- A module, and the listing of the lines without metadata. -/
theorem ofLines_eq_ok {s : Settings} {known : Registry} {lines : List Text} {m : Module}
    (h : (ofLines s known lines).1 = .ok m) :
    (Listing.ofLines (!s.readBodies) 0 (Metadata.extract 0 lines).1).result =
        .ok ⟨m.nodes, m.stubs⟩ ∧
      m.dialect = s.dialectOf lines ∧ m.metadata = (Metadata.extract 0 lines).2 ∧
      m.types =
        known.learn (Listing.ofLines (!s.readBodies) 0 (Metadata.extract 0 lines).1).noted := by
  unfold ofLines at h
  dsimp only [Reading.run] at h
  cases hl : (Listing.ofLines (!s.readBodies) 0 (Metadata.extract 0 lines).1).result with
  | error e =>
    rw [hl] at h
    cases h
  | ok l =>
    rw [hl] at h
    cases h
    exact ⟨rfl, rfl, rfl, rfl⟩

/-- The module of lines that have a listing. -/
theorem ofLines_of_listing {s : Settings} {lines : List Text} {l : Listing}
    (h : (Listing.ofLines (!s.readBodies) 0 (Metadata.extract 0 lines).1).result = .ok l)
    (known : Registry) :
    (ofLines s known lines).1 = .ok ⟨s.dialectOf lines, l.nodes, l.stubs,
      known.learn (Listing.ofLines (!s.readBodies) 0 (Metadata.extract 0 lines).1).noted,
      (Metadata.extract 0 lines).2⟩ := by
  unfold ofLines
  dsimp only [Reading.run]
  rw [h]
  rfl

/-- **Deferral does not change what a source says.** Let the lines outside of
    functions be plain. If the source can be read with its functions set aside,
    and all of them can be read, then the source can be read at once: its nodes
    are those of both merged in the order of the source, no stub is left, and the
    dialect and the metadata are the same. An expanded module knows the types of
    the headers in addition; it knows the same types if every function begins
    with a line that is a header by itself. -/
theorem eager_of_deferred {s : Settings} {known : Registry} {lines : List Text} {m : Module}
    {bodies : List (List Node)} (hplain : PlainOutside false lines)
    (hm : (ofLines { s with readBodies := false } known lines).1 = .ok m)
    (hbodies : List.Forall₂ (fun stub nodes => stub.nodes.result = .ok nodes) m.stubs bodies) :
    ∃ x e, m.expand = .ok x ∧ x.nodes = m.nodes ++ bodies.flatten ∧
      (ofLines { s with readBodies := true } known lines).1 = .ok e ∧
      e.nodes = m.nodes.merge bodies.flatten Node.precedes ∧ e.stubs = [] ∧
      e.dialect = m.dialect ∧ e.metadata = m.metadata ∧
      (∀ ty, ty ∈ x.types.names ↔
        ty ∈ (e.types.learn (m.stubs.flatMap Stub.headerTypes)).names) ∧
      ((∀ stub ∈ m.stubs, stub.HasHeader) → ∀ ty, ty ∈ x.types.names ↔ ty ∈ e.types.names) := by
  obtain ⟨hl, hdialect, hmetadata, htypes⟩ := ofLines_eq_ok hm
  obtain ⟨hresult, hmet, hheaders⟩ :=
    Listing.ofLines_of_deferred (Metadata.plainOutside_extract hplain 0) hl hbodies
  have heager := ofLines_of_listing (s := { s with readBodies := true }) hresult known
  have hexpand : m.expand = .ok { m with
      nodes := m.nodes ++ bodies.flatten
      types := m.types.learn (Registry.empty.learn (Stub.allNodes m.stubs).noted).names } := by
    rw [expand, Reading.run, (Stub.allNodes_eq_ok hbodies).1]
    rfl
  have htypesIff : ∀ ty,
      ty ∈ (m.types.learn (Registry.empty.learn (Stub.allNodes m.stubs).noted).names).names ↔
        ty ∈ ((known.learn (Listing.ofLines false 0 (Metadata.extract 0 lines).1).noted).learn
          (m.stubs.flatMap Stub.headerTypes)).names := by
    intro ty
    rw [Registry.mem_names_learn_names, htypes, ← Registry.learn_append, ← Registry.learn_append]
    refine Registry.mem_names_learn_congr (fun ty' => ?_) ty
    rw [List.mem_append, List.mem_append]
    exact hmet ty'
  refine ⟨_, _, hexpand, rfl, heager, rfl, rfl, hdialect.symm, hmetadata.symm, htypesIff,
    fun hheader ty => ?_⟩
  have hknown := Registry.learn_eq_self
    (r := known.learn (Listing.ofLines false 0 (Metadata.extract 0 lines).1).noted)
    fun ty' hty henters => Registry.mem_names_learn.2 (Or.inr ⟨hheaders hheader hty, henters⟩)
  rw [htypesIff, hknown]
  rfl

/-- A function before a declaration, which are read at once or one after the
    other. -/
theorem eager_of_deferred_declaration :
    let lines : List Text := ["define void @f() \x7b", "\x7d", "declare void @g()"]
    let m : Module := ⟨.new, [⟨3, some "@g".toList, false, .declaration ⟨"void", [], false⟩⟩],
      [⟨"@f", [], false, 1, lines.take 2⟩], ⟨["void"]⟩, .empty⟩
    let bodies : List (List Node) :=
      [[⟨1, some "@f".toList, false, .function ⟨"void", [], false⟩⟩,
        ⟨2, none, false, .functionEnd⟩]]
    PlainOutside false lines ∧ (ofLines .standard .empty lines).1 = .ok m ∧
      List.Forall₂ (fun stub nodes => stub.nodes.result = .ok nodes) m.stubs bodies ∧
      (∀ stub ∈ m.stubs, stub.HasHeader) ∧
      ∃ x e, m.expand = .ok x ∧ (ofLines .eager .empty lines).1 = .ok e ∧
        e.nodes = bodies.flatten ++ m.nodes ∧ ∀ ty, ty ∈ x.types.names ↔ ty ∈ e.types.names := by
  intro lines m bodies
  have hplain : PlainOutside false lines := by decide
  have hm : (ofLines .standard .empty lines).1 = .ok m := by decide +kernel
  have hbodies : List.Forall₂ (fun stub nodes => stub.nodes.result = .ok nodes) m.stubs bodies :=
    .cons (by decide +kernel) .nil
  have hheader : ∀ stub ∈ m.stubs, stub.HasHeader := by
    intro stub hstub
    obtain rfl := List.mem_singleton.1 hstub
    exact ⟨_, _, ⟨"define void @f() \x7b", 1, .topLevel,
      [.word "define", .word "void", .word "@f", .group "()" .paren [], .word ['{']]⟩, rfl,
      fun text htext => by obtain rfl := Option.some.inj htext; decide,
      by decide +kernel, by decide +kernel⟩
  obtain ⟨x, e, hx, -, he, hnodes, -, -, -, -, htypes⟩ :=
    eager_of_deferred (s := .standard) hplain hm hbodies
  refine ⟨hplain, hm, hbodies, hheader, x, e, hx, he, hnodes.trans ?_, htypes hheader⟩
  simp [m, bodies, Node.precedes]

/-- The types of a header are lost without deferral if the line counts as a
    label, and if other lines are joined to it. -/
theorem types_lost_without_deferral :
    let labelled : List Text := ["define <label> @f(i32 %x) \x7b", "\x7d"]
    let joined : List Text :=
      ["define \x7b void @f (i32 %x) \x7b", "  to \x7d \x7d @g (i16 %y) \x7b", "\x7d"]
    (PlainOutside false labelled ∧
      ((ofLines .standard .empty labelled).1.bind expand).map (·.types.names) =
        .ok ["i32".toList, "<label>".toList] ∧
      (ofLines .eager .empty labelled).1.map (·.types.names) = .ok []) ∧
    (PlainOutside false joined ∧
      ((ofLines .standard .empty joined).1.bind expand).map (·.types.names) =
        .ok ["i32".toList, "void".toList, "i16".toList,
          "\x7b void @f (i32 %x) \x7b to \x7d \x7d".toList] ∧
      (ofLines .eager .empty joined).1.map (·.types.names) =
        .ok ["i16".toList, "\x7b void @f (i32 %x) \x7b to \x7d \x7d".toList]) := by
  refine ⟨⟨?_, ?_, ?_⟩, ?_, ?_, ?_⟩ <;> decide +kernel

end Module

end LlvmAsm
