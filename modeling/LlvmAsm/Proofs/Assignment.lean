/-
  Assignments are tracked by the nodes.

  An assignment in place of a right-hand side is a failure of its own, which is told by
  the category of a line before the line is read: no run ends with it (`Unnested`).

  Whether a kind of node stands for an assigned value is told by its category, and the
  category by the indentation: only a right-hand side is a continuation
  (`Statement.makes_ofCategory`), and no line of a source is one. So a node tells
  whether its value is given a name, which name that is, and on which line
  (`Node.Tracks`).

  * `AssignsName` is the name before the first equals sign of a line;
  * `assignments_tracked`: all nodes of all runs track their assignments, and no run comes
    upon an assignment in place of a right-hand side.
-/
import LlvmAsm.Proofs.Comment
import LlvmAsm.Proofs.Location

namespace LlvmAsm

open Reading

/-! ## Readings without a nested assignment -/

namespace Reading

variable {α β : Type}

/-- The reading does not come upon an assignment in place of a right-hand side, and its
    value satisfies `P`. -/
def Makes (P : α → Prop) (r : Reading α) : Prop :=
  r.Ensures (·.cause ≠ .nestedAssignment) fun a _ => P a

/-- The reading does not come upon an assignment in place of a right-hand side. -/
def Unnested (r : Reading α) : Prop := r.Makes fun _ => True

section
variable {P : α → Prop} {Q : β → Prop} {r : Reading α} {f : α → Reading β} {line : Line}

theorem Makes.bind (h : r.Makes P) (hf : ∀ a, P a → (f a).Makes Q) : (r >>= f).Makes Q :=
  Ensures.bind h fun a _ ha => hf a ha

theorem Unnested.bind (h : r.Unnested) (hf : ∀ a, (f a).Unnested) : (r >>= f).Unnested :=
  Makes.bind h fun a _ => hf a

theorem makes_map (g : α → β) : (g <$> r).Makes Q ↔ r.Makes fun a => Q (g a) :=
  ensures_map g r

theorem Unnested.map (h : r.Unnested) (g : α → β) : (g <$> r).Unnested := (makes_map g).2 h

theorem Makes.mono {P' : α → Prop} (h : r.Makes P) (hP : ∀ a, P a → P' a) : r.Makes P' :=
  Ensures.mono h fun a _ => hP a

theorem unnested_pure (a : α) : (pure a : Reading α).Unnested := trivial

theorem Parallel.unnested {V : α → β → Prop} {line' : Line} {s : Reading β}
    (h : r.Parallel line line' V s) : r.Unnested :=
  h.ensures (fun _ hcause => hcause) fun _ _ _ => trivial

theorem Unnested.cause_ne (h : r.Unnested) {e : Failure} (he : r.result = .error e) :
    e.cause ≠ .nestedAssignment := by
  simpa [Unnested, Makes, Ensures, he] using h

/-- Any other failure will do. -/
theorem makes_fail {number : Nat} {cause : Cause} (h : cause ≠ .nestedAssignment) :
    (fail ⟨number, cause⟩ : Reading α).Makes P := h

theorem makes_lacks (expected : Expected) (ts : List Token) :
    (fail (line.lacks expected ts) : Reading α).Makes P := makes_fail (by simp)

end

end Reading

/-! ## What is tracked -/

/-- The text of the token right before the first word `=`. -/
def AssignsName (tokens : List Token) (name : Text) : Prop :=
  ∃ before target rest, tokens = before ++ target :: .word "=" :: rest ∧
    (∀ t ∈ before ++ [target], t ≠ .word "=") ∧ target.text = name

/-- A name is assigned if a token stands before the first equals sign. -/
theorem exists_assignsName_of_findWord? {tokens : List Token} {position : Nat}
    (h : findWord? "=" tokens = some (position + 1)) :
    ∃ target, tokens[position]? = some target ∧ AssignsName tokens target.text := by
  obtain ⟨hlength, hequals, hbefore⟩ := List.findIdx?_eq_some_iff_getElem.1 h
  have hsplit : tokens = tokens.take position ++ tokens[position] :: .word "=" ::
      tokens.drop (position + 2) := by
    rw [← Token.isWord_iff.1 hequals, List.getElem_cons_drop, List.getElem_cons_drop,
      List.take_append_drop]
  refine ⟨tokens[position], List.getElem?_eq_getElem _, _, _, _, hsplit, fun t ht => ?_, rfl⟩
  rw [List.take_append_getElem, List.mem_take_iff_getElem] at ht
  obtain ⟨i, hi, rfl⟩ := ht
  exact fun hword => hbefore i (by omega) (Token.isWord_iff.2 hword)

/-- The node is that of the line. It tells whether a name is assigned by the line, and if so,
    which one. -/
structure Node.Tracks (node : Node) (line : LogicalLine) : Prop where
  read : (Statement.ofLogicalLine line).result = .ok (some node)
  number : node.number = line.number
  kind : node.kind.AssignedAs node.assigned
  name : node.assigned = true → ∃ tokens name, tokensOf line.text line.number = .ok tokens ∧
    AssignsName tokens name ∧ node.ident = some name

/-! ## Statements of any category -/

/-- The category of a line belongs to its indentation. -/
theorem Category.makes_ofLine (line : Line) :
    (liftM (ofLine line) : Reading Category).Makes fun c =>
      c.indent?.all (· = line.indent) = true := by
  refine Ensures.mono (ensures_ofExcept fun e h => ?_) fun c _ h => ?_
  · simp only [ofLine] at h
    split at h
    · cases h
    · cases h
      simp
  · have hsuits := suits_of_ofLine h
    rw [suits, Bool.and_eq_true] at hsuits
    exact hsuits.1

namespace Statement

/-- A line that is no assignment makes a node that is given no name, and whose kind says
    that its value is given one if the line is a continuation. -/
theorem makes_ofCategory {c : Category} {line : Line}
    (hindent : c.indent?.all (· = line.indent) = true) (hassign : c ≠ .assign) :
    (ofCategory c line).Makes fun node? => ∀ node ∈ node?, node.assigned = false ∧
      node.kind.AssignedAs (decide (line.indent = .continuation)) := by
  have hline : c.indent?.getD line.indent = line.indent := by
    cases hc : c.indent? with
    | none => rfl
    | some i =>
      rw [hc] at hindent
      exact of_decide_eq_true hindent
  refine (parallel_ofCategory id line hassign).ensures (fun _ hcause => hcause)
    fun _ _ h node hnode => ⟨(h.stands node hnode).unassigned, ?_⟩
  rw [← hline]
  exact h.kind node hnode

/-- An assignment is split at its first equals sign. -/
theorem makes_splitAssignment (line : Line) :
    (liftM (splitAssignment line) : Reading (Text × Line)).Makes fun (name, value) =>
      AssignsName line.tokens name ∧ value.indent = .continuation := by
  unfold splitAssignment
  split
  · rename_i position hfind
    obtain ⟨target, htarget, hname⟩ := exists_assignsName_of_findWord? hfind
    refine ⟨?_, rfl⟩
    rw [htarget]
    exact hname
  · exact makes_lacks _ _

/-- A line that is no continuation itself makes a node that tells whether its value is
    given a name, and which one. -/
theorem makes_ofLine {line : Line} (hindent : line.indent ≠ .continuation) :
    (ofLine line).Makes fun node? => ∀ node ∈ node?,
      node.kind.AssignedAs node.assigned ∧
        (node.assigned = true →
          ∃ name, AssignsName line.tokens name ∧ node.ident = some name) := by
  refine (Category.makes_ofLine line).bind fun c hc => ?_
  split
  · rename_i hassign
    refine (makes_ofCategory hc hassign).mono fun node? h node hnode => ?_
    obtain ⟨hunassigned, hkind⟩ := h node hnode
    rw [hunassigned]
    refine ⟨?_, nofun⟩
    rwa [decide_eq_false hindent] at hkind
  · refine (makes_splitAssignment line).bind fun (name, value) ⟨hname, hvalue⟩ => ?_
    refine (Category.makes_ofLine value).bind fun c hc => ?_
    -- no assignment is a continuation
    have hassign : c ≠ .assign := by
      rintro rfl
      rw [hvalue] at hc
      cases hc
    refine (makes_ofCategory hc hassign).bind fun node? hnode => ?_
    split
    · rename_i child
      obtain ⟨-, hkind⟩ := hnode child rfl
      rw [hvalue] at hkind
      rintro node ⟨⟩
      exact ⟨hkind, fun _ => ⟨name, hname, rfl⟩⟩
    · exact makes_lacks _ _

end Statement

/-! ## Logical lines -/

/-- No line of a source is a continuation. -/
theorem Line.makes_ofText (text : Text) (number : Nat) :
    (liftM (ofText text number) : Reading Line).Makes fun line =>
      tokensOf text number = .ok line.tokens ∧ line.indent ≠ .continuation := by
  unfold ofText
  cases htokens : tokensOf text number with
  | ok tokens => exact ⟨rfl, Indent.ofBlanks_ne_continuation _⟩
  | error e =>
    unfold tokensOf at htokens
    cases htokenize : tokenize text with
    | ok tokens =>
      rw [htokenize] at htokens
      cases htokens
    | error reason =>
      rw [htokenize] at htokens
      cases htokens
      exact makes_fail (by simp)

/-- The statement on a logical line makes a node that tells whether its value is given a
    name by it, and which one. -/
theorem Statement.makes_ofLogicalLine (line : LogicalLine) :
    (ofLogicalLine line).Makes fun node? => ∀ node ∈ node?,
      node.kind.AssignedAs node.assigned ∧
        (node.assigned = true → ∃ tokens name, tokensOf line.text line.number = .ok tokens ∧
          AssignsName tokens name ∧ node.ident = some name) := by
  refine (Line.makes_ofText line.text line.number).bind fun l ⟨htokens, hindent⟩ => ?_
  refine (makes_ofLine hindent).mono fun node? h node hnode => ?_
  obtain ⟨hkind, hname⟩ := h node hnode
  refine ⟨hkind, fun hassigned => ?_⟩
  obtain ⟨name, hname⟩ := hname hassigned
  exact ⟨l.tokens, name, htokens, hname⟩

theorem Node.tracks_of_result {node : Node} {line : LogicalLine}
    (h : (Statement.ofLogicalLine line).result = .ok (some node))
    (hnumber : node.number = line.number) : node.Tracks line :=
  have hmakes := (Statement.makes_ofLogicalLine line).ok h node rfl
  ⟨h, hnumber, hmakes.1, hmakes.2⟩

theorem unnested_nodesOf (lines : List LogicalLine) : (nodesOf lines).Unnested := by
  induction lines with
  | nil => exact unnested_pure _
  | cons line rest ih =>
    exact (Statement.makes_ofLogicalLine line).bind fun _ _ => ih.bind fun _ => unnested_pure _

/-! ## Outlines -/

theorem Stub.unnested_ofLines (number : Nat) (lines : List Text) :
    (ofLines number lines).Unnested :=
  (Line.makes_ofText _ number).bind fun _ _ =>
    (Definition.agree_header id _).unnested.bind fun _ => unnested_pure _

namespace Progress

theorem unnested_functionStep (p : Progress) (function : OpenFunction) (text : Text) :
    (p.functionStep function text).Unnested := by
  unfold functionStep
  dsimp only
  split
  · exact (Stub.unnested_ofLines _ _).bind fun _ => unnested_pure _
  · exact unnested_pure _

theorem unnested_step (deferred : Bool) (p : Progress) (number : Nat) (text : Text) :
    (p.step deferred number text).Unnested := by
  unfold step
  split
  · exact unnested_functionStep _ _ _
  · split
    · exact unnested_functionStep _ _ _
    · exact unnested_pure _

theorem unnested_run (deferred : Bool) (p : Progress) (number : Nat) (lines : List Text) :
    (p.run deferred number lines).Unnested := by
  induction lines generalizing p number with
  | nil => exact unnested_pure _
  | cons text rest ih => exact (unnested_step deferred p number text).bind fun _ => ih _ _

theorem unnested_finish (base : Nat) (p : Progress) :
    (liftM (p.finish base) : Reading Outline).Unnested := by
  unfold finish
  split
  · exact makes_fail (by simp)
  · split
    · exact makes_fail (by simp)
    · exact unnested_pure _

end Progress

theorem Outline.unnested_ofLines (deferred : Bool) (base : Nat) (lines : List Text) :
    (ofLines deferred base lines).Unnested :=
  (Progress.unnested_run deferred _ _ lines).bind fun p => p.unnested_finish base

/-! ## Runs -/

/-- The complaint about an assignment in place of a right-hand side is made of nothing
    else. -/
theorem Cause.nestedAssignment_of_violation? {cause : Cause}
    (h : cause.violation? = some "assignment reached a construct parser") :
    cause = .nestedAssignment := by
  have hcolon : ':' ∉ ("assignment reached a construct parser" : Text) := by decide
  cases cause with
  | nestedAssignment => rfl
  -- a message that shows a text or tokens has a colon before them
  | imbalance reason =>
    refine absurd ?_ hcolon
    rw [← Option.some.inj h, Imbalance.message]
    split <;> simp
  | lacking expected tokens =>
    refine absurd ?_ hcolon
    rw [← Option.some.inj h]
    simp
  | emptyOperand | reversedRange | openFunction | openTable => exact absurd h (by decide)
  | unknownStatement | malformedConstant | unsupported => cases h

/-- The nodes of a run stand for lines of its outline and track their assignments, and the
    run does not fail by an assignment that reached the parser of a right-hand side. -/
structure TracksAssignments (outline : Except Failure Outline)
    (nodes : Except Failure (List Node)) : Prop where
  unnested : ∀ e, nodes = .error e →
    e.cause.violation? ≠ some "assignment reached a construct parser"
  tracked : ∀ ns, nodes = .ok ns → ∃ o, outline = .ok o ∧
    ∀ node ∈ ns, ∃ line ∈ o.lines, node.Tracks line

theorem Listing.unnested_ofLines (deferred : Bool) (base : Nat) (lines : List Text) :
    (ofLines deferred base lines).Unnested :=
  (Outline.unnested_ofLines deferred base lines).bind fun o =>
    (unnested_nodesOf o.lines).bind fun _ => unnested_pure _

theorem Listing.tracksAssignments (deferred : Bool) (base : Nat) (lines : List Text) :
    TracksAssignments (Outline.ofLines deferred base lines).result
      (nodes <$> ofLines deferred base lines).result where
  unnested _ he hviolation :=
    ((unnested_ofLines deferred base lines).map nodes).cause_ne he
      (Cause.nestedAssignment_of_violation? hviolation)
  tracked ns hns := by
    obtain ⟨l, hl, rfl⟩ := exists_of_map_ok hns
    obtain ⟨o, ho, -⟩ := readable_of_ofLines hl
    refine ⟨o, ho, fun node hnode => ?_⟩
    obtain ⟨line, hline, hread, hnumber⟩ := exists_line_of_node ho hl hnode
    exact ⟨line, hline, Node.tracks_of_result hread hnumber⟩

/-- The nodes of a source are those of what is left of its lines. -/
theorem Module.map_nodes_ofLines (s : Settings) (known : Registry) (lines : List Text) :
    (ofLines s known lines).1.map Module.nodes =
      (Listing.nodes <$>
        Listing.ofLines (!s.readBodies) 0 (Metadata.extract 0 lines).1).result := by
  rw [result_map]
  unfold ofLines Reading.run
  dsimp only
  cases (Listing.ofLines (!s.readBodies) 0 (Metadata.extract 0 lines).1).result <;> rfl

/-- **Assignments are tracked** by every run: over some lines, in either mode; over a
    source; and over a function that was set aside. -/
theorem assignments_tracked :
    (∀ deferred base lines,
      TracksAssignments (Outline.ofLines deferred base lines).result
        (Listing.nodes <$> Listing.ofLines deferred base lines).result) ∧
    (∀ s known lines,
      TracksAssignments (Outline.ofLines (!s.readBodies) 0 (Metadata.extract 0 lines).1).result
        ((Module.ofLines s known lines).1.map Module.nodes)) ∧
    ∀ s : Stub,
      TracksAssignments (Outline.ofLines false (s.number - 1) s.lines).result s.nodes.result := by
  refine ⟨Listing.tracksAssignments, fun s known lines => ?_, fun s => ?_⟩
  · rw [Module.map_nodes_ofLines]
    exact Listing.tracksAssignments _ 0 _
  · exact Listing.tracksAssignments false _ s.lines

/-- A call whose value is given a name, and one that stands alone. -/
example : (Listing.nodes <$>
    Listing.ofLines false 0 ["  %c = call i32 @h()", "  call void @g()"]).result =
      .ok [⟨1, some "%c".toList, true, .call ⟨"@h", "i32", [], [], false⟩⟩,
        ⟨2, some "@g".toList, false, .call ⟨"@g", "void", [], [], true⟩⟩] := by
  decide +kernel

end LlvmAsm
