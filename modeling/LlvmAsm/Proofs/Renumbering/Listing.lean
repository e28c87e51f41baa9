/-
  Where lines stand does not matter to what they say.

  The number of a line is handed on from the source line to the logical line, the
  node, the stub or the failure, and nothing else is made of it. So to read lines
  that begin `k` lines later is to read the same lines and to add `k` to every
  number, and a blank line adds one to the numbers after it
  (`Listing.run_renumbered`).

  The proof follows the numbers from stage to stage: `Progress.renumbered_run` for
  the joining of lines, where the numbers of successive lines have to stay
  successive, and `renumbered_nodesOf` for the statements.
-/
import LlvmAsm.Proofs.Listing

namespace LlvmAsm

open Reading

/-- The stub with another number of its first line. -/
def Stub.renumber (f : Nat → Nat) (s : Stub) : Stub := { s with number := f s.number }

/-- The outline with other numbers. -/
def Outline.renumber (f : Nat → Nat) (o : Outline) : Outline :=
  ⟨o.lines.map (LogicalLine.renumber f), o.stubs.map (Stub.renumber f)⟩

/-- The listing with other numbers. -/
def Listing.renumber (f : Nat → Nat) (l : Listing) : Listing :=
  ⟨l.nodes.map (Node.renumber f), l.stubs.map (Stub.renumber f)⟩

/-- The open definition with another number. -/
def OpenFunction.renumber (f : Nat → Nat) (function : OpenFunction) : OpenFunction :=
  { function with number := f function.number }

/-! ## Joining lines -/

/-- A stub takes its number from its first line. -/
theorem Stub.renumbered_ofLines (f : Nat → Nat) (number : Nat) (lines : List Text) :
    (Stub.ofLines number lines).Renumbered f (Stub.renumber f)
      (Stub.ofLines (f number) lines) := by
  refine (Line.renumbered_ofText f _ number).bind fun first => ?_
  exact ((Definition.agree_header f first).alike rfl).bind fun _ => renumbered_pure rfl

namespace Progress

/-- The progress with other numbers. -/
def renumber (f : Nat → Nat) (p : Progress) : Progress where
  lines := p.lines.map (LogicalLine.renumber f)
  stubs := p.stubs.map (Stub.renumber f)
  function := p.function.map (OpenFunction.renumber f)
  inTable := p.inTable

variable {f : Nat → Nat} {p : Progress} {n : Nat}

theorem statementStep_renumber (f : Nat → Nat) (p : Progress) (n : Nat) (text : Text) :
    (p.renumber f).statementStep (f n) text = (p.statementStep n text).renumber f := by
  unfold statementStep
  obtain ⟨lines, stubs, function, inTable⟩ := p
  split
  · rfl
  cases lines with
  | nil => rfl
  | cons line before =>
    cases inTable with
    | true => rfl
    | false =>
      cases hdest : isDestinations text <;> simp [renumber] <;> rfl

theorem renumbered_functionStep (f : Nat → Nat) (p : Progress) (function : OpenFunction)
    (text : Text) :
    (p.functionStep function text).Renumbered f (renumber f)
      ((p.renumber f).functionStep (function.renumber f) text) := by
  unfold functionStep
  dsimp only
  split
  · exact (Stub.renumbered_ofLines f _ _).bind fun stub => renumbered_pure rfl
  · exact renumbered_pure rfl

theorem renumbered_step (f : Nat → Nat) (deferred : Bool) (p : Progress) (n : Nat)
    (text : Text) :
    (p.step deferred n text).Renumbered f (renumber f)
      ((p.renumber f).step deferred (f n) text) := by
  unfold step
  obtain ⟨lines, stubs, function, inTable⟩ := p
  cases function with
  | some function => exact renumbered_functionStep f _ function text
  | none =>
    dsimp only [renumber, Option.map_none]
    split
    · exact renumbered_functionStep f _ ⟨n, []⟩ text
    · exact renumbered_pure (statementStep_renumber f ⟨lines, stubs, none, inTable⟩ n text)

/-- **A run moves with its lines**, if successive lines keep successive numbers. -/
theorem renumbered_run (hf : ∀ m, n ≤ m → f (m + 1) = f m + 1) (deferred : Bool)
    (lines : List Text) :
    (p.run deferred n lines).Renumbered f (renumber f)
      ((p.renumber f).run deferred (f n) lines) := by
  induction lines generalizing p n with
  | nil => exact renumbered_pure rfl
  | cons text rest ih =>
    unfold run
    refine (renumbered_step f deferred p n text).bind fun p' => ?_
    rw [← hf n (Nat.le_refl n)]
    exact ih fun m hm => hf m (by omega)

theorem renumbered_finish (f : Nat → Nat) (base : Nat) (p : Progress) :
    (liftM (p.finish base) : Reading Outline).Renumbered f (Outline.renumber f)
      (liftM ((p.renumber f).finish (f base))) := by
  refine renumbered_ofExcept ?_
  obtain ⟨lines, stubs, function, inTable⟩ := p
  unfold finish
  cases function with
  | some function => rfl
  | none =>
    cases inTable with
    | true => cases lines <;> rfl
    | false => simp [renumber, Outline.renumber, Except.mapError, Except.map]

end Progress

namespace Outline

/-- **An outline moves with its lines.** -/
theorem renumbered_ofLines (deferred : Bool) (base k : Nat) (lines : List Text) :
    (ofLines deferred base lines).Renumbered (· + k) (renumber (· + k))
      (ofLines deferred (base + k) lines) := by
  unfold ofLines
  rw [Nat.add_right_comm]
  exact (Progress.renumbered_run (fun m _ => Nat.add_right_comm m 1 k) deferred lines).bind
    fun p => Progress.renumbered_finish (· + k) base p

end Outline

/-! ## Reading statements -/

/-- **Nodes move with their lines.** -/
theorem renumbered_nodesOf (f : Nat → Nat) (lines : List LogicalLine) :
    (nodesOf lines).Renumbered f (List.map (Node.renumber f))
      (nodesOf (lines.map (LogicalLine.renumber f))) := by
  induction lines with
  | nil => exact renumbered_pure rfl
  | cons line rest ih =>
    refine (Statement.renumbered_ofLogicalLine f line).bind fun node? => ih.bind fun nodes => ?_
    refine renumbered_pure ?_
    cases node? <;> rfl

/-- A listing moves with its outline. -/
theorem Listing.renumbered_of_outline {f : Nat → Nat} {deferred : Bool} {base base' : Nat}
    {lines lines' : List Text}
    (h : (Outline.ofLines deferred base lines).Renumbered f (Outline.renumber f)
      (Outline.ofLines deferred base' lines')) :
    (ofLines deferred base lines).Renumbered f (renumber f) (ofLines deferred base' lines') :=
  h.bind fun o => (renumbered_nodesOf f o.lines).bind fun _ => renumbered_pure rfl

/-! ## A blank line -/

/-- A number after the border is one higher. -/
def shiftAfter (border n : Nat) : Nat := if border < n then n + 1 else n

namespace Progress

theorem run_of_append (p : Progress) (deferred : Bool) (n : Nat) (lines lines' : List Text) :
    p.run deferred n (lines ++ lines') =
      p.run deferred n lines >>= fun p' => p'.run deferred (n + lines.length) lines' := by
  induction lines generalizing p n with
  | nil => rfl
  | cons text rest ih =>
    rw [List.cons_append, run, run, bind_assoc]
    refine bind_congr fun p' => ?_
    rw [ih, List.length_cons, Nat.add_assoc, Nat.add_comm 1]

/-- Numbers before the next line stay if `f` keeps them. -/
theorem renumber_eq_self {base : Nat} (h : Numbered base n p) (hstubs : p.stubs = [])
    (hfunction : p.function = none) (hf : ∀ m < n, f m = m) : p.renumber f = p := by
  obtain ⟨lines, stubs, function, inTable⟩ := p
  subst hstubs hfunction
  have hlines : lines.map (LogicalLine.renumber f) = lines := by
    refine (List.map_congr_left fun line hline => ?_).trans (List.map_id lines)
    rw [LogicalLine.renumber, hf _ (h.bounds line hline).2]
    rfl
  simp [renumber, hlines]

/-- A run over lines none of which is set aside numbers them within bounds. -/
theorem numbered_statements (base : Nat) (lines : List Text) :
    Numbered base (base + 1 + lines.length) (start.statements (base + 1) lines) := by
  have h := (numbered_start base).run false lines
  rwa [run_eager rfl, ensures_pure] at h

end Progress

/-- **A blank line moves the lines after it**, wherever it stands. -/
theorem Outline.renumbered_blank (base : Nat) (before after : List Text) {blank : Text}
    (hblank : Text.allBlank blank = true) :
    (ofLines false base (before ++ after)).Renumbered (shiftAfter (base + before.length))
      (renumber (shiftAfter (base + before.length)))
      (ofLines false base (before ++ blank :: after)) := by
  unfold ofLines
  rw [Progress.run_of_append, Progress.run_of_append, Progress.run_eager rfl, pure_bind, pure_bind]
  have hnumbered := Progress.numbered_statements base before
  have hstubs := Progress.stubs_statements Progress.start (base + 1) before
  have hfunction := Progress.function_statements Progress.start (base + 1) before
  generalize Progress.start.statements (base + 1) before = p at hnumbered hstubs hfunction
  generalize hf : shiftAfter (base + before.length) = f
  have hfix : p.renumber f = p := by
    refine Progress.renumber_eq_self hnumbered hstubs hfunction fun m hm => ?_
    rw [← hf, shiftAfter, if_neg (by omega)]
  have hnext : f (base + 1 + before.length) = base + 1 + before.length + 1 := by
    rw [← hf, shiftAfter, if_pos (by omega)]
  have hbase : f base = base := by rw [← hf, shiftAfter, if_neg (by omega)]
  -- the blank line leaves the progress as it is, so that only the numbers after it differ
  have hstep : p.step false (base + 1 + before.length) blank = pure p := by
    simp [Progress.step, hfunction, Progress.start, Progress.statementStep, hblank]
  rw [Progress.run, hstep, pure_bind]
  have hrest := Progress.renumbered_run (f := f) (p := p) (n := base + 1 + before.length)
    (fun m hm => by rw [← hf, shiftAfter, shiftAfter, if_pos (by omega), if_pos (by omega)])
    false after
  rw [hfix, hnext] at hrest
  refine hrest.bind fun q => ?_
  have hfinish := Progress.renumbered_finish f base q
  rwa [hbase] at hfinish

/-! ## Runs -/

namespace Listing

/-- The outcome of a run with other numbers; the registry holds none. -/
def renumberOutcome (f : Nat → Nat) :
    Except Failure Listing × Registry → Except Failure Listing × Registry
  | (.ok l, known) => (.ok (l.renumber f), known)
  | (.error e, known) => (.error (e.renumber f), known)

theorem run_of_renumbered {f : Nat → Nat} {r s : Reading Listing}
    (h : r.Renumbered f (renumber f) s) (known : Registry) :
    s.run known = renumberOutcome f (r.run known) := by
  obtain ⟨result, noted⟩ := r
  rw [h, run_map]
  cases result <;> rfl

/-- **Blank lines and the base line only renumber.** A blank line among lines whose bodies
    are not deferred moves all that is after it by one line, even if it parts the lines of
    one statement. If the lines begin `k` lines later, then all nodes, stubs and failures
    move by `k` lines. The registry is the same in both cases. -/
theorem run_renumbered :
    (∀ (base : Nat) (before after : List Text) (blank : Text) (known : Registry),
      Text.allBlank blank = true →
        (ofLines false base (before ++ blank :: after)).run known =
          renumberOutcome (shiftAfter (base + before.length))
            ((ofLines false base (before ++ after)).run known)) ∧
    ∀ (deferred : Bool) (base k : Nat) (lines : List Text) (known : Registry),
      (ofLines deferred (base + k) lines).run known =
        renumberOutcome (· + k) ((ofLines deferred base lines).run known) := by
  constructor
  · intro base before after blank known hblank
    exact run_of_renumbered (renumbered_of_outline
      (Outline.renumbered_blank base before after hblank)) known
  · intro deferred base k lines known
    exact run_of_renumbered (renumbered_of_outline
      (Outline.renumbered_ofLines deferred base k lines)) known

/-- A blank line in a table and one before the destinations of an `invoke`, and a failure
    after a blank line. -/
theorem run_renumbered_of_switch :
    let table : List Text := ["  switch i32 %x, label %d ["]
    let rest : List Text := ["    i32 0, label %a", "  ]", "  invoke void @f()"]
    let targets : List Text := ["    to label %a unwind label %b"]
    let unknown : List Text := ["    i32 0, label %a", "  ]", "  frobnicate"]
    let blank : Text := [' ', '\t']
    let known : Registry := ⟨["i8"]⟩
    let switch (n : Nat) : Node :=
      ⟨n, some "%x".toList, false, .switch "i32" "%x" "%d" [⟨"0", "%a"⟩]⟩
    let invoke (n : Nat) : Node :=
      ⟨n, some "@f".toList, false, .invoke ⟨"@f", "void", [], [], true⟩ "%a" "%b"⟩
    Text.allBlank blank = true ∧
      (ofLines false 10 (table ++ blank :: (rest ++ blank :: targets))).run known =
        (.ok ⟨[switch 11, invoke 15], []⟩, ⟨["i8", "i32", "void"]⟩) ∧
      (ofLines false 10 (table ++ blank :: unknown)).run known =
        (.error ⟨15, .unknownStatement "frobnicate"⟩, ⟨["i8", "i32"]⟩) ∧
      (ofLines false (10 + 4) (table ++ rest ++ targets)).run known =
        (.ok ⟨[switch 15, invoke 18], []⟩, ⟨["i8", "i32", "void"]⟩) := by
  intro table rest targets unknown blank known switch invoke
  have hblank : Text.allBlank blank = true := by decide
  refine ⟨hblank, ?_, ?_, ?_⟩
  · have hinner : (ofLines false 10 (table ++ (rest ++ blank :: targets))).run known =
        (.ok ⟨[switch 11, invoke 14], []⟩, ⟨["i8", "i32", "void"]⟩) := by
      rw [← List.append_assoc, run_renumbered.1 10 (table ++ rest) targets blank known hblank]
      decide +kernel
    rw [run_renumbered.1 10 table (rest ++ blank :: targets) blank known hblank, hinner]
    decide +kernel
  · rw [run_renumbered.1 10 table unknown blank known hblank]
    decide +kernel
  · rw [run_renumbered.2 false 10 4 (table ++ rest ++ targets) known]
    decide +kernel

end Listing

end LlvmAsm
