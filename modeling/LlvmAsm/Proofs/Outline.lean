/-
  Laws of outlines.

  * `statementStep_cases` says all that a line can do that is not set aside;
  * `Numbered` is kept by every line, so that the logical lines of an outline
    have increasing numbers within the lines that were read
    (`ensures_numbered_ofLines`);
  * if no body is deferred, an outline is a plain fold over the lines
    (`ofLines_eager`), and the outline of two pieces is made of their outlines
    unless the second piece begins with the destinations of an `invoke`
    (`ofLines_append`).
-/
import LlvmAsm.Outline
import LlvmAsm.Proofs.Reading
import Mathlib.Data.List.Basic

namespace LlvmAsm

open Reading

namespace Progress

/-! ## Steps -/

/-- **All that a line does that is not set aside**: nothing if it is blank; else
    it goes on with the logical line before, or begins a new one. -/
theorem statementStep_cases (p : Progress) (n : Nat) (text : Text) :
    (Text.allBlank text = true ∧ p.statementStep n text = p) ∨
    (Text.allBlank text = false ∧ ∃ line before, p.lines = line :: before ∧
      (p.inTable = true ∨ isDestinations text = true) ∧
      p.statementStep n text = { p with
        lines := extend line text :: before
        inTable := p.inTable && !closesTable text }) ∨
    (Text.allBlank text = false ∧
      (p.lines = [] ∨ p.inTable = false ∧ isDestinations text = false) ∧
      p.statementStep n text = { p with
        lines := ⟨text, n⟩ :: p.lines
        inTable := opensTable text }) := by
  unfold statementStep
  cases hblank : Text.allBlank text with
  | true => exact Or.inl ⟨rfl, if_pos rfl⟩
  | false =>
    right
    rw [if_neg (by decide)]
    cases hlines : p.lines with
    | nil => exact Or.inr ⟨rfl, Or.inl rfl, rfl⟩
    | cons line before =>
      cases htable : p.inTable with
      | true => exact Or.inl ⟨rfl, line, before, rfl, Or.inl rfl, rfl⟩
      | false =>
        cases hdest : isDestinations text with
        | true => exact Or.inl ⟨rfl, line, before, rfl, Or.inr rfl, by simp⟩
        | false => exact Or.inr ⟨rfl, Or.inr ⟨rfl, rfl⟩, rfl⟩

@[simp] theorem function_statementStep (p : Progress) (n : Nat) (text : Text) :
    (p.statementStep n text).function = p.function := by
  rcases statementStep_cases p n text with ⟨-, h⟩ | ⟨-, _, _, -, -, h⟩ | ⟨-, -, h⟩ <;> rw [h]

@[simp] theorem stubs_statementStep (p : Progress) (n : Nat) (text : Text) :
    (p.statementStep n text).stubs = p.stubs := by
  rcases statementStep_cases p n text with ⟨-, h⟩ | ⟨-, _, _, -, -, h⟩ | ⟨-, -, h⟩ <;> rw [h]

/-- A line of a definition that is set aside adds no logical line. -/
theorem ensures_functionStep (p : Progress) (f : OpenFunction) (text : Text) :
    (p.functionStep f text).Ensures (fun _ => True) fun p' _ =>
      p'.lines = p.lines ∧ p'.inTable = p.inTable := by
  unfold functionStep
  dsimp only
  split
  · exact Ensures.bind (P := fun _ _ => True) (by unfold Ensures; split <;> trivial)
      fun _ _ _ => ⟨rfl, rfl⟩
  · exact ⟨rfl, rfl⟩

/-- At the end, nothing may be left open. -/
theorem finish_eq_ok {base : Nat} {p : Progress} {o : Outline} :
    p.finish base = .ok o ↔
      p.function = none ∧ p.inTable = false ∧ o = ⟨p.lines.reverse, p.stubs.reverse⟩ := by
  unfold finish
  cases p.function with
  | some f => simp
  | none => cases p.inTable <;> simp [eq_comm]

/-! ## Numbers -/

/-- The logical lines so far, latest first, have decreasing numbers after
    `base` and before `n`, and there are no more of them than there are numbers. -/
structure Numbered (base n : Nat) (p : Progress) : Prop where
  decreasing : p.lines.Pairwise fun l l' => l'.number < l.number
  bounds : ∀ l ∈ p.lines, base < l.number ∧ l.number < n
  length : base + p.lines.length < n

theorem numbered_start (base : Nat) : Numbered base (base + 1) start :=
  ⟨List.Pairwise.nil, by simp [start], by simp [start]⟩

theorem Numbered.of_lines {base n : Nat} {p p' : Progress} (h : Numbered base n p)
    (hlines : p'.lines = p.lines) : Numbered base (n + 1) p' := by
  refine ⟨hlines ▸ h.decreasing, fun l hl => ?_, ?_⟩
  · have := h.bounds l (hlines ▸ hl)
    omega
  · have := h.length
    rw [hlines]
    omega

theorem Numbered.statementStep {base n : Nat} {p : Progress} (h : Numbered base n p)
    (text : Text) : Numbered base (n + 1) (p.statementStep n text) := by
  rcases statementStep_cases p n text with
    ⟨-, hstep⟩ | ⟨-, line, before, hlines, -, hstep⟩ | ⟨-, -, hstep⟩
  · rw [hstep]
    exact h.of_lines rfl
  · -- the number of the line before stays
    obtain ⟨hdec, hbounds, hlength⟩ := h
    rw [hlines, List.pairwise_cons] at hdec
    rw [hlines] at hbounds hlength
    rw [hstep]
    refine ⟨List.pairwise_cons.2 hdec, fun l hl => ?_, ?_⟩
    · rcases List.mem_cons.1 hl with rfl | hl
      · have := hbounds line List.mem_cons_self
        change base < line.number ∧ line.number < n + 1
        omega
      · have := hbounds l (List.mem_cons_of_mem _ hl)
        omega
    · simp only [List.length_cons] at hlength ⊢
      omega
  · rw [hstep]
    refine ⟨List.pairwise_cons.2 ⟨fun l hl => (h.bounds l hl).2, h.decreasing⟩, fun l hl => ?_, ?_⟩
    · have hlength := h.length
      rcases List.mem_cons.1 hl with rfl | hl
      · change base < n ∧ n < n + 1
        omega
      · have := h.bounds l hl
        omega
    · have := h.length
      simp only [List.length_cons]
      omega

theorem Numbered.step {base n : Nat} {p : Progress} (h : Numbered base n p) (deferred : Bool)
    (text : Text) :
    (p.step deferred n text).Ensures (fun _ => True) fun p' _ => Numbered base (n + 1) p' := by
  unfold Progress.step
  split
  · exact (ensures_functionStep p _ text).mono fun _ _ h' => h.of_lines h'.1
  · split
    · exact (ensures_functionStep p _ text).mono fun _ _ h' => h.of_lines h'.1
    · exact h.statementStep text

/-- Numbering is kept by a whole run. -/
theorem Numbered.run {base n : Nat} {p : Progress} (h : Numbered base n p) (deferred : Bool)
    (lines : List Text) :
    (p.run deferred n lines).Ensures (fun _ => True) fun p' _ =>
      Numbered base (n + lines.length) p' := by
  induction lines generalizing p n with
  | nil => exact h
  | cons text rest ih =>
    refine (h.step deferred text).bind fun p' _ h' => (ih h').mono fun p'' _ h'' => ?_
    rwa [List.length_cons, Nat.add_comm rest.length, ← Nat.add_assoc]

end Progress

/-- The logical lines of an outline have increasing numbers within the given
    range, and there are no more of them than lines in the range. -/
structure Outline.Numbered (base count : Nat) (o : Outline) : Prop where
  increasing : o.lines.Pairwise fun l l' => l.number < l'.number
  bounds : ∀ l ∈ o.lines, base < l.number ∧ l.number ≤ base + count
  length : o.lines.length ≤ count

/-- **The numbers of an outline increase** within the lines that were read. -/
theorem Outline.ensures_numbered_ofLines (deferred : Bool) (base : Nat) (lines : List Text) :
    (Outline.ofLines deferred base lines).Ensures (fun _ => True) fun o _ =>
      o.Numbered base lines.length := by
  refine ((Progress.numbered_start base).run deferred lines).bind fun p _ h => ?_
  refine (ensures_ofExcept fun _ _ => trivial).mono fun o _ ho => ?_
  obtain ⟨-, -, rfl⟩ := Progress.finish_eq_ok.1 ho
  refine ⟨List.pairwise_reverse.2 h.decreasing, fun l hl => ?_, ?_⟩
  · have := h.bounds l (List.mem_reverse.1 hl)
    omega
  · have := h.length
    rw [List.length_reverse]
    omega

/-! ## Runs without deferral -/

/-- The first line that is not blank does not go on with a line before it. -/
def StartsAnew (lines : List Text) : Prop :=
  ∀ text ∈ lines.find? (!Text.allBlank ·), isDestinations text = false

theorem StartsAnew.head {text : Text} {rest : List Text} (h : StartsAnew (text :: rest)) :
    Text.allBlank text = true ∨ isDestinations text = false := by
  cases hblank : Text.allBlank text with
  | true => exact Or.inl rfl
  | false => exact Or.inr (h text (by simp [hblank]))

theorem StartsAnew.tail {text : Text} {rest : List Text} (h : StartsAnew (text :: rest))
    (hblank : Text.allBlank text = true) : StartsAnew rest := by
  intro text' h'
  exact h text' (by simpa [hblank] using h')

namespace Progress

/-- The effect of several lines none of which is set aside. -/
def statements (p : Progress) (n : Nat) : List Text → Progress
  | [] => p
  | text :: rest => (p.statementStep n text).statements (n + 1) rest

@[simp] theorem function_statements (p : Progress) (n : Nat) (lines : List Text) :
    (p.statements n lines).function = p.function := by
  induction lines generalizing p n with
  | nil => rfl
  | cons text rest ih => rw [statements, ih, function_statementStep]

@[simp] theorem stubs_statements (p : Progress) (n : Nat) (lines : List Text) :
    (p.statements n lines).stubs = p.stubs := by
  induction lines generalizing p n with
  | nil => rfl
  | cons text rest ih => rw [statements, ih, stubs_statementStep]

theorem statements_append (p : Progress) (n : Nat) (lines lines' : List Text) :
    p.statements n (lines ++ lines') =
      (p.statements n lines).statements (n + lines.length) lines' := by
  induction lines generalizing p n with
  | nil => rfl
  | cons text rest ih =>
    rw [List.cons_append, statements, ih, statements, List.length_cons, Nat.add_assoc,
      Nat.add_comm 1]

/-- Nothing is noted and nothing fails. -/
theorem run_eager {p : Progress} (h : p.function = none) (n : Nat) (lines : List Text) :
    p.run false n lines = pure (p.statements n lines) := by
  induction lines generalizing p n with
  | nil => rfl
  | cons text rest ih =>
    have hstep : p.step false n text = pure (p.statementStep n text) := by simp [step, h]
    rw [run, hstep, pure_bind, ih (by rw [function_statementStep, h]), statements]

/-! ## Earlier lines -/

/-- The same progress after further logical lines. -/
def after (earlier : List LogicalLine) (p : Progress) : Progress :=
  { p with lines := p.lines ++ earlier }

/-- The table of a `switch` only goes on after the line of the `switch`. -/
def Grounded (p : Progress) : Prop := p.lines = [] → p.inTable = false

theorem grounded_start : start.Grounded := fun _ => rfl

theorem Grounded.statementStep {p : Progress} (h : p.Grounded) (n : Nat) (text : Text) :
    (p.statementStep n text).Grounded := by
  rcases statementStep_cases p n text with ⟨-, hstep⟩ | ⟨-, _, _, -, -, hstep⟩ | ⟨-, -, hstep⟩
  · rwa [hstep]
  · rw [hstep]
    exact fun hnil => absurd hnil (List.cons_ne_nil _ _)
  · rw [hstep]
    exact fun hnil => absurd hnil (List.cons_ne_nil _ _)

theorem Grounded.statements {p : Progress} (h : p.Grounded) (n : Nat) (lines : List Text) :
    (p.statements n lines).Grounded := by
  induction lines generalizing p n with
  | nil => exact h
  | cons text rest ih => exact ih (h.statementStep n text) (n + 1)

/-- A line does the same after further lines, if it does not go on with them. -/
theorem statementStep_after {p : Progress} (hp : p.Grounded) (earlier : List LogicalLine)
    {text : Text}
    (h : p.lines ≠ [] ∨ Text.allBlank text = true ∨ isDestinations text = false) (n : Nat) :
    (p.after earlier).statementStep n text = (p.statementStep n text).after earlier := by
  unfold Progress.statementStep after
  cases hblank : Text.allBlank text with
  | true => rfl
  | false =>
    cases hlines : p.lines with
    | cons line before =>
      simp only [List.cons_append, Bool.false_eq_true, if_false]
      split
      · rfl
      · split <;> rfl
    | nil =>
      have hdest : isDestinations text = false := by simpa [hlines, hblank] using h
      cases earlier with
      | nil => simp
      | cons line before => simp [hp hlines, hdest]

/-- Several lines do the same after further lines, if they do not go on with
    them. -/
theorem statements_after (earlier : List LogicalLine) {lines : List Text} :
    ∀ {p : Progress}, p.Grounded → (p.lines ≠ [] ∨ StartsAnew lines) → ∀ n,
      (p.after earlier).statements n lines = (p.statements n lines).after earlier := by
  induction lines with
  | nil => exact fun _ _ _ => rfl
  | cons text rest ih =>
    intro p hp h n
    have htext : p.lines ≠ [] ∨ Text.allBlank text = true ∨ isDestinations text = false :=
      h.imp_right StartsAnew.head
    rw [statements, statementStep_after hp earlier htext, statements]
    refine ih (hp.statementStep n text) ?_ (n + 1)
    rcases statementStep_cases p n text with
      ⟨hblank, hstep⟩ | ⟨-, line, before, -, -, hstep⟩ | ⟨-, -, hstep⟩
    · rw [hstep]
      exact h.imp_right (StartsAnew.tail · hblank)
    · rw [hstep]
      exact Or.inl (List.cons_ne_nil _ _)
    · rw [hstep]
      exact Or.inl (List.cons_ne_nil _ _)

/-- Progress with nothing open is that of its logical lines. -/
theorem eq_after_start {p : Progress} (hstubs : p.stubs = []) (hfunction : p.function = none)
    (htable : p.inTable = false) : p = start.after p.lines := by
  obtain ⟨lines, stubs, function, inTable⟩ := p
  subst hstubs hfunction htable
  rfl

end Progress

/-- The outline of the lines of a source whose bodies are not deferred. -/
theorem Outline.ofLines_eager (base : Nat) (lines : List Text) :
    Outline.ofLines false base lines =
      ofExcept ((Progress.start.statements (base + 1) lines).finish base) := by
  rw [Outline.ofLines, Progress.run_eager rfl, pure_bind]
  rfl

/-- An outline without deferral is that of the state in the end, if no table is
    open. -/
theorem Outline.ofLines_eager_eq_ok {base : Nat} {lines : List Text} {o : Outline} :
    (Outline.ofLines false base lines).result = .ok o ↔
      (Progress.start.statements (base + 1) lines).inTable = false ∧
        o = ⟨(Progress.start.statements (base + 1) lines).lines.reverse, []⟩ := by
  have hfunction : (Progress.start.statements (base + 1) lines).function = none := by
    rw [Progress.function_statements]
    rfl
  have hstubs : (Progress.start.statements (base + 1) lines).stubs = [] := by
    rw [Progress.stubs_statements]
    rfl
  rw [Outline.ofLines_eager, result_ofExcept, Progress.finish_eq_ok, hfunction, hstubs]
  simp

/-- A line that opens no table is an outline by itself. -/
theorem Outline.ofLines_single {text : Text} (hblank : Text.allBlank text = false)
    (htable : opensTable text = false) (base : Nat) :
    (ofLines false base [text]).result = .ok ⟨[⟨text, base + 1⟩], []⟩ := by
  have hstep : Progress.start.statements (base + 1) [text] =
      { Progress.start with lines := [⟨text, base + 1⟩] } := by
    simp [Progress.statements, Progress.statementStep, Progress.start, hblank, htable]
  rw [ofLines_eager_eq_ok, hstep]
  exact ⟨rfl, rfl⟩

/-- The outline with further logical lines before its own. -/
def Outline.prepend (earlier : List LogicalLine) (o : Outline) : Outline :=
  { o with lines := earlier ++ o.lines }

/-- **Outlines of pieces.** If the second piece begins anew, the outline of both
    is that of the first one followed by that of the second one, or its failure. -/
theorem Outline.ofLines_append {base : Nat} {lines lines' : List Text} {o : Outline}
    (h : (Outline.ofLines false base lines).result = .ok o) (hnew : StartsAnew lines') :
    Outline.ofLines false base (lines ++ lines') =
      prepend o.lines <$> Outline.ofLines false (base + lines.length) lines' := by
  obtain ⟨htable, rfl⟩ := Outline.ofLines_eager_eq_ok.1 h
  rw [Outline.ofLines_eager, Outline.ofLines_eager, Progress.statements_append]
  generalize hp : Progress.start.statements (base + 1) lines = p at htable
  have hstubs : p.stubs = [] := by rw [← hp, Progress.stubs_statements]; rfl
  have hfunction : p.function = none := by rw [← hp, Progress.function_statements]; rfl
  rw [Progress.eq_after_start hstubs hfunction htable,
    Progress.statements_after _ Progress.grounded_start (Or.inr hnew)]
  rw [Nat.add_right_comm base 1]
  have hgrounded := Progress.grounded_start.statements (base + lines.length + 1) lines'
  generalize Progress.start.statements (base + lines.length + 1) lines' = q at hgrounded
  refine Reading.ext ?_ (by rw [noted_map]; rfl)
  rw [result_map, result_ofExcept, result_ofExcept]
  simp only [Progress.finish, Progress.after]
  cases q.function with
  | some f => rfl
  | none =>
    by_cases hq : q.inTable = true
    · -- the line of the `switch` is in the second piece
      have hne : q.lines ≠ [] := fun hnil => by simp [hgrounded hnil] at hq
      obtain ⟨line, before, hlines⟩ := List.exists_cons_of_ne_nil hne
      simp [hq, hlines, Except.map]
    · simp [hq, Except.map, prepend, Progress.start]

end LlvmAsm
