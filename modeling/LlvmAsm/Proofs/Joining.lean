/-
  Joining: where the table of a `switch` ends.

  The line of a `switch` opens a table if it holds more opening than closing brackets. The
  end of the table is told in another way: it is the first line that begins with blanks and
  a closing bracket. The two agree if the bracket that closes the table begins a line, which
  is how such tables are printed. And the destinations of an `invoke` are joined to whatever
  stands before them, so to a table as well.

  * `Joins` is what can be joined to a line, one line after the other, and `IsJoin.exists_rows`
    the shape that comes of it;
  * `Outline.exists_joins`: every logical line is joined so, and `Outline.Partition.unique`:
    there is only one way to tell of which lines it is joined;
  * `Outline.joined_while_open`: the brackets stay open while lines are joined, up to the two
    exceptions above; `Outline.not_heldOpen` has an example of each.
-/
import LlvmAsm.Proofs.Partition

namespace LlvmAsm

/-! ## What is joined to a line -/

/-- The lines `more` may be joined to the line `first`. A table is open after them or not. -/
inductive Joins (first : LogicalLine) : List LogicalLine → Bool → Prop
  /-- nothing is joined yet -/
  | alone : Joins first [] (opensTable first.text)
  /-- a table goes on -/
  | row {more : List LogicalLine} {l : LogicalLine} (h : Joins first more true)
      (hl : closesTable l.text = false) : Joins first (more ++ [l]) true
  /-- a table ends -/
  | last {more : List LogicalLine} {l : LogicalLine} (h : Joins first more true)
      (hl : closesTable l.text = true) : Joins first (more ++ [l]) false
  /-- destinations follow -/
  | destinations {more : List LogicalLine} {l : LogicalLine} (h : Joins first more false)
      (hl : isDestinations l.text = true) : Joins first (more ++ [l]) false

/-- The pieces of a logical line are a line and what may be joined to it. -/
def IsJoin (inTable : Bool) (pieces : List LogicalLine) : Prop :=
  ∃ first more, pieces = first :: more ∧ Joins first more inTable

section
variable {first l : LogicalLine} {more pieces : List LogicalLine} {inTable : Bool}

theorem isJoin_alone (l : LogicalLine) : IsJoin (opensTable l.text) [l] := ⟨l, [], rfl, .alone⟩

/-- Another line is joined if a table is open or if it begins with destinations. -/
theorem IsJoin.append (h : IsJoin inTable pieces)
    (hl : inTable = true ∨ isDestinations l.text = true) :
    IsJoin (inTable && !closesTable l.text) (pieces ++ [l]) := by
  obtain ⟨first, more, rfl, hmore⟩ := h
  refine ⟨first, more ++ [l], rfl, ?_⟩
  cases inTable with
  | true =>
    cases hcloses : closesTable l.text with
    | false => exact hmore.row hcloses
    | true => exact hmore.last hcloses
  | false => exact hmore.destinations (hl.resolve_left Bool.false_ne_true)

/-- While a table is open, its line is followed by lines that do not end it. -/
theorem Joins.rows (h : Joins first more inTable) (hopen : inTable = true) :
    opensTable first.text = true ∧ ∀ l ∈ more, closesTable l.text = false := by
  induction h with
  | alone => exact ⟨hopen, by simp⟩
  | row _ hl ih =>
    obtain ⟨hfirst, hmore⟩ := ih rfl
    exact ⟨hfirst, List.forall_mem_append.2 ⟨hmore, by simpa using hl⟩⟩
  | last | destinations => cases hopen

/-- **The shape of a logical line.** If its first line opens a table, then lines follow up to
    the one that ends the table. After that, or at once if no table is opened, all lines
    begin with destinations. -/
theorem IsJoin.exists_rows (h : IsJoin inTable pieces) (hclosed : inTable = false) :
    ∃ first more tail, pieces = first :: (more ++ tail) ∧
      (∀ l ∈ tail, isDestinations l.text = true) ∧
      (opensTable first.text = false ∧ more = [] ∨ opensTable first.text = true ∧
        ∃ rows last, more = rows ++ [last] ∧ (∀ l ∈ rows, closesTable l.text = false) ∧
          closesTable last.text = true) := by
  obtain ⟨first, more, rfl, hmore⟩ := h
  induction hmore with
  | alone => exact ⟨first, [], [], rfl, by simp, Or.inl ⟨hclosed, rfl⟩⟩
  | row => cases hclosed
  | @last more l h hl =>
    obtain ⟨hfirst, hrows⟩ := h.rows rfl
    exact ⟨first, more ++ [l], [], by simp, by simp, Or.inr ⟨hfirst, more, l, rfl, hrows, hl⟩⟩
  | @destinations more l _ hl ih =>
    obtain ⟨first', more', tail, heq, htail, hshape⟩ := ih hclosed
    obtain ⟨rfl, rfl⟩ := List.cons.inj heq
    refine ⟨first, more', tail ++ [l], by simp, ?_, hshape⟩
    exact List.forall_mem_append.2 ⟨htail, by simpa using hl⟩

end

/-! ## The run over the lines -/

/-- What the lines that were read have made, the latest first: a table may be open in the
    latest logical line, but in none before it. -/
structure Joined (base : Nat) (read : List Text) (p : Progress)
    (pieces : List (List LogicalLine)) : Prop where
  parts : Parts base read p.lines p.stubs pieces
  latest : ∀ ps ∈ pieces.head?, IsJoin p.inTable ps
  earlier : ∀ ps ∈ pieces.tail, IsJoin false ps

namespace Joined

variable {base : Nat} {read : List Text} {p : Progress} {pieces : List (List LogicalLine)}

/-- If no table is open, then none is open in any logical line. -/
theorem all (h : Joined base read p pieces) (htable : p.inTable = false) :
    ∀ ps ∈ pieces, IsJoin false ps := by
  intro ps hps
  cases pieces with
  | nil => cases hps
  | cons qs pss =>
    rcases List.mem_cons.1 hps with rfl | hps
    · exact htable ▸ h.latest ps rfl
    · exact h.earlier ps hps

/-- One more line keeps this, whether it is blank, joined or begins a logical line. -/
theorem step (h : Joined base read p pieces) (text : Text) :
    ∃ pieces', Joined base (read ++ [text])
      (p.statementStep (base + 1 + read.length) text) pieces' := by
  rcases Progress.statementStep_cases p (base + 1 + read.length) text with
    ⟨hblank, hstep⟩ | ⟨hblank, line, before, hlines, hjoined, hstep⟩ | ⟨hblank, hnew, hstep⟩
  · rw [hstep]
    exact ⟨pieces, h.parts.drop hblank, h.latest, h.earlier⟩
  · have hparts := h.parts
    rw [hlines] at hparts
    cases pieces with
    | nil => cases hparts.joined
    | cons ps pss =>
      rw [hstep]
      refine ⟨_, hparts.extend hblank, ?_, h.earlier⟩
      rintro _ ⟨⟩
      exact (h.latest ps rfl).append hjoined
  · have hall : ∀ ps ∈ pieces, IsJoin false ps := by
      rcases hnew with hnil | ⟨htable, -⟩
      · have hjoined := h.parts.joined
        rw [hnil, List.forall₂_nil_right_iff] at hjoined
        simp [hjoined]
      · exact h.all htable
    rw [hstep]
    refine ⟨_, h.parts.begin hblank, ?_, hall⟩
    rintro _ ⟨⟩
    exact isJoin_alone _

/-- A whole run keeps this. -/
theorem statements (h : Joined base read p pieces) (lines : List Text) :
    ∃ pieces', Joined base (read ++ lines)
      (p.statements (base + 1 + read.length) lines) pieces' := by
  induction lines generalizing read p pieces with
  | nil => exact ⟨pieces, by simpa [Progress.statements] using h⟩
  | cons text rest ih =>
    obtain ⟨pieces', h'⟩ := h.step text
    have hrest := ih h'
    rw [List.length_append, List.append_assoc] at hrest
    exact hrest

end Joined

namespace Outline

variable {base : Nat} {lines : List Text} {o : Outline} {pieces : List (List LogicalLine)}

/-- Every logical line is a line and what may be joined to it. -/
theorem exists_joins (h : (ofLines false base lines).result = .ok o) :
    ∃ pieces, o.Partition base lines pieces ∧ ∀ ps ∈ pieces, IsJoin false ps := by
  have hstart : Joined base [] Progress.start [] := ⟨Parts.start base, by simp, by simp⟩
  obtain ⟨pieces, hjoined⟩ := hstart.statements lines
  obtain ⟨htable, ho⟩ := ofLines_eager_eq_ok.1 h
  refine ⟨pieces.reverse, .of_parts h ?_, fun ps hps => ?_⟩
  · have hstubs : (Progress.start.statements (base + 1) lines).stubs = [] :=
      Progress.stubs_statements _ _ _
    have hparts := hjoined.parts
    rw [List.nil_append] at hparts
    rw [ho, List.reverse_reverse, List.reverse_nil, ← hstubs]
    exact hparts
  · exact hjoined.all htable ps (List.mem_reverse.1 hps)

end Outline

/-! ## The pieces are unique -/

theorem pairwise_numbered (n : Nat) (lines : List Text) :
    (numbered n lines).Pairwise fun l l' => l.number < l'.number := by
  induction lines generalizing n with
  | nil => exact .nil
  | cons text rest ih =>
    refine .cons (fun l hl => ?_) (ih (n + 1))
    exact (bounds_of_mem_numbered hl).1

/-- The lines before one of several numbered lines are those with smaller numbers. -/
theorem filter_number_lt {before after : List LogicalLine} {l : LogicalLine}
    (h : (before ++ l :: after).Pairwise fun l l' => l.number < l'.number) :
    (before ++ l :: after).filter (·.number < l.number) = before := by
  obtain ⟨-, hafter, hbefore⟩ := List.pairwise_append.1 h
  have hrest : ∀ l' ∈ l :: after, ¬ l'.number < l.number := by
    intro l' hl'
    rcases List.mem_cons.1 hl' with rfl | hl'
    · omega
    · have := (List.pairwise_cons.1 hafter).1 l' hl'
      omega
  rw [List.filter_append, List.filter_eq_self.2 fun l' hl' => ?_,
    List.filter_eq_nil_iff.2 (by simpa using hrest), List.append_nil]
  simpa using hbefore l' hl' l List.mem_cons_self

/-- Numbered lines are cut in one way only into pieces of given logical lines. -/
theorem pieces_unique {pieces pieces' : List (List LogicalLine)} {ls : List LogicalLine}
    (h : List.Forall₂ LogicalLine.IsJoined pieces ls)
    (h' : List.Forall₂ LogicalLine.IsJoined pieces' ls)
    (horder : pieces.flatten.Pairwise fun l l' => l.number < l'.number)
    (hflatten : pieces.flatten = pieces'.flatten) : pieces = pieces' := by
  induction h generalizing pieces' with
  | nil => cases h'; rfl
  | @cons ps line pss ls hline hlines ih =>
    cases h' with
    | @cons ps' _ pss' _ hline' hlines' =>
      obtain ⟨first, more, rfl, rfl⟩ := hline
      obtain ⟨first', more', rfl, heq⟩ := hline'
      simp only [List.flatten_cons, List.cons_append, List.cons.injEq] at hflatten
      obtain ⟨rfl, hrest⟩ := hflatten
      have horder' : (more ++ pss.flatten).Pairwise fun l l' => l.number < l'.number :=
        (List.pairwise_cons.1 horder).2
      have hmore : more = more' := by
        cases hlines with
        | nil =>
          cases hlines'
          simpa using hrest
        | cons hnext =>
          cases hlines' with
          | cons hnext' =>
            -- the next logical line begins at the same place in both
            obtain ⟨next, _, rfl, rfl⟩ := hnext
            obtain ⟨next', _, rfl, hline'⟩ := hnext'
            have hnumber : next.number = next'.number := by
              simpa [LogicalLine.joined] using congrArg LogicalLine.number hline'
            simp only [List.flatten_cons, List.cons_append] at horder' hrest
            have hfirst := filter_number_lt horder'
            rw [hrest] at horder' hfirst
            rw [hnumber] at hfirst
            exact hfirst.symm.trans (filter_number_lt horder')
      subst hmore
      have hflatten : pss.flatten = pss'.flatten := List.append_cancel_left hrest
      rw [ih hlines' (List.pairwise_append.1 horder').2.1 hflatten]

/-- There is only one way to tell of which lines an outline is made. -/
theorem Outline.Partition.unique {base : Nat} {lines : List Text} {o : Outline}
    {pieces pieces' : List (List LogicalLine)} (h : o.Partition base lines pieces)
    (h' : o.Partition base lines pieces') : pieces = pieces' := by
  refine pieces_unique h.joined h'.joined ?_ (h.rest.trans h'.rest.symm)
  rw [h.rest]
  exact (pairwise_numbered _ _).filter _

/-! ## Brackets -/

/-- The lines together hold more opening than closing brackets. -/
def BracketsOpen (ls : List LogicalLine) : Prop :=
  (ls.flatMap LogicalLine.text).count ']' < (ls.flatMap LogicalLine.text).count '['

instance : DecidablePred BracketsOpen := fun _ => inferInstanceAs (Decidable (_ < _))

/-- The brackets are closed by a line that does not begin with the bracket. -/
def ClosedAmid (ls : List LogicalLine) : Prop :=
  ∃ before l after, ls = before ++ l :: after ∧ BracketsOpen before ∧
    ¬ BracketsOpen (before ++ [l]) ∧ closesTable l.text = false

section
variable {first : LogicalLine} {more ls : List LogicalLine} {inTable : Bool}

theorem bracketsOpen_of_opensTable (h : opensTable first.text = true) : BracketsOpen [first] := by
  have hcount := (Bool.and_eq_true_iff.1 h).2
  simpa [BracketsOpen] using hcount

theorem ClosedAmid.append (h : ClosedAmid ls) (l : LogicalLine) : ClosedAmid (ls ++ [l]) := by
  obtain ⟨before, l', after, rfl, hopen⟩ := h
  exact ⟨before, l', after ++ [l], by simp, hopen⟩

/-- A line that does not end a table either leaves brackets open or closes them amid itself. -/
theorem bracketsOpen_or_closedAmid {l : LogicalLine} (h : BracketsOpen ls)
    (hl : closesTable l.text = false) : BracketsOpen (ls ++ [l]) ∨ ClosedAmid (ls ++ [l]) := by
  by_cases hopen : BracketsOpen (ls ++ [l])
  · exact Or.inl hopen
  · exact Or.inr ⟨ls, l, [], rfl, h, hopen, hl⟩

/-- While a table is open, so are its brackets, unless a line closes them amid itself. -/
theorem Joins.brackets (h : Joins first more inTable) (hopen : inTable = true) :
    BracketsOpen (first :: more) ∨ ClosedAmid (first :: more) := by
  induction h with
  | alone => exact Or.inl (bracketsOpen_of_opensTable hopen)
  | row _ hl ih =>
    rcases ih rfl with hbrackets | hamid
    · exact bracketsOpen_or_closedAmid hbrackets hl
    · exact Or.inr (hamid.append _)
  | last | destinations => cases hopen

/-- A list and one more element, split: in front of the last element or further to the front. -/
theorem split_concat {α : Type} {as before after : List α} {a b : α}
    (h : as ++ [a] = before ++ b :: after) :
    (as = before ∧ a = b) ∨ ∃ after', as = before ++ b :: after' := by
  rcases List.eq_nil_or_concat after with rfl | ⟨after', c, rfl⟩
  · left
    simpa using List.append_inj' h rfl
  · right
    rw [List.concat_eq_append, ← List.cons_append, ← List.append_assoc] at h
    exact ⟨after', (List.append_inj' h rfl).1⟩

/-- What is joined to lines whose brackets are closed. The induction is over the lines that
    are joined, and only the last of them is new in each case. -/
theorem Joins.brackets_before (h : Joins first more inTable)
    {before after : List LogicalLine} {next : LogicalLine} (hne : before ≠ [])
    (hsplit : first :: more = before ++ next :: after) :
    BracketsOpen before ∨ ClosedAmid before ∨ isDestinations next.text = true := by
  induction h generalizing after with
  | alone =>
    have hlength := congrArg List.length hsplit
    have := List.length_pos_of_ne_nil hne
    simp only [List.length_append, List.length_cons, List.length_nil] at hlength
    omega
  | row h _ ih | last h _ ih =>
    rw [← List.cons_append] at hsplit
    rcases split_concat hsplit with ⟨rfl, -⟩ | ⟨after', hbefore⟩
    · exact (h.brackets rfl).imp_right Or.inl
    · exact ih hbefore
  | destinations _ hl ih =>
    rw [← List.cons_append] at hsplit
    rcases split_concat hsplit with ⟨-, rfl⟩ | ⟨after', hbefore⟩
    · exact Or.inr (Or.inr hl)
    · exact ih hbefore

end

namespace Outline

/-- Lines are joined to the line of a `switch` only while its brackets are open. -/
def HeldOpen (base : Nat) (lines : List Text) : Prop :=
  ∀ o pieces, (ofLines false base lines).result = .ok o → o.Partition base lines pieces →
    ∀ first more, first :: more ∈ pieces →
      (first.text.afterSpaces?.any (Text.startsWith · "switch ")) = true →
      ∀ before next after, before ≠ [] → first :: more = before ++ next :: after →
        BracketsOpen before

/-- **Joining stops where the brackets are closed.** Whenever one more line is joined, the
    lines before it hold more opening than closing brackets, unless their brackets were
    closed by a line that does not begin with the bracket, or the new line begins with
    destinations. -/
theorem joined_while_open {base : Nat} {lines : List Text} {o : Outline}
    {pieces : List (List LogicalLine)} (h : (ofLines false base lines).result = .ok o)
    (hpieces : o.Partition base lines pieces) :
    ∀ ps ∈ pieces, ∀ before next after, before ≠ [] → ps = before ++ next :: after →
      BracketsOpen before ∨ ClosedAmid before ∨ isDestinations next.text = true := by
  obtain ⟨pieces', hpieces', hjoins⟩ := exists_joins h
  obtain rfl := hpieces.unique hpieces'
  intro ps hps before next after hne hsplit
  obtain ⟨first, more, rfl, hmore⟩ := hjoins ps hps
  exact hmore.brackets_before hne hsplit

/-- A table as it is printed, and a statement behind it. -/
theorem joined_while_open_of_table :
    let table : List Text := ["  switch i32 %x, label %d [", "    i32 0, label %a", "  ]"]
    let lines : List Text := table ++ ["  ret void".toList]
    let o : Outline := ⟨[⟨"  switch i32 %x, label %d [ i32 0, label %a ]", 1⟩,
      ⟨"  ret void", 4⟩], []⟩
    let pieces := [numbered 1 table, [⟨"  ret void", 4⟩]]
    (ofLines false 0 lines).result = .ok o ∧ o.Partition 0 lines pieces ∧
      ∀ ps ∈ pieces, ∀ before next after, before ≠ [] → ps = before ++ next :: after →
        BracketsOpen before ∨ ClosedAmid before ∨ isDestinations next.text = true := by
  intro table lines o pieces
  have h : (ofLines false 0 lines).result = .ok o := by decide +kernel
  have hpieces : o.Partition 0 lines pieces := by
    refine ⟨by simp [o], .nil, ?_, by decide, by simp [o]⟩
    exact .cons ⟨_, _, rfl, by decide⟩ (.cons ⟨_, [], rfl, by decide⟩ .nil)
  exact ⟨h, hpieces, joined_while_open h hpieces⟩

/-- The bracket behind the last case does not end the table, so that all is joined up to the
    end of the next one. And destinations are joined to a table that has ended. -/
theorem not_heldOpen :
    ¬ HeldOpen 0 ["  switch i32 %x, label %d [", "    i32 0, label %a ]", "  ret void",
      "  switch i32 %y, label %e [", "  ]"] ∧
    ¬ HeldOpen 0 ["  switch i32 %x, label %d [ ]", "  to label %a"] := by
  constructor
  · intro h
    let table : List Text := ["  switch i32 %x, label %d [", "    i32 0, label %a ]"]
    let rest : List Text := ["  ret void", "  switch i32 %y, label %e [", "  ]"]
    let line : Text :=
      "  switch i32 %x, label %d [ i32 0, label %a ] ret void switch i32 %y, label %e [ ]"
    have hresult : (ofLines false 0 (table ++ rest)).result = .ok ⟨[⟨line, 1⟩], []⟩ := by
      decide +kernel
    have hpieces : Partition 0 (table ++ rest) ⟨[⟨line, 1⟩], []⟩ [numbered 1 (table ++ rest)] :=
      ⟨by simp, .nil, .cons ⟨_, _, rfl, by decide⟩ .nil, by decide, by simp⟩
    have hopen : BracketsOpen (numbered 1 table) :=
      h _ _ hresult hpieces _ _ List.mem_cons_self (by decide) _ _ _ (by decide) rfl
    exact absurd hopen (by decide)
  · intro h
    let table : Text := "  switch i32 %x, label %d [ ]"
    let rest : Text := "  to label %a"
    let line : Text := "  switch i32 %x, label %d [ ] to label %a"
    have hresult : (ofLines false 0 [table, rest]).result = .ok ⟨[⟨line, 1⟩], []⟩ := by
      decide +kernel
    have hpieces : Partition 0 [table, rest] ⟨[⟨line, 1⟩], []⟩ [numbered 1 [table, rest]] :=
      ⟨by simp, .nil, .cons ⟨_, _, rfl, by decide⟩ .nil, by decide, by simp⟩
    have hopen : BracketsOpen (numbered 1 [table]) :=
      h _ _ hresult hpieces _ _ List.mem_cons_self (by decide) _ _ _ (by decide) rfl
    exact absurd hopen (by decide)

end Outline

end LlvmAsm
