/-
  Deferral: what it changes to set functions aside.

  The lines of a source are followed twice: once with the functions set aside,
  and once with their lines taken like all others. `Tracks` relates the two
  states, and every line keeps it (`Tracks.step`). In the end, the logical lines
  of the second run are those of the first one and those of the stubs, in the
  order of the source (`Outline.ofLines_of_deferred`).

  This needs the lines outside of functions to be plain: an indented line might
  go on with the last line of the function before it. It also needs every stub
  to be read without failure, since a table that is left open in a function
  would swallow the lines after it.
-/
import LlvmAsm.Proofs.Listing

namespace LlvmAsm

open Reading

/-! ## Plain lines -/

/-- The line is blank or does not begin with a space. -/
def IsPlain (text : Text) : Prop := Text.allBlank text = true ∨ text.head? ≠ some ' '

/-- Every line outside of functions is plain; a function is open before the
    lines, or none is. -/
def PlainOutside (inside : Bool) : List Text → Prop
  | [] => True
  | text :: rest =>
    ((inside || opensFunction text) = false → IsPlain text) ∧
      PlainOutside ((inside || opensFunction text) && !closesFunction text) rest

instance decidablePlainOutside (inside : Bool) (lines : List Text) :
    Decidable (PlainOutside inside lines) :=
  match lines with
  | [] => inferInstanceAs (Decidable True)
  | text :: rest =>
    have : Decidable (IsPlain text) := inferInstanceAs (Decidable (_ ∨ _))
    have := decidablePlainOutside ((inside || opensFunction text) && !closesFunction text) rest
    inferInstanceAs (Decidable (_ ∧ _))

theorem afterSpaces?_eq_none {text : Text} (h : text.head? ≠ some ' ') :
    text.afterSpaces? = none := by
  unfold Text.afterSpaces?
  split
  · exact absurd rfl h
  · rfl

theorem isDestinations_eq_false {text : Text} (h : text.head? ≠ some ' ') :
    isDestinations text = false := by
  rw [isDestinations, afterSpaces?_eq_none h]
  rfl

theorem opensTable_eq_false {text : Text} (h : text.head? ≠ some ' ') :
    opensTable text = false := by
  rw [opensTable, afterSpaces?_eq_none h]
  rfl

theorem head?_of_opensFunction {text : Text} (h : opensFunction text = true) :
    text.head? = some 'd' := by
  obtain ⟨rest, hrest⟩ := Option.isSome_iff_exists.1 h
  rw [Text.after?_eq_some_iff.1 hrest]
  rfl

theorem not_allBlank_of_opensFunction {text : Text} (h : opensFunction text = true) :
    Text.allBlank text = false := by
  obtain ⟨rest, hrest⟩ := Option.isSome_iff_exists.1 h
  rw [Text.after?_eq_some_iff.1 hrest]
  rfl

/-! ## Stubs -/

namespace Stub

/-- The types that are met when the function is set aside. -/
def headerTypes (s : Stub) : List Text := (ofLines s.number s.lines).noted

/-- The state after the lines of the function, if they are taken like others. -/
def progress (s : Stub) : Progress := Progress.start.statements (s.number - 1 + 1) s.lines

/-- The logical lines of the function. -/
def outline (s : Stub) : List LogicalLine := s.progress.lines.reverse

/-- A stub holds the lines that it was made of. -/
theorem of_ofLines {number : Nat} {lines : List Text} {s : Stub}
    (h : (ofLines number lines).result = .ok s) : s.number = number ∧ s.lines = lines := by
  obtain ⟨first, -, h⟩ := exists_of_bind_ok h
  obtain ⟨header, -, h⟩ := exists_of_bind_ok h
  cases h
  exact ⟨rfl, rfl⟩

/-- The first line begins the definition of a function. -/
def Opens (lines : List Text) : Prop :=
  ∃ first rest, lines = first :: rest ∧ opensFunction first = true

/-- The stub is made of the lines of a function with their place in the source. -/
def IsPlaced (s : Stub) : Prop := 0 < s.number ∧ Opens s.lines

/-- What it takes to read a function that was set aside. -/
structure Reads (s : Stub) (nodes : List Node) : Prop where
  table : s.progress.inTable = false
  readable : ∀ line ∈ s.outline, line.IsReadable
  nodes : nodes = s.outline.filterMap LogicalLine.node?
  noted : s.nodes.noted = s.outline.flatMap LogicalLine.noted

theorem reads_of_nodes {s : Stub} {nodes : List Node}
    (h : s.nodes.result = .ok nodes) : s.Reads nodes := by
  obtain ⟨l, hl, rfl⟩ := exists_of_map_ok h
  obtain ⟨o, ho, hreadable⟩ := Listing.readable_of_ofLines hl
  obtain ⟨hresult, hnoted⟩ := Listing.ofLines_of_readable ho hreadable
  obtain ⟨htable, rfl⟩ := Outline.ofLines_eager_eq_ok.1 ho
  rw [hl, Except.ok.injEq] at hresult
  rw [Outline.ofLines_eager, noted_ofExcept, List.nil_append] at hnoted
  refine ⟨htable, hreadable, ?_, ?_⟩
  · rw [hresult]
    rfl
  · rw [Stub.nodes, noted_map, hnoted]
    rfl

end Stub

/-! ## Steps with deferral -/

namespace Progress

/-- The definition that a line belongs to, if it is to be set aside. -/
def functionAt (p : Progress) (n : Nat) (text : Text) : Option OpenFunction :=
  match p.function with
  | some f => some f
  | none => if opensFunction text then some ⟨n, []⟩ else none

theorem isSome_functionAt (p : Progress) (n : Nat) (text : Text) :
    (p.functionAt n text).isSome = (p.function.isSome || opensFunction text) := by
  unfold functionAt
  cases p.function with
  | some f => rfl
  | none => cases opensFunction text <;> simp

theorem step_deferred (p : Progress) (n : Nat) (text : Text) :
    p.step true n text =
      match p.functionAt n text with
      | some f => p.functionStep f text
      | none => pure (p.statementStep n text) := by
  unfold step functionAt
  cases p.function with
  | some f => rfl
  | none => cases opensFunction text <;> simp

/-- **All that a line of a function does that is set aside**: it is kept, or ends
    the function. -/
theorem functionStep_cases {p p' : Progress} {f : OpenFunction} {text : Text}
    (h : (p.functionStep f text).result = .ok p') :
    (closesFunction text = false ∧ (p.functionStep f text).noted = [] ∧
      p' = { p with function := some ⟨f.number, text :: f.lines⟩ }) ∨
    (closesFunction text = true ∧ ∃ s : Stub, s.number = f.number ∧
      s.lines = (text :: f.lines).reverse ∧ (p.functionStep f text).noted = s.headerTypes ∧
      p' = { p with stubs := s :: p.stubs, function := none }) := by
  unfold functionStep at h ⊢
  dsimp only at h ⊢
  cases hcloses : closesFunction text with
  | false =>
    rw [hcloses, if_neg (by decide)] at h
    cases h
    exact Or.inl ⟨rfl, rfl, rfl⟩
  | true =>
    rw [hcloses, if_pos rfl] at h
    obtain ⟨s, hs, h⟩ := exists_of_bind_ok h
    cases h
    obtain ⟨hnumber, hlines⟩ := Stub.of_ofLines hs
    refine Or.inr ⟨rfl, s, hnumber, hlines, ?_, rfl⟩
    rw [if_pos rfl, noted_bind_ok hs, noted_pure, List.append_nil, Stub.headerTypes, hnumber,
      hlines]

/-- The types met when functions were set aside, in order. -/
def headerTypes (p : Progress) : List Text := p.stubs.reverse.flatMap Stub.headerTypes

/-- Stubs are only added, and all that is noted is noted for them. -/
theorem ensures_step_deferred (p : Progress) (n : Nat) (text : Text) :
    (p.step true n text).Ensures (fun _ => True) fun p' ns =>
      p.stubs <:+ p'.stubs ∧ p'.headerTypes = p.headerTypes ++ ns := by
  rw [step_deferred]
  cases p.functionAt n text with
  | none => simp [headerTypes]
  | some f =>
    refine ensures_of_ok fun p' h => ?_
    rcases functionStep_cases h with ⟨-, hnoted, rfl⟩ | ⟨-, s, -, -, hnoted, rfl⟩
    · rw [hnoted, List.append_nil]
      exact ⟨List.suffix_refl _, rfl⟩
    · rw [hnoted]
      exact ⟨List.suffix_cons s _, by simp [headerTypes]⟩

theorem ensures_run_deferred (p : Progress) (n : Nat) (lines : List Text) :
    (p.run true n lines).Ensures (fun _ => True) fun p' ns =>
      p.stubs <:+ p'.stubs ∧ p'.headerTypes = p.headerTypes ++ ns := by
  induction lines generalizing p n with
  | nil => exact ⟨List.suffix_refl _, (List.append_nil _).symm⟩
  | cons text rest ih =>
    refine (ensures_step_deferred p n text).bind fun p' ns ⟨hstubs, hnoted⟩ => ?_
    refine (ih p' (n + 1)).mono fun p'' ms ⟨hstubs', hnoted'⟩ => ⟨hstubs.trans hstubs', ?_⟩
    rw [hnoted', hnoted, List.append_assoc]

/-! ## Both runs -/

/-- The logical lines of stubs, the latest first. -/
def bodies (stubs : List Stub) : List LogicalLine := stubs.flatMap fun s => s.progress.lines

/-- No function is open: the logical lines of `q` are those of `p` and those of
    its stubs, which stand in the same order. -/
structure Matches (p q : Progress) : Prop where
  stubs : q.stubs = []
  function : q.function = none
  table : p.inTable = false ∧ q.inTable = false
  perm : q.lines.Perm (p.lines ++ bodies p.stubs)
  sublist : (bodies p.stubs).Sublist q.lines
  placed : ∀ s ∈ p.stubs, s.IsPlaced

/-- `p` is the state before line `n` with functions set aside, and `q` the state
    without. If a function is open, then `q` is ahead by its lines. -/
inductive Tracks (n : Nat) (p q : Progress) : Prop where
  | outside (function : p.function = none) (h : Matches p q)
  | inside {f : OpenFunction} {q₀ : Progress} (function : p.function = some f)
      (h : Matches p q₀) (ahead : q = q₀.statements f.number f.lines.reverse)
      (number : 0 < f.number ∧ f.number + f.lines.length = n)
      (opens : Stub.Opens f.lines.reverse)

theorem matches_start : Matches start start :=
  ⟨rfl, rfl, ⟨rfl, rfl⟩, List.Perm.refl _, List.Sublist.refl _, by simp [start]⟩

/-- A plain line is a logical line of its own, or blank. -/
theorem statementStep_of_plain {p : Progress} (htable : p.inTable = false) {text : Text}
    (hplain : IsPlain text) (n : Nat) :
    p.statementStep n text =
      { p with lines := (if Text.allBlank text then [] else [⟨text, n⟩]) ++ p.lines } := by
  rcases statementStep_cases p n text with
    ⟨hblank, hstep⟩ | ⟨hblank, line, before, -, h, -⟩ | ⟨hblank, -, hstep⟩
  · rw [hstep, if_pos hblank]
    rfl
  · have hhead := hplain.resolve_left (by simp [hblank])
    rw [htable, isDestinations_eq_false hhead] at h
    simp at h
  · have hhead := hplain.resolve_left (by simp [hblank])
    rw [hstep, opensTable_eq_false hhead, if_neg (by simp [hblank]), ← htable]
    rfl

/-- A plain line does the same in both runs. -/
theorem Matches.statementStep {p q : Progress} (h : Matches p q) (n : Nat) {text : Text}
    (hplain : IsPlain text) : Matches (p.statementStep n text) (q.statementStep n text) := by
  rw [statementStep_of_plain h.table.1 hplain, statementStep_of_plain h.table.2 hplain]
  refine ⟨h.stubs, h.function, h.table, ?_, h.sublist.trans (List.sublist_append_right _ _),
    h.placed⟩
  dsimp only
  rw [List.append_assoc]
  exact h.perm.append_left _

theorem startsAnew_of_opens {lines : List Text} (h : Stub.Opens lines) : StartsAnew lines := by
  obtain ⟨first, rest, rfl, hopens⟩ := h
  intro text htext
  have hblank := not_allBlank_of_opensFunction hopens
  obtain rfl : first = text := by simpa [hblank] using htext
  refine isDestinations_eq_false ?_
  rw [head?_of_opensFunction hopens]
  decide

/-- At its end, a function is set aside in one run, and its lines have been
    taken in the other one. -/
theorem Matches.push {p q : Progress} (h : Matches p q) {s : Stub} (hplaced : s.IsPlaced)
    (hs : s.progress.inTable = false) :
    Matches { p with stubs := s :: p.stubs, function := none }
      (q.statements s.number s.lines) := by
  have hq := eq_after_start h.stubs h.function h.table.2
  have hlines : q.statements s.number s.lines = s.progress.after q.lines := by
    rw [hq, statements_after _ grounded_start (Or.inr (startsAnew_of_opens hplaced.2)),
      Stub.progress, Nat.sub_add_cancel hplaced.1]
    rfl
  rw [hlines]
  refine ⟨?_, ?_, ⟨h.table.1, hs⟩, ?_, ?_, List.forall_mem_cons.2 ⟨hplaced, h.placed⟩⟩
  · exact stubs_statements start _ s.lines
  · exact function_statements start _ s.lines
  · refine (h.perm.append_left s.progress.lines).trans ?_
    change (s.progress.lines ++ (p.lines ++ bodies p.stubs)).Perm
      (p.lines ++ (s.progress.lines ++ bodies p.stubs))
    rw [← List.append_assoc, ← List.append_assoc]
    exact List.perm_append_comm.append_right _
  · exact (List.Sublist.refl _).append h.sublist

/-- A line that belongs to a function: the first run keeps it, and the second
    run takes it. -/
theorem Tracks.functionAt {n : Nat} {p q : Progress} {text : Text} (h : Tracks n p q)
    (hn : 0 < n) {f : OpenFunction} (hf : p.functionAt n text = some f) :
    ∃ q₀, Matches p q₀ ∧
      q.statementStep n text = q₀.statements f.number (text :: f.lines).reverse ∧
      (0 < f.number ∧ f.number + f.lines.length = n) ∧
      Stub.Opens (text :: f.lines).reverse := by
  unfold Progress.functionAt at hf
  cases h with
  | outside function h =>
    rw [function] at hf
    dsimp only at hf
    split at hf
    · rename_i hopens
      cases hf
      exact ⟨q, h, rfl, ⟨hn, rfl⟩, text, [], rfl, hopens⟩
    · cases hf
  | inside function h ahead number opens =>
    rw [function] at hf
    cases hf
    obtain ⟨first, rest, hlines, hopens⟩ := opens
    refine ⟨_, h, ?_, number, first, rest ++ [text], ?_, hopens⟩
    · rw [ahead, List.reverse_cons, statements_append, List.length_reverse, number.2]
      rfl
    · rw [List.reverse_cons, hlines, List.cons_append]

/-- **A line keeps the two runs together**, if no stub leaves a table open. -/
theorem Tracks.step {n : Nat} {p p' q : Progress} {text : Text} (h : Tracks n p q) (hn : 0 < n)
    (hplain : (p.function.isSome || opensFunction text) = false → IsPlain text)
    (hstep : (p.step true n text).result = .ok p')
    (hclosed : ∀ s ∈ p'.stubs, s.progress.inTable = false) :
    Tracks (n + 1) p' (q.statementStep n text) ∧
      p'.function.isSome =
        ((p.function.isSome || opensFunction text) && !closesFunction text) := by
  rw [step_deferred] at hstep
  rw [← isSome_functionAt p n text] at hplain ⊢
  cases hf : p.functionAt n text with
  | none =>
    rw [hf] at hplain hstep
    cases hstep
    have hnone : p.function = none := by
      have := isSome_functionAt p n text
      rw [hf] at this
      simpa using (Bool.or_eq_false_iff.1 this.symm).1
    cases h with
    | outside _ h =>
      refine ⟨.outside ?_ (h.statementStep n (hplain rfl)), ?_⟩
      · rw [function_statementStep, hnone]
      · rw [function_statementStep, hnone]
        rfl
    | inside function => rw [hnone] at function; cases function
  | some f =>
    rw [hf] at hstep
    obtain ⟨q₀, hmatches, hq, ⟨hpos, hlength⟩, hopens⟩ := h.functionAt hn hf
    rcases functionStep_cases hstep with ⟨hcloses, -, rfl⟩ | ⟨hcloses, s, hnumber, hs, -, rfl⟩
    · rw [hcloses]
      refine ⟨.inside rfl ⟨hmatches.stubs, hmatches.function, hmatches.table, hmatches.perm,
        hmatches.sublist, hmatches.placed⟩ hq ⟨hpos, ?_⟩ hopens, rfl⟩
      rw [List.length_cons, ← Nat.add_assoc, hlength]
    · rw [hcloses, hq, ← hnumber, ← hs]
      refine ⟨.outside rfl (hmatches.push ⟨?_, ?_⟩ (hclosed s List.mem_cons_self)), rfl⟩
      · rw [hnumber]
        exact hpos
      · rw [hs]
        exact hopens

/-- The two runs stay together over several lines. -/
theorem Tracks.run {n : Nat} {p p' q : Progress} {lines : List Text} (h : Tracks n p q)
    (hn : 0 < n) (hplain : PlainOutside p.function.isSome lines)
    (hrun : (p.run true n lines).result = .ok p')
    (hclosed : ∀ s ∈ p'.stubs, s.progress.inTable = false) :
    Tracks (n + lines.length) p' (q.statements n lines) := by
  induction lines generalizing n p q with
  | nil =>
    cases hrun
    exact h
  | cons text rest ih =>
    obtain ⟨htext, hrest⟩ := hplain
    obtain ⟨p₁, hstep, hrun⟩ := exists_of_bind_ok hrun
    have hstubs := ((ensures_run_deferred p₁ (n + 1) rest).ok hrun).1
    obtain ⟨hnext, hfunction⟩ := h.step hn htext hstep fun s hs => hclosed s (hstubs.subset hs)
    rw [← hfunction] at hrest
    have := ih hnext (Nat.succ_pos n) hrest hrun
    rwa [List.length_cons, Nat.add_comm rest.length, ← Nat.add_assoc]

end Progress

/-- **An outline with functions set aside**, if no stub leaves a table open: the
    outline without deferral is made of its logical lines and of those of the
    stubs, which stay in order. -/
theorem Outline.ofLines_of_deferred {base : Nat} {lines : List Text} {o : Outline}
    (hplain : PlainOutside false lines)
    (ho : (Outline.ofLines true base lines).result = .ok o)
    (hclosed : ∀ s ∈ o.stubs, s.progress.inTable = false) :
    (Outline.ofLines true base lines).noted = o.stubs.flatMap Stub.headerTypes ∧
      (∀ s ∈ o.stubs, s.IsPlaced) ∧
      ∃ o', (Outline.ofLines false base lines).result = .ok o' ∧ o'.stubs = [] ∧
        o'.lines.Perm (o.lines ++ o.stubs.flatMap Stub.outline) ∧
        (o.stubs.flatMap Stub.outline).Sublist o'.lines := by
  obtain ⟨p, hrun, hfinish⟩ := exists_of_bind_ok ho
  obtain ⟨-, hnoted⟩ := (Progress.ensures_run_deferred _ _ lines).ok hrun
  obtain ⟨hfunction, htable, rfl⟩ := Progress.finish_eq_ok.1 hfinish
  have hstart : Progress.Tracks (base + 1) Progress.start Progress.start :=
    .outside rfl Progress.matches_start
  have htracks := hstart.run (Nat.succ_pos base) hplain hrun fun s hs =>
    hclosed s (List.mem_reverse.2 hs)
  cases htracks with
  | inside function => rw [hfunction] at function; cases function
  | outside _ h =>
    have hbodies : p.stubs.reverse.flatMap Stub.outline =
        (Progress.bodies p.stubs).reverse := List.reverse_flatMap.symm
    refine ⟨?_, fun s hs => h.placed s (List.mem_reverse.1 hs), ⟨_, []⟩,
      Outline.ofLines_eager_eq_ok.2 ⟨h.table.2, rfl⟩, rfl, ?_, ?_⟩
    · rw [Outline.ofLines, noted_bind_ok hrun, liftM_eq, noted_ofExcept, List.append_nil]
      exact hnoted.symm
    · rw [hbodies]
      refine (List.reverse_perm _).trans (h.perm.trans ?_)
      exact (List.reverse_perm _).symm.append (List.reverse_perm _).symm
    · rw [hbodies]
      exact h.sublist.reverse

end LlvmAsm
