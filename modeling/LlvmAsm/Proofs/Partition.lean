/-
  The partition of a source: what becomes of each of its lines.

  A source line is set aside with a stub, or is a piece of a logical line, or is
  blank and dropped. `Outline.Partition` says how the stubs and the logical lines of
  an outline are made of the source lines, and `Outline.partition` that every
  outline is made so, and that every source line has exactly one fate.

  `Parts` is the same for the lines read so far. Each of the four things that can
  happen to the lines that come next keeps it (`Parts.drop`, `Parts.begin`,
  `Parts.extend`, `Parts.setAside`).
-/
import LlvmAsm.Proofs.Deferral
import Mathlib.Data.List.Forall2
import Mathlib.Data.List.Nodup

namespace LlvmAsm

open Reading

/-! ## Source lines -/

/-- Source lines with their numbers, the first of which is `n`. A source line is like a
    logical line of a single piece. -/
def numbered (n : Nat) : List Text → List LogicalLine
  | [] => []
  | text :: rest => ⟨text, n⟩ :: numbered (n + 1) rest

theorem numbered_append (n : Nat) (lines lines' : List Text) :
    numbered n (lines ++ lines') = numbered n lines ++ numbered (n + lines.length) lines' := by
  induction lines generalizing n with
  | nil => rfl
  | cons text rest ih =>
    rw [List.cons_append, numbered, numbered, ih, List.length_cons, List.cons_append,
      Nat.add_assoc, Nat.add_comm 1]

theorem bounds_of_mem_numbered {n : Nat} {lines : List Text} {l : LogicalLine}
    (h : l ∈ numbered n lines) : n ≤ l.number ∧ l.number < n + lines.length := by
  induction lines generalizing n with
  | nil => cases h
  | cons text rest ih =>
    rw [List.length_cons]
    rcases List.mem_cons.1 h with rfl | h
    · dsimp only
      omega
    · have := ih h
      omega

theorem nodup_numbered (n : Nat) (lines : List Text) : (numbered n lines).Nodup := by
  induction lines generalizing n with
  | nil => exact List.nodup_nil
  | cons text rest ih =>
    refine List.nodup_cons.2 ⟨fun h => ?_, ih (n + 1)⟩
    have := (bounds_of_mem_numbered h).1
    dsimp only at this
    omega

/-! ## What a source is made of -/

namespace Stub

/-- The source lines of the stub. -/
def sourceLines (s : Stub) : List LogicalLine := numbered s.number s.lines

/-- The stub holds lines of the source that follows line `base`, as they stand there: from
    the line that begins a definition through the first one that ends it. -/
structure IsSlice (base : Nat) (lines : List Text) (s : Stub) : Prop where
  place : ∃ before after, lines = before ++ s.lines ++ after ∧
    s.number = base + before.length + 1
  shape : ∃ first body last, s.lines = first :: (body ++ [last]) ∧
    opensFunction first = true ∧ (∀ text ∈ body, closesFunction text = false) ∧
    closesFunction last = true

theorem IsSlice.append {base : Nat} {lines : List Text} {s : Stub} (h : s.IsSlice base lines)
    (more : List Text) : s.IsSlice base (lines ++ more) := by
  obtain ⟨before, after, rfl, hnumber⟩ := h.place
  exact ⟨⟨before, after ++ more, by simp, hnumber⟩, h.shape⟩

theorem IsSlice.end_le {base : Nat} {lines : List Text} {s : Stub} (h : s.IsSlice base lines) :
    s.number + s.lines.length ≤ base + 1 + lines.length := by
  obtain ⟨before, after, rfl, hnumber⟩ := h.place
  simp only [List.length_append]
  omega

end Stub

/-- The logical line that begins with one source line, as it stands, and goes on with
    others, each of them trimmed and after a blank. It has the number of the first one. -/
def LogicalLine.joined (first : LogicalLine) (more : List LogicalLine) : LogicalLine :=
  ⟨first.text ++ more.flatMap fun l => ' ' :: Text.trim l.text, first.number⟩

/-- The logical line is joined from these source lines, one or more. -/
def LogicalLine.IsJoined (pieces : List LogicalLine) (line : LogicalLine) : Prop :=
  ∃ first more, pieces = first :: more ∧ line = joined first more

/-- The line is neither blank nor set aside. -/
def inStatement (stubs : List Stub) (l : LogicalLine) : Bool :=
  !Text.allBlank l.text && stubs.all fun s => l ∉ s.sourceLines

/-- What can become of a source line. -/
inductive Fate where
  /-- it is set aside, with the stub at the given index -/
  | aside (stub : Nat)
  /-- it is a piece of the logical line at the given index -/
  | piece (statement : Nat)
  /-- it is blank and left out -/
  | dropped
deriving DecidableEq, Repr

namespace Outline

/-- How the outline is made of the source lines that follow line `base`. The logical lines
    are joined from `pieces`, one list for each of them. -/
structure Partition (base : Nat) (lines : List Text) (o : Outline)
    (pieces : List (List LogicalLine)) : Prop where
  /-- stubs are slices of the source … -/
  slices : ∀ s ∈ o.stubs, s.IsSlice base lines
  /-- … one after the other -/
  apart : o.stubs.Pairwise fun s s' => s.number + s.lines.length ≤ s'.number
  joined : List.Forall₂ LogicalLine.IsJoined pieces o.lines
  /-- the pieces are all the other lines that are not blank, in the order of the source -/
  rest : pieces.flatten = (numbered (base + 1) lines).filter (inStatement o.stubs)
  increasing : o.lines.Pairwise fun l l' => l.number < l'.number

/-- The fate of a source line in an outline whose logical lines have the given pieces. -/
def HasFate (o : Outline) (pieces : List (List LogicalLine)) (l : LogicalLine) : Fate → Prop
  | .aside i => ∃ s, o.stubs[i]? = some s ∧ l ∈ s.sourceLines
  | .piece i => ∃ ps, pieces[i]? = some ps ∧ l ∈ ps
  | .dropped => Text.allBlank l.text = true ∧ ∀ s ∈ o.stubs, l ∉ s.sourceLines

end Outline

/-! ## The lines read so far -/

/-- How logical lines and stubs, the latest first, are made of the lines read so far. -/
structure Parts (base : Nat) (read : List Text) (lines : List LogicalLine) (stubs : List Stub)
    (pieces : List (List LogicalLine)) : Prop where
  slices : ∀ s ∈ stubs, s.IsSlice base read
  apart : stubs.Pairwise fun s s' => s'.number + s'.lines.length ≤ s.number
  joined : List.Forall₂ LogicalLine.IsJoined pieces lines
  rest : pieces.reverse.flatten = (numbered (base + 1) read).filter (inStatement stubs)

namespace Parts

variable {base : Nat} {read : List Text} {lines : List LogicalLine} {stubs : List Stub}
  {pieces : List (List LogicalLine)}

theorem start (base : Nat) : Parts base [] [] [] [] := ⟨by simp, .nil, .nil, rfl⟩

/-- A line after all stubs is in a statement unless it is blank. -/
theorem inStatement_next (h : Parts base read lines stubs pieces) (text : Text) :
    inStatement stubs ⟨text, base + 1 + read.length⟩ = !Text.allBlank text := by
  have hall : (stubs.all fun s => ⟨text, base + 1 + read.length⟩ ∉ s.sourceLines) = true := by
    refine List.all_eq_true.2 fun s hs => decide_eq_true fun hmem => ?_
    have hlt := (bounds_of_mem_numbered hmem).2
    have hle := (h.slices s hs).end_le
    dsimp only at hlt
    omega
  rw [inStatement, hall, Bool.and_true]

theorem rest_next (h : Parts base read lines stubs pieces) (text : Text) :
    (numbered (base + 1) (read ++ [text])).filter (inStatement stubs) =
      pieces.reverse.flatten ++
        if Text.allBlank text then [] else [⟨text, base + 1 + read.length⟩] := by
  rw [numbered_append, List.filter_append, h.rest]
  refine congrArg _ ?_
  rw [numbered, numbered, List.filter_singleton, h.inStatement_next]
  cases Text.allBlank text <;> rfl

/-- A blank line is dropped. -/
theorem drop (h : Parts base read lines stubs pieces) {text : Text}
    (hblank : Text.allBlank text = true) : Parts base (read ++ [text]) lines stubs pieces where
  slices s hs := (h.slices s hs).append _
  apart := h.apart
  joined := h.joined
  rest := by rw [h.rest_next, if_pos hblank, List.append_nil]

/-- A line begins a logical line. -/
theorem begin (h : Parts base read lines stubs pieces) {text : Text}
    (hblank : Text.allBlank text = false) :
    Parts base (read ++ [text]) (⟨text, base + 1 + read.length⟩ :: lines) stubs
      ([⟨text, base + 1 + read.length⟩] :: pieces) where
  slices s hs := (h.slices s hs).append _
  apart := h.apart
  joined := .cons ⟨_, [], rfl, by simp [LogicalLine.joined]⟩ h.joined
  rest := by simp [h.rest_next, hblank]

/-- A line goes on with the logical line before. -/
theorem extend {line : LogicalLine} {ps : List LogicalLine} {pss : List (List LogicalLine)}
    (h : Parts base read (line :: lines) stubs (ps :: pss)) {text : Text}
    (hblank : Text.allBlank text = false) :
    Parts base (read ++ [text]) (Progress.extend line text :: lines) stubs
      ((ps ++ [⟨text, base + 1 + read.length⟩]) :: pss) := by
  obtain ⟨hslices, hapart, hjoined, hrest⟩ := id h
  obtain ⟨hline, hlines⟩ := List.forall₂_cons.1 hjoined
  obtain ⟨first, more, rfl, rfl⟩ := hline
  refine ⟨fun s hs => (hslices s hs).append _, hapart, .cons ?_ hlines, ?_⟩
  · refine ⟨first, more ++ [⟨text, base + 1 + read.length⟩], rfl, ?_⟩
    simp [Progress.extend, LogicalLine.joined]
  · simp [h.rest_next, hblank]

/-- The lines of a definition are set aside. -/
theorem setAside (h : Parts base read lines stubs pieces) {s : Stub}
    (hs : s.IsSlice base (read ++ s.lines)) (hnumber : s.number = base + read.length + 1) :
    Parts base (read ++ s.lines) lines (s :: stubs) pieces where
  slices := List.forall_mem_cons.2 ⟨hs, fun s' hs' => (h.slices s' hs').append _⟩
  apart := by
    refine List.pairwise_cons.2 ⟨fun s' hs' => ?_, h.apart⟩
    have := (h.slices s' hs').end_le
    omega
  joined := h.joined
  rest := by
    have hbefore : (numbered (base + 1) read).filter (inStatement (s :: stubs)) =
        (numbered (base + 1) read).filter (inStatement stubs) := by
      refine List.filter_congr fun l hl => ?_
      have hout : l ∉ s.sourceLines := fun hmem => by
        have := (bounds_of_mem_numbered hl).2
        have := (bounds_of_mem_numbered hmem).1
        omega
      simp [inStatement, hout]
    have hinside : (numbered (base + 1 + read.length) s.lines).filter
        (inStatement (s :: stubs)) = [] := by
      rw [Nat.add_right_comm, ← hnumber]
      refine List.filter_eq_nil_iff.2 fun l hl => ?_
      have hin : l ∈ s.sourceLines := hl
      simp [inStatement, hin]
    rw [numbered_append, List.filter_append, hbefore, hinside, List.append_nil, h.rest]

end Parts

namespace Progress

/-- The lines begin a definition and do not end it. -/
def IsUnfinished (lines : List Text) : Prop :=
  ∃ first body, lines = first :: body ∧ opensFunction first = true ∧
    ∀ text ∈ body, closesFunction text = false

/-- What the progress has made of the lines read so far. If a definition is open, its lines
    come after those that are made use of. -/
inductive Divides (base : Nat) (read : List Text) (p : Progress) : Prop where
  | outside {pieces : List (List LogicalLine)} (function : p.function = none)
      (h : Parts base read p.lines p.stubs pieces)
  | inside {pieces : List (List LogicalLine)} {f : OpenFunction} {before : List Text}
      (function : p.function = some f) (read : read = before ++ f.lines.reverse)
      (number : f.number = base + before.length + 1) (unfinished : IsUnfinished f.lines.reverse)
      (h : Parts base before p.lines p.stubs pieces)

theorem closesFunction_of_opens {text : Text} (h : opensFunction text = true) :
    closesFunction text = false := by
  obtain ⟨rest, hrest⟩ := Option.isSome_iff_exists.1 h
  rw [Text.after?_eq_some_iff.1 hrest]
  rfl

section
variable {base : Nat} {read : List Text} {p : Progress}

theorem divides_start (base : Nat) : Divides base [] start := .outside rfl (Parts.start base)

/-- A line that is not set aside. -/
theorem divides_statementStep {pieces : List (List LogicalLine)} (hfunction : p.function = none)
    (h : Parts base read p.lines p.stubs pieces) (text : Text) :
    Divides base (read ++ [text]) (p.statementStep (base + 1 + read.length) text) := by
  rcases statementStep_cases p (base + 1 + read.length) text with
    ⟨hblank, hstep⟩ | ⟨hblank, line, before, hlines, -, hstep⟩ | ⟨hblank, -, hstep⟩
  · rw [hstep]
    exact .outside hfunction (h.drop hblank)
  · rw [hstep]
    rw [hlines] at h
    cases pieces with
    | nil => cases h.joined
    | cons ps pss => exact .outside hfunction (h.extend hblank)
  · rw [hstep]
    exact .outside hfunction (h.begin hblank)

/-- A line of a definition, which may be its first or its last one. -/
theorem divides_functionStep {before : List Text} {pieces : List (List LogicalLine)}
    (h : Parts base before p.lines p.stubs pieces) {f : OpenFunction}
    (hnumber : f.number = base + before.length + 1) {text : Text}
    (hgoes : closesFunction text = false → IsUnfinished (f.lines.reverse ++ [text]))
    (hends : closesFunction text = true → IsUnfinished f.lines.reverse) :
    (p.functionStep f text).Ensures (fun _ => True) fun p' _ =>
      Divides base (before ++ f.lines.reverse ++ [text]) p' := by
  refine ensures_of_ok fun p' hp' => ?_
  rcases functionStep_cases hp' with ⟨hcloses, -, rfl⟩ | ⟨hcloses, s, hs, hlines, -, rfl⟩
  · refine .inside rfl ?_ hnumber ?_ h
    · simp
    · simpa using hgoes hcloses
  · rw [List.reverse_cons] at hlines
    obtain ⟨first, body, hbody, hopens, hno⟩ := hends hcloses
    have hslice : s.IsSlice base (before ++ s.lines) := by
      refine ⟨⟨before, [], by simp, hs.trans hnumber⟩, first, body, text, ?_, hopens, hno, hcloses⟩
      rw [hlines, hbody, List.cons_append]
    rw [List.append_assoc, ← hlines]
    exact .outside rfl (h.setAside hslice (hs.trans hnumber))

theorem Divides.step (h : Divides base read p) (deferred : Bool) (text : Text) :
    (p.step deferred (base + 1 + read.length) text).Ensures (fun _ => True) fun p' _ =>
      Divides base (read ++ [text]) p' := by
  unfold Progress.step
  cases h with
  | outside function h =>
    rw [function]
    dsimp only
    split
    · -- the definition begins with this line
      rename_i hopens
      have hopens : opensFunction text = true := (Bool.and_eq_true_iff.1 hopens).2
      have hcloses := closesFunction_of_opens hopens
      have hstep := divides_functionStep h (f := ⟨base + 1 + read.length, []⟩)
        (Nat.add_right_comm base 1 _)
        (fun _ : closesFunction text = false => ⟨text, [], rfl, hopens, by simp⟩)
        (fun h => by rw [hcloses] at h; cases h)
      simpa using hstep
    · exact divides_statementStep function h text
  | inside function hread number unfinished h =>
    rw [function, hread]
    refine divides_functionStep h number (fun hcloses => ?_) fun _ => unfinished
    obtain ⟨first, body, hbody, hopens, hno⟩ := unfinished
    refine ⟨first, body ++ [text], by rw [hbody, List.cons_append], hopens, ?_⟩
    exact List.forall_mem_append.2 ⟨hno, List.forall_mem_singleton.2 hcloses⟩

theorem Divides.run (h : Divides base read p) (deferred : Bool) (lines : List Text) :
    (p.run deferred (base + 1 + read.length) lines).Ensures (fun _ => True) fun p' _ =>
      Divides base (read ++ lines) p' := by
  induction lines generalizing p read with
  | nil => simpa [Progress.run] using h
  | cons text rest ih =>
    refine (h.step deferred text).bind fun p' _ h' => ?_
    have hrest := ih h'
    rw [List.length_append, List.append_assoc] at hrest
    exact hrest

end

end Progress

/-! ## The whole source -/

namespace Outline

variable {base : Nat} {lines : List Text} {o : Outline} {pieces : List (List LogicalLine)}

/-- What all lines are made into at the end, the latest first, is a partition. -/
theorem Partition.of_parts {deferred : Bool}
    (h : (Outline.ofLines deferred base lines).result = .ok o)
    (hparts : Parts base lines o.lines.reverse o.stubs.reverse pieces) :
    o.Partition base lines pieces.reverse := by
  have hnumbered := (ensures_numbered_ofLines deferred base lines).ok h
  refine ⟨?_, ?_, ?_, ?_, hnumbered.increasing⟩
  · exact fun s hs => hparts.slices s (List.mem_reverse.2 hs)
  · exact List.pairwise_reverse.1 hparts.apart
  · rw [← List.reverse_reverse o.lines]
    exact List.forall₂_reverse_iff.2 hparts.joined
  · rw [hparts.rest]
    refine List.filter_congr fun l _ => ?_
    rw [inStatement, inStatement, List.all_reverse]

/-- An outline is made of the lines that were read. -/
theorem exists_partition {deferred : Bool}
    (h : (Outline.ofLines deferred base lines).result = .ok o) :
    ∃ pieces, o.Partition base lines pieces := by
  have hparts : (Outline.ofLines deferred base lines).Ensures (fun _ => True) fun o _ =>
      ∃ pieces, Parts base lines o.lines.reverse o.stubs.reverse pieces := by
    refine ((Progress.divides_start base).run deferred lines).bind fun p _ hp => ?_
    refine (ensures_ofExcept fun _ _ => trivial).mono fun o _ ho => ?_
    obtain ⟨hfunction, -, rfl⟩ := Progress.finish_eq_ok.1 ho
    rw [List.reverse_reverse, List.reverse_reverse]
    cases hp with
    | outside _ h => exact ⟨_, h⟩
    | inside function => rw [hfunction] at function; cases function
  obtain ⟨pieces, hpieces⟩ := hparts.ok h
  exact ⟨pieces.reverse, .of_parts h hpieces⟩

/-- At most one member of a list has a property that no two members share. -/
theorem index_unique {α : Type} {l : List α} {P : α → Prop}
    (h : l.Pairwise fun a b => ¬ (P a ∧ P b)) {i j : Nat} {a b : α} (hi : l[i]? = some a)
    (hj : l[j]? = some b) (ha : P a) (hb : P b) : i = j := by
  obtain ⟨hilt, rfl⟩ := List.getElem?_eq_some_iff.1 hi
  obtain ⟨hjlt, rfl⟩ := List.getElem?_eq_some_iff.1 hj
  rcases Nat.lt_trichotomy i j with hij | rfl | hij
  · exact absurd ⟨ha, hb⟩ (List.pairwise_iff_getElem.1 h i j hilt hjlt hij)
  · rfl
  · exact absurd ⟨hb, ha⟩ (List.pairwise_iff_getElem.1 h j i hjlt hilt hij)

namespace Partition

variable (h : o.Partition base lines pieces) {l : LogicalLine}
include h

/-- No two stubs share a source line. -/
theorem stubs_disjoint (l : LogicalLine) :
    o.stubs.Pairwise fun s s' => ¬ (l ∈ s.sourceLines ∧ l ∈ s'.sourceLines) := by
  refine h.apart.imp fun hle ⟨hs, hs'⟩ => ?_
  have := (bounds_of_mem_numbered hs).2
  have := (bounds_of_mem_numbered hs').1
  omega

/-- No two logical lines share a source line. -/
theorem pieces_disjoint (l : LogicalLine) :
    pieces.Pairwise fun ps ps' => ¬ (l ∈ ps ∧ l ∈ ps') := by
  have hnodup : pieces.flatten.Nodup := by
    rw [h.rest]
    exact (nodup_numbered _ _).filter _
  exact (List.nodup_flatten.1 hnodup).2.imp fun hdisjoint ⟨hl, hl'⟩ => hdisjoint hl hl'

/-- A line is a piece of some logical line iff it is neither blank nor set aside. -/
theorem mem_pieces_iff :
    (∃ ps ∈ pieces, l ∈ ps) ↔
      l ∈ numbered (base + 1) lines ∧ Text.allBlank l.text = false ∧
        ∀ s ∈ o.stubs, l ∉ s.sourceLines := by
  rw [← List.mem_flatten, h.rest, List.mem_filter, inStatement, Bool.and_eq_true_iff,
    List.all_eq_true, Bool.not_eq_true']
  simp only [decide_eq_true_eq]

/-- A piece is neither blank nor set aside. -/
theorem of_piece {i : Nat} (hfate : o.HasFate pieces l (.piece i)) :
    Text.allBlank l.text = false ∧ ∀ s ∈ o.stubs, l ∉ s.sourceLines := by
  obtain ⟨ps, hps, hl⟩ := hfate
  exact (h.mem_pieces_iff.1 ⟨ps, List.mem_of_getElem? hps, hl⟩).2

/-- Every source line has a fate. -/
theorem exists_fate (hl : l ∈ numbered (base + 1) lines) : ∃ fate, o.HasFate pieces l fate := by
  by_cases haside : ∃ s ∈ o.stubs, l ∈ s.sourceLines
  · obtain ⟨s, hs, hls⟩ := haside
    obtain ⟨i, hi⟩ := List.mem_iff_getElem?.1 hs
    exact ⟨.aside i, s, hi, hls⟩
  have hout : ∀ s ∈ o.stubs, l ∉ s.sourceLines := fun s hs hls => haside ⟨s, hs, hls⟩
  cases hblank : Text.allBlank l.text with
  | true => exact ⟨.dropped, hblank, hout⟩
  | false =>
    obtain ⟨ps, hps, hlps⟩ := h.mem_pieces_iff.2 ⟨hl, hblank, hout⟩
    obtain ⟨i, hi⟩ := List.mem_iff_getElem?.1 hps
    exact ⟨.piece i, ps, hi, hlps⟩

/-- No source line has two fates. -/
theorem fate_unique {fate fate' : Fate} (hfate : o.HasFate pieces l fate)
    (hfate' : o.HasFate pieces l fate') : fate = fate' := by
  cases fate with
  | aside i =>
    obtain ⟨s, hs, hl⟩ := hfate
    have hmem := List.mem_of_getElem? hs
    cases fate' with
    | aside j =>
      obtain ⟨s', hs', hl'⟩ := hfate'
      rw [index_unique (h.stubs_disjoint l) hs hs' hl hl']
    | piece j => exact absurd hl ((h.of_piece hfate').2 s hmem)
    | dropped => exact absurd hl (hfate'.2 s hmem)
  | piece i =>
    have hpiece := h.of_piece hfate
    cases fate' with
    | aside j =>
      obtain ⟨s', hs', hl'⟩ := hfate'
      exact absurd hl' (hpiece.2 s' (List.mem_of_getElem? hs'))
    | piece j =>
      obtain ⟨ps, hps, hl⟩ := hfate
      obtain ⟨ps', hps', hl'⟩ := hfate'
      rw [index_unique (h.pieces_disjoint l) hps hps' hl hl']
    | dropped =>
      have hblank := hfate'.1
      rw [hpiece.1] at hblank
      cases hblank
  | dropped =>
    cases fate' with
    | aside j =>
      obtain ⟨s', hs', hl'⟩ := hfate'
      exact absurd hl' (hfate.2 s' (List.mem_of_getElem? hs'))
    | piece j =>
      have hblank := hfate.1
      rw [(h.of_piece hfate').1] at hblank
      cases hblank
    | dropped => rfl

end Partition

/-- **An outline is a partition of its source.** The stubs are slices of the source, one
    after the other, each from the beginning of a definition through its end. The logical
    lines are joined from all the other lines that are not blank, in the order of the
    source. So every source line is set aside with exactly one stub, is a piece of exactly
    one logical line, or is blank and left out. Without deferral there are no stubs. -/
theorem partition_ofLines {deferred : Bool} {base : Nat} {lines : List Text} {o : Outline}
    (h : (ofLines deferred base lines).result = .ok o) :
    (∃ pieces, o.Partition base lines pieces ∧
      ∀ l ∈ numbered (base + 1) lines, ∃! fate, o.HasFate pieces l fate) ∧
    (deferred = false → o.stubs = []) := by
  constructor
  · obtain ⟨pieces, hpieces⟩ := exists_partition h
    refine ⟨pieces, hpieces, fun l hl => ?_⟩
    obtain ⟨fate, hfate⟩ := hpieces.exists_fate hl
    exact ⟨fate, hfate, fun fate' hfate' => hpieces.fate_unique hfate' hfate⟩
  · rintro rfl
    obtain ⟨-, rfl⟩ := ofLines_eager_eq_ok.1 h
    rfl

/-- A function amid the table of a `switch`, with blank lines inside and outside of it. -/
theorem partition_ofLines_of_switch :
    let function : List Text := ["define void @f(i32 %a) \x7b", "", "  ret void", "\x7d"]
    let table : List Text := ["", "    i32 0, label %a  ", "  ]"]
    let lines : List Text :=
      "@g = global i32 0" :: "  switch i32 %x, label %d [" :: (function ++ table)
    let o : Outline := ⟨[⟨"@g = global i32 0", 11⟩,
      ⟨"  switch i32 %x, label %d [ i32 0, label %a ]", 12⟩],
      [⟨"@f", [.scalar "i32" "%a" false], false, 13, function⟩]⟩
    (ofLines true 10 lines).result = .ok o ∧
      (∃ pieces, o.Partition 10 lines pieces ∧
        ∀ l ∈ numbered 11 lines, ∃! fate, o.HasFate pieces l fate) ∧
      ¬ ∃ o', (ofLines true 10 (lines.take 5)).result = .ok o' := by
  intro function table lines o
  have h : (ofLines true 10 lines).result = .ok o := by decide +kernel
  refine ⟨h, (partition_ofLines h).1, ?_⟩
  rintro ⟨o', ho'⟩
  have hopen : (ofLines true 10 (lines.take 5)).result = .error ⟨13, .openFunction⟩ := by
    decide +kernel
  rw [hopen] at ho'
  cases ho'

end Outline

end LlvmAsm
