/-
  Laws of lexemes: the pass over a line as a stack machine.

  The pass counts the open enclosers of each kind, so it takes `[(])` for one
  group. What it cannot see shows in the inside `(]` of that group: a text is
  balanced iff the pass over it finds no fault and every group that it finds is
  balanced inside (`balanced_iff_cut`).

  * `Scan.Outside` and `Scan.Inside` relate the state of the pass to the stack
    of open enclosers, and `Scan.Stuck` says that no text can complete the group
    that is open; there is one lemma for each kind of character;
  * `Scan.accepts_iff_clears` follows the pass and the stack machine through a
    whole text;
  * `inside_of_mem_cut`: the inside of a group is a shorter piece of the text.
-/
import LlvmAsm.Proofs.Token.Nesting
import LlvmAsm.Token.Lexeme
import Mathlib.Tactic.SplitIfs

namespace LlvmAsm

/-! ## The state of the pass and the stack -/

/-- The inside of a group. -/
def Lexeme.inside? : Lexeme → Option Text
  | comma => none
  | run c t => (Encloser.ofOpener? c).map fun _ => t.dropLast

/-- The lexeme is no group, or a group with a balanced inside. -/
def Lexeme.Sound (l : Lexeme) : Prop := ∀ t ∈ l.inside?, Balanced t

theorem Lexeme.sound_of_inside? {l : Lexeme} (h : l.inside? = none) : l.Sound := by
  simp [Sound, h]

/-- The numbers of open enclosers if those on the stack are open. -/
def Depths.ofStack (stack : List Encloser) : Depths := stack.foldr (fun e d => d.raise e) .zero

/-- What is opened is closed again, and is none of the other kinds. -/
theorem Depths.lower?_raise (d : Depths) {c : Char} {e : Encloser}
    (h : Encloser.ofCloser? c = some e) : (d.raise e).lower? e = some d := by
  have hbrace : e ≠ .brace := by
    rintro rfl
    simp only [Encloser.ofCloser?] at h
    split_ifs at h <;> cases h
  cases e with
  | bracket | paren | angle => simp [raise, lower?]
  | brace => exact absurd rfl hbrace

theorem Depths.lower?_raise_zero_of_ne {e e' : Encloser} (h : e ≠ e') :
    (zero.raise e).lower? e' = none := by
  cases e <;> cases e' <;> first | rfl | exact absurd rfl h

namespace Scan

/-- No encloser is open. The unfinished run does not begin with an opener, and
    holds the quote that is open, if there is one. -/
structure Outside (s : Scan) : Prop where
  depths : s.depths = .zero
  total : s.total = 0
  first : ∀ c ∈ s.held.getLast?, Encloser.ofOpener? c = none
  held : s.quoted = true → s.held ≠ []

/-- The unfinished run is a group that is enclosed by `e` and begins with
    `inside`. -/
def Opened (s : Scan) (e : Encloser) (inside : Text) : Prop :=
  ∃ c, Encloser.ofOpener? c = some e ∧ s.pending = c :: inside

/-- In the group that is open, the enclosers of the stack are open. -/
structure Inside (s : Scan) (e : Encloser) (inside : Text) (stack : List Encloser) : Prop where
  depths : s.depths = .ofStack (stack ++ [e])
  total : s.total = stack.length + 1
  opened : s.Opened e inside
  stack : unwind [] (marks inside) = some stack
  quoted : s.quoted = quotedAfter false inside

/-- In the group that is open, a closer was of the wrong kind. -/
structure Stuck (s : Scan) (e : Encloser) (inside : Text) : Prop where
  total : s.total ≠ 0
  opened : s.Opened e inside
  stack : unwind [] (marks inside) = none

theorem outside_start : Outside start := ⟨rfl, rfl, by simp [start], by simp [start]⟩

/-! ### The effect of a character -/

variable {s : Scan} {c : Char}

theorem step_of_opener {e : Encloser} (h : mark? s.quoted c = some (.opener e)) :
    s.step c = .ok (s.openGroup c e) := by
  obtain ⟨hquoted, hm, hc⟩ := of_mark? h
  have hopener := Mark.of?_eq_opener.1 hm
  simp only [List.mem_cons, List.not_mem_nil, or_false, not_or] at hc
  simp [step, hc, hquoted, hopener]

theorem step_of_closer {e : Encloser} (h : mark? s.quoted c = some (.closer e)) :
    s.step c = s.closeGroup c e := by
  obtain ⟨hquoted, hm, hc⟩ := of_mark? h
  obtain ⟨hopener, hcloser⟩ := Mark.of?_eq_closer.1 hm
  simp only [List.mem_cons, List.not_mem_nil, or_false, not_or] at hc
  simp [step, hc, hquoted, hopener, hcloser]

/-- In a group, a character that is no mark is held. -/
theorem step_of_plain (htotal : s.total ≠ 0) (h : mark? s.quoted c = none) :
    s.step c = .ok ([], { s.hold c with quoted := quotedBy s.quoted c }) := by
  have hfree : s.isFree = false := by simp [isFree, htotal]
  unfold step quotedBy
  split
  · rename_i hquote
    simp [quote, htotal, hold, hquote]
  · rename_i hquote
    simp only [hfree, Bool.false_eq_true, if_false]
    split
    · rfl
    · split
      · rfl
      · split
        · rfl
        · rename_i hquoted
          unfold mark? at h
          rw [if_neg hquoted] at h
          obtain ⟨hopener, hcloser⟩ := Mark.of?_eq_none.1 h
          rw [hopener, hcloser]
          rfl

theorem Outside.hold (hs : s.Outside) (hc : Encloser.ofOpener? c = none ∨ s.quoted = true)
    (quoted : Bool) : Outside { s.hold c with quoted := quoted } := by
  refine ⟨hs.depths, hs.total, fun a ha => ?_, fun _ => List.cons_ne_nil _ _⟩
  change a ∈ (c :: s.held).getLast? at ha
  cases hheld : s.held with
  | nil =>
    rw [hheld] at ha
    obtain rfl : c = a := by simpa using ha
    exact hc.resolve_right fun hq => hs.held hq hheld
  | cons b t =>
    rw [hheld, List.getLast?_cons_cons] at ha
    exact hs.first a (hheld ▸ ha)

theorem Outside.restart (hs : s.Outside) : Outside { s.restart [] with quoted := false } :=
  ⟨hs.depths, hs.total, by simp [Scan.restart], by simp⟩

/-- What is held outside of enclosers is no group. -/
theorem Outside.inside?_released (hs : s.Outside) : ∀ l ∈ s.released, l.inside? = none := by
  intro l hl
  cases hp : s.pending with
  | nil => simp [released, hp, Lexeme.ofText] at hl
  | cons c t =>
    obtain rfl : l = .run c t := by simpa [released, hp, Lexeme.ofText] using hl
    have hfirst : c ∈ s.held.getLast? := by
      rw [← List.head?_reverse, show s.held.reverse = c :: t from hp]
      rfl
    simp [Lexeme.inside?, hs.first c hfirst]

theorem Outside.quote (hs : s.Outside) :
    (∀ l ∈ s.quote.1, l.inside? = none) ∧ s.quote.2.Outside ∧ s.quote.2.quoted = !s.quoted := by
  have hquote : Encloser.ofOpener? '"' = none := by decide
  unfold Scan.quote
  rw [if_neg (not_not.2 hs.total)]
  cases hquoted : s.quoted with
  | true =>
    rw [if_pos rfl]
    refine ⟨(hs.hold (Or.inl hquote) s.quoted).inside?_released, ?_, rfl⟩
    exact hs.restart
  | false =>
    rw [if_neg (by decide)]
    split
    · exact ⟨by simp, hs.hold (Or.inl hquote) true, rfl⟩
    · refine ⟨hs.inside?_released, ?_, rfl⟩
      exact hs.restart.hold (Or.inl hquote) true

/-- Outside of enclosers, a character that is no mark completes no group. -/
theorem Outside.step_of_plain (hs : s.Outside) (h : mark? s.quoted c = none) :
    ∃ done s', s.step c = .ok (done, s') ∧ (∀ l ∈ done, l.inside? = none) ∧ s'.Outside ∧
      s'.quoted = quotedBy s.quoted c := by
  have hheld : Encloser.ofOpener? c = none ∨ s.quoted = true → c ≠ '"' →
      (s.hold c).Outside ∧ (s.hold c).quoted = quotedBy s.quoted c := fun hc hquote =>
    ⟨hs.hold hc s.quoted, (if_neg hquote).symm⟩
  have hrestart : s.isFree = true → c ≠ '"' →
      (s.restart []).Outside ∧ (s.restart []).quoted = quotedBy s.quoted c := fun hfree hquote => by
    have hquoted : s.quoted = false := by simpa [isFree, hs.total] using hfree
    refine ⟨?_, (if_neg hquote).symm⟩
    have := hs.restart
    rwa [← hquoted] at this
  unfold step
  split
  · rename_i hquote
    obtain ⟨hsound, hnext, hquoted⟩ := hs.quote
    exact ⟨s.quote.1, s.quote.2, rfl, hsound, hnext, by rw [hquoted, quotedBy, if_pos hquote]⟩
  · rename_i hquote
    split
    · rename_i hblank
      have hopener : Encloser.ofOpener? c = none := by rcases hblank with rfl | rfl <;> decide
      split
      · rename_i hfree
        exact ⟨_, _, rfl, hs.inside?_released, hrestart hfree hquote⟩
      · exact ⟨_, _, rfl, by simp, hheld (Or.inl hopener) hquote⟩
    · split
      · rename_i hcomma
        have hopener : Encloser.ofOpener? c = none := by rw [hcomma]; decide
        split
        · rename_i hfree
          refine ⟨_, _, rfl, fun l hl => ?_, hrestart hfree hquote⟩
          rcases List.mem_append.1 hl with hl | hl
          · exact hs.inside?_released l hl
          · rw [List.mem_singleton.1 hl]
            rfl
        · exact ⟨_, _, rfl, by simp, hheld (Or.inl hopener) hquote⟩
      · split
        · rename_i hquoted
          exact ⟨_, _, rfl, by simp, hheld (Or.inr hquoted) hquote⟩
        · rename_i hquoted
          unfold mark? at h
          rw [if_neg hquoted] at h
          obtain ⟨hopener, hcloser⟩ := Mark.of?_eq_none.1 h
          rw [hopener, hcloser]
          exact ⟨_, _, rfl, by simp, hheld (Or.inl hopener) hquote⟩

/-- An opener begins a group. -/
theorem Outside.step_of_opener (hs : s.Outside) {e : Encloser}
    (h : mark? s.quoted c = some (.opener e)) :
    ∃ done s', s.step c = .ok (done, s') ∧ (∀ l ∈ done, l.inside? = none) ∧ s'.Inside e [] [] ∧
      s'.quoted = s.quoted := by
  obtain ⟨hquoted, hm, -⟩ := of_mark? h
  refine ⟨s.released, { s with held := [c], depths := s.depths.raise e, total := s.total + 1 },
    ?_, hs.inside?_released, ⟨?_, ?_, ⟨c, Mark.of?_eq_opener.1 hm, rfl⟩, rfl, hquoted⟩, rfl⟩
  · rw [Scan.step_of_opener h, Scan.openGroup, if_pos hs.total]
    rfl
  · rw [hs.depths]
    rfl
  · rw [hs.total]
    rfl

theorem Outside.step_of_closer (hs : s.Outside) {e : Encloser}
    (h : mark? s.quoted c = some (.closer e)) : s.step c = .error (.stray c) := by
  have hlower : s.depths.lower? e = none := by
    rw [hs.depths]
    cases e <;> rfl
  rw [Scan.step_of_closer h, Scan.closeGroup, hlower]

/-! ### In a group -/

variable {e : Encloser} {inside : Text} {stack : List Encloser}

theorem Opened.hold (h : s.Opened e inside) (c : Char) : (s.hold c).Opened e (inside ++ [c]) := by
  obtain ⟨c₀, hc₀, hpending⟩ := h
  refine ⟨c₀, hc₀, ?_⟩
  rw [pending, Scan.hold, List.reverse_cons, show s.held.reverse = _ from hpending,
    List.cons_append]

/-- The group is complete, and sound iff its inside is balanced. -/
theorem Opened.released (h : s.Opened e inside) (c : Char) :
    ∃ l, (s.hold c).released = [l] ∧ (l.Sound ↔ Balanced inside) := by
  obtain ⟨c₀, hc₀, hpending⟩ := h.hold c
  refine ⟨.run c₀ (inside ++ [c]), by rw [Scan.released, hpending, Lexeme.ofText], ?_⟩
  simp [Lexeme.Sound, Lexeme.inside?, hc₀]

theorem Inside.unwind (hs : s.Inside e inside stack) (c : Char) :
    LlvmAsm.unwind [] (marks (inside ++ [c])) =
      LlvmAsm.unwind stack (mark? s.quoted c).toList := by
  rw [marks_append_singleton, ← hs.quoted, unwind_append, hs.stack, Option.bind_some]

theorem Inside.quotedAfter (hs : s.Inside e inside stack) (c : Char) :
    quotedBy s.quoted c = LlvmAsm.quotedAfter false (inside ++ [c]) := by
  rw [quotedAfter_append, ← hs.quoted]
  rfl

theorem Inside.total_ne (hs : s.Inside e inside stack) : s.total ≠ 0 := by
  rw [hs.total]
  exact Nat.succ_ne_zero _

/-- A character that is no mark leaves the stack of a group as it is. -/
theorem Inside.hold (hs : s.Inside e inside stack) (h : mark? s.quoted c = none) :
    Inside { s.hold c with quoted := quotedBy s.quoted c } e (inside ++ [c]) stack where
  depths := hs.depths
  total := hs.total
  opened := hs.opened.hold c
  stack := by rw [hs.unwind, h]; rfl
  quoted := hs.quotedAfter c

/-- An opener in a group is a further encloser on the stack. -/
theorem Inside.step_of_opener (hs : s.Inside e inside stack) {e' : Encloser}
    (h : mark? s.quoted c = some (.opener e')) :
    ∃ s', s.step c = .ok ([], s') ∧ s'.Inside e (inside ++ [c]) (e' :: stack) ∧
      s'.quoted = s.quoted := by
  refine ⟨{ s.hold c with depths := s.depths.raise e', total := s.total + 1 }, ?_,
    ⟨?_, ?_, hs.opened.hold c, ?_, ?_⟩, rfl⟩
  · rw [Scan.step_of_opener h, Scan.openGroup, if_neg hs.total_ne]
    rfl
  · rw [hs.depths]
    rfl
  · rw [hs.total]
    rfl
  · rw [hs.unwind, h]
    rfl
  · rw [← hs.quotedAfter, quotedBy_of_mark? h]
    rfl

/-- The closer of the group completes it, and its inside is balanced. -/
theorem Inside.step_of_last (hs : s.Inside e inside [])
    (h : mark? s.quoted c = some (.closer e)) :
    ∃ done s', s.step c = .ok (done, s') ∧ (∀ l ∈ done, l.Sound) ∧ s'.Outside ∧
      s'.quoted = s.quoted := by
  obtain ⟨hquoted, hm, -⟩ := of_mark? h
  have hlower : s.depths.lower? e = some .zero := by
    rw [hs.depths]
    exact Depths.lower?_raise .zero (Mark.of?_eq_closer.1 hm).2
  have htotal : s.total - 1 = 0 := by simp [hs.total]
  have hbalanced : Balanced inside :=
    (balanced_iff_clears inside).2 ⟨hs.stack, hs.quoted.symm.trans hquoted⟩
  obtain ⟨l, hl, hsound⟩ := hs.opened.released c
  refine ⟨[l], { s with held := [], depths := .zero, total := 0 }, ?_, ?_, ?_, rfl⟩
  · rw [Scan.step_of_closer h, Scan.closeGroup, hlower]
    simp only [htotal, if_true]
    rw [← hl]
    rfl
  · simpa using hsound.2 hbalanced
  · exact ⟨rfl, rfl, by simp, by simp [hquoted]⟩

/-- A closer of the latest encloser closes it. -/
theorem Inside.step_of_latest {e' : Encloser} (hs : s.Inside e inside (e' :: stack))
    (h : mark? s.quoted c = some (.closer e')) :
    ∃ s', s.step c = .ok ([], s') ∧ s'.Inside e (inside ++ [c]) stack ∧
      s'.quoted = s.quoted := by
  obtain ⟨-, hm, -⟩ := of_mark? h
  have hlower : s.depths.lower? e' = some (.ofStack (stack ++ [e])) := by
    rw [hs.depths]
    exact Depths.lower?_raise _ (Mark.of?_eq_closer.1 hm).2
  have htotal : s.total - 1 = stack.length + 1 := by simp [hs.total]
  refine ⟨{ s.hold c with depths := .ofStack (stack ++ [e]), total := stack.length + 1 },
    ?_, ⟨rfl, rfl, hs.opened.hold c, ?_, ?_⟩, rfl⟩
  · rw [Scan.step_of_closer h, Scan.closeGroup, hlower]
    simp [htotal, Scan.hold]
  · rw [hs.unwind, h]
    simp [LlvmAsm.unwind]
  · rw [← hs.quotedAfter, quotedBy_of_mark? h]
    rfl

/-- A closer of another kind than the latest encloser is a fault, or nothing
    can complete the group any more. -/
theorem Inside.step_of_other {e₁ e₂ : Encloser} (hs : s.Inside e inside stack)
    (hstack : (stack ++ [e]).head? = some e₁) (hne : e₁ ≠ e₂)
    (h : mark? s.quoted c = some (.closer e₂)) :
    (∃ fault, s.step c = .error fault) ∨
      ∃ s', s.step c = .ok ([], s') ∧ s'.Stuck e (inside ++ [c]) := by
  rw [Scan.step_of_closer h]
  cases stack with
  | nil =>
    obtain rfl : e = e₁ := by simpa using hstack
    have hlower : s.depths.lower? e₂ = none := by
      rw [hs.depths]
      exact Depths.lower?_raise_zero_of_ne hne
    exact Or.inl ⟨.stray c, by rw [Scan.closeGroup, hlower]⟩
  | cons e' stack =>
    obtain rfl : e' = e₁ := by simpa using hstack
    have htotal : s.total - 1 ≠ 0 := by simp [hs.total]
    have hunwind : LlvmAsm.unwind [] (marks (inside ++ [c])) = none := by
      rw [hs.unwind, h]
      simp [LlvmAsm.unwind, hne]
    cases hlower : s.depths.lower? e₂ with
    | none => exact Or.inl ⟨.stray c, by rw [Scan.closeGroup, hlower]⟩
    | some depths =>
      refine Or.inr ⟨{ s.hold c with depths := depths, total := s.total - 1 }, ?_,
        htotal, hs.opened.hold c, hunwind⟩
      rw [Scan.closeGroup, hlower]
      simp [htotal, Scan.hold]

/-! ### Beyond repair -/

theorem Stuck.hold (hs : s.Stuck e inside) (c : Char) (quoted : Bool) :
    Stuck { s.hold c with quoted := quoted } e (inside ++ [c]) :=
  ⟨hs.total, hs.opened.hold c, by rw [marks_append_singleton, unwind_append, hs.stack]; rfl⟩

/-- Either nothing can complete the group, or it ends with an inside that is
    not balanced. -/
theorem Stuck.step (hs : s.Stuck e inside) {done : List Lexeme} {s' : Scan}
    (h : s.step c = .ok (done, s')) :
    (∃ l ∈ done, ¬ l.Sound) ∨ s'.Stuck e (inside ++ [c]) := by
  obtain ⟨htotal, hopened, hstack⟩ := hs.hold c s.quoted
  cases hm : mark? s.quoted c with
  | none =>
    rw [step_of_plain hs.total hm] at h
    cases h
    exact Or.inr (hs.hold c _)
  | some m =>
    cases m with
    | opener e' =>
      rw [step_of_opener hm, Scan.openGroup, if_neg hs.total] at h
      cases h
      exact Or.inr ⟨Nat.succ_ne_zero _, hopened, hstack⟩
    | closer e' =>
      rw [step_of_closer hm, Scan.closeGroup] at h
      cases hlower : s.depths.lower? e' with
      | none =>
        rw [hlower] at h
        cases h
      | some depths =>
        simp only [hlower] at h
        split at h
        · cases h
          obtain ⟨l, hl, hsound⟩ := hs.opened.released c
          refine Or.inl ⟨l, ?_, fun hl => ?_⟩
          · change l ∈ (s.hold c).released
            rw [hl]
            exact List.mem_singleton_self l
          · have hcleared := ((balanced_iff_clears inside).1 (hsound.1 hl)).1
            change unwind [] (marks inside) = _ at hcleared
            rw [hs.stack] at hcleared
            cases hcleared
        · rename_i hne
          cases h
          exact Or.inr ⟨hne, hopened, hstack⟩

/-! ## The whole pass -/

/-- The rest of the pass ends without a fault, and the insides of all groups
    are balanced. -/
def Accepts (s : Scan) (t : Text) : Prop :=
  (s.cutFrom t).2 = none ∧ ∀ l ∈ (s.cutFrom t).1, l.Sound

theorem not_accepts_of_error {fault : Fault} (h : s.step c = .error fault) (t : Text) :
    ¬ s.Accepts (c :: t) := by
  rintro ⟨hfault, -⟩
  rw [cutFrom, h] at hfault
  cases hfault

theorem accepts_cons_of_ok {done : List Lexeme} {s' : Scan} (h : s.step c = .ok (done, s'))
    (t : Text) : s.Accepts (c :: t) ↔ (∀ l ∈ done, l.Sound) ∧ s'.Accepts t := by
  unfold Accepts
  rw [cutFrom, h]
  simp only [List.mem_append]
  constructor
  · rintro ⟨hfault, hsound⟩
    exact ⟨fun l hl => hsound l (Or.inl hl), hfault, fun l hl => hsound l (Or.inr hl)⟩
  · rintro ⟨hdone, hfault, hsound⟩
    exact ⟨hfault, fun l hl => hl.elim (hdone l) (hsound l)⟩

theorem Stuck.not_accepts (hs : s.Stuck e inside) (t : Text) : ¬ s.Accepts t := by
  induction t generalizing s inside with
  | nil =>
    rintro ⟨hfault, -⟩
    rw [cutFrom, endFault?, if_pos hs.total] at hfault
    cases hfault
  | cons c t ih =>
    cases hstep : s.step c with
    | error fault => exact not_accepts_of_error hstep t
    | ok next =>
      obtain ⟨done, s'⟩ := next
      rw [accepts_cons_of_ok hstep]
      rintro ⟨hdone, haccepts⟩
      rcases hs.step hstep with ⟨l, hl, hunsound⟩ | hstuck
      · exact hunsound (hdone l hl)
      · exact ih hstuck haccepts

/-- **The pass accepts what clears the stack**, outside of enclosers and in a
    group. The induction is on the text; the stack is the invariant. -/
theorem accepts_iff_clears (t : Text) :
    (∀ s : Scan, s.Outside → (s.Accepts t ↔ Clears [] s.quoted t)) ∧
    (∀ (s : Scan) e inside stack, s.Inside e inside stack →
      (s.Accepts t ↔ Clears (stack ++ [e]) s.quoted t)) := by
  induction t with
  | nil =>
    refine ⟨fun s hs => ?_, fun s e inside stack hs => ?_⟩
    · unfold Accepts Clears
      rw [cutFrom, endFault?, if_neg (not_not.2 hs.total)]
      cases hquoted : s.quoted with
      | true => simp [quotedAfter]
      | false =>
        simpa [quotedAfter, marksFrom, LlvmAsm.unwind] using
          fun l hl => Lexeme.sound_of_inside? (hs.inside?_released l hl)
    · unfold Accepts Clears
      rw [cutFrom, endFault?, if_pos hs.total_ne]
      simp [marksFrom, LlvmAsm.unwind]
  | cons c t ih =>
    obtain ⟨ihoutside, ihinside⟩ := ih
    constructor
    · intro s hs
      cases hm : mark? s.quoted c with
      | none =>
        obtain ⟨done, s', hstep, hdone, hs', hquoted⟩ := hs.step_of_plain hm
        rw [accepts_cons_of_ok hstep, clears_cons_of_plain hm, ihoutside s' hs', hquoted]
        exact and_iff_right fun l hl => Lexeme.sound_of_inside? (hdone l hl)
      | some m =>
        cases m with
        | opener e =>
          obtain ⟨done, s', hstep, hdone, hs', hquoted⟩ := hs.step_of_opener hm
          rw [accepts_cons_of_ok hstep, clears_cons_of_opener hm, ihinside _ _ _ _ hs', hquoted]
          exact and_iff_right fun l hl => Lexeme.sound_of_inside? (hdone l hl)
        | closer e =>
          exact iff_of_false (not_accepts_of_error (hs.step_of_closer hm) t)
            (not_clears_nil_of_closer hm t)
    · intro s e inside stack hs
      cases hm : mark? s.quoted c with
      | none =>
        rw [accepts_cons_of_ok (step_of_plain hs.total_ne hm), clears_cons_of_plain hm,
          ihinside _ _ _ _ (hs.hold hm)]
        exact and_iff_right (by simp)
      | some m =>
        cases m with
        | opener e' =>
          obtain ⟨s', hstep, hs', hquoted⟩ := hs.step_of_opener hm
          rw [accepts_cons_of_ok hstep, clears_cons_of_opener hm, ihinside _ _ _ _ hs', hquoted]
          exact and_iff_right (by simp)
        | closer e' =>
          obtain ⟨e₁, rest, hrest⟩ : ∃ e₁ rest, stack ++ [e] = e₁ :: rest :=
            List.exists_cons_of_ne_nil (by simp)
          rw [hrest, clears_cons_of_closer hm]
          by_cases he : e₁ = e'
          · subst he
            cases stack with
            | nil =>
              obtain ⟨rfl, rfl⟩ : e = e₁ ∧ [] = rest := by simpa using hrest
              obtain ⟨done, s', hstep, hdone, hs', hquoted⟩ := hs.step_of_last hm
              rw [accepts_cons_of_ok hstep, ihoutside s' hs', hquoted, and_iff_right hdone,
                and_iff_right rfl]
            | cons e₂ stack =>
              obtain ⟨rfl, rfl⟩ : e₂ = e₁ ∧ stack ++ [e] = rest := by simpa using hrest
              obtain ⟨s', hstep, hs', hquoted⟩ := hs.step_of_latest hm
              rw [accepts_cons_of_ok hstep, ihinside _ _ _ _ hs', hquoted, and_iff_right rfl]
              exact and_iff_right (by simp)
          · have hhead : (stack ++ [e]).head? = some e₁ := by rw [hrest]; rfl
            refine iff_of_false ?_ fun h => he h.1
            rcases hs.step_of_other hhead he hm with ⟨fault, hstep⟩ | ⟨s', hstep, hstuck⟩
            · exact not_accepts_of_error hstep t
            · rw [accepts_cons_of_ok hstep]
              exact fun h => hstuck.not_accepts t h.2

end Scan

/-- A text is balanced iff the pass over it ends without a fault and all groups
    that it finds are balanced inside. -/
theorem balanced_iff_cut (t : Text) :
    Balanced t ↔ (cut t).2 = none ∧ ∀ l ∈ (cut t).1, l.Sound :=
  (balanced_iff_clears t).trans ((Scan.accepts_iff_clears t).1 .start Scan.outside_start).symm

/-! ## The characters of lexemes -/

/-- The characters of a lexeme. -/
def Lexeme.text : Lexeme → Text
  | comma => ","
  | run c t => c :: t

theorem Lexeme.text_of_mem_ofText {t : Text} {l : Lexeme} (h : l ∈ ofText t) : l.text = t := by
  cases t with
  | nil => cases h
  | cons c t =>
    obtain rfl : l = run c t := by simpa [ofText] using h
    rfl

theorem Lexeme.size_le_sizes {l : Lexeme} {ls : List Lexeme} (h : l ∈ ls) :
    l.size ≤ sizes ls := by
  induction ls with
  | nil => cases h
  | cons l' ls ih =>
    rw [sizes_cons]
    rcases List.mem_cons.1 h with rfl | h
    · exact Nat.le_add_right _ _
    · exact Nat.le_trans (ih h) (Nat.le_add_left _ _)

namespace Scan

/-- All characters that are held or put out satisfy `p`. -/
def All (p : Char → Prop) (next : List Lexeme × Scan) : Prop :=
  (∀ l ∈ next.1, ∀ a ∈ l.text, p a) ∧ ∀ a ∈ next.2.held, p a

variable {p : Char → Prop} {s : Scan} {c : Char}

theorem all_released (hs : ∀ a ∈ s.held, p a) : ∀ l ∈ s.released, ∀ a ∈ l.text, p a := by
  intro l hl a ha
  rw [Lexeme.text_of_mem_ofText hl] at ha
  exact hs a (List.mem_reverse.1 ha)

theorem all_quote (hs : ∀ a ∈ s.held, p a) (hc : p '"') : All p s.quote := by
  have hhold : ∀ a ∈ '"' :: s.held, p a := by simpa [hc] using hs
  unfold quote
  split
  · exact ⟨by simp, hhold⟩
  · split
    · exact ⟨all_released hhold, by simp [restart]⟩
    · split
      · exact ⟨by simp, hhold⟩
      · exact ⟨all_released hs, by simp [restart, hc]⟩

/-- A step holds or puts out the characters held before and the new one. -/
theorem all_step (hs : ∀ a ∈ s.held, p a) (hc : p c) {next : List Lexeme × Scan}
    (h : s.step c = .ok next) : All p next := by
  have hhold : ∀ a ∈ c :: s.held, p a := by simpa [hc] using hs
  have hkept : All p ([], s.hold c) := ⟨by simp, hhold⟩
  have hreleased := all_released hs
  simp only [step] at h
  split at h
  · rename_i hquote
    cases h
    exact all_quote hs (hquote ▸ hc)
  split at h
  · split at h <;> cases h
    exacts [⟨hreleased, by simp [restart]⟩, hkept]
  split at h
  · rename_i hcomma
    split at h <;> cases h
    · refine ⟨fun l hl => ?_, by simp [restart]⟩
      rcases List.mem_append.1 hl with hl | hl
      · exact hreleased l hl
      · rw [List.mem_singleton.1 hl]
        simpa [Lexeme.text] using hcomma ▸ hc
    · exact hkept
  split at h
  · cases h
    exact hkept
  split at h
  · cases h
    unfold openGroup
    split
    · exact ⟨hreleased, by simpa [restart] using hc⟩
    · exact hkept
  · unfold closeGroup at h
    split at h
    · cases h
    · dsimp only at h
      split at h <;> cases h
      exacts [⟨all_released hhold, by simp [restart]⟩, hkept]
  · cases h
    exact hkept

theorem all_cutFrom {t : Text} (hs : ∀ a ∈ s.held, p a) (ht : ∀ a ∈ t, p a) :
    ∀ l ∈ (s.cutFrom t).1, ∀ a ∈ l.text, p a := by
  induction t generalizing s with
  | nil =>
    rw [cutFrom]
    split
    · simp
    · exact all_released hs
  | cons c t ih =>
    obtain ⟨hc, ht⟩ := List.forall_mem_cons.1 ht
    rw [cutFrom]
    split
    · simp
    · rename_i done s' hstep
      obtain ⟨hdone, hheld⟩ := all_step hs hc hstep
      intro l hl
      rcases List.mem_append.1 hl with hl | hl
      · exact hdone l hl
      · exact ih hheld ht l hl

end Scan

/-- The lexemes of a text hold characters of the text. -/
theorem mem_of_mem_cut {t : Text} {l : Lexeme} (hl : l ∈ (cut t).1) {a : Char}
    (ha : a ∈ l.text) : a ∈ t :=
  Scan.all_cutFrom (p := (· ∈ t)) (by simp [Scan.start]) (fun _ h => h) l hl a ha

/-- The inside of a group is shorter than the text, and its characters are in
    the text. -/
theorem inside_of_mem_cut {t : Text} {l : Lexeme} (hl : l ∈ (cut t).1) {t' : Text}
    (ht' : t' ∈ l.inside?) : t'.length < t.length ∧ ∀ a ∈ t', a ∈ t := by
  cases l with
  | comma => cases ht'
  | run c u =>
    simp only [Lexeme.inside?, Option.mem_def, Option.map_eq_some_iff] at ht'
    obtain ⟨-, -, rfl⟩ := ht'
    constructor
    · have hsize := Nat.le_trans (Lexeme.size_le_sizes hl) (sizes_cut_le t)
      simp only [Lexeme.size] at hsize
      rw [List.length_dropLast]
      omega
    · exact fun a ha => mem_of_mem_cut hl (List.mem_cons_of_mem c (List.dropLast_subset _ ha))

end LlvmAsm
