/-
  The pass over texts that are put together.

  A delimiter ends the run before it, whatever that run is. So a text that is in
  order falls into the same lexemes if a delimiter and anything else follow it
  (`cut_append_delimiter`), and between an opener and its closer it is a single
  lexeme (`cut_group`).

  * `Scan.Step` lists what a character can do to the pass; every law of a single
    step below is read off this list;
  * `Scan.Runs` is the pass over a part of a text;
  * `Scan.Counted` and `Scan.Within` say what is counted, and `Scan.Standing` what
    is held, between two characters;
  * `closed_of_mem_cut`: a lexeme that begins with an opener ends with a closer.
-/
import LlvmAsm.Proofs.Token.Lexeme

namespace LlvmAsm

/-! ## Counting -/

theorem Encloser.ne_brace_of_opener {c : Char} {e : Encloser} (h : ofOpener? c = some e) :
    e ≠ .brace := by
  rintro rfl
  simp only [ofOpener?] at h
  split_ifs at h <;> cases h

namespace Depths

variable {d d' : Depths} {e e' : Encloser}

theorem sum_raise (he : e ≠ .brace) : (d.raise e).sum = d.sum + 1 := by
  cases e with
  | bracket | paren | angle => simp only [raise, sum]; omega
  | brace => exact absurd rfl he

theorem sum_of_lower? (h : d.lower? e = some d') : d.sum = d'.sum + 1 := by
  cases e with
  | bracket | paren | angle =>
    simp only [lower?, Option.ite_none_left_eq_some, Option.some.injEq] at h
    obtain ⟨h, rfl⟩ := h
    simp only [sum]
    omega
  | brace => cases h

/-- What is open around a text does not hinder the closers in it. -/
theorem lower?_raise_of_lower? (h : d.lower? e' = some d') (e : Encloser) :
    (d.raise e).lower? e' = some (d'.raise e) := by
  cases e' with
  | bracket | paren | angle =>
    simp only [lower?, Option.ite_none_left_eq_some, Option.some.injEq] at h
    obtain ⟨h, rfl⟩ := h
    cases e <;> simp [raise, lower?, h]
    omega
  | brace => cases h

theorem raise_raise (d : Depths) (e e' : Encloser) :
    (d.raise e).raise e' = (d.raise e').raise e := by
  cases e <;> cases e' <;> rfl

theorem eq_zero_of_sum (h : d.sum = 0) : d = .zero := by
  obtain ⟨a, b, c⟩ := d
  simp only [sum, Nat.add_eq_zero_iff] at h
  obtain ⟨⟨rfl, rfl⟩, rfl⟩ := h
  rfl

end Depths

namespace Scan

variable {s s' s'' : Scan} {c : Char} {t u : Text} {done more : List Lexeme} {e : Encloser}

/-! ## What a character does -/

/-- What a character does to the pass: the lexemes that it completes, and the
    next state. -/
inductive Step (s : Scan) (c : Char) : List Lexeme → Scan → Prop
  /-- a character that is neither a delimiter here nor a mark goes on with the run -/
  | held (hquote : c ≠ '"') (hmark : mark? s.quoted c = none) :
    Step s c [] (s.hold c)
  /-- a quote in a group, or after a sigil, goes on with the run -/
  | quoteHeld (hquote : c = '"') : Step s c [] { s.hold c with quoted := !s.quoted }
  /-- a quote begins a run -/
  | quoteStart (hquote : c = '"') (htotal : s.total = 0) (hquoted : s.quoted = false) :
    Step s c s.released { s.restart [c] with quoted := true }
  /-- a quote ends a run -/
  | quoteEnd (hquote : c = '"') (htotal : s.total = 0) (hquoted : s.quoted = true) :
    Step s c (s.hold c).released { s.restart [] with quoted := false }
  /-- a blank ends the run before it -/
  | blank (hblank : c = ' ' ∨ c = '\t') (hfree : s.isFree = true) :
    Step s c s.released (s.restart [])
  /-- a comma ends the run before it and is a lexeme -/
  | comma (hcomma : c = ',') (hfree : s.isFree = true) :
    Step s c (s.released ++ [.comma]) (s.restart [])
  /-- an opener outside of groups begins a run -/
  | groupStart (e : Encloser) (hmark : mark? s.quoted c = some (.opener e))
      (htotal : s.total = 0) :
    Step s c s.released { s.restart [c] with depths := s.depths.raise e, total := s.total + 1 }
  /-- an opener in a group goes on with the run -/
  | groupOpen (e : Encloser) (hmark : mark? s.quoted c = some (.opener e))
      (htotal : s.total ≠ 0) :
    Step s c [] { s.hold c with depths := s.depths.raise e, total := s.total + 1 }
  /-- a closer that leaves a group open goes on with the run -/
  | groupClose (e : Encloser) (depths : Depths) (hmark : mark? s.quoted c = some (.closer e))
      (hlower : s.depths.lower? e = some depths) (htotal : s.total - 1 ≠ 0) :
    Step s c [] { s.hold c with depths := depths, total := s.total - 1 }
  /-- a closer that leaves no group open ends the run -/
  | groupEnd (e : Encloser) (depths : Depths) (hmark : mark? s.quoted c = some (.closer e))
      (hlower : s.depths.lower? e = some depths) (htotal : s.total - 1 = 0) :
    Step s c (s.hold c).released { s.restart [] with depths := depths, total := s.total - 1 }

theorem step_of_quote (hc : c = '"') : s.Step c s.quote.1 s.quote.2 := by
  subst hc
  unfold quote
  split
  · exact .quoteHeld rfl
  · rename_i htotal
    rw [not_not] at htotal
    split
    · rename_i hquoted
      have := Step.quoteEnd (s := s) rfl htotal hquoted
      rwa [show false = !s.quoted by rw [hquoted]; rfl] at this
    · rename_i hquoted
      split
      · exact .quoteHeld rfl
      · have := Step.quoteStart (s := s) rfl htotal (by simpa using hquoted)
        rwa [show true = !s.quoted by simp [hquoted]] at this

/-- **Every step is one of those listed.** -/
theorem step_of_eq_ok (h : s.step c = .ok (done, s')) : s.Step c done s' := by
  by_cases hquote : c = '"'
  · rw [step, if_pos hquote] at h
    have := step_of_quote (s := s) hquote
    rwa [Except.ok.inj h] at this
  cases hmark : mark? s.quoted c with
  | some m =>
    cases m with
    | opener e =>
      rw [step_of_opener hmark, openGroup] at h
      split at h <;> cases h
      · exact .groupStart e hmark ‹_›
      · exact .groupOpen e hmark ‹_›
    | closer e =>
      rw [step_of_closer hmark, closeGroup] at h
      split at h
      · cases h
      · dsimp only at h
        split at h <;> cases h
        · exact .groupEnd e _ hmark ‹_› ‹_›
        · exact .groupClose e _ hmark ‹_› ‹_›
  | none =>
    have hheld : s.Step c [] (s.hold c) := .held hquote hmark
    rw [step, if_neg hquote] at h
    split at h
    · rename_i hblank
      split at h <;> cases h
      exacts [.blank hblank ‹_›, hheld]
    split at h
    · rename_i hcomma
      split at h <;> cases h
      exacts [.comma hcomma ‹_›, hheld]
    split at h
    · cases h
      exact hheld
    · rename_i hquoted
      unfold mark? at hmark
      rw [if_neg hquoted] at hmark
      obtain ⟨hopener, hcloser⟩ := Mark.of?_eq_none.1 hmark
      rw [hopener, hcloser] at h
      cases h
      exact hheld

/-! ## What is counted -/

/-- The number of open enclosers is that of all kinds together. -/
def Counted (s : Scan) : Prop := s.total = s.depths.sum

theorem counted_start : start.Counted := rfl

theorem mark?_delimiter (quoted : Bool) (hc : c ∈ [' ', '\t', ',', '"']) :
    mark? quoted c = none := by
  unfold mark?
  split
  · rfl
  · exact Mark.of?_delimiter c hc

/-- What a step counts: the mark that the character is, if it is one. -/
theorem Step.counts (h : s.Step c done s') :
    s'.quoted = quotedBy s.quoted c ∧
      match mark? s.quoted c with
      | none => s'.depths = s.depths ∧ s'.total = s.total
      | some (.opener e) => s'.depths = s.depths.raise e ∧ s'.total = s.total + 1
      | some (.closer e) => s.depths.lower? e = some s'.depths ∧ s'.total = s.total - 1 := by
  cases h with
  | held hne hmark => simp [hmark, quotedBy, hne, hold]
  | quoteHeld hc =>
    subst hc
    simp [mark?_delimiter, quotedBy, hold]
  | quoteStart hc _ hquoted =>
    subst hc
    simp [mark?_delimiter, quotedBy, hquoted, restart]
  | quoteEnd hc _ hquoted =>
    subst hc
    simp [mark?_delimiter, quotedBy, hquoted, restart]
  | blank hc => rcases hc with rfl | rfl <;> simp [mark?_delimiter, quotedBy, restart]
  | comma hc =>
    subst hc
    simp [mark?_delimiter, quotedBy, restart]
  | groupStart e hmark => simp [hmark, quotedBy_of_mark? hmark, restart]
  | groupOpen e hmark => simp [hmark, quotedBy_of_mark? hmark, hold]
  | groupClose e depths hmark hlower => simp [hmark, quotedBy_of_mark? hmark, hlower, hold]
  | groupEnd e depths hmark hlower => simp [hmark, quotedBy_of_mark? hmark, hlower, restart]

theorem Counted.step (hs : s.Counted) (h : s.Step c done s') : s'.Counted := by
  have hcounts := h.counts.2
  unfold Counted at *
  cases hm : mark? s.quoted c with
  | none =>
    simp only [hm] at hcounts
    rw [hcounts.1, hcounts.2, hs]
  | some m =>
    cases m with
    | opener e =>
      simp only [hm] at hcounts
      have he := Encloser.ne_brace_of_opener (Mark.of?_eq_opener.1 (of_mark? hm).2.1)
      rw [hcounts.1, hcounts.2, hs, Depths.sum_raise he]
    | closer e =>
      simp only [hm] at hcounts
      rw [hcounts.2, hs, Depths.sum_of_lower? hcounts.1, Nat.add_sub_cancel]

/-- Between the groups, all that matters is what is held. -/
theorem Counted.eq_of_free (hs : s.Counted) (hfree : s.isFree = true) :
    s = ⟨s.held, false, .zero, 0⟩ := by
  obtain ⟨held, quoted, depths, total⟩ := s
  simp only [isFree, Bool.and_eq_true, decide_eq_true_eq, Bool.not_eq_true'] at hfree
  obtain ⟨rfl, rfl⟩ := hfree
  obtain rfl : depths = .zero := Depths.eq_zero_of_sum hs.symm
  rfl

/-! ## Parts of a text -/

/-- The pass over a part of a text, from one state to another, with the lexemes
    that it completes. -/
inductive Runs : Scan → Text → List Lexeme → Scan → Prop
  | nil (s : Scan) : Runs s [] [] s
  | cons {s s' s'' : Scan} {c : Char} {t : Text} {done more : List Lexeme}
      (hstep : s.step c = .ok (done, s')) (hrest : Runs s' t more s'') :
    Runs s (c :: t) (done ++ more) s''

theorem Runs.cutFrom_append (h : s.Runs t done s') (u : Text) :
    s.cutFrom (t ++ u) = (done ++ (s'.cutFrom u).1, (s'.cutFrom u).2) := by
  induction h with
  | nil s => rfl
  | cons hstep _ ih => simp [cutFrom, hstep, ih]

theorem Runs.counted (h : s.Runs t done s') (hs : s.Counted) : s'.Counted := by
  induction h with
  | nil s => exact hs
  | cons hstep _ ih => exact ih (hs.step (step_of_eq_ok hstep))

/-- A text without a fault is passed to its end, and no encloser and no quote is
    open there. -/
theorem exists_runs (hs : s.Counted) (h : (s.cutFrom t).2 = none) :
    ∃ done held, s.Runs t done ⟨held, false, .zero, 0⟩ ∧
      (s.cutFrom t).1 = done ++ Lexeme.ofText held.reverse := by
  induction t generalizing s with
  | nil =>
    have hfree : s.isFree = true := by
      simp only [cutFrom] at h
      split at h
      · cases h
      · rename_i hend
        unfold endFault? at hend
        split_ifs at hend with htotal hquoted
        simp [isFree, not_not.1 htotal, hquoted]
    have heq := hs.eq_of_free hfree
    refine ⟨[], s.held, ?_, ?_⟩
    · rw [← heq]
      exact .nil s
    · rw [heq]
      rfl
  | cons c t ih =>
    simp only [cutFrom] at h ⊢
    cases hstep : s.step c with
    | error fault => simp [hstep] at h
    | ok next =>
      obtain ⟨done, s'⟩ := next
      simp only [hstep] at h ⊢
      obtain ⟨more, held, hruns, hmore⟩ := ih (hs.step (step_of_eq_ok hstep)) h
      exact ⟨done ++ more, held, .cons hstep hruns, by rw [hmore, List.append_assoc]⟩

/-! ## Delimiters -/

/-- The character ends any run before it, outside of groups and quotes. -/
def Delimits (c : Char) : Prop := c = ' ' ∨ c = '\t' ∨ c = ',' ∨ (Encloser.ofOpener? c).isSome

/-- A delimiter completes the run before it, and does what it does at the
    beginning of a text. -/
theorem step_delimiter (hc : Delimits c) (held : Text) :
    ∃ more s', start.step c = .ok (more, s') ∧
      step ⟨held, false, .zero, 0⟩ c = .ok (Lexeme.ofText held.reverse ++ more, s') := by
  rcases hc with rfl | rfl | rfl | hc
  · exact ⟨[], start, rfl, by simp [step, isFree, released, pending, restart, start]⟩
  · exact ⟨[], start, rfl, by simp [step, isFree, released, pending, restart, start]⟩
  · exact ⟨[.comma], start, rfl, by simp [step, isFree, released, pending, restart, start]⟩
  · obtain ⟨e, he⟩ := Option.isSome_iff_exists.1 hc
    have hmark : mark? false c = some (.opener e) := Mark.of?_eq_opener.2 he
    refine ⟨[], ⟨[c], false, .raise .zero e, 1⟩, ?_, ?_⟩
    · rw [step_of_opener hmark]
      rfl
    · rw [step_of_opener hmark, List.append_nil]
      rfl

end Scan

open Scan

variable {t u : Text} {c : Char} {e : Encloser}

/-- **What a delimiter and anything else add to a text in order** is what they
    are by themselves. -/
theorem cut_append_delimiter (ht : (cut t).2 = none) (hc : Delimits c) (u : Text) :
    cut (t ++ c :: u) = ((cut t).1 ++ (cut (c :: u)).1, (cut (c :: u)).2) := by
  obtain ⟨done, held, hruns, hdone⟩ := exists_runs counted_start ht
  obtain ⟨more, s', hstart, hstep⟩ := step_delimiter hc held
  change (cut t).1 = _ at hdone
  rw [cut, hruns.cutFrom_append, hdone, cut]
  simp only [cutFrom, hstart, hstep, List.append_assoc]

theorem cut_cons_blank (hc : c = ' ' ∨ c = '\t') (u : Text) : cut (c :: u) = cut u := by
  rcases hc with rfl | rfl <;> rfl

theorem cut_cons_comma (u : Text) : cut (',' :: u) = (.comma :: (cut u).1, (cut u).2) := rfl

namespace Scan

/-! ## In a group -/

/-- The pass over a group that is enclosed by `e` beside the pass over its
    inside. -/
structure Within (e : Encloser) (inner outer : Scan) : Prop where
  depths : outer.depths = inner.depths.raise e
  total : outer.total = inner.total + 1
  quoted : outer.quoted = inner.quoted

variable {s s' outer : Scan} {done : List Lexeme}

/-- A step in the inside of a group is held in the group. -/
theorem Within.step (h : Within e s outer) (hs : s.Counted) (hstep : s.Step c done s') :
    ∃ outer', outer.step c = .ok ([], outer') ∧ Within e s' outer' ∧
      outer'.held = c :: outer.held := by
  have htotal : outer.total ≠ 0 := by rw [h.total]; exact Nat.succ_ne_zero _
  obtain ⟨hquoted, hcounts⟩ := hstep.counts
  cases hm : mark? s.quoted c with
  | none =>
    simp only [hm] at hcounts
    have hout := step_of_plain htotal (h.quoted ▸ hm)
    exact ⟨_, hout, ⟨by rw [hcounts.1]; exact h.depths, by rw [hcounts.2]; exact h.total,
      by rw [hquoted, ← h.quoted]⟩, rfl⟩
  | some m =>
    cases m with
    | opener e' =>
      simp only [hm] at hcounts
      have hout := step_of_opener (h.quoted ▸ hm)
      rw [openGroup, if_neg htotal] at hout
      refine ⟨_, hout, ⟨?_, ?_, ?_⟩, rfl⟩
      · rw [hcounts.1, Depths.raise_raise, ← h.depths]
        rfl
      · rw [hcounts.2, ← h.total]
        rfl
      · rw [hquoted, quotedBy_of_mark? hm, ← h.quoted]
        rfl
    | closer e' =>
      simp only [hm] at hcounts
      have hopen : outer.total - 1 ≠ 0 := by
        rw [h.total, hs, Depths.sum_of_lower? hcounts.1]
        exact Nat.succ_ne_zero _
      have hout := step_of_closer (h.quoted ▸ hm)
      rw [closeGroup, h.depths, Depths.lower?_raise_of_lower? hcounts.1 e] at hout
      simp only [hopen, if_false] at hout
      refine ⟨_, hout, ⟨rfl, ?_, ?_⟩, rfl⟩
      · change outer.total - 1 = s'.total + 1
        have := Nat.pos_of_ne_zero hopen
        rw [hcounts.2, h.total]
        rw [h.total] at this
        omega
      · rw [hquoted, quotedBy_of_mark? hm, ← h.quoted]
        rfl

/-- A part of the inside of a group is held in the group. -/
theorem Within.runs {t : Text} (h : Within e s outer) (hs : s.Counted) (hruns : s.Runs t done s') :
    ∃ outer', outer.Runs t [] outer' ∧ Within e s' outer' ∧
      outer'.held = t.reverse ++ outer.held := by
  induction hruns generalizing outer with
  | nil s => exact ⟨outer, .nil outer, h, rfl⟩
  | cons hstep _ ih =>
    obtain ⟨next, hnext, hwithin, hheld⟩ := h.step hs (step_of_eq_ok hstep)
    obtain ⟨outer', hruns', hwithin', hheld'⟩ := ih hwithin (hs.step (step_of_eq_ok hstep))
    refine ⟨outer', .cons hnext hruns', hwithin', ?_⟩
    rw [hheld', hheld, List.reverse_cons, List.append_assoc]
    rfl

/-- The state after the opener of a group. -/
def opened (c : Char) (e : Encloser) : Scan := ⟨[c], false, .raise .zero e, 1⟩

theorem step_start_of_opener (hc : Encloser.ofOpener? c = some e) :
    start.step c = .ok ([], opened c e) := by
  have hmark : mark? start.quoted c = some (.opener e) := Mark.of?_eq_opener.2 hc
  rw [step_of_opener hmark]
  rfl

theorem counted_opened (hc : Encloser.ofOpener? c = some e) : (opened c e).Counted :=
  (Depths.sum_raise (d := .zero) (Encloser.ne_brace_of_opener hc)).symm

theorem within_start (c : Char) (e : Encloser) : Within e start (opened c e) := ⟨rfl, rfl, rfl⟩

/-- A text in order is held in a group to its end. -/
theorem runs_opened {inside : Text} (h : (cut inside).2 = none) (c : Char) (e : Encloser) :
    (opened c e).Runs inside [] ⟨inside.reverse ++ [c], false, .raise .zero e, 1⟩ := by
  obtain ⟨done, held, hruns, -⟩ := exists_runs counted_start h
  obtain ⟨⟨held', quoted, depths, total⟩, houter, ⟨hdepths, htotal, hquoted⟩, hheld⟩ :=
    (within_start c e).runs counted_start hruns
  dsimp only at hdepths htotal hquoted hheld
  subst hdepths htotal hquoted hheld
  exact houter

end Scan

/-- **A text in order between an opener and its closer is one lexeme**, and what
    follows it is read from the beginning. -/
theorem cut_group {inside : Text} {closer : Char} (h : (cut inside).2 = none)
    (hc : Encloser.ofOpener? c = some e) (hcloser : Encloser.ofCloser? closer = some e)
    (u : Text) :
    cut (c :: inside ++ closer :: u) =
      (.run c (inside ++ [closer]) :: (cut u).1, (cut u).2) := by
  have hopener : Encloser.ofOpener? closer = none := by
    simp only [Encloser.ofCloser?] at hcloser
    split_ifs at hcloser with h₁ h₂ h₃ <;> subst_vars <;> decide
  have hmark : mark? false closer = some (.closer e) := Mark.of?_eq_closer.2 ⟨hopener, hcloser⟩
  have hend : step ⟨inside.reverse ++ [c], false, .raise .zero e, 1⟩ closer =
      .ok ([.run c (inside ++ [closer])], start) := by
    rw [step_of_closer hmark, closeGroup, Depths.lower?_raise .zero hcloser]
    simp [hold, released, pending, restart, start, Lexeme.ofText]
  rw [cut, List.cons_append, cutFrom, step_start_of_opener hc]
  simp only [(runs_opened h c e).cutFrom_append, cutFrom, hend]
  rfl

namespace Scan

/-! ## What is held -/

variable {s s' s'' : Scan} {done more : List Lexeme}

/-- A step goes on with the run, or completes it. -/
theorem Step.goes_on_or_completes (h : s.Step c done s') :
    (done = [] ∧ s'.held = c :: s.held) ∨ (∃ more, done = s.released ++ more) ∨
      done = (s.hold c).released := by
  cases h with
  | held | quoteHeld | groupOpen | groupClose => exact Or.inl ⟨rfl, rfl⟩
  | quoteStart | blank | groupStart => exact Or.inr (Or.inl ⟨[], (List.append_nil _).symm⟩)
  | comma => exact Or.inr (Or.inl ⟨[.comma], rfl⟩)
  | quoteEnd | groupEnd => exact Or.inr (Or.inr rfl)

theorem exists_released_cons (hs : s.held ≠ []) : ∃ l, s.released = [l] ∧ l.text = s.pending := by
  cases hp : s.pending with
  | nil => exact absurd (List.reverse_eq_nil_iff.1 hp) hs
  | cons a rest => exact ⟨.run a rest, by rw [released, hp, Lexeme.ofText], rfl⟩

/-- The first lexeme begins with what is held. -/
theorem cutFrom_of_held (hs : s.held ≠ []) (h : (s.cutFrom t).2 = none) :
    ∃ l ls more, (s.cutFrom t).1 = l :: ls ∧ l.text = s.pending ++ more := by
  induction t generalizing s with
  | nil =>
    obtain ⟨l, hl, htext⟩ := exists_released_cons hs
    simp only [cutFrom] at h ⊢
    split at h
    · cases h
    · exact ⟨l, [], [], hl, by rw [htext, List.append_nil]⟩
  | cons c t ih =>
    simp only [cutFrom] at h ⊢
    cases hstep : s.step c with
    | error fault => simp [hstep] at h
    | ok next =>
      obtain ⟨done, s'⟩ := next
      simp only [hstep] at h ⊢
      rcases (step_of_eq_ok hstep).goes_on_or_completes with ⟨rfl, hheld⟩ | ⟨more, rfl⟩ | rfl
      · obtain ⟨l, ls, more, hls, htext⟩ := ih (s := s') (by simp [hheld]) h
        refine ⟨l, ls, c :: more, hls, ?_⟩
        rw [htext, pending, hheld, List.reverse_cons, List.append_assoc]
        rfl
      · obtain ⟨l, hl, htext⟩ := exists_released_cons hs
        exact ⟨l, more ++ (s'.cutFrom t).1, [], by simp [hl], by rw [htext, List.append_nil]⟩
      · obtain ⟨l, hl, htext⟩ := exists_released_cons (s := s.hold c) (List.cons_ne_nil _ _)
        refine ⟨l, (s'.cutFrom t).1, [c], by simp [hl], ?_⟩
        rw [htext, pending, hold, List.reverse_cons]
        rfl

theorem Runs.snoc (h : s.Runs t done s') (hstep : s'.step c = .ok (more, s'')) :
    s.Runs (t ++ [c]) (done ++ more) s'' := by
  induction h with
  | nil s => simpa using Runs.cons hstep (.nil s'')
  | cons hfirst _ ih =>
    rw [List.cons_append, List.append_assoc]
    exact .cons hfirst (ih hstep)

theorem Runs.unique (h : s.Runs t done s') (h' : s.Runs t more s'') : s' = s'' := by
  induction h generalizing more with
  | nil s =>
    cases h'
    rfl
  | cons hstep _ ih =>
    cases h' with
    | cons hstep' hrest' =>
      rw [hstep] at hstep'
      cases hstep'
      exact ih hrest'

/-- Between two characters, either no encloser is open, or the run began with an
    opener and holds all that came after it. -/
inductive Standing (s : Scan) : Prop
  | outside (h : s.Outside)
  | inside (c : Char) (e : Encloser) (inside : Text) (hc : Encloser.ofOpener? c = some e)
      (hpending : s.pending = c :: inside) (htotal : s.total ≠ 0)
      (hruns : (opened c e).Runs inside [] s)

end Scan

/-- A lexeme that begins with an opener ends with a closer. It is the closer of
    that opener if what is in between is in order. -/
def Lexeme.Closed : Lexeme → Prop
  | comma => True
  | run c t => ∀ e, Encloser.ofOpener? c = some e → ∃ inside closer e',
    t = inside ++ [closer] ∧ Encloser.ofCloser? closer = some e' ∧
      ((cut inside).2 = none → e' = e)

theorem Lexeme.closed_of_inside? {l : Lexeme} (h : l.inside? = none) : l.Closed := by
  cases l with
  | comma => trivial
  | run c t =>
    intro e hc
    simp [inside?, hc] at h

namespace Scan

variable {s s' : Scan} {done : List Lexeme}

theorem Outside.standing_step (hs : s.Outside) (hstep : s.step c = .ok (done, s')) :
    (∀ l ∈ done, l.Closed) ∧ s'.Standing := by
  cases hm : mark? s.quoted c with
  | none =>
    obtain ⟨done', s'', hstep', hdone, hs', -⟩ := hs.step_of_plain hm
    rw [hstep] at hstep'
    cases hstep'
    exact ⟨fun l hl => Lexeme.closed_of_inside? (hdone l hl), .outside hs'⟩
  | some m =>
    cases m with
    | opener e =>
      obtain ⟨hquoted, hc, -⟩ := of_mark? hm
      rw [Scan.step_of_opener hm, openGroup, if_pos hs.total] at hstep
      cases hstep
      refine ⟨fun l hl => Lexeme.closed_of_inside? (hs.inside?_released l hl),
        .inside c e [] (Mark.of?_eq_opener.1 hc) rfl (Nat.succ_ne_zero _) ?_⟩
      change (opened c e).Runs [] [] ⟨[c], s.quoted, s.depths.raise e, s.total + 1⟩
      rw [hquoted, hs.depths, hs.total]
      exact .nil _
    | closer e =>
      rw [hs.step_of_closer hm] at hstep
      cases hstep

/-- A closer that leaves no group open ends a group that is closed. -/
theorem closed_of_groupEnd {c₀ : Char} {e' : Encloser} {inside : Text} {depths : Depths}
    (hc₀ : Encloser.ofOpener? c₀ = some e) (hruns : (opened c₀ e).Runs inside [] s)
    (hc : Encloser.ofCloser? c = some e') (hlower : s.depths.lower? e' = some depths) :
    (Lexeme.run c₀ (inside ++ [c])).Closed := by
  intro e₁ he₁
  obtain rfl : e = e₁ := Option.some.inj (hc₀.symm.trans he₁)
  refine ⟨inside, c, e', rfl, hc, fun horder => ?_⟩
  obtain rfl := hruns.unique (runs_opened horder c₀ e)
  by_contra hne
  rw [Depths.lower?_raise_zero_of_ne (Ne.symm hne)] at hlower
  cases hlower

theorem Standing.step (hs : s.Standing) (hstep : s.step c = .ok (done, s')) :
    (∀ l ∈ done, l.Closed) ∧ s'.Standing := by
  cases hs with
  | outside hs => exact hs.standing_step hstep
  | inside c₀ e inside hc₀ hpending htotal hruns =>
    have hruns' := hruns.snoc hstep
    have hheld : (s.hold c).pending = c₀ :: (inside ++ [c]) := by
      rw [pending, hold, List.reverse_cons, show s.held.reverse = _ from hpending, List.cons_append]
    cases hm : mark? s.quoted c with
    | none =>
      rw [step_of_plain htotal hm] at hstep
      cases hstep
      exact ⟨by simp, .inside c₀ e (inside ++ [c]) hc₀ hheld htotal hruns'⟩
    | some m =>
      cases m with
      | opener e' =>
        rw [step_of_opener hm, openGroup, if_neg htotal] at hstep
        cases hstep
        exact ⟨by simp, .inside c₀ e (inside ++ [c]) hc₀ hheld (Nat.succ_ne_zero _) hruns'⟩
      | closer e' =>
        obtain ⟨hquoted, hc, -⟩ := of_mark? hm
        have hcounted : s'.Counted := hruns'.counted (counted_opened hc₀)
        rw [step_of_closer hm, closeGroup] at hstep
        cases hlower : s.depths.lower? e' with
        | none => simp [hlower] at hstep
        | some depths =>
          simp only [hlower] at hstep
          split at hstep <;> cases hstep
          · rename_i hend
            have hzero := Depths.eq_zero_of_sum (hcounted.symm.trans hend)
            refine ⟨fun l hl => ?_, .outside ⟨hzero, hend, by simp [restart],
              by simp [restart, hquoted]⟩⟩
            change l ∈ (s.hold c).released at hl
            rw [released, hheld, Lexeme.ofText, List.mem_singleton] at hl
            rw [hl]
            exact closed_of_groupEnd hc₀ hruns (Mark.of?_eq_closer.1 hc).2 hlower
          · rename_i hopen
            exact ⟨by simp, .inside c₀ e (inside ++ [c]) hc₀ hheld hopen hruns'⟩

theorem Standing.cutFrom (hs : s.Standing) (t : Text) : ∀ l ∈ (s.cutFrom t).1, l.Closed := by
  induction t generalizing s with
  | nil =>
    rw [Scan.cutFrom]
    cases hs with
    | outside hs =>
      split
      · simp
      · exact fun l hl => Lexeme.closed_of_inside? (hs.inside?_released l hl)
    | inside _ _ _ _ _ htotal => simp [endFault?, htotal]
  | cons c t ih =>
    rw [Scan.cutFrom]
    split
    · simp
    · rename_i done s' hstep
      obtain ⟨hdone, hs'⟩ := hs.step hstep
      intro l hl
      rcases List.mem_append.1 hl with hl | hl
      · exact hdone l hl
      · exact ih hs' l hl

end Scan

/-- **Every group among the lexemes of a text ends with a closer.** -/
theorem closed_of_mem_cut {l : Lexeme} (hl : l ∈ (cut t).1) : l.Closed :=
  (Scan.Standing.outside Scan.outside_start).cutFrom t l hl

end LlvmAsm
