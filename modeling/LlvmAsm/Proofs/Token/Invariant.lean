/-
  The state of the pass between two characters.

  * `Scan.Consistent`: the number of open enclosers is that of all kinds together, what is
    held outside of groups and quotes has no encloser, and what is held in a group begins
    with the opener that began it (`Scan.Raised`);
  * `Scan.Consistent.step`, `Scan.Runs.consistent`: one character and a whole text keep
    the state consistent;
  * `Lexeme.Sliced`: of a lexeme that begins with an opener, the part between its first
    and its last byte is a text (`Text.IsSlice`), and a shorter one;
  * `pass_consistent`: both, for the pass over any text.
-/
import LlvmAsm.Proofs.Token.Pass

namespace LlvmAsm

/-! ## Slices -/

/-- The number of bytes of a text. -/
def Text.byteSize : Text → Nat
  | [] => 0
  | c :: t => c.utf8Size + byteSize t

theorem Text.byteSize_append (t u : Text) :
    Text.byteSize (t ++ u) = Text.byteSize t + Text.byteSize u := by
  induction t with
  | nil => rw [List.nil_append, byteSize, Nat.zero_add]
  | cons c t ih => rw [List.cons_append, byteSize, byteSize, ih, Nat.add_assoc]

/-- The bytes of `t` from `first` up to `last` are those of the text `part`: both positions
    are borders of characters. -/
def Text.IsSlice (t : Text) (first last : Nat) (part : Text) : Prop :=
  ∃ before after, t = before ++ part ++ after ∧ Text.byteSize before = first ∧
    Text.byteSize before + Text.byteSize part = last

/-- An encloser is a single byte. -/
theorem utf8Size_of_opener {c : Char} {e : Encloser} (h : Encloser.ofOpener? c = some e) :
    c.utf8Size = 1 := by
  simp only [Encloser.ofOpener?] at h
  split_ifs at h with h₁ h₂ h₃ <;> subst_vars <;> rfl

theorem utf8Size_of_closer {c : Char} {e : Encloser} (h : Encloser.ofCloser? c = some e) :
    c.utf8Size = 1 := by
  simp only [Encloser.ofCloser?] at h
  split_ifs at h with h₁ h₂ h₃ <;> subst_vars <;> rfl

theorem isSlice_group {c closer : Char} {e e' : Encloser} (hc : Encloser.ofOpener? c = some e)
    (hcloser : Encloser.ofCloser? closer = some e') (inside : Text) :
    Text.IsSlice (c :: (inside ++ [closer])) 1
      (Text.byteSize (c :: (inside ++ [closer])) - 1) inside := by
  have hfirst : Text.byteSize [c] = 1 := utf8Size_of_opener hc
  have hlast : Text.byteSize [closer] = 1 := utf8Size_of_closer hcloser
  have hsize : Text.byteSize (c :: (inside ++ [closer])) = 1 + Text.byteSize inside + 1 := by
    rw [Text.byteSize, Text.byteSize_append, hlast, utf8Size_of_opener hc, Nat.add_assoc]
  refine ⟨[c], [closer], rfl, hfirst, ?_⟩
  rw [hsize, hfirst, Nat.add_sub_cancel]

/-- A lexeme of `text` that begins with an opener has a closer at its end. What the group
    is read from is the part between them, which is shorter than the text. -/
def Lexeme.Sliced (text : Text) : Lexeme → Prop
  | comma => True
  | run c t => ∀ e, Encloser.ofOpener? c = some e → ∃ inside closer e',
    t = inside ++ [closer] ∧ Encloser.ofCloser? closer = some e' ∧
      (run c t).inside? = some inside ∧
      Text.IsSlice (c :: t) 1 (Text.byteSize (c :: t) - 1) inside ∧
      inside.length < (c :: t).length ∧ inside.length < text.length

theorem sliced_of_mem_cut {t : Text} {l : Lexeme} (hl : l ∈ (cut t).1) : l.Sliced t := by
  cases l with
  | comma => trivial
  | run c u =>
    intro e hc
    obtain ⟨inside, closer, e', rfl, hcloser, -⟩ := closed_of_mem_cut hl e hc
    have hinside : (Lexeme.run c (inside ++ [closer])).inside? = some inside := by
      rw [Lexeme.inside?, hc, List.dropLast_concat]
      rfl
    refine ⟨inside, closer, e', rfl, hcloser, hinside, isSlice_group hc hcloser inside, ?_,
      (inside_of_mem_cut hl hinside).1⟩
    simp only [List.length_cons, List.length_append, List.length_nil]
    omega

namespace Scan

variable {s s' : Scan} {c : Char} {t before : Text} {done done' more : List Lexeme}

/-! ## Outside of groups -/

/-- Outside of groups and quotes, no encloser is held. -/
def Clear (s : Scan) : Prop :=
  s.total = 0 → s.quoted = false → ∀ c ∈ s.pending, Mark.of? c = none

theorem pending_hold (s : Scan) (c : Char) : (s.hold c).pending = s.pending ++ [c] :=
  List.reverse_cons

/-- A quote that goes on with a run outside of groups is the first one of the run. -/
theorem not_quoted_of_quoteHeld (h : s.step '"' = .ok ([], { s.hold '"' with quoted := !s.quoted }))
    (htotal : s.total = 0) : s.quoted = false := by
  by_contra hquoted
  have hquote : s.quote = ((s.hold '"').released, { s.restart [] with quoted := !s.quoted }) := by
    rw [quote, if_neg (not_not.2 htotal), if_pos (eq_true_of_ne_false hquoted)]
    rfl
  rw [step, if_pos rfl, hquote] at h
  have hheld := congrArg (fun next : List Lexeme × Scan => next.2.held) (Except.ok.inj h)
  cases hheld

theorem Clear.step (hs : s.Clear) (h : s.step c = .ok (done, s')) : s'.Clear := by
  cases step_of_eq_ok h with
  | held hquote hmark =>
    intro htotal hquoted a ha
    rw [pending_hold] at ha
    rcases List.mem_append.1 ha with ha | ha
    · exact hs htotal hquoted a ha
    · rw [List.mem_singleton.1 ha]
      rwa [mark?, show s.quoted = false from hquoted] at hmark
  | quoteHeld hquote =>
    subst hquote
    intro htotal hquoted
    have hopen := not_quoted_of_quoteHeld h htotal
    have hquoted : (!s.quoted) = false := hquoted
    rw [hopen] at hquoted
    cases hquoted
  | quoteStart =>
    intro _ hquoted
    cases hquoted
  | quoteEnd | blank | comma | groupEnd => exact fun _ _ a ha => absurd ha List.not_mem_nil
  | groupStart | groupOpen => exact fun htotal => absurd htotal (Nat.succ_ne_zero _)
  | groupClose _ _ _ _ htotal => exact fun hzero => absurd hzero htotal

/-! ## In groups -/

/-- After the text `t`, what is held begins with an opener that was met when no encloser
    was open and no quote. Since then an encloser was open after every character. -/
def Raised (t : Text) (s : Scan) : Prop :=
  ∃ before c e inside, t = before ++ c :: inside ∧ Encloser.ofOpener? c = some e ∧
    s.pending = c :: inside ∧
    (∃ done s₀, start.Runs before done s₀ ∧ s₀.total = 0 ∧ s₀.quoted = false) ∧
    ∀ mid, mid <+: inside →
      ∃ done s₁, start.Runs (before ++ c :: mid) done s₁ ∧ s₁.total ≠ 0

/-- A run goes on in its group. -/
theorem Raised.extend (hs : s.Raised t) (hpending : s'.pending = s.pending ++ [c])
    (hruns : start.Runs (t ++ [c]) done s') (htotal : s'.total ≠ 0) : s'.Raised (t ++ [c]) := by
  obtain ⟨before, c₀, e, inside, rfl, hc₀, hheld, hbefore, hopen⟩ := hs
  have htext : before ++ c₀ :: inside ++ [c] = before ++ c₀ :: (inside ++ [c]) := by simp
  refine ⟨before, c₀, e, inside ++ [c], htext, hc₀, by rw [hpending, hheld]; rfl, hbefore,
    fun mid hmid => ?_⟩
  rcases List.prefix_concat_iff.1 hmid with rfl | hmid
  · exact ⟨done, s', htext ▸ hruns, htotal⟩
  · exact hopen mid hmid

/-- An opener begins a group. -/
theorem raised_of_opener {e : Encloser} (hruns : start.Runs t done s) (htotal : s.total = 0)
    (hmark : mark? s.quoted c = some (.opener e)) (hpending : s'.pending = [c])
    (hruns' : start.Runs (t ++ [c]) done' s') (htotal' : s'.total ≠ 0) :
    s'.Raised (t ++ [c]) := by
  obtain ⟨hquoted, hc, -⟩ := of_mark? hmark
  refine ⟨t, c, e, [], rfl, Mark.of?_eq_opener.1 hc, hpending, ⟨done, s, hruns, htotal, hquoted⟩,
    fun mid hmid => ?_⟩
  rw [List.prefix_nil.1 hmid]
  exact ⟨done', s', hruns', htotal'⟩

theorem Raised.step (hruns : start.Runs t done s) (hs : s.total ≠ 0 → s.Raised t)
    (h : s.step c = .ok (more, s')) (htotal : s'.total ≠ 0) : s'.Raised (t ++ [c]) := by
  have hruns' := hruns.snoc h
  cases step_of_eq_ok h with
  | held | quoteHeld => exact (hs htotal).extend (pending_hold s c) hruns' htotal
  | quoteStart _ hzero => exact absurd hzero htotal
  | quoteEnd _ hzero => exact absurd hzero htotal
  | blank _ hfree | comma _ hfree =>
    simp only [isFree, Bool.and_eq_true, decide_eq_true_eq] at hfree
    exact absurd hfree.1 htotal
  | groupStart e hmark hzero => exact raised_of_opener hruns hzero hmark rfl hruns' htotal
  | groupOpen e hmark hopen => exact (hs hopen).extend (pending_hold s c) hruns' htotal
  | groupClose e depths _ _ hopen =>
    have hbefore : s.total ≠ 0 := fun hzero => hopen (by rw [hzero])
    exact (hs hbefore).extend (pending_hold s c) hruns' htotal
  | groupEnd e depths _ _ hend => exact absurd hend htotal

/-! ## Every state -/

/-- What holds of the state after the text `t`. -/
structure Consistent (t : Text) (s : Scan) : Prop where
  /-- all kinds of enclosers together -/
  total : s.total = s.depths.sum
  /-- outside of groups and quotes -/
  outside : s.total = 0 → s.quoted = false → ∀ c ∈ s.pending,
    Encloser.ofOpener? c = none ∧ Encloser.ofCloser? c = none
  /-- in a group -/
  inside : s.total ≠ 0 → s.Raised t

theorem consistent_start : start.Consistent [] where
  total := rfl
  outside := fun _ _ _ h => absurd h List.not_mem_nil
  inside := fun h => absurd rfl h

/-- **One character** keeps the state consistent. -/
theorem Consistent.step (hs : s.Consistent t) (hruns : start.Runs t done s)
    (h : s.step c = .ok (more, s')) : s'.Consistent (t ++ [c]) where
  total := Counted.step hs.total (step_of_eq_ok h)
  outside := by
    have hclear : s.Clear := fun htotal hquoted a ha =>
      Mark.of?_eq_none.2 (hs.outside htotal hquoted a ha)
    exact fun htotal hquoted a ha => Mark.of?_eq_none.1 (hclear.step h htotal hquoted a ha)
  inside := Raised.step hruns hs.inside h

theorem Consistent.runs (hbefore : start.Runs before done s) (hs : s.Consistent before)
    (h : s.Runs t more s') : s'.Consistent (before ++ t) := by
  induction h generalizing before done with
  | nil s => rwa [List.append_nil]
  | cons hstep _ ih =>
    rw [List.append_cons]
    exact ih (hbefore.snoc hstep) (hs.step hbefore hstep)

/-- **Every text that is passed without a fault** leaves a consistent state. -/
theorem Runs.consistent (h : start.Runs t done s) : s.Consistent t :=
  Consistent.runs (.nil start) consistent_start h

end Scan

/-- **The invariant of the pass.** Over any text, the state is consistent after each
    character up to the first fault, and every lexeme that the pass completes and that
    begins with an opener can be sliced at its ends. -/
theorem pass_consistent (t : Text) :
    (∀ {before done s}, before <+: t → Scan.start.Runs before done s → s.Consistent before) ∧
    ∀ l ∈ (cut t).1, l.Sliced t :=
  ⟨fun _ h => h.consistent, fun _ hl => sliced_of_mem_cut hl⟩

/-- A quote hides the closer of a group, so the group is still open at the end. -/
theorem pass_consistent_of_quote :
    let t : Text := ['[', '8', ']', '(', '"', ')']
    let s : Scan := ⟨[')', '"', '('], true, ⟨0, 1, 0⟩, 1⟩
    let group : Lexeme := .run '[' ['8', ']']
    Scan.start.Runs t [group] s ∧ s.Consistent t ∧ group ∈ (cut t).1 ∧ group.Sliced t := by
  intro t s group
  have hruns : Scan.start.Runs t ([] ++ ([] ++ ([group] ++ ([] ++ ([] ++ ([] ++ [])))))) s :=
    .cons rfl (.cons rfl (.cons rfl (.cons rfl (.cons rfl (.cons rfl (.nil s))))))
  have hmem : group ∈ (cut t).1 := by decide
  exact ⟨hruns, (pass_consistent t).1 (List.prefix_refl t) hruns, hmem,
    (pass_consistent t).2 _ hmem⟩

end LlvmAsm
