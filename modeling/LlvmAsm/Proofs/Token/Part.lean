/-
  The parts of a text.

  Between two characters of a text in order, the pass holds plain characters, a quote
  that is open or a group (`Scan.Phase`). So a piece of a text is one of four things
  (`Token.Part`), and for a word of plain characters the text tells what stands before
  it.

  * `Scan.Phase.step`: what one more character makes of what is held;
  * `Lexeme.Stems` says where in a text a lexeme comes from (`stems_of_mem_cut`);
  * `BracesApart` is the condition on a text under which a word that closes a brace
    begins with it, or with blanks before it (`closesApart_of_text`).
-/
import LlvmAsm.Proofs.Token.Pieces
import LlvmAsm.Text.Blank

namespace LlvmAsm

open Scan

/-! ## What the pass holds -/

/-- What stands before an opening quote in its run: nothing, or a sigil. -/
def sigils : List Text := [[], ['%'], ['@']]

theorem mem_sigils {t : Text} : t ∈ sigils ↔ t = [] ∨ t = ['%'] ∨ t = ['@'] := by
  simp [sigils]

namespace Scan

/-- What the pass holds after the part `pre` of a text. -/
inductive Phase (pre : Text) (s : Scan) : Prop
  /-- plain characters, since the pass was at its start -/
  | plain (before w : Text) (done : List Lexeme) (hruns : start.Runs before done start)
      (hpre : pre = before ++ w) (hplain : ∀ c ∈ w, PlainChar c)
      (hs : s = ⟨w.reverse, false, .zero, 0⟩)
  /-- a quote that is open -/
  | quote (sigil inside : Text) (hsigil : sigil ∈ sigils) (hinside : '"' ∉ inside)
      (hs : s = ⟨(sigil ++ '"' :: inside).reverse, true, .zero, 0⟩)
  /-- a group that is open -/
  | group (c : Char) (e : Encloser) (inside : Text) (hc : Encloser.ofOpener? c = some e)
      (hpending : s.pending = c :: inside) (htotal : s.total ≠ 0)

end Scan

/-- Where a lexeme of a text comes from. -/
inductive Lexeme.Stems (text : Text) : Lexeme → Prop
  | comma : Stems text comma
  | group {c : Char} {t : Text} {e : Encloser} (hc : Encloser.ofOpener? c = some e) :
    Stems text (run c t)
  | quote {c : Char} {t sigil inside : Text} (hsigil : sigil ∈ sigils) (hinside : '"' ∉ inside)
      (ht : c :: t = sigil ++ '"' :: inside ++ ['"']) : Stems text (run c t)
  | plain {c : Char} {t before after : Text} {done : List Lexeme}
      (hruns : start.Runs before done start) (htext : text = before ++ (c :: t) ++ after)
      (hplain : ∀ a ∈ c :: t, PlainChar a) : Stems text (run c t)

namespace Scan

variable {s s' : Scan} {c : Char} {text pre before w rest : Text} {done more : List Lexeme}

/-- At its start, the pass holds nothing. -/
theorem phase_of_start (hruns : start.Runs pre done start) : start.Phase pre :=
  .plain pre [] done hruns (List.append_nil pre).symm (List.forall_mem_nil _) rfl

/-- Plain characters are released as a word of the text. -/
theorem stems_of_plain (hruns : start.Runs before done start)
    (htext : text = before ++ w ++ rest) (hplain : ∀ a ∈ w, PlainChar a) :
    ∀ l ∈ Lexeme.ofText w, l.Stems text := by
  intro l hl
  cases w with
  | nil => cases hl
  | cons a w =>
    obtain rfl : l = .run a w := by simpa [Lexeme.ofText] using hl
    exact .plain hruns htext hplain

theorem released_plain (w : Text) (quoted : Bool) (depths : Depths) (total : Nat) :
    (Scan.mk w.reverse quoted depths total).released = Lexeme.ofText w := by
  rw [released, pending, List.reverse_reverse]

/-- The second quote ends the run. -/
theorem step_closeQuote (w : Text) :
    step ⟨w.reverse, true, .zero, 0⟩ '"' = .ok (Lexeme.ofText (w ++ ['"']), start) := by
  simp [step, quote, hold, restart, released, pending, start]

/-- After plain characters, a character goes on with them, begins a quote or a group,
    or ends them. -/
theorem phase_step_plain {done₀ : List Lexeme} (hstart : start.Runs before done₀ start)
    (hplain : ∀ a ∈ w, PlainChar a)
    (hruns : start.Runs (before ++ w) done ⟨w.reverse, false, .zero, 0⟩)
    (hstep : step ⟨w.reverse, false, .zero, 0⟩ c = .ok (more, s')) :
    (∀ l ∈ more, l = .comma ∨ l ∈ Lexeme.ofText w) ∧ s'.Phase (before ++ w ++ [c]) := by
  have hnext := hruns.snoc hstep
  by_cases hc : PlainChar c
  · -- the word goes on
    rw [step_plain _ hc] at hstep
    cases hstep
    refine ⟨by simp, .plain before (w ++ [c]) done₀ hstart (List.append_assoc _ _ _) ?_ (by simp)⟩
    exact List.forall_mem_append.2 ⟨hplain, by simpa using hc⟩
  by_cases hquote : c = '"'
  · -- a quote begins, in the same run only after a sigil
    subst hquote
    have hquoted : (Scan.mk w.reverse false .zero 0).quote = (more, s') := Except.ok.inj hstep
    simp only [quote, ne_eq, not_true_eq_false, if_false, Bool.false_eq_true] at hquoted
    split at hquoted
    · rename_i hsigil
      cases hquoted
      refine ⟨by simp, .quote w [] (mem_sigils.2 (Or.inr ?_)) (by simp) (by simp [hold])⟩
      simpa [List.reverse_eq_iff, or_comm] using hsigil
    · cases hquoted
      rw [released_plain]
      exact ⟨fun l hl => Or.inr hl, .quote [] [] (mem_sigils.2 (Or.inl rfl)) (by simp) rfl⟩
  cases hmark : mark? false c with
  | some m =>
    cases m with
    | opener e =>
      rw [step_of_opener hmark, openGroup, if_pos rfl, released_plain] at hstep
      cases hstep
      exact ⟨fun l hl => Or.inr hl, .group c e [] (Mark.of?_eq_opener.1 (of_mark? hmark).2.1) rfl
        (Nat.succ_ne_zero _)⟩
    | closer e =>
      have hlower : Depths.zero.lower? e = none := by cases e <;> rfl
      rw [step_of_closer hmark, closeGroup, hlower] at hstep
      cases hstep
  | none =>
    -- a blank or a comma takes the pass to its start
    have hdelimiter : (c = ' ' ∨ c = '\t') ∨ c = ',' := by
      by_contra hnot
      simp only [not_or] at hnot
      exact hc ⟨by simp [hnot, hquote], hmark⟩
    have hfree : (Scan.mk w.reverse false .zero 0).isFree = true := rfl
    rcases hdelimiter with hblank | hcomma
    · rw [step, if_neg hquote, if_pos hblank, if_pos hfree, released_plain] at hstep
      cases hstep
      exact ⟨fun l hl => Or.inr hl, phase_of_start hnext⟩
    · subst hcomma
      rw [step, if_neg hquote, if_neg (by decide), if_pos rfl, if_pos hfree,
        released_plain] at hstep
      cases hstep
      refine ⟨fun l hl => ?_, phase_of_start hnext⟩
      simpa [or_comm] using hl

/-- In a group, a character goes on with it or completes it. -/
theorem phase_step_group {c₀ : Char} {e : Encloser} {inside : Text}
    (hc₀ : Encloser.ofOpener? c₀ = some e) (hpending : s.pending = c₀ :: inside)
    (htotal : s.total ≠ 0) (hruns : start.Runs pre done s) (hstep : s.step c = .ok (more, s')) :
    (∀ l ∈ more, l = .run c₀ (inside ++ [c])) ∧ s'.Phase (pre ++ [c]) := by
  have hnext := hruns.snoc hstep
  have hheld : (s.hold c).pending = c₀ :: (inside ++ [c]) := by
    rw [pending, hold, List.reverse_cons, show s.held.reverse = _ from hpending, List.cons_append]
  have hfree : s.isFree ≠ true := by simp [isFree, htotal]
  cases step_of_eq_ok hstep with
  | held | quoteHeld => exact ⟨by simp, .group c₀ e (inside ++ [c]) hc₀ hheld htotal⟩
  | groupOpen => exact ⟨by simp, .group c₀ e (inside ++ [c]) hc₀ hheld (Nat.succ_ne_zero _)⟩
  | groupClose _ _ _ _ hopen => exact ⟨by simp, .group c₀ e (inside ++ [c]) hc₀ hheld hopen⟩
  | groupEnd _ depths hmark _ hend =>
    refine ⟨by simp [released, hheld, Lexeme.ofText], ?_⟩
    have hquoted := (of_mark? hmark).1
    have heq := (hnext.counted counted_start).eq_of_free (by simp [isFree, restart, hend, hquoted])
    rw [heq] at hnext ⊢
    exact phase_of_start hnext
  | quoteStart _ h | quoteEnd _ h | groupStart _ _ h => exact absurd h htotal
  | blank _ h | comma _ h => exact absurd h hfree

/-- **One more character** completes lexemes of the text only, and what the pass holds
    after it is one of the three again. -/
theorem Phase.step (h : s.Phase pre) (hruns : start.Runs pre done s)
    (hstep : s.step c = .ok (more, s')) (htext : text = pre ++ c :: rest) :
    (∀ l ∈ more, l.Stems text) ∧ s'.Phase (pre ++ [c]) := by
  cases h with
  | plain before w done₀ hstart hpre hplain hs =>
    subst hs hpre
    obtain ⟨hmore, hphase⟩ := phase_step_plain hstart hplain hruns hstep
    refine ⟨fun l hl => ?_, hphase⟩
    rcases hmore l hl with rfl | hword
    · exact .comma
    · exact stems_of_plain hstart htext hplain l hword
  | quote sigil inside hsigil hinside hs =>
    subst hs
    have hnext := hruns.snoc hstep
    by_cases hc : c = '"'
    · subst hc
      rw [step_closeQuote] at hstep
      cases hstep
      refine ⟨fun l hl => ?_, phase_of_start hnext⟩
      have htext := Lexeme.text_of_mem_ofText hl
      cases l with
      | comma => exact .comma
      | run a t => exact .quote hsigil hinside htext
    · rw [step_quoted _ hc] at hstep
      cases hstep
      refine ⟨by simp, .quote sigil (inside ++ [c]) hsigil ?_ (by simp)⟩
      simpa [hinside] using Ne.symm hc
  | group c₀ e inside hc₀ hpending htotal =>
    obtain ⟨hmore, hphase⟩ := phase_step_group hc₀ hpending htotal hruns hstep
    exact ⟨fun l hl => hmore l hl ▸ .group hc₀, hphase⟩

/-- The rest of the pass, if it ends in order, completes lexemes of the text only. -/
theorem Phase.cutFrom (h : s.Phase pre) (hruns : start.Runs pre done s)
    (htext : text = pre ++ rest) (hend : (s.cutFrom rest).2 = none) :
    ∀ l ∈ (s.cutFrom rest).1, l.Stems text := by
  induction rest generalizing s pre done with
  | nil =>
    rw [Scan.cutFrom] at hend ⊢
    cases h with
    | plain before w done₀ hstart hpre hplain hs =>
      subst hs hpre
      simp only [endFault?, released_plain]
      exact stems_of_plain hstart htext hplain
    | quote sigil inside hsigil hinside hs =>
      subst hs
      cases hend
    | group c₀ e inside hc₀ hpending htotal => simp [endFault?, htotal] at hend
  | cons c rest ih =>
    rw [Scan.cutFrom] at hend ⊢
    cases hstep : s.step c with
    | error fault => simp [hstep] at hend
    | ok next =>
      obtain ⟨more, s'⟩ := next
      simp only [hstep] at hend ⊢
      obtain ⟨hmore, hphase⟩ := h.step hruns hstep htext
      have hrest := ih hphase (hruns.snoc hstep) (by rw [htext, List.append_assoc]; rfl) hend
      exact List.forall_mem_append.2 ⟨hmore, hrest⟩

end Scan

/-- **Every lexeme of a text in order stems from it.** -/
theorem stems_of_mem_cut {text : Text} (h : (cut text).2 = none) :
    ∀ l ∈ (cut text).1, l.Stems text :=
  (phase_of_start (.nil start)).cutFrom (.nil start) (List.nil_append text).symm h

/-! ## Braces -/

/-- Every closing brace outside quotes and enclosers is at the beginning of the text, or
    right after a blank, a comma, a closer or a quote. -/
def BracesApart (text : Text) : Prop :=
  ∀ before rest, text = before ++ '}' :: rest → Balanced before →
    ∀ c ∈ before.getLast?, isBlank c = true ∨ c ∈ [',', ']', ')', '>', '"']

instance : DecidablePred Balanced := fun text =>
  inferInstanceAs (Decidable (Even (text.count '"') ∧ Nested (marks text)))

instance : DecidablePred BracesApart := fun text =>
  decidable_of_iff
    ((List.range text.length).all fun i =>
      text[i]? = some '}' → Balanced (text.take i) →
        (text.take i).getLast?.all fun c => isBlank c || [',', ']', ')', '>', '"'].contains c) <| by
    simp only [List.all_eq_true, decide_eq_true_eq, Option.all_eq_true, Bool.or_eq_true,
      List.contains_iff_mem]
    constructor
    · rintro h before rest rfl
      simpa using h before.length (by simp)
    · intro h i hi hbrace
      refine h (text.take i) (text.drop (i + 1)) ?_
      rw [List.getElem?_eq_some_iff] at hbrace
      obtain ⟨_, hbrace⟩ := hbrace
      rw [← hbrace, List.getElem_cons_drop, List.take_append_drop]

/-- If the word closes a brace, it begins with the brace or has a blank before it. -/
def ClosesApart (w : Text) : Prop :=
  ∀ head, TypeText.bare w = head ++ ['}'] → ∀ c ∈ head.getLast?, isBlank c = true

section
variable {text before after w head : Text} {done : List Lexeme}

/-- Plain characters where the pass is at its start are outside quotes and enclosers. -/
theorem balanced_append_plain (htext : Balanced (before ++ after))
    (hruns : start.Runs before done start) (hplain : ∀ c ∈ w, PlainChar c) :
    Balanced (before ++ w) := by
  have hall : cut (before ++ after) = (done ++ (cut after).1, (cut after).2) :=
    hruns.cutFrom_append after
  have hcut : cut (before ++ w) = (done ++ (cut w).1, (cut w).2) := hruns.cutFrom_append w
  rw [balanced_iff_cut, hall] at htext
  rw [balanced_iff_cut, hcut, cut_plain hplain]
  refine ⟨rfl, fun l hl => ?_⟩
  rcases List.mem_append.1 hl with hl | hl
  · exact htext.2 l (List.mem_append_left _ hl)
  · refine Lexeme.sound_of_inside? ?_
    cases l with
    | comma => rfl
    | run a t =>
      have ha : a ∈ w := Lexeme.text_of_mem_ofText hl ▸ List.mem_cons_self
      simp [Lexeme.inside?, (Mark.of?_eq_none.1 (hplain a ha).2).1]

theorem closesApart_of_text (hbraces : BracesApart text) (hbalanced : Balanced text)
    (hruns : start.Runs before done start) (htext : text = before ++ w ++ after)
    (hplain : ∀ c ∈ w, PlainChar c) : ClosesApart w := by
  intro head hhead c hc
  have hw : w = head ++ '}' :: TypeText.stars w := by
    conv_lhs => rw [← TypeText.bare_append_stars w, hhead]
    simp
  have hplain' : ∀ a ∈ head, PlainChar a := fun a ha =>
    hplain a (by rw [hw]; exact List.mem_append_left _ ha)
  have hsplit : text = (before ++ head) ++ '}' :: (TypeText.stars w ++ after) := by
    rw [htext]
    conv_lhs => rw [hw]
    simp
  have hbefore : Balanced (before ++ head) := by
    rw [htext, List.append_assoc] at hbalanced
    exact balanced_append_plain hbalanced hruns hplain'
  have hlast : c ∈ (before ++ head).getLast? := by
    rw [List.getLast?_append, Option.mem_def.1 hc]
    rfl
  rcases hbraces _ _ hsplit hbefore c hlast with hblank | hother
  · exact hblank
  · -- the others are not plain
    have hnot : ¬ PlainChar c := by
      simp only [List.mem_cons, List.not_mem_nil, or_false] at hother
      rcases hother with rfl | rfl | rfl | rfl | rfl <;> decide
    exact absurd (hplain' c (List.mem_of_getLast? hc)) hnot

end

/-! ## Pieces -/

/-- What a piece of a text can be. -/
inductive Token.Part : Token → Prop
  | comma : Part separator
  | group {c closer : Char} {inside : Text} {e : Encloser} {pieces : List Token}
      (hinside : Pieces inside pieces) (hc : Encloser.ofOpener? c = some e)
      (hcloser : Encloser.ofCloser? closer = some e) :
    Part (.group (c :: inside ++ [closer]) e (arrange pieces))
  | quote {sigil inside : Text} (hsigil : sigil ∈ sigils) (hinside : '"' ∉ inside) :
    Part (.word (sigil ++ '"' :: inside ++ ['"']))
  | plain {w : Text} (hne : w ≠ []) (hplain : ∀ c ∈ w, PlainChar c) (hcloses : ClosesApart w) :
    Part (.word w)

/-- **Every piece of a text is one of these**, if the text holds no comment and no closing
    brace that goes on with a word. -/
theorem Pieces.part {text : Text} {pieces : List Token} (h : Pieces text pieces)
    (hsemi : ';' ∉ text) (hbraces : BracesApart text) : ∀ p ∈ pieces, p.Part := by
  intro p hp
  have hbalanced : Balanced text := (tokenize_ok_iff hsemi).1 ⟨_, h.tokenize⟩
  obtain ⟨l, hl, hread⟩ := h.exists_reads hp
  have hstems := stems_of_mem_cut h.order l hl
  cases hread with
  | comma => exact .comma
  | @group c t e inner hc hinner =>
    obtain ⟨inside, closer, e', rfl, hcloser, horder⟩ := closed_of_mem_cut hl e hc
    rw [List.dropLast_concat] at hinner
    have hinside : ';' ∉ inside := fun hmem =>
      hsemi (mem_of_mem_cut hl (List.mem_cons_of_mem c (List.mem_append_left _ hmem)))
    rw [tokenize_eq_tokenizeAll hinside] at hinner
    obtain ⟨pieces, hpieces, rfl⟩ := tokenizeAll_eq_ok.1 hinner
    obtain rfl := horder hpieces.order
    exact .group hpieces hc hcloser
  | @word c t hc =>
    cases hstems with
    | group hc' => simp [hc] at hc'
    | quote hsigil hinside ht => exact ht ▸ .quote hsigil hinside
    | plain hruns htext hplain =>
      exact .plain (List.cons_ne_nil c t) hplain
        (closesApart_of_text hbraces hbalanced hruns htext hplain)

end LlvmAsm
