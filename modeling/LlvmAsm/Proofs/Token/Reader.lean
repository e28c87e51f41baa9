/-
  The texts that have tokens.

  Unless there is a semicolon, which makes a comment of what follows it, these
  are exactly the texts whose quotes come in pairs and whose enclosers outside
  quotes are properly nested: `tokensOf_ok_iff_nested`.
-/
import LlvmAsm.Line.Message
import LlvmAsm.Proofs.Token.Lexeme

namespace LlvmAsm

/-! ## Tokens -/

/-- Without a semicolon there is no comment. -/
theorem cutComment?_eq_none {t : Text} (h : ';' ∉ t) : cutComment? t = none := by
  cases hcut : cutComment? t with
  | none => rfl
  | some parts =>
    have := append_of_cutComment? hcut
    exact absurd (by rw [this]; simp) h

theorem tokenize_eq_tokenizeAll {t : Text} (h : ';' ∉ t) : tokenize t = tokenizeAll t := by
  have hnone := cutComment?_eq_none h
  rw [tokenize]
  cases tokenizeAll t with
  | ok ts => rfl
  | error e =>
    dsimp only
    split
    · rfl
    · rename_i heq
      rw [hnone] at heq
      cases heq

theorem exists_ok_bind {ε α β : Type} {x : Except ε α} {f : α → Except ε β} :
    (∃ b, x >>= f = .ok b) ↔ ∃ a, x = .ok a ∧ ∃ b, f a = .ok b := by
  cases x <;> simp [bind, Except.bind]

/-- Lexemes have tokens iff the insides of the groups among them have. -/
theorem readLexemes_ok_iff (ls : List Lexeme) :
    (∃ ts, readLexemes ls = .ok ts) ↔
      ∀ l ∈ ls, ∀ t ∈ l.inside?, ∃ ts, tokenize t = .ok ts := by
  induction ls with
  | nil => simp [readLexemes]
  | cons l ls ih =>
    rw [List.forall_mem_cons, ← ih]
    cases l with
    | comma =>
      rw [readLexemes, exists_ok_bind]
      simp [Lexeme.inside?, pure, Except.pure]
    | run c t =>
      rw [readLexemes]
      cases he : Encloser.ofOpener? c with
      | none =>
        dsimp only
        rw [exists_ok_bind]
        simp [Lexeme.inside?, he, pure, Except.pure]
      | some e =>
        dsimp only
        rw [exists_ok_bind]
        simp only [exists_ok_bind]
        simp [Lexeme.inside?, he, pure, Except.pure]

theorem tokenizeAll_ok_iff (t : Text) :
    (∃ ts, tokenizeAll t = .ok ts) ↔
      (cut t).2 = none ∧ ∀ l ∈ (cut t).1, ∀ t' ∈ l.inside?, ∃ ts, tokenize t' = .ok ts := by
  rw [tokenizeAll, exists_ok_bind, ← readLexemes_ok_iff]
  cases (cut t).2 <;> simp

/-- **A text without a semicolon has tokens iff it is balanced.** By induction on
    its length, since the insides of groups are shorter. -/
theorem tokenize_ok_iff {t : Text} (h : ';' ∉ t) : (∃ ts, tokenize t = .ok ts) ↔ Balanced t := by
  induction hn : t.length using Nat.strong_induction_on generalizing t with
  | _ n ih =>
    subst hn
    rw [tokenize_eq_tokenizeAll h, tokenizeAll_ok_iff, balanced_iff_cut]
    refine and_congr_right fun _ => forall_congr' fun l => forall_congr' fun hl =>
      forall_congr' fun t' => forall_congr' fun ht' => ?_
    obtain ⟨hlength, hmem⟩ := inside_of_mem_cut hl ht'
    exact ih t'.length hlength (fun hc => h (hmem _ hc)) rfl

/-- **The texts that are accepted**, if they hold no semicolon, are those with
    quotes in pairs and nested enclosers. All others fail with the number of the
    line and a broken rule. -/
theorem tokensOf_ok_iff_nested {text : Text} (h : ';' ∉ text) (number : Nat) :
    ((∃ ts, tokensOf text number = .ok ts) ↔ Even (text.count '"') ∧ Nested (marks text)) ∧
    (¬ (Even (text.count '"') ∧ Nested (marks text)) →
      ∃ reason, tokensOf text number = .error ⟨number, .imbalance reason⟩ ∧
        (Cause.imbalance reason).violation? = some reason.message) := by
  have hiff : (∃ ts, tokenize text = .ok ts) ↔ Balanced text := tokenize_ok_iff h
  change (_ ↔ Balanced text) ∧ (¬ Balanced text → _)
  unfold tokensOf
  cases ht : tokenize text with
  | ok ts =>
    have hbalanced : Balanced text := hiff.1 ⟨ts, ht⟩
    exact ⟨iff_of_true ⟨ts, rfl⟩ hbalanced, fun hnot => absurd hbalanced hnot⟩
  | error reason =>
    have hnot : ¬ Balanced text := fun hbalanced => by
      obtain ⟨ts, hts⟩ := hiff.2 hbalanced
      rw [ht] at hts
      cases hts
    refine ⟨iff_of_false ?_ hnot, fun _ => ⟨reason, rfl, rfl⟩⟩
    rintro ⟨ts, hts⟩
    cases hts

/-- Crossed enclosers pass the count of each kind, and have no tokens. -/
theorem tokensOf_ok_iff_nested_of_crossed :
    let crossed : Text := "[(])"
    let quoted : Text := "c\"]\" <[(4)]>"
    ';' ∉ crossed ∧ (cut crossed).2 = none ∧
      (∃ reason, tokensOf crossed 7 = .error ⟨7, .imbalance reason⟩) ∧
      ';' ∉ quoted ∧ ∃ ts, tokensOf quoted 7 = .ok ts := by
  intro crossed quoted
  have hcrossed : ';' ∉ crossed := by decide
  have hquoted : ';' ∉ quoted := by decide
  obtain ⟨reason, hreason, -⟩ := (tokensOf_ok_iff_nested hcrossed 7).2 (by decide)
  exact ⟨hcrossed, by decide, ⟨reason, hreason⟩, hquoted,
    (tokensOf_ok_iff_nested hquoted 7).1.2 (by decide)⟩

end LlvmAsm
