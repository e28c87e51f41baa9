/-
  The pieces of a text: its lexemes, each read as a token of its own.

  The tokens of a text in order are its pieces, arranged (`tokenizeAll_eq_ok`).
  While an arrangement depends on what stands before, the pieces of texts that are
  put together are those of the texts: `Pieces.append`, `Pieces.group`.

  * `Lexeme.Reads` is the reading of a single lexeme;
  * `pieces_append_iff`: what follows a text in order and a delimiter decides
    whether both together are in order;
  * `tokenize_cases`: the tokens of a text are those of the whole text, or those
    before its comment and the words of the comment.
-/
import LlvmAsm.Proofs.Token.Pass
import LlvmAsm.Proofs.Token.Reader
import Mathlib.Data.List.Forall2

namespace LlvmAsm

open Scan

theorem bind_eq_ok {ε α β : Type} {x : Except ε α} {f : α → Except ε β} {b : β} :
    x >>= f = .ok b ↔ ∃ a, x = .ok a ∧ f a = .ok b := by
  cases x <;> simp [bind, Except.bind]

theorem tokensOf_eq_ok {t : Text} {number : Nat} {ts : List Token} :
    tokensOf t number = .ok ts ↔ tokenize t = .ok ts := by
  unfold tokensOf
  cases tokenize t <;> simp [Except.mapError]

/-! ## Lexemes one by one -/

/-- The token that a lexeme is by itself. -/
inductive Lexeme.Reads : Lexeme → Token → Prop
  | comma : Reads comma .separator
  | word {c : Char} {t : Text} (hc : Encloser.ofOpener? c = none) :
    Reads (run c t) (.word (c :: t))
  | group {c : Char} {t : Text} {e : Encloser} {inner : List Token}
      (hc : Encloser.ofOpener? c = some e) (hinner : tokenize t.dropLast = .ok inner) :
    Reads (run c t) (.group (c :: t) e inner)

theorem Lexeme.Reads.text_eq {l : Lexeme} {t : Token} (h : l.Reads t) : t.text = l.text := by
  cases h <;> rfl

theorem readLexemes_eq_ok {ls : List Lexeme} {ts : List Token} :
    readLexemes ls = .ok ts ↔ List.Forall₂ Lexeme.Reads ls ts := by
  induction ls generalizing ts with
  | nil => simp [readLexemes, eq_comm]
  | cons l ls ih =>
    rw [List.forall₂_cons_left_iff]
    cases l with
    | comma =>
      rw [readLexemes, bind_eq_ok]
      constructor
      · rintro ⟨rest, hrest, heq⟩
        exact ⟨.separator, rest, .comma, ih.1 hrest, (Except.ok.inj heq).symm⟩
      · rintro ⟨_, rest, ⟨⟩, hrest, rfl⟩
        exact ⟨rest, ih.2 hrest, rfl⟩
    | run c t =>
      rw [readLexemes]
      cases hc : Encloser.ofOpener? c with
      | none =>
        simp only [bind_eq_ok]
        constructor
        · rintro ⟨rest, hrest, heq⟩
          exact ⟨_, rest, .word hc, ih.1 hrest, (Except.ok.inj heq).symm⟩
        · rintro ⟨_, rest, hread, hrest, rfl⟩
          cases hread with
          | word => exact ⟨rest, ih.2 hrest, rfl⟩
          | group hc' => simp [hc] at hc'
      | some e =>
        simp only [bind_eq_ok]
        constructor
        · rintro ⟨inner, hinner, rest, hrest, heq⟩
          exact ⟨_, rest, .group hc hinner, ih.1 hrest, (Except.ok.inj heq).symm⟩
        · rintro ⟨_, rest, hread, hrest, rfl⟩
          cases hread with
          | word hc' => simp [hc] at hc'
          | group hc' hinner =>
            obtain rfl := Option.some.inj (hc.symm.trans hc')
            exact ⟨_, hinner, rest, ih.2 hrest, rfl⟩

/-! ## Pieces -/

/-- The text is in order, and these are its pieces. -/
structure Pieces (t : Text) (ts : List Token) : Prop where
  order : (cut t).2 = none
  reads : List.Forall₂ Lexeme.Reads (cut t).1 ts

theorem Pieces.exists_reads {t : Text} {pieces : List Token} (h : Pieces t pieces) {piece : Token}
    (hpiece : piece ∈ pieces) : ∃ l ∈ (cut t).1, l.Reads piece := by
  obtain ⟨-, hreads⟩ := h
  obtain ⟨i, hi, rfl⟩ := List.mem_iff_getElem.1 hpiece
  exact ⟨_, List.getElem_mem (hreads.length_eq ▸ hi), hreads.get _ hi⟩

theorem Pieces.text_ne_nil {t : Text} {pieces : List Token} (h : Pieces t pieces) :
    ∀ piece ∈ pieces, piece.text ≠ [] := by
  intro piece hpiece
  obtain ⟨l, -, hread⟩ := h.exists_reads hpiece
  cases hread <;> simp [Token.text, Token.separator]

/-- A text has its pieces in one way only. -/
theorem Pieces.unique {t : Text} {ps qs : List Token} (h : Pieces t ps) (h' : Pieces t qs) :
    ps = qs :=
  Except.ok.inj ((readLexemes_eq_ok.2 h.reads).symm.trans (readLexemes_eq_ok.2 h'.reads))

/-- **The tokens of a text in order are its pieces, arranged.** -/
theorem tokenizeAll_eq_ok {t : Text} {ts : List Token} :
    tokenizeAll t = .ok ts ↔ ∃ pieces, Pieces t pieces ∧ ts = Token.arrange pieces := by
  rw [tokenizeAll, bind_eq_ok]
  constructor
  · rintro ⟨pieces, hpieces, h⟩
    split at h
    · cases h
    · exact ⟨pieces, ⟨‹_›, readLexemes_eq_ok.1 hpieces⟩, (Except.ok.inj h).symm⟩
  · rintro ⟨pieces, ⟨horder, hreads⟩, rfl⟩
    exact ⟨pieces, readLexemes_eq_ok.2 hreads, by rw [horder]⟩

theorem Pieces.tokenize {t : Text} {pieces : List Token} (h : Pieces t pieces) :
    LlvmAsm.tokenize t = .ok (Token.arrange pieces) := by
  have hall : tokenizeAll t = .ok (Token.arrange pieces) := tokenizeAll_eq_ok.2 ⟨pieces, h, rfl⟩
  rw [LlvmAsm.tokenize, hall]

/-- The tokens of a text are those of the whole text if it is in order, or else
    those before its comment and those of the comment. -/
theorem tokenize_cases {t : Text} {ts : List Token} (h : tokenize t = .ok ts) :
    (∃ pieces, Pieces t pieces ∧ ts = Token.arrange pieces) ∨
      ∃ before after pieces, cutComment? t = some (before, after) ∧ Pieces before pieces ∧
        ts = Token.arrange pieces ++ commentTokens after := by
  rw [tokenize] at h
  cases hall : tokenizeAll t with
  | ok us =>
    rw [hall] at h
    cases h
    exact Or.inl (tokenizeAll_eq_ok.1 hall)
  | error e =>
    rw [hall] at h
    dsimp only at h
    split at h
    · cases h
    · rename_i before after hcut
      obtain ⟨us, hus, h⟩ := bind_eq_ok.1 h
      obtain ⟨pieces, hpieces, rfl⟩ := tokenizeAll_eq_ok.1 hus
      exact Or.inr ⟨before, after, pieces, hcut, hpieces, (Except.ok.inj h).symm⟩

/-- A text that is not in order has the tokens before its comment, and those of
    the comment. -/
theorem tokenize_of_comment {t before after : Text} {pieces : List Token}
    (h : ¬ ∃ pieces, Pieces t pieces) (hcut : cutComment? t = some (before, after))
    (hbefore : Pieces before pieces) :
    tokenize t = .ok (Token.arrange pieces ++ commentTokens after) := by
  rw [tokenize]
  cases hall : tokenizeAll t with
  | ok us =>
    obtain ⟨pieces, hpieces, -⟩ := tokenizeAll_eq_ok.1 hall
    exact absurd ⟨pieces, hpieces⟩ h
  | error e =>
    dsimp only
    split
    · rename_i hnone
      rw [hcut] at hnone
      cases hnone
    · rename_i before' after' hsome
      obtain ⟨rfl, rfl⟩ : before = before' ∧ after = after' := by simpa [hcut] using hsome
      rw [tokenizeAll_eq_ok.2 ⟨pieces, hbefore, rfl⟩]
      rfl

/-! ## Pieces of texts put together -/

section
variable {t u : Text} {c : Char} {ts us : List Token}

theorem pieces_nil : Pieces [] [] := ⟨rfl, .nil⟩

theorem Pieces.append (h : Pieces t ts) (hc : Delimits c) (h' : Pieces (c :: u) us) :
    Pieces (t ++ c :: u) (ts ++ us) := by
  constructor
  · rw [cut_append_delimiter h.order hc]
    exact h'.order
  · rw [cut_append_delimiter h.order hc]
    exact List.rel_append h.reads h'.reads

/-- After a text in order, a delimiter and what follows it are in order iff they
    are so by themselves. -/
theorem pieces_append_iff (h : Pieces t ts) (hc : Delimits c) :
    (∃ ps, Pieces (t ++ c :: u) ps) ↔ ∃ us, Pieces (c :: u) us := by
  constructor
  · rintro ⟨ps, ⟨horder, hreads⟩⟩
    rw [cut_append_delimiter h.order hc] at horder hreads
    have hrest := List.forall₂_drop (cut t).1.length hreads
    rw [List.drop_left] at hrest
    exact ⟨_, horder, hrest⟩
  · rintro ⟨us, hus⟩
    exact ⟨ts ++ us, h.append hc hus⟩

theorem pieces_blank_iff (hc : c = ' ' ∨ c = '\t') : Pieces (c :: u) us ↔ Pieces u us := by
  constructor
  · rintro ⟨horder, hreads⟩
    rw [cut_cons_blank hc] at horder hreads
    exact ⟨horder, hreads⟩
  · rintro ⟨horder, hreads⟩
    constructor <;> rw [cut_cons_blank hc] <;> assumption

theorem Pieces.comma (h : Pieces u us) : Pieces (',' :: u) (.separator :: us) := by
  constructor
  · rw [cut_cons_comma]
    exact h.order
  · rw [cut_cons_comma]
    exact .cons .comma h.reads

/-- What closes all that it opens is one piece between an opener and its closer. -/
theorem pieces_group {inside : Text} {closer : Char} {e : Encloser} {inner : List Token}
    (horder : (cut inside).2 = none) (hinner : tokenize inside = .ok inner)
    (hc : Encloser.ofOpener? c = some e) (hcloser : Encloser.ofCloser? closer = some e)
    (h : Pieces u us) :
    Pieces (c :: inside ++ closer :: u) (.group (c :: inside ++ [closer]) e inner :: us) := by
  have hcut := cut_group horder hc hcloser u
  have hinner : tokenize (inside ++ [closer]).dropLast = .ok inner := by
    rwa [List.dropLast_concat]
  constructor
  · rw [hcut]
    exact h.order
  · rw [hcut]
    exact .cons (.group hc hinner) h.reads

/-- A text in order between an opener and its closer is one piece. -/
theorem Pieces.group {inside : Text} {closer : Char} {e : Encloser} {inner : List Token}
    (hinside : Pieces inside inner) (hc : Encloser.ofOpener? c = some e)
    (hcloser : Encloser.ofCloser? closer = some e) (h : Pieces u us) :
    Pieces (c :: inside ++ closer :: u)
      (.group (c :: inside ++ [closer]) e (Token.arrange inner) :: us) :=
  pieces_group hinside.order hinside.tokenize hc hcloser h

/-- The character neither delimits nor encloses. -/
def PlainChar (c : Char) : Prop := c ∉ [' ', '\t', ',', '"'] ∧ Mark.of? c = none

instance : DecidablePred PlainChar := fun c =>
  inferInstanceAs (Decidable (c ∉ [' ', '\t', ',', '"'] ∧ Mark.of? c = none))

/-- The characters that are not plain. -/
def specialChars : List Char := [' ', '\t', ',', '"', '[', '(', '<', ']', ')', '>']

theorem plainChar_of_not_mem (h : c ∉ specialChars) : PlainChar c := by
  simp only [specialChars, List.mem_cons, List.not_mem_nil, or_false, not_or] at h
  refine ⟨by simp [h], Mark.of?_eq_none.2 ⟨?_, ?_⟩⟩
  · simp [Encloser.ofOpener?, h]
  · simp [Encloser.ofCloser?, h]

theorem not_mem_of_class {p : Char → Bool} {cs : List Char} (hp : cs.any p = false)
    (h : p c = true) : c ∉ cs := by
  intro hc
  have := List.any_eq_false.1 hp c hc
  exact this h

/-- The characters of a class are plain if no special character is in it. -/
theorem plainChar_of_class {p : Char → Bool} (hp : specialChars.any p = false) (h : p c = true) :
    PlainChar c :=
  plainChar_of_not_mem (not_mem_of_class hp h)

theorem plainChars_of_all (h : t.all (fun c => decide (PlainChar c)) = true) :
    ∀ c ∈ t, PlainChar c := by
  simpa using h

/-- A text of plain characters begins with none but a plain character. -/
theorem head?_ne_of_plain (hplain : ∀ a ∈ t, PlainChar a) (hc : ¬ PlainChar c) :
    t.head? ≠ some c :=
  fun h => hc (hplain c (List.mem_of_head? h))

theorem Scan.step_plain (held : Text) (hc : PlainChar c) :
    step ⟨held, false, .zero, 0⟩ c = .ok ([], ⟨c :: held, false, .zero, 0⟩) := by
  obtain ⟨hdelimiter, hmark⟩ := hc
  obtain ⟨hopener, hcloser⟩ := Mark.of?_eq_none.1 hmark
  simp only [List.mem_cons, List.not_mem_nil, or_false, not_or] at hdelimiter
  simp [step, hdelimiter, hopener, hcloser, hold]

theorem Scan.runs_plain (held : Text) (h : ∀ c ∈ t, PlainChar c) :
    Runs ⟨held, false, .zero, 0⟩ t [] ⟨t.reverse ++ held, false, .zero, 0⟩ := by
  induction t generalizing held with
  | nil => exact .nil _
  | cons c t ih =>
    obtain ⟨hc, ht⟩ := List.forall_mem_cons.1 h
    have := Runs.cons (step_plain held hc) (ih (c :: held) ht)
    rwa [List.reverse_cons, List.append_assoc]

theorem Scan.step_quoted (held : Text) (hc : c ≠ '"') :
    step ⟨held, true, .zero, 0⟩ c = .ok ([], ⟨c :: held, true, .zero, 0⟩) := by
  simp [step, hc, isFree, hold]

/-- Between quotes, everything goes on with the run. -/
theorem Scan.runs_quoted (held : Text) (h : '"' ∉ t) :
    Runs ⟨held, true, .zero, 0⟩ t [] ⟨t.reverse ++ held, true, .zero, 0⟩ := by
  induction t generalizing held with
  | nil => exact .nil _
  | cons c t ih =>
    obtain ⟨hc, ht⟩ := List.ne_and_not_mem_of_not_mem_cons h
    have := Runs.cons (step_quoted held (Ne.symm hc)) (ih (c :: held) ht)
    rwa [List.reverse_cons, List.append_assoc]

/-- A text that begins with a plain character begins with a word. -/
theorem Pieces.cons_of_plain {ps : List Token} (h : Pieces (c :: t) ps) (hc : PlainChar c) :
    ∃ more rest, ps = .word (c :: more) :: rest := by
  obtain ⟨horder, hreads⟩ := h
  have hcut : cut (c :: t) = (Scan.mk [c] false .zero 0).cutFrom t := by
    have := (Scan.runs_plain [] (t := [c]) (by simpa using hc)).cutFrom_append t
    simpa [cut, start] using this
  rw [hcut] at horder hreads
  obtain ⟨l, ls, more, hls, htext⟩ := cutFrom_of_held (List.cons_ne_nil c []) horder
  rw [hls] at hreads
  obtain ⟨a, rest, hread, -, rfl⟩ := List.forall₂_cons_left_iff.1 hreads
  have htext : a.text = c :: more := hread.text_eq.trans htext
  refine ⟨more, rest, ?_⟩
  cases hread with
  | comma =>
    obtain ⟨rfl, -⟩ : ',' = c ∧ [] = more := by simpa [Token.text, Token.separator] using htext
    exact absurd hc.1 (by decide)
  | word => exact congrArg (Token.word · :: rest) htext
  | group hopener =>
    obtain ⟨rfl, -⟩ := List.cons.inj htext
    rw [(Mark.of?_eq_none.1 hc.2).1] at hopener
    cases hopener

theorem cut_plain (h : ∀ c ∈ t, PlainChar c) : cut t = (Lexeme.ofText t, none) := by
  have := (Scan.runs_plain [] h).cutFrom_append []
  rw [List.append_nil] at this
  rw [cut, start, this]
  simp [cutFrom, endFault?, released, pending]

/-- A text of plain characters is a word. -/
theorem pieces_word (hne : t ≠ []) (h : ∀ c ∈ t, PlainChar c) : Pieces t [.word t] := by
  obtain ⟨c, t, rfl⟩ := List.exists_cons_of_ne_nil hne
  have hc : Encloser.ofOpener? c = none :=
    (Mark.of?_eq_none.1 (h c List.mem_cons_self).2).1
  constructor
  · rw [cut_plain h]
  · rw [cut_plain h]
    exact .cons (.word hc) .nil

end

end LlvmAsm
