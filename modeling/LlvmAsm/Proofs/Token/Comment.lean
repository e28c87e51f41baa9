/-
  Comments behind a text.

  Behind a text in order, a comment never takes the tokens of the text away, and it
  never fails, whatever its enclosers and quotes are (`tokensOf_trailing_comment`).
  But a comment that is in order itself is read like any other text. If it begins
  with stars, these go on with the semicolon, which is then no comment any more.

  * `cutComment?_of_balanced`: the search for a comment, which counts all enclosers
    together, ends right behind a balanced text;
  * `Token.foldl_place_semicolon`: what stands behind a semicolon leaves the tokens
    before it alone;
  * `Detached.tokenize_comment`: the tokens of a text with a comment behind it;
  * `Yields.tokenize_comment`: these are the tokens of the text and those that the
    comment has by itself.
-/
import LlvmAsm.Proofs.Token.Yield

namespace LlvmAsm

open Scan Token

/-! ## The search for a comment -/

section
variable {quoted : Bool} {c : Char} {t before after : Text} {stack : List Encloser}

theorem commentState_of_plain (h : mark? quoted c = none) (depth : Nat) :
    commentState quoted depth c = (quotedBy quoted c, depth) := by
  unfold commentState quotedBy
  by_cases hquote : c = '"'
  · rw [if_pos hquote, if_pos hquote]
  · rw [if_neg hquote, if_neg hquote]
    unfold mark? at h
    split_ifs at h ⊢ with hquoted hopener hcloser
    · rfl
    · rw [(Mark.of?_eq_none.1 h).1] at hopener
      cases hopener
    · rw [(Mark.of?_eq_none.1 h).2] at hcloser
      cases hcloser
    · rfl

theorem commentState_of_opener {e : Encloser} (h : mark? quoted c = some (.opener e))
    (depth : Nat) : commentState quoted depth c = (quoted, depth + 1) := by
  obtain ⟨rfl, hmark, hc⟩ := of_mark? h
  have hquote : c ≠ '"' := fun h => hc (by simp [h])
  simp [commentState, hquote, Mark.of?_eq_opener.1 hmark]

theorem commentState_of_closer {e : Encloser} (h : mark? quoted c = some (.closer e))
    (depth : Nat) : commentState quoted depth c = (quoted, depth - 1) := by
  obtain ⟨rfl, hmark, hc⟩ := of_mark? h
  have hquote : c ≠ '"' := fun h => hc (by simp [h])
  simp [commentState, hquote, Mark.of?_eq_closer.1 hmark]

theorem cutCommentFrom?_cons {quoted' : Bool} {depth depth' : Nat} (hc : c ≠ ';')
    (hstate : commentState quoted depth c = (quoted', depth'))
    (h : cutCommentFrom? quoted' depth' t = some (before, after)) :
    cutCommentFrom? quoted depth (c :: t) = some (c :: before, after) := by
  rw [cutCommentFrom?, if_neg fun h => hc h.1, hstate]
  simp [h]

/-- The search passes over a text that closes what is open. The induction is on
    the text; the depth of the search is the height of the stack. -/
theorem cutCommentFrom?_of_clears (h : Clears stack quoted t) (hsemi : ';' ∉ t) :
    cutCommentFrom? quoted stack.length (t ++ ';' :: after) = some (t, after) := by
  induction t generalizing quoted stack with
  | nil =>
    obtain ⟨hstack, hquoted⟩ := h
    have hstack : stack = [] := by simpa [marksFrom, unwind] using hstack
    have hquoted : quoted = false := by simpa [quotedAfter] using hquoted
    simp [cutCommentFrom?, hstack, hquoted]
  | cons c t ih =>
    obtain ⟨hc, ht⟩ : ';' ≠ c ∧ ';' ∉ t := by simpa using hsemi
    cases hm : mark? quoted c with
    | none =>
      have hrest := ih ((clears_cons_of_plain hm stack t).1 h) ht
      exact cutCommentFrom?_cons hc.symm (commentState_of_plain hm _) hrest
    | some m =>
      cases m with
      | opener e =>
        have hrest := ih ((clears_cons_of_opener hm stack t).1 h) ht
        exact cutCommentFrom?_cons hc.symm (commentState_of_opener hm _) hrest
      | closer e =>
        cases stack with
        | nil => exact absurd h (not_clears_nil_of_closer hm t)
        | cons e' stack =>
          have hrest := ih ((clears_cons_of_closer hm stack t).1 h).2 ht
          exact cutCommentFrom?_cons hc.symm (commentState_of_closer hm _) hrest

/-- The first semicolon behind a balanced text is that of the comment. -/
theorem cutComment?_of_balanced (h : Balanced t) (hsemi : ';' ∉ t) (after : Text) :
    cutComment? (t ++ ';' :: after) = some (t, after) :=
  cutCommentFrom?_of_clears ((balanced_iff_clears t).1 h) hsemi

/-- Semicolons in quotes begin no comment. -/
theorem cutComment?_quote (h : '"' ∉ t) (u : Text) :
    cutComment? ('"' :: t ++ '"' :: u) =
      (cutComment? u).map fun (before, after) => ('"' :: t ++ '"' :: before, after) := by
  have hinside : cutCommentFrom? true 0 (t ++ '"' :: u) =
      (cutComment? u).map fun (before, after) => (t ++ '"' :: before, after) := by
    induction t with
    | nil => rfl
    | cons c t ih =>
      obtain ⟨hc, ht⟩ : '"' ≠ c ∧ '"' ∉ t := by simpa using h
      have hstate : commentState true 0 c = (true, 0) := by simp [commentState, hc.symm]
      rw [List.cons_append, cutCommentFrom?, if_neg (by simp), hstate]
      dsimp only
      rw [ih ht, Option.map_map]
      rfl
  have hquote : cutComment? ('"' :: t ++ '"' :: u) =
      (cutCommentFrom? true 0 (t ++ '"' :: u)).map fun (before, after) =>
        ('"' :: before, after) := rfl
  rw [hquote, hinside, Option.map_map]
  rfl

end

/-! ## What a comment does to the tokens before it -/

namespace Token

/-- The word that starts a comment. -/
abbrev semicolon : Token := word [';']

variable {old : List Token} {a : Token}

theorem apart_semicolon : semicolon.Apart :=
  apart_word (c := ';') rfl (by decide) (by decide)

theorem extends?_semicolon (w : Text) : extends? w semicolon = w.all (· = '*') := rfl

theorem place_semicolon_of_stars (ha : ∀ c ∈ a.text, c = '*') (old : List Token) :
    place (semicolon :: old) a = word (';' :: a.text) :: old := by
  have hext : extends? a.text semicolon = true := by
    rw [extends?_semicolon]
    simpa using ha
  rw [place, if_pos hext]
  rfl

/-- Only stars go on with a semicolon. -/
theorem place_semicolon (hold : ∀ b ∈ old, b.Settled) (ha : ¬ ∀ c ∈ a.text, c = '*') :
    place (semicolon :: old) a = a :: semicolon :: old := by
  have hplaced := placed (semicolon :: old) a
  generalize place (semicolon :: old) a = after at hplaced
  cases hplaced with
  | joined last rest hbefore hext =>
    obtain ⟨rfl, rfl⟩ : semicolon = last ∧ old = rest := by simpa using hbefore
    rw [extends?_semicolon] at hext
    exact absurd (by simpa using hext) ha
  | signed last rest hbefore htype =>
    obtain ⟨rfl, rfl⟩ : semicolon = last ∧ old = rest := by simpa using hbefore
    cases htype
  | closed w head inner rest _ _ hbefore =>
    -- no brace is open
    have hmem : openBrace ∈ semicolon :: old := by rw [hbefore]; simp
    rcases List.mem_cons.1 hmem with heq | hmem
    · cases heq
    · cases hold _ hmem
  | apart => rfl

/-- What stands behind a semicolon leaves the tokens before it alone, and the
    semicolon, unless it begins with stars. -/
theorem foldl_place_semicolon (hold : ∀ b ∈ old, b.Settled) {pieces : List Token}
    (hne : ∀ p ∈ pieces, p.text ≠ []) :
    ∃ newer more, pieces.foldl place (semicolon :: old) =
        newer ++ word (';' :: more) :: old ∧
      (more = [] ↔ ∀ p ∈ pieces.head?, ¬ ∀ c ∈ p.text, c = '*') := by
  cases pieces with
  | nil => exact ⟨[], [], rfl, by simp⟩
  | cons p pieces =>
    by_cases hstars : ∀ c ∈ p.text, c = '*'
    · have hsettled : (word (';' :: p.text)).Settled := by simp [Settled, isWord]
      obtain ⟨newer, more, hfold, -⟩ :=
        foldl_place_beyond [] hsettled (by simp [text]) hold pieces
      refine ⟨newer, p.text ++ more, ?_, ?_⟩
      · rw [List.foldl_cons, place_semicolon_of_stars hstars]
        exact hfold
      · have hp : p.text ≠ [] := hne p List.mem_cons_self
        simpa [hp] using hstars
    · obtain ⟨newer, more, hfold, hnewer⟩ :=
        foldl_place_beyond [p] (t := semicolon) rfl (by simp [text]) hold pieces
      obtain ⟨-, rfl⟩ := hnewer (by simp)
      refine ⟨newer, [], ?_, by simpa using hstars⟩
      rw [List.foldl_cons, place_semicolon hold hstars]
      exact hfold

end Token

/-! ## Comments behind a text -/

/-- The text is in order and begins with stars, and these are a piece. -/
def StarsFirst (t : Text) : Prop :=
  ∃ first rest, Pieces t (first :: rest) ∧ ∀ c ∈ first.text, c = '*'

theorem pieces_semicolon : Pieces [';'] [semicolon] :=
  pieces_word (by simp) (plainChars_of_all (by decide))

theorem starsFirst_iff {t : Text} {pieces : List Token} (h : Pieces t pieces) :
    StarsFirst t ↔ ∃ p ∈ pieces.head?, ∀ c ∈ p.text, c = '*' := by
  constructor
  · rintro ⟨first, rest, hfirst, hstars⟩
    obtain rfl := hfirst.unique h
    exact ⟨first, rfl, hstars⟩
  · rintro ⟨p, hp, hstars⟩
    obtain ⟨rest, rfl⟩ := List.head?_eq_some_iff.1 hp
    exact ⟨p, rest, h, hstars⟩

section
variable {t u c : Text} {pieces : List Token}

/-- Nothing goes on with the last piece of the text. -/
structure Detached (t : Text) (pieces : List Token) : Prop where
  self : Pieces t pieces
  append : ∀ {u : Text} {us : List Token}, Pieces u us → Pieces (t ++ u) (pieces ++ us)
  rest : ∀ {u : Text}, (∃ ps, Pieces (t ++ u) ps) → ∃ us, Pieces u us

theorem pieces_blanks_iff {us : List Token} (h : ∀ d ∈ t, d = ' ' ∨ d = '\t') :
    Pieces (t ++ u) us ↔ Pieces u us := by
  induction t with
  | nil => exact Iff.rfl
  | cons d t ih =>
    obtain ⟨hd, ht⟩ := List.forall_mem_cons.1 h
    rw [List.cons_append, pieces_blank_iff hd, ih ht]

theorem detached_blanks (h : ∀ d ∈ t, d = ' ' ∨ d = '\t') : Detached t [] := by
  refine ⟨?_, (pieces_blanks_iff h).2, fun ⟨ps, hps⟩ => ⟨ps, (pieces_blanks_iff h).1 hps⟩⟩
  have := (pieces_blanks_iff h).2 pieces_nil
  rwa [List.append_nil] at this

/-- Nothing goes on with a text behind which are blanks. -/
theorem Pieces.detached_blanks (h : Pieces t pieces) {blanks : Text}
    (hblanks : ∀ d ∈ blanks, d = ' ' ∨ d = '\t') : Detached (t ++ ' ' :: blanks) pieces := by
  have hblank : ∀ {u : Text} {us : List Token}, Pieces u us →
      Pieces (t ++ ' ' :: blanks ++ u) (pieces ++ us) := by
    intro u us hus
    have hus := (pieces_blanks_iff hblanks).2 hus
    simpa using h.append (Or.inl rfl) ((pieces_blank_iff (Or.inl rfl)).2 hus)
  refine ⟨by simpa using hblank pieces_nil, hblank, fun {u} hps => ?_⟩
  rw [List.append_assoc, List.cons_append, pieces_append_iff h (Or.inl rfl)] at hps
  simpa only [pieces_blank_iff (Or.inl rfl), pieces_blanks_iff hblanks] using hps

theorem Pieces.detached (h : Pieces t pieces) : Detached (t ++ [' ']) pieces :=
  h.detached_blanks (List.forall_mem_nil _)

theorem pieces_semicolon_append (hc : ∀ d ∈ c.head?, Delimits d) (h : Pieces c pieces) :
    Pieces (';' :: c) (semicolon :: pieces) := by
  cases c with
  | nil =>
    obtain rfl := h.unique pieces_nil
    exact pieces_semicolon
  | cons d u => exact pieces_semicolon.append (hc d rfl) h

theorem exists_pieces_of_semicolon (hc : ∀ d ∈ c.head?, Delimits d)
    (h : ∃ ps, Pieces (';' :: c) ps) : ∃ us, Pieces c us := by
  cases c with
  | nil => exact ⟨[], pieces_nil⟩
  | cons d u => exact (pieces_append_iff pieces_semicolon (hc d rfl)).1 h

theorem Detached.cutComment? (h : Detached t pieces) (hsemi : ';' ∉ t) (c : Text) :
    LlvmAsm.cutComment? (t ++ ';' :: c) = some (t, c) :=
  cutComment?_of_balanced ((tokenize_ok_iff hsemi).1 ⟨_, h.self.tokenize⟩) hsemi c

/-- A comment with a blank or another delimiter behind its semicolon. If it is in
    order, it is read like the text before it, and otherwise it is cut off. -/
theorem Detached.tokenize_comment (h : Detached t pieces) (hsemi : ';' ∉ t)
    (hsettled : ∀ a ∈ arrange pieces, a.Settled) (hc : ∀ d ∈ c.head?, Delimits d) :
    ∃ more rest, tokenize (t ++ ';' :: c) = .ok (arrange pieces ++ word (';' :: more) :: rest) ∧
      (more = [] ↔ ¬ StarsFirst c) := by
  by_cases horder : ∃ qs, Pieces c qs
  · obtain ⟨qs, hqs⟩ := horder
    have hbefore : ∀ a ∈ pieces.foldl place [], a.Settled := fun a ha =>
      hsettled a (List.mem_reverse.2 ha)
    obtain ⟨newer, more, hfold, hmore⟩ := foldl_place_semicolon hbefore hqs.text_ne_nil
    refine ⟨more, newer.reverse, ?_, ?_⟩
    · rw [(h.append (pieces_semicolon_append hc hqs)).tokenize, arrange, List.foldl_append,
        List.foldl_cons, apart_semicolon.place, hfold, arrange]
      simp
    · rw [hmore, starsFirst_iff hqs]
      simp
  · have hnot : ¬ ∃ ps, Pieces (t ++ ';' :: c) ps := fun hps =>
      horder (exists_pieces_of_semicolon hc (h.rest hps))
    refine ⟨[], (Text.words c).map word,
      tokenize_of_comment hnot (h.cutComment? hsemi c) h.self, ?_⟩
    have hnot : ¬ StarsFirst c := by
      rintro ⟨first, rest, hfirst, -⟩
      exact horder ⟨_, hfirst⟩
    simpa using hnot

/-- A comment in order has the tokens that it has by itself. -/
theorem Detached.tokenize_append_of_order (h : Detached t pieces)
    (hsettled : ∀ a ∈ arrange pieces, a.Settled) (hc : ∀ d ∈ c.head?, Delimits d)
    (horder : ∃ qs, Pieces c qs) :
    ∃ tail, tokenize (';' :: c) = .ok tail ∧
      tokenize (t ++ ';' :: c) = .ok (arrange pieces ++ tail) := by
  obtain ⟨qs, hqs⟩ := horder
  have hall := pieces_semicolon_append hc hqs
  have hold : ∀ a ∈ pieces.foldl place [], a.Settled := fun a ha =>
    hsettled a (List.mem_reverse.2 ha)
  refine ⟨_, hall.tokenize, ?_⟩
  have hframe : qs.foldl place (semicolon :: pieces.foldl place []) =
      qs.foldl place [semicolon] ++ pieces.foldl place [] :=
    foldl_place_append (List.cons_ne_nil semicolon []) hold qs
  rw [(h.append hall).tokenize, arrange, List.foldl_append, List.foldl_cons,
    apart_semicolon.place, hframe, List.reverse_append, arrange, arrange, List.foldl_cons,
    place_nil]

/-- Behind a text, a comment has the tokens that it has by itself. -/
theorem Detached.tokenize_append (h : Detached t pieces)
    (hcut : LlvmAsm.cutComment? (t ++ ';' :: c) = some (t, c))
    (hsettled : ∀ a ∈ arrange pieces, a.Settled) (hc : ∀ d ∈ c.head?, Delimits d) :
    ∃ tail, tokenize (';' :: c) = .ok tail ∧
      tokenize (t ++ ';' :: c) = .ok (arrange pieces ++ tail) := by
  by_cases horder : ∃ qs, Pieces c qs
  · exact h.tokenize_append_of_order hsettled hc horder
  · have hself : ¬ ∃ ps, Pieces ([] ++ ';' :: c) ps := fun hps =>
      horder (exists_pieces_of_semicolon hc hps)
    have hall : ¬ ∃ ps, Pieces (t ++ ';' :: c) ps := fun hps => hself (h.rest hps)
    have hempty : Balanced [] := (balanced_iff_clears []).2 ⟨rfl, rfl⟩
    have hcut' := cutComment?_of_balanced hempty (List.not_mem_nil) c
    exact ⟨_, tokenize_of_comment hself hcut' pieces_nil, tokenize_of_comment hall hcut h.self⟩

/-- A comment by itself begins with its semicolon, and with the stars behind it. -/
theorem tokenize_semicolon (c : Text) :
    ∃ more rest, tokenize (';' :: ' ' :: c) = .ok (word (';' :: more) :: rest) ∧
      (more = [] ↔ ¬ StarsFirst c) := by
  have hempty : Detached [] [] := detached_blanks (List.forall_mem_nil _)
  have hstars : StarsFirst (' ' :: c) ↔ StarsFirst c := by
    simp only [StarsFirst, pieces_blank_iff (Or.inl rfl)]
  rw [← hstars]
  refine hempty.tokenize_comment List.not_mem_nil (List.forall_mem_nil _) ?_
  rintro _ ⟨⟩
  exact Or.inl rfl

/-- A text keeps its tokens if a comment is behind it, and so does the comment. -/
theorem Yields.tokenize_comment {ts : List Token} (h : Yields t ts) (hsemi : ';' ∉ t)
    (hsettled : ∀ a ∈ ts, a.Settled) (c : Text) :
    ∃ tail, LlvmAsm.tokenize (';' :: ' ' :: c) = .ok tail ∧
      LlvmAsm.tokenize (t ++ " ; " ++ c) = .ok (ts ++ tail) := by
  obtain ⟨pieces, hpieces, rfl⟩ := h.exists_pieces
  have htext : t ++ " ; " ++ c = t ++ [' '] ++ ';' :: ' ' :: c := by simp
  have hsemi : ';' ∉ t ++ [' '] := by simpa using hsemi
  rw [htext]
  refine hpieces.detached.tokenize_append (hpieces.detached.cutComment? hsemi _) hsettled ?_
  rintro _ ⟨⟩
  exact Or.inl rfl

end

/-- **A comment behind a text** does not disturb the tokens of the text, whatever
    its enclosers and quotes are: these tokens come first, unless a brace is open
    among them, and then a semicolon. The semicolon is a word of its own unless the
    comment is in order and begins with stars, which go on with it. -/
theorem tokensOf_trailing_comment {t : Text} {number : Nat} {ts : List Token} (hsemi : ';' ∉ t)
    (h : tokensOf t number = .ok ts) (hopen : openBrace ∉ ts) (c : Text) :
    ∃ more rest, tokensOf (t ++ " ; " ++ c) number = .ok (ts ++ word (';' :: more) :: rest) ∧
      (more = [] ↔ ¬ StarsFirst c) := by
  rw [tokensOf_eq_ok, tokenize_eq_tokenizeAll hsemi] at h
  obtain ⟨pieces, hpieces, rfl⟩ := tokenizeAll_eq_ok.1 h
  have htext : t ++ " ; " ++ c = t ++ [' '] ++ ';' :: ' ' :: c := by simp
  have hstars : StarsFirst (' ' :: c) ↔ StarsFirst c := by
    simp only [StarsFirst, pieces_blank_iff (Or.inl rfl)]
  simp only [tokensOf_eq_ok, htext, ← hstars]
  refine hpieces.detached.tokenize_comment (by simpa using hsemi) (fun a ha => ?_) ?_
  · exact settled_iff.2 fun heq => hopen (heq ▸ ha)
  · rintro _ ⟨⟩
    exact Or.inl rfl

/-- A comment that begins with stars, and has a closer without an opener. -/
theorem tokensOf_trailing_comment_of_stray :
    let t : Text := "ret void"
    let ts := [word "ret", word "void"]
    ';' ∉ t ∧ tokensOf t 1 = .ok ts ∧ openBrace ∉ ts ∧
      ∃ rest, tokensOf (t ++ " ; " ++ "** )") 1 = .ok (ts ++ semicolon :: rest) := by
  intro t ts
  have hpieces : Pieces t ts := ⟨by decide, .cons (.word rfl) (.cons (.word rfl) .nil)⟩
  have hsemi : ';' ∉ t := by decide
  have hts : tokensOf t 1 = .ok ts := tokensOf_eq_ok.2 hpieces.tokenize
  have hopen : openBrace ∉ ts := by decide
  obtain ⟨more, rest, htokens, hmore⟩ := tokensOf_trailing_comment hsemi hts hopen "** )"
  have hstray : ¬ StarsFirst "** )" := by
    rintro ⟨first, rest, hfirst, -⟩
    exact absurd hfirst.order (by decide)
  obtain rfl := hmore.2 hstray
  exact ⟨hsemi, hts, hopen, rest, htokens⟩

/-- Stars at the beginning of a comment in order go on with its semicolon. -/
theorem not_semicolon_of_stars :
    let t : Text := "ret void"
    let ts := [word "ret", word "void"]
    tokensOf t 1 = .ok ts ∧
      tokensOf (t ++ " ; " ++ "* x") 1 = .ok (ts ++ [word ";*", word "x"]) ∧
      ¬ ts ++ [semicolon] <+: ts ++ [word ";*", word "x"] := by
  intro t ts
  have hpieces : Pieces t ts := ⟨by decide, .cons (.word rfl) (.cons (.word rfl) .nil)⟩
  have hall : Pieces (t ++ " ; " ++ "* x") (ts ++ [semicolon, word "*", word "x"]) := by
    refine ⟨by decide, ?_⟩
    exact .cons (.word rfl) (.cons (.word rfl) (.cons (.word rfl) (.cons (.word rfl)
      (.cons (.word rfl) .nil))))
  refine ⟨?_, ?_, by decide⟩
  · rw [tokensOf_eq_ok, hpieces.tokenize]
    decide
  · rw [tokensOf_eq_ok, hall.tokenize]
    decide

end LlvmAsm
