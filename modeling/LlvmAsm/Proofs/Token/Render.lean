/-
  Tokens that are rendered have themselves as tokens.

  A token is `Remade` after the tokens before it if the pieces of its text, placed after
  them, make that very token again. Each of the tokens before a piece stays so when the
  piece is placed (`AllRemade.place`): with stars, a quoted name or a signature its text
  goes on as its pieces do, and the tokens that a brace folds are remade one by one
  between the braces. So the rendering of the tokens of a text has the same tokens
  (`tokensOf_render`).

  * `Tight` texts end whatever they begin, so their pieces stand whatever follows;
  * `place_append_stars`: stars may be placed with a word or after it;
  * `AllRemade.pieces_render` remakes the latest tokens from their rendering.
-/
import LlvmAsm.Proofs.Token.Part
import LlvmAsm.Proofs.Token.Yield

namespace LlvmAsm

open Scan Token

/-! ## Tight texts -/

/-- The text ends what it begins: it has these pieces, whatever follows it. -/
def Tight (x : Text) (qs : List Token) : Prop :=
  ∀ u us, Pieces u us → Pieces (x ++ u) (qs ++ us)

/-- The piece that a text of plain characters is, if there are any. -/
def wordPiece : Text → List Token
  | [] => []
  | c :: w => [.word (c :: w)]

section
variable {x y t w : Text} {qs rs ts : List Token} {c : Char} {e : Encloser}

theorem tight_nil : Tight [] [] := fun _ _ h => h

theorem Tight.append (h : Tight x qs) (h' : Tight y rs) : Tight (x ++ y) (qs ++ rs) := by
  intro u us hu
  rw [List.append_assoc, List.append_assoc]
  exact h _ _ (h' u us hu)

/-- A blank ends what is before it. -/
theorem Pieces.tight_blank (h : Pieces t ts) : Tight (t ++ [' ']) ts := by
  intro u us hu
  rw [List.append_assoc]
  exact h.append (Or.inl rfl) ((pieces_blank_iff (Or.inl rfl)).2 hu)

theorem tight_comma : Tight [','] [separator] := fun _ _ h => h.comma

theorem tight_group {inside : Text} {closer : Char} {inner : List Token}
    (hinside : Pieces inside inner) (hc : Encloser.ofOpener? c = some e)
    (hcloser : Encloser.ofCloser? closer = some e) :
    Tight (c :: inside ++ [closer]) [.group (c :: inside ++ [closer]) e (arrange inner)] := by
  intro u us hu
  have := hinside.group hc hcloser hu
  rwa [List.append_cons (c :: inside)] at this

/-- The pass over a quote, after a sigil or not. -/
theorem cut_quote {sigil inside : Text} (hsigil : sigil ∈ sigils) (hinside : '"' ∉ inside)
    (u : Text) :
    cut (sigil ++ '"' :: inside ++ '"' :: u) =
      (Lexeme.ofText (sigil ++ '"' :: inside ++ ['"']) ++ (cut u).1, (cut u).2) := by
  have hopen : Runs start (sigil ++ ['"']) [] ⟨(sigil ++ ['"']).reverse, true, .zero, 0⟩ := by
    rcases mem_sigils.1 hsigil with rfl | rfl | rfl
    · exact (runs_plain [] (List.forall_mem_nil _)).snoc rfl
    · exact (runs_plain [] (List.forall_mem_singleton.2 (by decide))).snoc rfl
    · exact (runs_plain [] (List.forall_mem_singleton.2 (by decide))).snoc rfl
  have hquoted := (runs_quoted (sigil ++ ['"']).reverse hinside).cutFrom_append ('"' :: u)
  rw [← List.reverse_append, List.append_assoc, List.singleton_append, cutFrom,
    step_closeQuote] at hquoted
  have hall := hopen.cutFrom_append (inside ++ '"' :: u)
  rw [List.append_assoc, List.singleton_append] at hall
  rw [cut, List.append_assoc, List.cons_append, hall, hquoted]
  rfl

theorem tight_quote {sigil inside : Text} (hsigil : sigil ∈ sigils) (hinside : '"' ∉ inside) :
    Tight (sigil ++ '"' :: inside ++ ['"']) [.word (sigil ++ '"' :: inside ++ ['"'])] := by
  intro u us hu
  have hcut := cut_quote hsigil hinside u
  have hreads : List.Forall₂ Lexeme.Reads (Lexeme.ofText (sigil ++ '"' :: inside ++ ['"']))
      [.word (sigil ++ '"' :: inside ++ ['"'])] := by
    rcases mem_sigils.1 hsigil with rfl | rfl | rfl
    all_goals exact .cons (.word rfl) .nil
  rw [List.append_assoc, List.singleton_append]
  constructor
  · rw [hcut]
    exact hu.order
  · rw [hcut]
    exact List.rel_append hreads hu.reads

theorem pieces_wordPiece (hplain : ∀ c ∈ w, PlainChar c) : Pieces w (wordPiece w) := by
  cases w with
  | nil => exact pieces_nil
  | cons c w => exact pieces_word (List.cons_ne_nil c w) hplain

/-- A piece is tight, or a word of plain characters. -/
theorem Token.Part.tight_or_plain {p : Token} (h : p.Part) :
    Tight p.text [p] ∨ ∃ w, p = .word w ∧ w ≠ [] ∧ ∀ c ∈ w, PlainChar c := by
  cases h with
  | comma => exact Or.inl tight_comma
  | group hinside hc hcloser => exact Or.inl (tight_group hinside hc hcloser)
  | quote hsigil hinside => exact Or.inl (tight_quote hsigil hinside)
  | plain hne hplain => exact Or.inr ⟨_, rfl, hne, hplain⟩

end

/-! ## Stars -/

namespace Token

variable {w stars : Text} {before rest : List Token} {last : Token}

theorem isSeparator_append_stars (hstars : ∀ c ∈ stars, c = '*')
    (hlast : last.isSeparator = false) : (last.append stars).isSeparator = false := by
  rw [Bool.eq_false_iff]
  intro h
  have heq : last.append stars = word "," := isWord_iff.1 h
  cases stars with
  | nil =>
    rw [append_nil] at heq
    rw [heq] at hlast
    cases hlast
  | cons c cs =>
    have hmem : c ∈ (last.append (c :: cs)).text := by simp
    rw [heq, hstars c List.mem_cons_self] at hmem
    exact absurd hmem (by decide)

/-- A word that neither goes on with a token nor completes one closes a brace, or stands by
    itself. -/
theorem place_word (hquote : w.head? ≠ some '"') (hparen : w.head? ≠ some '(')
    (hstars : ∃ c ∈ w, c ≠ '*') (before : List Token) :
    place before (word w) = (closeBrace? w before).getD (word w :: before) := by
  have hsignature : (word w).isSignature = false := isSignature_eq_false hparen
  cases before with
  | nil => rfl
  | cons last rest =>
    have hext : extends? (word w).text last = false := extends?_eq_false hquote hstars last
    simp [place, placeApart, hext, hsignature]

/-- Stars after nothing that they can go on with stand by themselves. -/
theorem place_stars_apart (hstars : ∀ c ∈ stars, c = '*')
    (hbefore : ∀ last ∈ before.head?, last.isSeparator = true) :
    place before (word stars) = word stars :: before := by
  have hbare : TypeText.bare stars = [] := TypeText.bare_append_of_stars hstars []
  have hclose : closeBrace? stars before = none := closeBrace?_eq_none (by simp [hbare]) before
  cases before with
  | nil => exact place_nil _
  | cons last rest =>
    have hlast := hbefore last rfl
    simp [place, placeApart, extends?, hlast, hclose]

/-- Stars behind a word that closes a brace are those of the group. -/
theorem closeBrace?_append_stars (hstars : ∀ c ∈ stars, c = '*') (w : Text)
    (before : List Token) :
    closeBrace? (w ++ stars) before =
      (closeBrace? w before).map fun after => place after (word stars) := by
  have hbare := TypeText.bare_append_of_stars hstars w
  have hmore : TypeText.stars (w ++ stars) = TypeText.stars w ++ stars := by
    have hall : TypeText.bare w ++ TypeText.stars (w ++ stars) =
        TypeText.bare w ++ (TypeText.stars w ++ stars) := by
      rw [← List.append_assoc, TypeText.bare_append_stars, ← hbare, TypeText.bare_append_stars]
    exact List.append_cancel_left hall
  unfold closeBrace?
  rw [hbare, hmore]
  split
  · split
    · rfl
    · have hgroup : ∀ inner more, (braceGroup inner more).append stars =
          braceGroup inner (more ++ stars) := by
        intro inner more
        simp [braceGroup, Token.append]
      rw [Option.map_some, place_stars rfl hstars, hgroup]
  · rfl

/-- **Stars may be placed with a word or after it.** -/
theorem place_append_stars (hne : w ≠ []) (hplain : ∀ c ∈ w, PlainChar c)
    (hstars : ∀ c ∈ stars, c = '*') (before : List Token) :
    place before (word (w ++ stars)) = place (place before (word w)) (word stars) := by
  have hhead : ∀ c, ¬ PlainChar c → w.head? ≠ some c := fun c => head?_ne_of_plain hplain
  have hseparator : (word w).isSeparator = false := by
    rw [Bool.eq_false_iff]
    intro h
    have hcomma : w = ",".toList := by simpa [isSeparator, isWord] using h
    exact hhead ',' (by decide) (by rw [hcomma]; rfl)
  by_cases hall : ∀ c ∈ w, c = '*'
  · -- all stars go the same way
    have hboth : ∀ c ∈ w ++ stars, c = '*' := List.forall_mem_append.2 ⟨hall, hstars⟩
    by_cases hbefore : ∀ last ∈ before.head?, last.isSeparator = true
    · rw [place_stars_apart hboth hbefore, place_stars_apart hall hbefore,
        place_stars hseparator hstars]
      rfl
    · obtain ⟨last, rest, rfl, hlast⟩ : ∃ last rest, before = last :: rest ∧
          last.isSeparator = false := by
        cases before with
        | nil => simp at hbefore
        | cons last rest => exact ⟨last, rest, rfl, by simpa using hbefore⟩
      rw [place_stars hlast hboth, place_stars hlast hall,
        place_stars (isSeparator_append_stars hall hlast) hstars, append_append]
  · -- the word closes a brace, or the stars follow the word
    obtain ⟨c, hc⟩ : ∃ c ∈ w, c ≠ '*' := by simpa using hall
    have happend : ∀ c, ¬ PlainChar c → (w ++ stars).head? ≠ some c := fun c hc => by
      rw [List.head?_append_of_ne_nil w hne]
      exact hhead c hc
    rw [place_word (happend _ (by decide)) (happend _ (by decide))
      ⟨c, List.mem_append_left _ hc.1, hc.2⟩,
      place_word (hhead _ (by decide)) (hhead _ (by decide)) ⟨c, hc⟩,
      closeBrace?_append_stars hstars]
    cases closeBrace? w before with
    | some after => rfl
    | none =>
      have := place_stars hseparator hstars before
      exact this.symm

end Token

/-! ## Tokens that are remade -/

/-- The pieces of the token's text, placed after the tokens before it, make the token
    again. Only plain characters at the end of its text may go on with what follows. -/
def Remade (before : List Token) (t : Token) : Prop :=
  ∃ x qs w, t.text = x ++ w ∧ Tight x qs ∧ (∀ c ∈ w, PlainChar c) ∧
    (qs ++ wordPiece w).foldl place before = t :: before

/-- Every token is remade after those before it. -/
def AllRemade : List Token → Prop
  | [] => True
  | t :: before => Remade before t ∧ AllRemade before

section
variable {x w stars : Text} {qs before rest new old inner : List Token} {t last p : Token}

theorem Tight.pieces_append (h : Tight x qs) (hplain : ∀ c ∈ w, PlainChar c) :
    Pieces (x ++ w) (qs ++ wordPiece w) :=
  h w _ (pieces_wordPiece hplain)

theorem Remade.pieces (h : Remade before t) :
    ∃ ps, Pieces t.text ps ∧ ps.foldl place before = t :: before := by
  obtain ⟨x, qs, w, htext, htight, hplain, hfold⟩ := h
  exact ⟨_, htext ▸ htight.pieces_append hplain, hfold⟩

/-- A text that is tight is remade in one piece with what is before it. -/
theorem remade_of_tight (h : Tight t.text qs) (hfold : qs.foldl place before = t :: before) :
    Remade before t :=
  ⟨t.text, qs, [], (List.append_nil _).symm, h, List.forall_mem_nil _, by
    rw [wordPiece, List.append_nil, hfold]⟩

/-- A piece that stands by itself is remade. -/
theorem remade_of_place (hp : p.Part) (hplace : place before p = p :: before) :
    Remade before p := by
  rcases hp.tight_or_plain with htight | ⟨w, rfl, hne, hplain⟩
  · exact remade_of_tight htight hplace
  · refine ⟨[], [], w, rfl, tight_nil, hplain, ?_⟩
    obtain ⟨c, w, rfl⟩ := List.exists_cons_of_ne_nil hne
    exact hplace

theorem AllRemade.of_append (h : AllRemade (new ++ old)) : AllRemade old := by
  induction new with
  | nil => exact h
  | cons t new ih => exact ih h.2

/-! ## One more piece -/

/-- The rendering of a list is that of all but the last token, and the last one. -/
theorem render_concat (ts : List Token) (t : Token) :
    render (ts ++ [t]) = render ts ++ if ts = [] then t.text else t.spaced := by
  cases ts with
  | nil => simp [render]
  | cons a ts => simp [render]

/-- **The latest tokens are remade from their rendering.** By induction on them: the
    rendering of the older ones is in order, and ends before a blank or a comma. -/
theorem AllRemade.pieces_render (h : AllRemade (new ++ old)) :
    ∃ ps, Pieces (render new.reverse) ps ∧ ps.foldl place old = new ++ old := by
  induction new with
  | nil => exact ⟨[], pieces_nil, rfl⟩
  | cons t new ih =>
    rw [List.cons_append] at h ⊢
    obtain ⟨ht, hnew⟩ := h
    obtain ⟨ps, hps, hold⟩ := ih hnew
    obtain ⟨qs, hqs, hfold⟩ := ht.pieces
    refine ⟨ps ++ qs, ?_, by rw [List.foldl_append, hold, hfold]⟩
    rw [List.reverse_cons, render_concat]
    split
    · rename_i hempty
      rw [hempty] at hps ⊢
      obtain rfl := pieces_nil.unique hps
      exact hqs
    · unfold spaced
      split
      · rename_i hseparator
        rw [isWord_iff.1 hseparator] at hqs ⊢
        exact hps.append (Or.inr (Or.inr (Or.inl rfl))) hqs
      · exact hps.append (Or.inl rfl) ((pieces_blank_iff (Or.inl rfl)).2 hqs)

/-- Stars go on with a token as they go on with its text. -/
theorem Remade.append_stars (h : Remade rest last) (hstars : ∀ c ∈ stars, c = '*')
    (hne : stars ≠ [])
    (hplace : place (last :: rest) (word stars) = last.append stars :: rest) :
    Remade rest (last.append stars) := by
  obtain ⟨x, qs, w, htext, htight, hplain, hfold⟩ := h
  have hplain' : ∀ c ∈ w ++ stars, PlainChar c :=
    List.forall_mem_append.2 ⟨hplain, fun c hc => hstars c hc ▸ plainChar_star⟩
  refine ⟨x, qs, w ++ stars, by rw [text_append, htext, List.append_assoc], htight, hplain', ?_⟩
  have hword : ∀ before, (wordPiece (w ++ stars)).foldl place before =
      place ((wordPiece w).foldl place before) (word stars) := by
    intro before
    cases w with
    | nil =>
      obtain ⟨c, cs, rfl⟩ := List.exists_cons_of_ne_nil hne
      rfl
    | cons c w => exact place_append_stars (List.cons_ne_nil c w) hplain hstars before
  rw [List.foldl_append] at hfold ⊢
  rw [hword, hfold, hplace]

/-- A sigil with a quote behind it is a piece of its own. -/
theorem Remade.append_quote {inside : Text} (h : Remade rest last) (hinside : '"' ∉ inside)
    (hsigil : last.text = ['%'] ∨ last.text = ['@']) :
    Remade rest (last.append ('"' :: inside ++ ['"'])) := by
  obtain ⟨c, hc, htext⟩ : ∃ c, (c = '%' ∨ c = '@') ∧ last.text = [c] := by
    rcases hsigil with hsigil | hsigil
    exacts [⟨'%', Or.inl rfl, hsigil⟩, ⟨'@', Or.inr rfl, hsigil⟩]
  have hclass : c ∉ ['"', '*', '('] ∧ PlainChar c ∧ [c] ∈ sigils := by
    rcases hc with rfl | rfl <;> decide
  obtain ⟨hother, hplain, hmem⟩ := hclass
  -- the sigil is a word, since that is its only piece
  have hword : last = word [c] := by
    have hapart : (word [c]).Apart := by
      rcases hc with rfl | rfl <;> exact apart_word rfl (by decide) (by decide)
    obtain ⟨ps, hps, hfold⟩ := h.pieces
    rw [htext] at hps
    rw [hps.unique (pieces_word (by simp) (by simpa using hplain)), List.foldl_cons,
      hapart.place] at hfold
    exact (List.cons.inj hfold).1.symm
  subst hword
  have hpart : (word ([c] ++ '"' :: inside ++ ['"'])).Part := .quote hmem hinside
  have hapart : (word ([c] ++ '"' :: inside ++ ['"'])).Apart := by
    refine apart_word rfl hother ?_
    rw [TypeText.bare_of_getLast? (by rw [List.getLast?_concat]; decide), List.getLast?_concat]
    decide
  exact remade_of_place hpart (hapart.place rest)

/-- A signature is placed after the token and a blank. -/
theorem Remade.append_signature (h : Remade rest last) (hp : p.Part)
    (hsignature : p.isSignature = true)
    (hplace : place (last :: rest) p = last.append (' ' :: p.text) :: rest) :
    Remade rest (last.append (' ' :: p.text)) := by
  have hparen := head?_of_isSignature hsignature
  obtain ⟨x, qs, w, htext, htight, hplain, hfold⟩ := h
  have hp : Tight p.text [p] := by
    refine hp.tight_or_plain.resolve_right ?_
    rintro ⟨w, rfl, -, hplain⟩
    exact head?_ne_of_plain hplain (by decide) hparen
  have hall : Tight (x ++ w ++ [' '] ++ p.text) (qs ++ wordPiece w ++ [p]) :=
    (htight.pieces_append hplain).tight_blank.append hp
  have htext' : (last.append (' ' :: p.text)).text = x ++ w ++ [' '] ++ p.text := by
    rw [text_append, htext]
    simp
  refine remade_of_tight (htext' ▸ hall) ?_
  rw [List.foldl_append, hfold]
  exact hplace

/-- Tokens between braces are remade there, and folded by the closing brace. -/
theorem remade_braceGroup (h : AllRemade (inner ++ openBrace :: rest))
    (hsettled : ∀ a ∈ inner, a.Settled) (hstars : ∀ c ∈ stars, c = '*') :
    Remade rest (braceGroup inner.reverse stars) := by
  obtain ⟨ps, hps, hfold⟩ := h.pieces_render
  have hopen : Tight ['{', ' '] [openBrace] :=
    (pieces_word (t := ['{']) (by simp) (plainChars_of_all (by decide))).tight_blank
  have hplain : ∀ c ∈ '}' :: stars, PlainChar c :=
    List.forall_mem_cons.2 ⟨by decide, fun c hc => hstars c hc ▸ plainChar_star⟩
  have hplace : (openBrace :: ps).foldl place rest = inner ++ openBrace :: rest := by
    rw [List.foldl_cons, apart_openBrace.place, hfold]
  have hclose := place_closeBrace hsettled hstars rest
  cases hinner : inner.reverse with
  | nil =>
    obtain rfl : inner = [] := by simpa using hinner
    obtain rfl := pieces_nil.unique hps
    refine ⟨['{', ' '], [openBrace], '}' :: stars, by simp [braceGroup, text], hopen, hplain, ?_⟩
    rw [List.foldl_append, hplace]
    exact hclose
  | cons a as =>
    rw [← hinner]
    refine ⟨['{', ' '] ++ (render inner.reverse ++ [' ']), [openBrace] ++ ps, '}' :: stars, ?_,
      hopen.append hps.tight_blank, hplain, ?_⟩
    · simp [braceGroup, text, hinner]
    · rw [List.foldl_append, List.singleton_append, hplace]
      exact hclose

/-- A piece that begins with a quote is quoted. -/
theorem Token.Part.eq_quote (hp : p.Part) (hquote : p.text.head? = some '"') :
    ∃ inside, '"' ∉ inside ∧ p = word ('"' :: inside ++ ['"']) := by
  cases hp with
  | comma => cases hquote
  | @group c _ _ _ _ _ hc _ =>
    obtain rfl : c = '"' := by simpa [text] using hquote
    cases hc
  | @quote sigil inside hsigil hinside =>
    rcases mem_sigils.1 hsigil with rfl | rfl | rfl
    · exact ⟨inside, hinside, rfl⟩
    · cases hquote
    · cases hquote
  | plain _ hplain => exact absurd hquote (head?_ne_of_plain hplain (by decide))

/-- A piece of stars is a word. -/
theorem Token.Part.eq_stars (hp : p.Part) (hall : ∀ c ∈ p.text, c = '*') :
    p = word p.text ∧ p.text ≠ [] := by
  cases hp with
  | comma => exact absurd (hall ',' List.mem_cons_self) (by decide)
  | @group c _ _ _ _ _ hc _ =>
    rw [hall c List.mem_cons_self] at hc
    cases hc
  | quote => exact absurd (hall '"' (by simp [text])) (by decide)
  | plain hne => exact ⟨rfl, hne⟩

/-- What stands before the brace of a word that closes it ends with a blank. -/
theorem Token.Part.before_brace {head : Text} (hp : (word w).Part)
    (hbare : TypeText.bare w = head ++ ['}']) :
    (∀ c ∈ head, PlainChar c) ∧ ∀ c ∈ head.getLast?, isBlank c = true := by
  have hlast : (TypeText.bare w).getLast? = some '}' := by rw [hbare, List.getLast?_concat]
  generalize hword : word w = p at hp
  cases hp with
  | group => cases hword
  | comma =>
    cases hword
    exact absurd hlast (by decide)
  | quote =>
    cases hword
    rw [TypeText.bare_of_getLast? (by rw [List.getLast?_concat]; decide),
      List.getLast?_concat] at hlast
    exact absurd hlast (by decide)
  | plain _ hplain hcloses =>
    cases hword
    refine ⟨fun c hc => hplain c ?_, hcloses head hbare⟩
    rw [← TypeText.bare_append_stars w, hbare]
    simp [hc]

/-- A plain word that ends with a blank stands by itself. -/
theorem apart_of_blank (hne : w ≠ []) (hplain : ∀ c ∈ w, PlainChar c)
    (hblank : ∀ c ∈ w.getLast?, isBlank c = true) :
    (word w).Part ∧ (word w).Apart ∧ (word w).Settled := by
  obtain ⟨c, hc⟩ : ∃ c, w.getLast? = some c := Option.isSome_iff_exists.1 (by simpa using hne)
  have hother : ∀ a ∈ ['*', '}', '{'], c ≠ a := by
    rintro a ha rfl
    simp only [List.mem_cons, List.not_mem_nil, or_false] at ha
    rcases ha with rfl | rfl | rfl <;> exact absurd (hblank _ hc) (by decide)
  have hbare : TypeText.bare w = w := TypeText.bare_of_getLast? (by
    rw [hc]
    simpa using hother '*' (by simp))
  have hbrace : (TypeText.bare w).getLast? ≠ some '}' := by
    rw [hbare, hc]
    simpa using hother '}' (by simp)
  refine ⟨.plain hne hplain fun head hhead => ?_, ⟨?_, ?_, ?_, ?_⟩, ?_⟩
  · rw [hhead, List.getLast?_concat] at hbrace
    exact absurd rfl hbrace
  · exact head?_ne_of_plain hplain (by decide)
  · exact ⟨c, List.mem_of_getLast? hc, hother '*' (by simp)⟩
  · exact head?_ne_of_plain hplain (by decide)
  · rintro _ ⟨⟩
    exact hbrace
  · rw [settled_iff]
    rintro ⟨⟩
    exact hother '{' (by simp) (by simpa using hc.symm)

/-- **Placing one more piece leaves all tokens remade.** The cases are those of a
    placement. -/
theorem AllRemade.place (h : AllRemade before) (hp : p.Part) : AllRemade (place before p) := by
  have hplaced := placed before p
  generalize hafter : Token.place before p = after at hplaced ⊢
  cases hplaced with
  | apart => exact ⟨remade_of_place hp hafter, h⟩
  | joined last rest hbefore hext =>
    subst hbefore
    obtain ⟨hlast, hrest⟩ := h
    refine ⟨?_, hrest⟩
    simp only [extends?, Bool.and_eq_true, Bool.or_eq_true, Token.is, decide_eq_true_eq] at hext
    rcases hext.2 with ⟨hsigil, hquote⟩ | hall
    · obtain ⟨inside, hinside, rfl⟩ := hp.eq_quote hquote
      exact hlast.append_quote hinside hsigil
    · have hstars : ∀ c ∈ p.text, c = '*' := by simpa using hall
      obtain ⟨hword, hne⟩ := hp.eq_stars hstars
      exact hlast.append_stars hstars hne (hword ▸ hafter)
  | signed last rest hbefore htype hsignature =>
    subst hbefore
    exact ⟨h.1.append_signature hp hsignature hafter, h.2⟩
  | closed w head inner rest hword hbare hbefore hinner =>
    subst hword hbefore
    obtain ⟨hplain, hblank⟩ := hp.before_brace hbare
    have hstars : ∀ c ∈ TypeText.stars w, c = '*' := fun c => TypeText.eq_star_of_mem_stars
    refine ⟨?_, h.of_append.2⟩
    cases head with
    | nil => simpa using remade_braceGroup h hinner hstars
    | cons c head =>
      obtain ⟨hpart, hapart, hsettled⟩ := apart_of_blank (List.cons_ne_nil c head) hplain hblank
      have hinner' : AllRemade (word (c :: head) :: inner ++ openBrace :: rest) :=
        ⟨remade_of_place hpart (hapart.place _), h⟩
      have := remade_braceGroup hinner' (List.forall_mem_cons.2 ⟨hsettled, hinner⟩) hstars
      simpa using this

theorem allRemade_foldl {ps : List Token} (hps : ∀ p ∈ ps, p.Part) (h : AllRemade before) :
    AllRemade (ps.foldl Token.place before) := by
  induction ps generalizing before with
  | nil => exact h
  | cons p ps ih =>
    obtain ⟨hp, hps⟩ := List.forall_mem_cons.1 hps
    exact ih hps (h.place hp)

end

/-! ## Rendering -/

/-- **The rendering of the tokens of a text has the same tokens**, at every depth, if the
    text holds no comment and every brace that is closed outside quotes and enclosers
    stands apart. -/
theorem tokensOf_render {text : Text} {number : Nat} {ts : List Token} (hsemi : ';' ∉ text)
    (hbraces : BracesApart text) (h : tokensOf text number = .ok ts) (number' : Nat) :
    tokensOf (render ts) number' = .ok ts := by
  rw [tokensOf_eq_ok, tokenize_eq_tokenizeAll hsemi] at h
  obtain ⟨pieces, hpieces, rfl⟩ := tokenizeAll_eq_ok.1 h
  have hremade : AllRemade (pieces.foldl place [] ++ []) := by
    rw [List.append_nil]
    exact allRemade_foldl (hpieces.part hsemi hbraces) trivial
  obtain ⟨ps, hps, hfold⟩ := hremade.pieces_render
  have harrange : arrange ps = arrange pieces := by
    rw [arrange, hfold, List.append_nil, arrange]
  rw [tokensOf_eq_ok, arrange, hps.tokenize, harrange, arrange]

/-- Names, stars, signatures and braces all grow together again. -/
theorem tokensOf_render_of_call :
    let text : Text := "call \x7b i8, %\"a b\"\x7d* (i32 *)* @ \"f\"(<2 x i8> %x ) , \x7d"
    let vector := group "<2 x i8>" .angle [word "2", word "x", word "i8"]
    let ts := [word "call",
      group "\x7b i8, %\"a b\" \x7d* (i32 *)*" .brace [word "i8", separator, word "%\"a b\""],
      word "@\"f\"", group "(<2 x i8> %x )" .paren [vector, word "%x"], separator, word "\x7d"]
    ';' ∉ text ∧ BracesApart text ∧ tokensOf text 1 = .ok ts ∧
      tokensOf "call \x7b i8, %\"a b\" \x7d* (i32 *)* @\"f\" (<2 x i8> %x ), \x7d" 2 = .ok ts := by
  intro text vector ts
  have hvector : Pieces "2 x i8" [word "2", word "x", word "i8"] :=
    ⟨by decide, .cons (.word rfl) (.cons (.word rfl) (.cons (.word rfl) .nil))⟩
  have hargs : Pieces "<2 x i8> %x " [vector, word "%x"] :=
    ⟨by decide, .cons (.group rfl hvector.tokenize) (.cons (.word rfl) .nil)⟩
  have hparam : Pieces "i32 *" [word "i32", word "*"] :=
    ⟨by decide, .cons (.word rfl) (.cons (.word rfl) .nil)⟩
  have hargs' : Lexeme.Reads (.run '(' "<2 x i8> %x )") _ := .group rfl hargs.tokenize
  have hparam' : Lexeme.Reads (.run '(' "i32 *)") _ := .group rfl hparam.tokenize
  have hpieces : Pieces text [word "call", openBrace, word "i8", separator, word "%\"a b\"",
      word "\x7d*", group "(i32 *)" .paren [word "i32*"], word "*", word "@", word "\"f\"",
      group "(<2 x i8> %x )" .paren [vector, word "%x"], separator, word "\x7d"] := by
    refine ⟨by decide, ?_⟩
    exact .cons (.word rfl) (.cons (.word rfl) (.cons (.word rfl) (.cons .comma (.cons (.word rfl)
      (.cons (.word rfl) (.cons hparam' (.cons (.word rfl) (.cons (.word rfl) (.cons (.word rfl)
      (.cons hargs' (.cons .comma (.cons (.word rfl) .nil))))))))))))
  have hsemi : ';' ∉ text := by decide
  have hbraces : BracesApart text := by decide
  have hts : tokensOf text 1 = .ok ts := by
    rw [tokensOf_eq_ok, hpieces.tokenize]
    decide
  exact ⟨hsemi, hbraces, hts, tokensOf_render hsemi hbraces hts 2⟩

end LlvmAsm
