/-
  Texts that have the same tokens wherever they stand.

  The tokens before a text may take its first tokens up, and braces may fold
  them. A text `Yields` tokens if none of this happens: they are the tokens of the
  text by itself (`Yields.tokenize`), and what it adds to those before it. The laws
  below follow the way texts are put together: words, lists with commas, groups,
  structures in braces and the signatures of functions, each with stars or not.

  Behind a word that takes nothing up (`Token.Inert`), other texts have their own
  tokens, too (`Yields.tokenize_behind`, `tokenize_groupBehind`).
-/
import LlvmAsm.Proofs.Token.Arrangement
import LlvmAsm.Proofs.Token.Pieces

namespace LlvmAsm

open Scan Token

/-- The text adds these tokens to any that are before it. -/
def Yields (t : Text) (ts : List Token) : Prop :=
  ∃ pieces, Pieces t pieces ∧ ∀ before, pieces.foldl place before = ts.reverse ++ before

section
variable {t u w inside stars : Text} {ts us inner : List Token} {a : Token} {c closer : Char}
  {e : Encloser}

/-- The tokens of a text are its pieces, arranged. -/
theorem Yields.exists_pieces (h : Yields t ts) :
    ∃ pieces, Pieces t pieces ∧ arrange pieces = ts := by
  obtain ⟨pieces, hpieces, hplace⟩ := h
  exact ⟨pieces, hpieces, by rw [arrange, hplace, List.append_nil, List.reverse_reverse]⟩

theorem Yields.tokenize (h : Yields t ts) : LlvmAsm.tokenize t = .ok ts := by
  obtain ⟨pieces, hpieces, rfl⟩ := h.exists_pieces
  exact hpieces.tokenize

theorem yields_nil : Yields [] [] := ⟨[], pieces_nil, fun _ => rfl⟩

theorem yields_of_apart (h : Pieces t [a]) (ha : a.Apart) : Yields t [a] :=
  ⟨[a], h, ha.place⟩

/-! ## One after the other -/

theorem Yields.append (h : Yields t ts) (hc : Delimits c) (h' : Yields (c :: u) us) :
    Yields (t ++ c :: u) (ts ++ us) := by
  obtain ⟨pieces, hpieces, hplace⟩ := h
  obtain ⟨more, hmore, hplace'⟩ := h'
  refine ⟨pieces ++ more, hpieces.append hc hmore, fun before => ?_⟩
  rw [List.foldl_append, hplace, hplace', List.reverse_append, List.append_assoc]

theorem Yields.blank (h : Yields u us) : Yields (' ' :: u) us := by
  obtain ⟨pieces, hpieces, hplace⟩ := h
  exact ⟨pieces, (pieces_blank_iff (Or.inl rfl)).2 hpieces, hplace⟩

theorem Yields.comma (h : Yields u us) : Yields (',' :: u) (separator :: us) := by
  obtain ⟨pieces, hpieces, hplace⟩ := h
  refine ⟨.separator :: pieces, hpieces.comma, fun before => ?_⟩
  rw [List.foldl_cons, apart_separator.place, hplace]
  simp

/-- After a blank, a text adds what it adds by itself. -/
theorem Yields.append_blank (h : Yields t ts) (h' : Yields u us) :
    Yields (t ++ ' ' :: u) (ts ++ us) :=
  h.append (Or.inl rfl) h'.blank

theorem Yields.blanks (h : Yields u us) (n : Nat) : Yields (List.replicate n ' ' ++ u) us := by
  induction n with
  | zero => exact h
  | succ n ih => exact ih.blank

/-- The texts of single tokens in a list, each after a comma and blanks. -/
theorem yields_intercalate (blanks : Nat) {texts : List Text}
    (h : List.Forall₂ (fun t a => Yields t [a]) texts ts) :
    Yields (List.intercalate (',' :: List.replicate blanks ' ') texts)
      (ts.intersperse separator) := by
  induction h with
  | nil => exact yields_nil
  | @cons t a texts as ht htexts ih =>
    cases htexts with
    | nil => simpa [List.intercalate_singleton] using ht
    | @cons t' a' texts as ht' htexts =>
      rw [List.intercalate_cons_cons, List.intersperse_cons_cons, List.append_assoc]
      exact ht.append (Or.inr (Or.inr (Or.inl rfl))) (ih.blanks blanks).comma

/-! ## Stars -/

theorem plainChar_star : PlainChar '*' := by decide

/-- Stars go on with the token before them, or are no tokens if there are none. -/
theorem pieces_stars (hstars : ∀ c ∈ stars, c = '*') :
    ∃ pieces, Pieces stars pieces ∧ ∀ last rest, last.isSeparator = false →
      pieces.foldl place (last :: rest) = last.append stars :: rest := by
  cases stars with
  | nil => exact ⟨[], pieces_nil, fun last rest _ => by simp⟩
  | cons c cs =>
    have hplain : ∀ d ∈ c :: cs, PlainChar d := fun d hd => hstars d hd ▸ plainChar_star
    exact ⟨_, pieces_word (by simp) hplain, fun last rest hlast => place_stars hlast hstars rest⟩

/-- A plain word with stars or not is a token. -/
theorem yields_word (hhead : w.head? = some c) (hc : c ∉ ['"', '*', '('])
    (hplain : ∀ c ∈ w, PlainChar c) (hbrace : '}' ∉ w) (hstars : ∀ c ∈ stars, c = '*') :
    Yields (w ++ stars) [(word w).append stars] := by
  have hne : w ++ stars ≠ [] := by
    cases w with
    | nil => cases hhead
    | cons => simp
  have hplain' : ∀ c ∈ w ++ stars, PlainChar c :=
    List.forall_mem_append.2 ⟨hplain, fun c hc => hstars c hc ▸ plainChar_star⟩
  refine yields_of_apart (pieces_word hne hplain') (apart_word_of_not_mem (c := c) ?_ hc ?_)
  · rw [List.head?_append, hhead, Option.some_or]
  · intro hmem
    rcases List.mem_append.1 hmem with hmem | hmem
    · exact hbrace hmem
    · exact absurd (hstars _ hmem) (by decide)

/-! ## Groups -/

/-- A group is a token, unless its parentheses make it a signature. -/
theorem Yields.group (hinside : Yields inside inner) (hc : Encloser.ofOpener? c = some e)
    (hparen : c ≠ '(') (hcloser : Encloser.ofCloser? closer = some e)
    (hstars : ∀ c ∈ stars, c = '*') :
    Yields (c :: inside ++ closer :: stars) [.group (c :: inside ++ closer :: stars) e inner] := by
  obtain ⟨pieces, hpieces, hplace⟩ := hinside
  obtain ⟨more, hmore, hplace'⟩ := pieces_stars hstars
  have harrange : arrange pieces = inner := by
    rw [arrange, hplace, List.append_nil, List.reverse_reverse]
  have hgroup := hpieces.group hc hcloser hmore
  rw [harrange] at hgroup
  refine ⟨_, hgroup, fun before => ?_⟩
  have hhead : c ≠ '"' ∧ c ≠ '*' := by
    constructor <;> rintro rfl <;> cases hc
  have hapart : (Token.group (c :: inside ++ [closer]) e inner).Apart :=
    ⟨by simp [text, hhead], ⟨c, List.mem_cons_self, hhead.2⟩, by simp [text, hparen],
      by rintro _ ⟨⟩⟩
  rw [List.foldl_cons, hapart.place, hplace' _ _ rfl]
  simp [Token.append]

theorem apart_openBrace : openBrace.Apart :=
  apart_word (c := '{') rfl (by decide) (by decide)

/-- Settled tokens between braces fold into one. -/
theorem Yields.braces (hinside : Yields inside inner) (hinner : ∀ a ∈ inner, a.Settled)
    (hstars : ∀ c ∈ stars, c = '*') :
    Yields ('{' :: ' ' :: inside ++ ' ' :: '}' :: stars) [braceGroup inner stars] := by
  have hopen : Pieces ['{'] [openBrace] :=
    pieces_word (by simp) (plainChars_of_all (by decide))
  have hclose : Pieces ('}' :: stars) [word ('}' :: stars)] := by
    refine pieces_word (by simp) (List.forall_mem_cons.2 ⟨by decide, fun d hd => ?_⟩)
    exact hstars d hd ▸ plainChar_star
  obtain ⟨pieces, hpieces, hplace⟩ := hinside
  have hrest := hpieces.append (Or.inl rfl) ((pieces_blank_iff (Or.inl rfl)).2 hclose)
  refine ⟨_, hopen.append (Or.inl rfl) ((pieces_blank_iff (Or.inl rfl)).2 hrest), fun before => ?_⟩
  rw [List.foldl_append, List.foldl_append, List.foldl_cons, List.foldl_nil, List.foldl_cons,
    List.foldl_nil, apart_openBrace.place, hplace]
  have hsettled : ∀ a ∈ inner.reverse, a.Settled := fun a ha => hinner a (List.mem_reverse.1 ha)
  rw [place_closeBrace hsettled hstars, List.reverse_reverse]
  rfl

/-- A signature after a type goes on with it. -/
theorem Yields.signature (h : Yields t [a]) (ha : a.isSeparator = false)
    (htype : TypeText.isType a.text = true) (hinside : Yields inside inner)
    (hsignature : (Token.group ('(' :: inside ++ [')']) .paren inner).isSignature = true)
    (hstars : ∀ c ∈ stars, c = '*') :
    Yields (t ++ ' ' :: ('(' :: inside ++ ')' :: stars))
      [a.append (' ' :: ('(' :: inside ++ ')' :: stars))] := by
  obtain ⟨pieces, hpieces, hplace⟩ := h
  obtain ⟨more, hmore, hplace'⟩ := hinside
  obtain ⟨last, hlast, hplace''⟩ := pieces_stars hstars
  have harrange : arrange more = inner := by
    rw [arrange, hplace', List.append_nil, List.reverse_reverse]
  have hgroup : Pieces ('(' :: inside ++ ')' :: stars)
      (.group ('(' :: inside ++ [')']) .paren (arrange more) :: last) :=
    hmore.group rfl rfl hlast
  rw [harrange] at hgroup
  refine ⟨_, hpieces.append (Or.inl rfl) ((pieces_blank_iff (Or.inl rfl)).2 hgroup),
    fun before => ?_⟩
  have hseparator : ∀ more, (a.append (' ' :: more)).isSeparator = false := by
    intro more
    cases a with
    | word w => cases w <;> simp [Token.append, isSeparator, isWord]
    | group => rfl
  rw [List.foldl_append, hplace, List.foldl_cons, List.reverse_singleton, List.singleton_append,
    place_signature ha htype hsignature, hplace'' _ _ (hseparator _), append_append]
  simp [text]

end

/-! ## Behind words -/

namespace Token

/-- Nothing but stars goes on with the token: it is no type and no lone sigil. -/
structure Inert (t : Token) : Prop where
  type : TypeText.isType t.text = false
  sigil : t.text ≠ ['@']

variable {before : List Token} {a : Token}

/-- What does not begin with stars stands by itself behind an inert token, unless it closes
    a brace. -/
theorem place_behind (hlast : ∀ last ∈ before.head?, last.Inert) (ha : ∃ c ∈ a.text, c ≠ '*')
    (hclose : ∀ w, a = word w → ∀ b ∈ before, b.Settled) : place before a = a :: before := by
  have hplaced := placed before a
  generalize place before a = after at hplaced
  cases hplaced with
  | apart => rfl
  | joined last rest hbefore hext =>
    obtain ⟨htype, hsigil⟩ := hlast last (by rw [hbefore]; rfl)
    have hpercent : last.text ≠ ['%'] := by
      intro heq
      rw [heq] at htype
      exact absurd htype (by decide)
    have hall : a.text.all (· = '*') = false := by simpa using ha
    simp [extends?, Token.is, hsigil, hpercent, hall] at hext
  | signed last rest hbefore htype =>
    rw [(hlast last (by rw [hbefore]; rfl)).type] at htype
    cases htype
  | closed w head inner rest hword _ hbefore =>
    have hbrace : openBrace.Settled := hclose w hword openBrace (by rw [hbefore]; simp)
    cases hbrace

end Token

section
variable {t u inside : Text} {ts qs inner : List Token}

/-- Behind an inert token, a text that does not begin with stars has its own tokens. -/
theorem Yields.tokenize_behind (h : Yields t ts) (hsettled : ∀ a ∈ ts, a.Settled)
    (hlast : ∀ last ∈ ts.getLast?, last.Inert) (hu : Pieces u qs)
    (hstars : ∀ a ∈ (arrange qs).head?, a.text.head? ≠ some '*') :
    LlvmAsm.tokenize (t ++ ' ' :: u) = .ok (ts ++ arrange qs) := by
  obtain ⟨ps, hps, hplace⟩ := h
  rw [(hps.append (Or.inl rfl) ((pieces_blank_iff (Or.inl rfl)).2 hu)).tokenize, arrange,
    List.foldl_append, hplace, List.append_nil]
  cases qs with
  | nil => simp [arrange]
  | cons q qs =>
    have hq : q.text ≠ [] := hu.text_ne_nil q List.mem_cons_self
    have hfirst : ∃ c ∈ q.text, c ≠ '*' := by
      by_contra hall
      have hall : ∀ c ∈ q.text, c = '*' := by simpa using hall
      have hsettled : q.Settled := by
        rw [settled_iff]
        rintro rfl
        exact absurd (hall '{' (by simp [text])) (by decide)
      obtain ⟨more, rest, harrange⟩ := arrange_cons hsettled hq qs
      obtain ⟨c, w, hw⟩ := List.exists_cons_of_ne_nil hq
      refine hstars (q.append more) (by rw [harrange]; rfl) ?_
      rw [text_append, hw, hall c (by rw [hw]; exact List.mem_cons_self)]
      rfl
    have hold : ∀ a ∈ ts.reverse, a.Settled := fun a ha => hsettled a (List.mem_reverse.1 ha)
    rw [List.foldl_cons, place_behind (by simpa using hlast) hfirst fun _ _ => hold,
      ← List.singleton_append, foldl_place_append (List.cons_ne_nil q []) hold, arrange,
      List.foldl_cons, place_nil]
    simp

/-- Behind an inert token, what is between parentheses is a token of its own. -/
theorem tokenize_groupBehind {p : Text} {ps : List Token} (hp : Pieces p ps)
    (h : Yields t ts) (hne : ts ≠ []) (hlast : ∀ last ∈ ts.getLast?, last.Inert)
    (hinside : Pieces inside qs) :
    LlvmAsm.tokenize (p ++ ' ' :: (t ++ ' ' :: ('(' :: inside ++ [')']))) =
      .ok (arrange ps ++ ts ++ [.group ('(' :: inside ++ [')']) .paren (arrange qs)]) := by
  obtain ⟨rs, hrs, hplace⟩ := h
  have hgroup : Pieces ('(' :: inside ++ [')'])
      [.group ('(' :: inside ++ [')']) .paren (arrange qs)] := hinside.group rfl rfl pieces_nil
  have htail := hrs.append (Or.inl rfl) ((pieces_blank_iff (Or.inl rfl)).2 hgroup)
  have hall := hp.append (Or.inl rfl) ((pieces_blank_iff (Or.inl rfl)).2 htail)
  rw [hall.tokenize, arrange, List.foldl_append, List.foldl_append, hplace, List.foldl_cons,
    List.foldl_nil, place_behind ?_ ⟨'(', List.mem_cons_self, by decide⟩ (by rintro _ ⟨⟩)]
  · simp [arrange]
  · rwa [List.head?_append_of_ne_nil _ (by simpa using hne), List.head?_reverse]

end

/-- A text that is one type is in order, since a comment would be a token more. -/
theorem exists_pieces_of_type {t : Text} {a : Token} (h : tokenize t = .ok [a])
    (ha : TypeText.isType a.text = true) : ∃ ps, Pieces t ps ∧ arrange ps = [a] := by
  rcases tokenize_cases h with ⟨ps, hps, heq⟩ | ⟨before, after, ps, -, -, heq⟩
  · exact ⟨ps, hps, heq.symm⟩
  · have hmem : word ";" ∈ [a] := by
      rw [heq]
      simp [commentTokens]
    obtain rfl := List.mem_singleton.1 hmem
    exact absurd ha (by decide)

end LlvmAsm
