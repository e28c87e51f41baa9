/-
  The content of tokens: a text loses nothing in them, and gains nothing.

  Blanks aside, the texts of the tokens follow each other as the text does, and
  the text of a group begins with its opener, the texts of the tokens inside and a
  closer (`tokensOf_content`). The closer is that of the group if no comment is
  inside. With a comment inside it may be another one, since only a text in order
  has its enclosers nested.

  * `Text.content` is what the laws are about;
  * `content_cut`, `content_place` and `content_commentTokens`: each stage of
    tokenization keeps the content;
  * `Token.Occurs` is a token at any depth, and `Token.AllFramed` says of all groups
    at any depth what their texts begin with.
-/
import LlvmAsm.Proofs.Token.Arrangement
import LlvmAsm.Proofs.Token.Pieces

namespace LlvmAsm

/-! ## Content -/

/-- The characters of a text that are not blank. -/
def Text.content (t : Text) : Text := t.filter (!isBlank ·)

namespace Text

@[simp] theorem content_append (t u : Text) : content (t ++ u) = content t ++ content u :=
  List.filter_append t u

theorem content_cons (c : Char) (t : Text) : content (c :: t) = content [c] ++ content t :=
  content_append [c] t

@[simp] theorem content_blank (t : Text) : content (' ' :: t) = content t := rfl

theorem content_flatMap {α : Type} (f : α → Text) (as : List α) :
    content (as.flatMap f) = as.flatMap fun a => content (f a) :=
  List.filter_flatMap

theorem content_flatten_words (t : Text) : content t.words.flatten = content t := by
  have hpieces : (splitWhere isBlank t).flatten = content t := by
    induction t with
    | nil => rfl
    | cons c t ih =>
      unfold splitWhere content
      split
      · rename_i hc
        simpa [hc, content] using ih
      · rename_i hc
        cases hrest : splitWhere isBlank t with
        | nil => exact absurd hrest (splitWhere_ne_nil isBlank t)
        | cons piece pieces =>
          rw [hrest, List.flatten_cons] at ih
          simpa [hc, content] using ih
  have hwords : t.words.flatten = content t := by
    rw [words, ← hpieces]
    generalize splitWhere isBlank t = pieces
    induction pieces with
    | nil => rfl
    | cons piece pieces ih => cases piece <;> simp [ih]
  rw [hwords, content, content, List.filter_filter]
  simp

end Text

/-! ## The stages of tokenization -/

theorem Scan.flatMap_text_released (s : Scan) : s.released.flatMap Lexeme.text = s.pending := by
  unfold released
  cases s.pending <;> simp [Lexeme.ofText, Lexeme.text]

/-- A step puts out or holds what was held and the character, less a blank. -/
theorem Scan.Step.content {s s' : Scan} {c : Char} {done : List Lexeme} (h : s.Step c done s') :
    Text.content (done.flatMap Lexeme.text ++ s'.pending) = Text.content (s.pending ++ [c]) := by
  have hhold : (s.hold c).pending = s.pending ++ [c] := by simp [pending, hold]
  cases h with
  | held | quoteHeld | groupOpen | groupClose => exact congrArg Text.content hhold
  | quoteStart hquote | groupStart hquote =>
    rw [flatMap_text_released]
    rfl
  | quoteEnd | groupEnd =>
    rw [flatMap_text_released, hhold]
    exact congrArg Text.content (List.append_nil _)
  | blank hblank =>
    rw [flatMap_text_released, Text.content_append, Text.content_append]
    rcases hblank with rfl | rfl <;> rfl
  | comma hcomma =>
    rw [List.flatMap_append, flatMap_text_released, hcomma]
    exact congrArg Text.content (List.append_nil _)

theorem Scan.content_cutFrom {s : Scan} {t : Text} (h : (s.cutFrom t).2 = none) :
    Text.content ((s.cutFrom t).1.flatMap Lexeme.text) = Text.content (s.pending ++ t) := by
  induction t generalizing s with
  | nil =>
    simp only [cutFrom] at h ⊢
    split at h
    · cases h
    · rw [flatMap_text_released, List.append_nil]
  | cons c t ih =>
    simp only [cutFrom] at h ⊢
    cases hstep : s.step c with
    | error fault => simp [hstep] at h
    | ok next =>
      obtain ⟨done, s'⟩ := next
      simp only [hstep] at h ⊢
      have hkept := (step_of_eq_ok hstep).content
      calc Text.content ((done ++ (s'.cutFrom t).1).flatMap Lexeme.text)
        _ = Text.content (done.flatMap Lexeme.text ++ s'.pending) ++ Text.content t := by
          rw [List.flatMap_append, Text.content_append, ih h]
          simp
        _ = Text.content (s.pending ++ c :: t) := by
          rw [hkept, Text.content_append, List.append_assoc, ← Text.content_cons,
            Text.content_append]

/-- The lexemes of a text in order have its content. -/
theorem content_cut {t : Text} (h : (cut t).2 = none) :
    Text.content ((cut t).1.flatMap Lexeme.text) = Text.content t :=
  Scan.content_cutFrom h

theorem Pieces.content {t : Text} {pieces : List Token} (h : Pieces t pieces) :
    Text.content (pieces.flatMap Token.text) = Text.content t := by
  have htexts : ∀ {ls : List Lexeme} {ts : List Token}, List.Forall₂ Lexeme.Reads ls ts →
      ts.flatMap Token.text = ls.flatMap Lexeme.text := by
    intro ls ts hreads
    induction hreads with
    | nil => rfl
    | cons hread _ ih => rw [List.flatMap_cons, List.flatMap_cons, hread.text_eq, ih]
  rw [htexts h.reads, content_cut h.order]

namespace Token

theorem content_render (ts : List Token) :
    Text.content (render ts) = Text.content (ts.flatMap text) := by
  have hspaced : ∀ t : Token, Text.content t.spaced = Text.content t.text := by
    intro t
    unfold spaced
    split <;> rfl
  cases ts with
  | nil => rfl
  | cons t ts =>
    rw [render, List.flatMap_cons, Text.content_append, Text.content_append,
      Text.content_flatMap, Text.content_flatMap]
    simp only [hspaced]

theorem content_braceGroup (inner : List Token) (stars : Text) :
    Text.content (braceGroup inner stars).text =
      Text.content ('{' :: inner.flatMap text ++ '}' :: stars) := by
  unfold braceGroup
  cases inner with
  | nil => rfl
  | cons t ts =>
    calc Text.content ('{' :: (' ' :: render (t :: ts) ++ [' ']) ++ '}' :: stars)
      _ = Text.content ['{'] ++
          (Text.content (render (t :: ts)) ++ Text.content ('}' :: stars)) := by
        simp only [List.cons_append, List.append_assoc]
        rw [Text.content_cons, Text.content_blank, Text.content_append]
        rfl
      _ = Text.content ('{' :: (t :: ts).flatMap text ++ '}' :: stars) := by
        rw [content_render, List.cons_append, Text.content_cons _ (_ ++ _), Text.content_append]

/-- A placement keeps the content. -/
theorem content_place (before : List Token) (t : Token) :
    Text.content ((place before t).reverse.flatMap text) =
      Text.content (before.reverse.flatMap text ++ t.text) := by
  have hplaced := placed before t
  generalize place before t = after at hplaced
  cases hplaced with
  | joined last rest hbefore => simp [hbefore]
  | signed last rest hbefore => simp [hbefore]
  | apart => simp
  | closed w head inner rest hword hbare hbefore =>
    have hw : w = head ++ '}' :: TypeText.stars w := by
      rw [← List.singleton_append, ← List.append_assoc, ← hbare, TypeText.bare_append_stars]
    have hhead : (if head.isEmpty then [] else [word head]).flatMap text = head := by
      cases head <;> simp [text]
    rw [List.reverse_cons, List.flatMap_append, Text.content_append, List.flatMap_singleton,
      content_braceGroup, List.flatMap_append, hhead, hbefore, hword]
    conv_rhs => rw [show (word w).text = w from rfl, hw]
    simp [text]

theorem content_arrange (ts : List Token) :
    Text.content ((arrange ts).flatMap text) = Text.content (ts.flatMap text) := by
  have hfold : ∀ before : List Token,
      Text.content ((ts.foldl place before).reverse.flatMap text) =
        Text.content (before.reverse.flatMap text ++ ts.flatMap text) := by
    induction ts with
    | nil => simp
    | cons t ts ih =>
      intro before
      rw [List.foldl_cons, ih, Text.content_append, content_place]
      simp
  exact hfold []

theorem content_commentTokens (after : Text) :
    Text.content ((commentTokens after).flatMap text) = Text.content (';' :: after) := by
  have hwords : (after.words.map word).flatMap text = after.words.flatten := by
    rw [List.flatMap_map]
    exact List.flatMap_id
  rw [commentTokens, List.flatMap_cons, Text.content_append, hwords, Text.content_flatten_words]
  rfl

end Token

/-- **The tokens of a text have its content.** -/
theorem content_tokenize {t : Text} {ts : List Token} (h : tokenize t = .ok ts) :
    Text.content (ts.flatMap Token.text) = Text.content t := by
  rcases tokenize_cases h with ⟨pieces, hpieces, rfl⟩ | ⟨before, after, pieces, hcut, hpieces, rfl⟩
  · rw [Token.content_arrange, hpieces.content]
  · rw [List.flatMap_append, Text.content_append, Token.content_arrange, hpieces.content,
      Token.content_commentTokens, ← Text.content_append, ← append_of_cutComment? hcut]

/-! ## Groups -/

namespace Encloser

/-- The character that opens a group. -/
def opener : Encloser → Char
  | bracket => '['
  | paren => '('
  | angle => '<'
  | brace => '{'

/-- The character that closes a group. -/
def closer : Encloser → Char
  | bracket => ']'
  | paren => ')'
  | angle => '>'
  | brace => '}'

theorem eq_opener {c : Char} {e : Encloser} (h : ofOpener? c = some e) : c = e.opener := by
  simp only [ofOpener?] at h
  split_ifs at h <;> cases h <;> assumption

theorem eq_closer {c : Char} {e : Encloser} (h : ofCloser? c = some e) : c = e.closer := by
  simp only [ofCloser?] at h
  split_ifs at h <;> cases h <;> assumption

end Encloser

namespace Token

/-- The token is one of the tokens, or stands inside a group among them, at any
    depth. -/
inductive Occurs (t : Token) : List Token → Prop
  | among {ts : List Token} (h : t ∈ ts) : Occurs t ts
  | inside {ts inner : List Token} {w : Text} {e : Encloser} (hgroup : group w e inner ∈ ts)
      (h : Occurs t inner) : Occurs t ts

/-- Blanks aside, the text of a group begins with the opener of its encloser, the
    tokens inside and a closer. -/
def Begins (w : Text) (e : Encloser) (inner : List Token) (last : Encloser) : Prop :=
  Text.content (e.opener :: inner.flatMap text ++ [last.closer]) <+: Text.content w

/-- The text of a group begins with an opener, the tokens inside and a closer,
    and these fit together if no comment is inside. -/
structure Framed (w : Text) (e : Encloser) (inner : List Token) : Prop where
  some_closer : ∃ last, Begins w e inner last
  own_closer : (∀ t ∈ inner, t.isComment = false) → Begins w e inner e

/-- Every group is framed, at any depth. -/
def AllFramed (ts : List Token) : Prop :=
  ∀ w e inner, Occurs (group w e inner) ts → Framed w e inner

/-- The token is a word, or framed and so are all groups in it. -/
def FramedThroughout (t : Token) : Prop :=
  ∀ w e inner, t = group w e inner → Framed w e inner ∧ AllFramed inner

variable {t : Token} {ts before inner : List Token} {w : Text} {e last : Encloser}

theorem Begins.append (h : Begins w e inner last) (more : Text) :
    Begins (w ++ more) e inner last := by
  unfold Begins
  rw [Text.content_append w]
  exact h.trans (List.prefix_append _ _)

theorem Framed.append (h : Framed w e inner) (more : Text) : Framed (w ++ more) e inner :=
  ⟨h.some_closer.imp fun _ hlast => hlast.append more,
    fun hinner => (h.own_closer hinner).append more⟩

theorem allFramed_iff : AllFramed ts ↔ ∀ t ∈ ts, t.FramedThroughout := by
  constructor
  · rintro h _ ht w e inner rfl
    exact ⟨h w e inner (.among ht), fun w' e' inner' hocc => h w' e' inner' (.inside ht hocc)⟩
  · intro h w e inner hocc
    cases hocc with
    | among hmem => exact (h _ hmem w e inner rfl).1
    | inside hgroup hocc => exact (h _ hgroup _ _ _ rfl).2 w e inner hocc

theorem framedThroughout_word (w : Text) : (word w).FramedThroughout := by
  rintro _ _ _ ⟨⟩

theorem FramedThroughout.append (h : t.FramedThroughout) (more : Text) :
    (t.append more).FramedThroughout := by
  cases t with
  | word w => exact framedThroughout_word _
  | group w e inner =>
    rintro _ _ _ ⟨⟩
    obtain ⟨hframed, hinner⟩ := h w e inner rfl
    exact ⟨hframed.append more, hinner⟩

theorem framed_braceGroup (inner : List Token) (stars : Text) :
    Framed (braceGroup inner stars).text .brace inner := by
  have hown : Begins (braceGroup inner stars).text .brace inner .brace := by
    unfold Begins
    rw [content_braceGroup]
    refine ⟨Text.content stars, ?_⟩
    rw [← Text.content_append, List.append_assoc]
    rfl
  exact ⟨⟨_, hown⟩, fun _ => hown⟩

/-- A placement frames the groups that it makes, and keeps the others framed. -/
theorem AllFramed.place (hbefore : AllFramed before) (ht : t.FramedThroughout) :
    AllFramed (place before t) := by
  rw [allFramed_iff] at hbefore ⊢
  have hplaced := placed before t
  generalize Token.place before t = after at hplaced
  cases hplaced with
  | joined last rest heq | signed last rest heq =>
    subst heq
    rw [List.forall_mem_cons] at hbefore ⊢
    exact ⟨hbefore.1.append _, hbefore.2⟩
  | apart => exact List.forall_mem_cons.2 ⟨ht, hbefore⟩
  | closed w head inner rest hword hbare heq hinner =>
    subst heq
    rw [List.forall_mem_append, List.forall_mem_cons] at hbefore
    refine List.forall_mem_cons.2 ⟨?_, hbefore.2.2⟩
    rintro _ _ _ ⟨⟩
    refine ⟨framed_braceGroup _ _, allFramed_iff.2 (List.forall_mem_append.2 ⟨?_, ?_⟩)⟩
    · exact fun a ha => hbefore.1 a (List.mem_reverse.1 ha)
    · intro a ha
      split at ha
      · cases ha
      · rw [List.mem_singleton.1 ha]
        exact framedThroughout_word head

theorem allFramed_arrange (h : ∀ t ∈ ts, t.FramedThroughout) : AllFramed (arrange ts) := by
  have hfold : ∀ before, AllFramed before → AllFramed (ts.foldl Token.place before) := by
    induction ts with
    | nil => exact fun before hbefore => hbefore
    | cons t ts ih =>
      obtain ⟨ht, hts⟩ := List.forall_mem_cons.1 h
      exact fun before hbefore => ih hts _ (hbefore.place ht)
  have := allFramed_iff.1 (hfold [] (allFramed_iff.2 (by simp)))
  exact allFramed_iff.2 fun t ht => this t (List.mem_reverse.1 ht)

end Token

open Token

/-- The tokens inside a group that holds a text in between an opener and a closer
    frame it. -/
theorem framed_of_closed {c : Char} {t : Text} {e : Encloser} {inner : List Token}
    (hclosed : (Lexeme.run c t).Closed) (hc : Encloser.ofOpener? c = some e)
    (hinner : tokenize t.dropLast = .ok inner) : Framed (c :: t) e inner := by
  obtain ⟨inside, closer, last, rfl, hcloser, horder⟩ := hclosed e hc
  rw [List.dropLast_concat] at hinner
  have hcontent : Text.content (e.opener :: inner.flatMap text ++ [last.closer]) =
      Text.content (c :: (inside ++ [closer])) := by
    rw [Encloser.eq_opener hc, Encloser.eq_closer hcloser, List.cons_append, Text.content_cons,
      Text.content_append, content_tokenize hinner, ← Text.content_append, ← Text.content_cons]
  have hbegins : Begins (c :: (inside ++ [closer])) e inner last :=
    ⟨[], (List.append_nil _).trans hcontent⟩
  refine ⟨⟨last, hbegins⟩, fun hcomment => ?_⟩
  rcases tokenize_cases hinner with ⟨pieces, hpieces, -⟩ | ⟨before, after, pieces, -, -, rfl⟩
  · rwa [horder hpieces.order] at hbegins
  · -- a comment inside shows as a token
    have hmem : word ";" ∈ arrange pieces ++ commentTokens after := by simp [commentTokens]
    exact absurd (hcomment _ hmem) (by decide)

/-- **All groups of a text are framed.** By induction on the length of the text,
    since the insides of groups are shorter. -/
theorem allFramed_tokenize {t : Text} {ts : List Token} (h : tokenize t = .ok ts) :
    AllFramed ts := by
  induction hn : t.length using Nat.strong_induction_on generalizing t ts with
  | _ n ih =>
    subst hn
    have hpieces : ∀ {u : Text} {pieces : List Token}, u.length ≤ t.length → Pieces u pieces →
        AllFramed (arrange pieces) := by
      intro u pieces hlength hpieces
      refine allFramed_arrange fun piece hpiece => ?_
      obtain ⟨l, hl, hread⟩ := hpieces.exists_reads hpiece
      cases hread with
      | comma | word => exact framedThroughout_word _
      | @group c rest e inner hc hinner =>
        rintro _ _ _ ⟨⟩
        have hinside : rest.dropLast ∈ (Lexeme.run c rest).inside? := by simp [Lexeme.inside?, hc]
        have hshorter := (inside_of_mem_cut hl hinside).1
        exact ⟨framed_of_closed (closed_of_mem_cut hl) hc hinner,
          ih _ (Nat.lt_of_lt_of_le hshorter hlength) hinner rfl⟩
    rcases tokenize_cases h with ⟨pieces, hps, rfl⟩ | ⟨before, after, pieces, hcut, hps, rfl⟩
    · exact hpieces (Nat.le_refl _) hps
    · have hlength : before.length ≤ t.length := by
        rw [append_of_cutComment? hcut, List.length_append]
        exact Nat.le_add_right _ _
      rw [allFramed_iff]
      refine List.forall_mem_append.2 ⟨allFramed_iff.1 (hpieces hlength hps), fun a ha => ?_⟩
      simp only [commentTokens, List.mem_cons, List.mem_map] at ha
      rcases ha with rfl | ⟨w, -, rfl⟩ <;> exact framedThroughout_word _

/-- **Nothing of a text is lost, added or put elsewhere** by its tokens: blanks
    aside, their texts follow each other as the text does. The text of a group
    begins with its opener, the texts of the tokens inside and a closer; it is the
    closer of the group unless a comment is inside. -/
theorem tokensOf_content {text : Text} {number : Nat} {ts : List Token}
    (h : tokensOf text number = .ok ts) :
    Text.content (ts.flatMap Token.text) = Text.content text ∧
      ∀ w e inner, Occurs (group w e inner) ts →
        (∃ last, Begins w e inner last) ∧
          ((∀ t ∈ inner, t.isComment = false) → Begins w e inner e) := by
  have htokens := tokensOf_eq_ok.1 h
  refine ⟨content_tokenize htokens, fun w e inner hocc => ?_⟩
  obtain ⟨hsome, hown⟩ := allFramed_tokenize htokens w e inner hocc
  exact ⟨hsome, hown⟩

/-- A structure with a vector as its member, and a pointer to it. -/
theorem tokensOf_content_of_structure :
    let text : Text := "{ <2 x i8> }*"
    let vector := group "<2 x i8>" .angle [word "2", word "x", word "i8"]
    let ts := [group "{ <2 x i8> }*" .brace [vector]]
    tokensOf text 1 = .ok ts ∧ Text.content (ts.flatMap Token.text) = Text.content text ∧
      Begins "{ <2 x i8> }*" .brace [vector] .brace := by
  intro text vector ts
  have hinside : Pieces "2 x i8" [word "2", word "x", word "i8"] :=
    ⟨by decide, .cons (.word rfl) (.cons (.word rfl) (.cons (.word rfl) .nil))⟩
  have hpieces : Pieces text [openBrace, vector, word ['}', '*']] :=
    ⟨by decide, .cons (.word rfl) (.cons (.group rfl hinside.tokenize) (.cons (.word rfl) .nil))⟩
  have hts : tokensOf text 1 = .ok ts := by
    rw [tokensOf_eq_ok, hpieces.tokenize]
    decide
  obtain ⟨hcontent, hgroups⟩ := tokensOf_content hts
  exact ⟨hts, hcontent, (hgroups _ _ _ (.among List.mem_cons_self)).2 (by decide)⟩

/-- A comment in a group hides that the enclosers cross. -/
theorem not_begins_of_comment :
    let text : Text := "(;[)]"
    let inner := [word ";", word "[)"]
    tokensOf text 1 = .ok [group text .paren inner] ∧
      Begins text .paren inner .bracket ∧ ¬ Begins text .paren inner .paren := by
  intro text inner
  have hinner : tokenize ";[)" = .ok inner := by
    have hnot : ¬ ∃ pieces, Pieces ";[)" pieces := by
      rintro ⟨pieces, hpieces⟩
      exact absurd hpieces.order (by decide)
    have hcut : cutComment? ";[)" = some ([], ['[', ')']) := by decide
    rw [tokenize_of_comment hnot hcut pieces_nil]
    decide
  have hpieces : Pieces text [group text .paren inner] :=
    ⟨by decide, .cons (.group rfl hinner) .nil⟩
  refine ⟨?_, ?_, ?_⟩
  · rw [tokensOf_eq_ok, hpieces.tokenize]
    decide
  · unfold Begins
    decide
  · unfold Begins
    decide

end LlvmAsm
