/-
  The tokens of initial values.

  `Initializer.tokens` are the tokens of a constant: a word, the two words of a text, or a
  group whose members are types and values with commas between them. The text of a
  constant has these tokens and no others, whatever stands before it
  (`Initializer.yields_print`), and the members of a group are its segments
  (`segments_intercalate`).

  No such token ends a segment, begins a comment or opens a brace (`IsContent`): neither
  do types, as they would not be types then, nor values by the characters in them.
-/
import LlvmAsm.Proofs.Initializer.Grammar

namespace LlvmAsm

open Token Scan

/-! ## Lists of several tokens -/

section
variable {α : Type} {p : α → Prop} {a : α} {tss : List (List α)}

theorem forall_mem_intercalate (ha : p a) (h : ∀ ts ∈ tss, ∀ t ∈ ts, p t) :
    ∀ t ∈ List.intercalate [a] tss, p t := by
  induction tss with
  | nil => exact List.forall_mem_nil _
  | cons ts tss ih =>
    obtain ⟨hts, htss⟩ := List.forall_mem_cons.1 h
    cases tss with
    | nil => rwa [List.intercalate_singleton]
    | cons us tss =>
      rw [List.intercalate_cons_cons]
      refine List.forall_mem_append.2 ⟨List.forall_mem_append.2 ⟨hts, ?_⟩, ih htss⟩
      simpa using ha

end

/-- The texts of several tokens in a list. -/
theorem yields_commaList {texts : List Text} {tss : List (List Token)}
    (h : List.Forall₂ Yields texts tss) :
    Yields (commaList texts) (List.intercalate [separator] tss) := by
  induction h with
  | nil => exact yields_nil
  | @cons t ts texts tss ht htexts ih =>
    cases htexts with
    | nil => simpa [List.intercalate_singleton] using ht
    | @cons u us texts tss hu htexts =>
      rw [commaList_cons_cons, List.intercalate_cons_cons, List.append_assoc]
      exact ht.append (Or.inr (Or.inr (Or.inl rfl))) ih.blank.comma

/-- Tokens between separators are the segments of a list. -/
theorem segments_intercalate {tss : List (List Token)}
    (h : ∀ ts ∈ tss, ts ≠ [] ∧ ∀ t ∈ ts, t.InSegment) :
    segments (List.intercalate [separator] tss) = tss := by
  induction tss with
  | nil => rfl
  | cons ts tss ih =>
    obtain ⟨⟨hne, hts⟩, htss⟩ := List.forall_mem_cons.1 h
    cases tss with
    | nil =>
      obtain ⟨t, ts, rfl⟩ := List.exists_cons_of_ne_nil hne
      rw [List.intercalate_singleton, segments_singleton hts]
    | cons us tss =>
      rw [List.intercalate_cons_cons, List.append_assoc, segments, segmentsFrom_append hts]
      exact congrArg (ts :: ·) (ih htss)

/-! ## Quoted texts -/

/-- A text of characters is two words. -/
theorem pieces_chars {t : Text} (h : '"' ∉ t) :
    Pieces ('c' :: '"' :: t ++ ['"']) [word ['c'], word ('"' :: t ++ ['"'])] := by
  have hopen : Runs start ['c', '"'] ([] ++ ([.run 'c' []] ++ []))
      ⟨['"'], true, .zero, 0⟩ := .cons rfl (.cons rfl (.nil _))
  have hclose : (Scan.mk (t.reverse ++ ['"']) true .zero 0).cutFrom ['"'] =
      ([.run '"' (t ++ ['"'])], none) := by
    simp [cutFrom, step, quote, endFault?, released, pending, hold, restart, Lexeme.ofText]
  have hcut : cut ('c' :: '"' :: t ++ ['"']) = ([.run 'c' [], .run '"' (t ++ ['"'])], none) := by
    have hinside := (runs_quoted ['"'] h).cutFrom_append ['"']
    rw [hclose] at hinside
    have hall := hopen.cutFrom_append (t ++ ['"'])
    rw [hinside] at hall
    exact hall
  constructor
  · rw [hcut]
  · rw [hcut]
    exact .cons (.word rfl) (.cons (.word rfl) .nil)

theorem yields_chars {t : Text} (h : '"' ∉ t) :
    Yields ('c' :: '"' :: t ++ ['"']) [word ['c'], word ('"' :: t ++ ['"'])] := by
  refine ⟨_, pieces_chars h, fun before => ?_⟩
  have hc : (word ['c']).Apart := apart_word (c := 'c') rfl (by decide) (by decide)
  have hlast : ('"' :: t ++ ['"']).getLast? = some '"' := List.getLast?_concat
  have hbare : (TypeText.bare ('"' :: t ++ ['"'])).getLast? ≠ some '}' := by
    rw [TypeText.bare_of_getLast? (by rw [hlast]; decide), hlast]
    decide
  have hext : extends? ('"' :: t ++ ['"']) (word ['c']) = false := by
    simp [extends?, Token.is, text]
  have hsignature : (word ('"' :: t ++ ['"'])).isSignature = false :=
    isSignature_eq_false (by simp [text])
  rw [List.foldl_cons, hc.place, List.foldl_cons, List.foldl_nil]
  generalize '"' :: t ++ ['"'] = w at *
  simp [place, placeApart, hext, hsignature, closeBrace?_eq_none hbare, text]

/-! ## Tokens of members -/

namespace Token

/-- The token is none of the words that have a meaning between members. -/
def IsContent (t : Token) : Prop := ∀ w ∈ ([",", "to", ";", ['{']] : List Text), t ≠ word w

variable {t : Token}

theorem IsContent.inSegment (h : t.IsContent) : t.InSegment := by
  have hword : ∀ w ∈ ([",", "to", ";", ['{']] : List Text), t.isWord w = false := fun w hw =>
    Bool.eq_false_iff.2 fun hword => h w hw (isWord_iff.1 hword)
  refine ⟨?_, hword _ (by simp)⟩
  rw [isDelimiter, isSeparator, hword _ (by simp), hword _ (by simp)]
  rfl

theorem IsContent.settled (h : t.IsContent) : t.Settled :=
  settled_iff.2 (h ['{'] (by simp))

theorem isContent_group (text : Text) (e : Encloser) (inner : List Token) :
    (group text e inner).IsContent := by
  rintro w - ⟨⟩

/-- A word with a character that is in none of these words. -/
theorem isContent_word {w : Text} {c : Char} (hc : c ∈ w) (hother : c ∉ [',', 't', 'o', ';', '{']) :
    (word w).IsContent := by
  rintro v hv ⟨⟩
  have hall : ∀ v ∈ ([",", "to", ";", ['{']] : List Text),
      List.Sublist v [',', 't', 'o', ';', '{'] := by decide
  exact hother ((hall w hv).mem hc)

end Token

/-- What is not a type is not the token of one. -/
theorem Ty.token_ne_word {w : Text} (h : TypeText.isType w = false) (T : Ty) :
    T.token ≠ word w := by
  intro heq
  have htype := T.isType_print
  rw [← T.text_token, heq] at htype
  exact absurd htype (by simp [text, h])

theorem Ty.isContent_token (T : Ty) : T.token.IsContent := by
  intro w hw
  simp only [List.mem_cons, List.not_mem_nil, or_false] at hw
  rcases hw with rfl | rfl | rfl | rfl
  · exact T.token_ne_word (by decide)
  · exact T.token_ne_word (by decide)
  · exact T.token_ne_word (by decide)
  · exact settled_iff.1 T.settled_token

namespace IntLiteral

variable (l : IntLiteral)

/-- The character may stand in a literal. -/
def IsLiteralChar (c : Char) : Prop := c.isDigit = true ∨ c = '-'

theorem isLiteralChar_of_mem {c : Char} (hc : c ∈ l.text) : IsLiteralChar c := by
  unfold text at hc
  split at hc
  · rcases List.mem_cons.1 hc with rfl | hc
    · exact Or.inr rfl
    · exact Or.inl (l.all_digits c hc)
  · exact Or.inl (l.all_digits c hc)

theorem text_ne_nil : l.text ≠ [] := by
  unfold text
  split
  · exact List.cons_ne_nil _ _
  · exact l.ne_nil

theorem IsLiteralChar.not_mem {c : Char} (h : IsLiteralChar c) {cs : List Char}
    (hcs : cs.any (fun c => c.isDigit || c = '-') = false) : c ∉ cs :=
  not_mem_of_class hcs (by simpa [IsLiteralChar] using h)

/-- A literal begins with one of its characters. -/
theorem exists_head : ∃ c, l.text.head? = some c ∧ IsLiteralChar c := by
  obtain ⟨c, t, hcons⟩ := List.exists_cons_of_ne_nil l.text_ne_nil
  exact ⟨c, by rw [hcons]; rfl, l.isLiteralChar_of_mem (by rw [hcons]; exact List.mem_cons_self)⟩

theorem yields_text : Yields l.text [word l.text] := by
  obtain ⟨c, hhead, hc⟩ := l.exists_head
  have hplain : ∀ d ∈ l.text, PlainChar d := fun d hd =>
    plainChar_of_not_mem ((l.isLiteralChar_of_mem hd).not_mem (by decide))
  have hbrace : '}' ∉ l.text := fun hmem =>
    have hne : '}' ∉ ['}'] := (l.isLiteralChar_of_mem hmem).not_mem (by decide)
    hne List.mem_cons_self
  have := yields_word hhead (hc.not_mem (by decide)) hplain hbrace (List.forall_mem_nil _)
  simpa using this

end IntLiteral

/-- The name of a function or a variable. -/
theorem PlainName.yields_symbol (name : PlainName) :
    Yields ('@' :: name.text) [word ('@' :: name.text)] := by
  simpa using name.yields_sigil (c := '@') (by decide) (List.forall_mem_nil _)

/-! ## Tokens of constants -/

namespace Initializer

mutual

/-- The tokens of a constant, without its type. -/
def tokens : Initializer → List Token
  | int _ literal => [word literal.text]
  | null _ => [word "null"]
  | symbol _ name => [word ('@' :: name.text)]
  | zero _ => [word "zeroinitializer"]
  | chars _ content => [word ['c'], word ('"' :: content.text ++ ['"'])]
  | struct _ first rest =>
    [braceGroup (List.intercalate [separator] ((first.ty.token :: first.tokens) :: tokensAll rest))
      []]
  | array _ _ elements =>
    [group ('[' :: commaList (printAll elements) ++ [']']) .bracket
      (List.intercalate [separator] (tokensAll elements))]

/-- The tokens of constants with their types. -/
def tokensAll : List Initializer → List (List Token)
  | [] => []
  | c :: cs => (c.ty.token :: c.tokens) :: tokensAll cs

end

theorem isContent_of_mem_tokens (c : Initializer) : ∀ t ∈ c.tokens, t.IsContent := by
  cases c with
  | int bits literal =>
    obtain ⟨d, hhead, hd⟩ := literal.exists_head
    simpa [tokens] using isContent_word (List.mem_of_head? hhead) (hd.not_mem (by decide))
  | null T => simpa [tokens] using isContent_word (w := "null") (c := 'n') (by decide) (by decide)
  | symbol T name =>
    simpa [tokens] using isContent_word (w := '@' :: name.text) List.mem_cons_self (by decide)
  | zero T =>
    simpa [tokens] using isContent_word (w := "zeroinitializer") (c := 'z') (by decide) (by decide)
  | chars length content =>
    have hc : (word ['c']).IsContent := isContent_word List.mem_cons_self (by decide)
    have hquoted : (word ('"' :: content.text ++ ['"'])).IsContent :=
      isContent_word List.mem_cons_self (by decide)
    exact List.forall_mem_cons.2 ⟨hc, List.forall_mem_cons.2 ⟨hquoted, List.forall_mem_nil _⟩⟩
  | struct | array => exact List.forall_mem_cons.2 ⟨isContent_group _ _ _, List.forall_mem_nil _⟩

/-- Members are made of tokens with no meaning between them. -/
theorem isContent_of_mem_tokensAll (cs : List Initializer) :
    ∀ ts ∈ tokensAll cs, ts ≠ [] ∧ ∀ t ∈ ts, t.IsContent := by
  induction cs with
  | nil => exact List.forall_mem_nil _
  | cons c cs ih =>
    refine List.forall_mem_cons.2 ⟨⟨List.cons_ne_nil _ _, ?_⟩, ih⟩
    exact List.forall_mem_cons.2 ⟨c.ty.isContent_token, c.isContent_of_mem_tokens⟩

theorem segments_tokensAll (cs : List Initializer) :
    segments (List.intercalate [separator] (tokensAll cs)) = tokensAll cs :=
  segments_intercalate fun ts hts =>
    have h := isContent_of_mem_tokensAll cs ts hts
    ⟨h.1, fun t ht => (h.2 t ht).inSegment⟩

theorem settled_of_mem_list (cs : List Initializer) :
    ∀ t ∈ List.intercalate [separator] (tokensAll cs), t.Settled :=
  forall_mem_intercalate rfl fun ts hts t ht =>
    ((isContent_of_mem_tokensAll cs ts hts).2 t ht).settled

theorem yields_all {cs : List Initializer} (h : ∀ c ∈ cs, Yields c.print c.tokens) :
    Yields (commaList (printAll cs)) (List.intercalate [separator] (tokensAll cs)) := by
  apply yields_commaList
  induction cs with
  | nil => exact .nil
  | cons c cs ih =>
    obtain ⟨hc, hcs⟩ := List.forall_mem_cons.1 h
    have hty : Yields c.ty.print [c.ty.token] := by
      simpa using c.ty.yields_print (List.forall_mem_nil _)
    exact .cons (hty.append_blank hc) (ih hcs)

theorem yields_keyword {w : Text} {c : Char} (hhead : w.head? = some c) (hc : c ∉ ['"', '*', '('])
    (hplain : w.all (fun c => decide (PlainChar c)) = true) (hbrace : '}' ∉ w) :
    Yields w [word w] := by
  have := yields_word hhead hc (plainChars_of_all hplain) hbrace (List.forall_mem_nil _)
  simpa using this

/-- **A constant has its tokens and no others**, whatever is before it. -/
theorem yields_print (c : Initializer) : Yields c.print c.tokens := by
  induction c using Initializer.induction with
  | int bits literal => exact literal.yields_text
  | null T => exact yields_keyword (w := "null") (c := 'n') rfl (by decide) (by decide) (by decide)
  | symbol T name => exact name.yields_symbol
  | zero T =>
    exact yields_keyword (w := "zeroinitializer") (c := 'z') rfl (by decide) (by decide) (by decide)
  | chars length content => exact yields_chars content.no_quote
  | struct T first rest hfirst hrest =>
    have hmembers : Yields (commaList (printAll (first :: rest))) _ :=
      yields_all (List.forall_mem_cons.2 ⟨hfirst, hrest⟩)
    exact hmembers.braces (settled_of_mem_list (first :: rest)) (List.forall_mem_nil _)
  | array length elementTy elements helements =>
    have hinside : Yields (commaList (printAll elements)) _ := yields_all helements
    exact hinside.group rfl (by decide) rfl (List.forall_mem_nil _)

end Initializer

end LlvmAsm
