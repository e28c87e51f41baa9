/-
  Names and literals as they are spelled.

  `Symbol` is the name of a function, a variable or a local value, and `ValueWord` any word
  that may stand for a value behind a type. Such words are none of the words that readers
  look for (`ValueWord.not_mem`). Readers tell a type from its text, and there the names of
  local values are spelled like the names of types: `ValueWord.isType_text`.
-/
import LlvmAsm.Proofs.Initializer.RoundTrip

namespace LlvmAsm

/-! ## Types and other words -/

namespace TypeText

theorem append_of_splitSignature? {t result signature : Text}
    (h : splitSignature? t = some (result, signature)) : t = result ++ ' ' :: signature := by
  induction t generalizing result with
  | nil => cases h
  | cons c t ih =>
    unfold splitSignature? at h
    split at h
    · rename_i hc
      cases h
      rw [hc.1]
      rfl
    · obtain ⟨⟨result', signature'⟩, hsplit, heq⟩ := Option.map_eq_some_iff.1 h
      cases heq
      rw [ih hsplit]
      rfl

/-- The type of a function holds a blank, and does not end in a quote. -/
theorem isFunction_eq_false {t : Text} (h : ' ' ∉ t ∨ t.getLast? = some '"') :
    isFunction t = false := by
  unfold isFunction
  cases hsplit : splitSignature? t with
  | none => rfl
  | some parts =>
    obtain ⟨result, signature⟩ := parts
    have ht := append_of_splitSignature? hsplit
    rcases h with hblank | hquote
    · exact absurd (ht ▸ List.mem_append_right _ List.mem_cons_self) hblank
    · have hlast : signature.getLast? = some '"' := by
        rw [ht, List.getLast?_append] at hquote
        cases signature with
        | nil => cases hquote
        | cons c signature => simpa using hquote
      obtain ⟨inside, hinside⟩ := List.getLast?_eq_some_iff.1 hlast
      have hend : Text.endsWith signature ")" = false := by
        rw [hinside, Text.endsWith, List.reverse_append]
        rfl
      dsimp only
      rw [bare_of_getLast? (by rw [hlast]; decide), hend]
      rfl

/-- A type that is none of a function has a first character of its own, or ends in a
    star. -/
theorem isPlain_eq_false {t : Text} (hhead : ∀ c ∈ t.head?, c ∉ "vifdxh[\x7b<%".toList)
    (hlast : t.getLast? ≠ some '*') : isPlain t = false := by
  cases t with
  | nil => decide
  | cons c t =>
    have hc : c ∉ "vifdxh[\x7b<%".toList := hhead c rfl
    simp only [String.reduceToList, List.mem_cons, List.not_mem_nil, or_false, not_or] at hc
    obtain ⟨hv, hi, hf, hd, hx, hh, hbracket, hbrace, hangle, hsigil⟩ := hc
    simp [isPlain, isVoid, isNumber, isInteger, floats, isStruct, isArray, isPointer_eq_false hlast,
      Text.startsWith, Text.after?, hv, hi, hf, hd, hx, hh, hbracket, Ne.symm hbrace,
      Ne.symm hangle, Ne.symm hsigil]

theorem isType_eq_false {t : Text} (hhead : ∀ c ∈ t.head?, c ∉ "vifdxh[\x7b<%".toList)
    (hlast : t.getLast? ≠ some '*') (h : ' ' ∉ t ∨ t.getLast? = some '"') : isType t = false := by
  rw [isType, isPlain_eq_false hhead hlast, isFunction_eq_false h]
  rfl

/-- The texts with the sigil of a local name are types, unless they end in a star. -/
theorem isType_sigil {t : Text} (hlast : ('%' :: t).getLast? ≠ some '*') :
    isType ('%' :: t) = true := by
  have hsigil : Text.startsWith ('%' :: t) ['%'] = true := Text.startsWith_append ['%'] t
  have hstruct : isStruct ('%' :: t) = true := by
    simp [isStruct, isPointer_eq_false hlast, hsigil]
  rw [isType, isPlain_of_isStruct hstruct, Bool.true_or]

end TypeText

/-! ## Symbols -/

/-- The name of a symbol, with or without quotes. -/
inductive SymbolName where
  | plain (name : PlainName)
  | quoted (content : QuoteFree)

/-- The text of a name. -/
def SymbolName.text : SymbolName → Text
  | plain name => name.text
  | quoted content => '"' :: content.text ++ ['"']

/-- The name of a function or a variable, or of a value in a function. -/
structure Symbol where
  isLocal : Bool
  name : SymbolName

/-- The text of a symbol: its sigil and its name. -/
def Symbol.text (s : Symbol) : Text := (if s.isLocal then '%' else '@') :: s.name.text

namespace Symbol

variable (s : Symbol)

/-- A plain name holds no blank and no star, and a name in quotes ends in a quote. -/
theorem shape : (' ' ∉ s.text ∧ '*' ∉ s.text) ∨ s.text.getLast? = some '"' := by
  obtain ⟨isLocal, plain | quoted⟩ := s
  · left
    have hblank : ' ' ∉ plain.text := plain.not_mem_text (by decide)
    have hstar : '*' ∉ plain.text := plain.not_mem_text (by decide)
    cases isLocal with
    | false => simp [text, SymbolName.text, hblank, hstar]
    | true => simp [text, SymbolName.text, hblank, hstar]
  · right
    rw [text, SymbolName.text, ← List.cons_append]
    exact List.getLast?_concat

theorem getLast?_text : s.text.getLast? ≠ some '*' := by
  rcases s.shape with ⟨-, hstar⟩ | hquote
  · exact fun hlast => hstar (List.mem_of_getLast? hlast)
  · rw [hquote]
    decide

/-- **Local names are spelled like types**, and global ones are not. -/
theorem isType_text : TypeText.isType s.text = s.isLocal := by
  have hlast := s.getLast?_text
  have hshape := s.shape
  obtain ⟨isLocal, name⟩ := s
  cases isLocal with
  | false =>
    refine TypeText.isType_eq_false ?_ hlast (hshape.imp_left And.left)
    intro c hc
    obtain rfl : '@' = c := Option.some.inj hc
    decide
  | true => exact TypeText.isType_sigil hlast

/-- Symbols are no numbers. -/
theorem normal_text : Literal.normal s.text = s.text := by
  obtain ⟨isLocal, name⟩ := s
  cases isLocal with
  | false => exact Literal.normal_symbol name.text
  | true => exact Literal.normal_local name.text

end Symbol

/-! ## Words for values -/

/-- A word belongs to a segment unless it stands between segments or begins a comment. -/
theorem Token.inSegment_word {w : Text} (h : w ∉ ([",", "to", ";"] : List Text)) :
    (word w).InSegment := by
  have hword : ∀ v ∈ ([",", "to", ";"] : List Text), (word w).isWord v = false := by
    intro v hv
    refine decide_eq_false ?_
    rintro rfl
    exact h hv
  refine ⟨?_, hword _ (by simp)⟩
  rw [isDelimiter, isSeparator, hword _ (by simp), hword _ (by simp)]
  rfl

/-- The literals that are spelled as words. -/
def literalKeywords : List Text := ["null", "true", "false", "undef", "zeroinitializer"]

/-- The character is a digit or a sign. -/
def beginsNumeral (c : Char) : Bool := c.isDigit || c = '-' || c = '+'

/-- A number in any notation: it begins with a digit or a sign and goes on with letters,
    digits, signs and points. -/
structure IsNumeral (t : Text) : Prop where
  head : ∃ c, t.head? = some c ∧ beginsNumeral c = true
  chars : ∀ c ∈ t, c.isAlphanum = true ∨ c ∈ ['.', '-', '+']

/-- A word that may stand for a value behind a type. -/
inductive ValueWord where
  | symbol (s : Symbol)
  | keyword (w : {w : Text // w ∈ literalKeywords})
  | numeral (t : {t : Text // IsNumeral t})

namespace ValueWord

/-- The text of a word. -/
def text : ValueWord → Text
  | symbol s => s.text
  | keyword w => w
  | numeral t => t

/-- The word is the name of a local value. -/
def isLocal : ValueWord → Bool
  | symbol s => s.isLocal
  | keyword _ | numeral _ => false

/-- The character begins a symbol or a number. -/
def beginsValue (c : Char) : Bool := c = '%' || c = '@' || beginsNumeral c

/-- The words with a meaning of their own are none of the literals, and begin with other
    characters than symbols and numbers do. -/
def Reserved (w : Text) : Prop := w ∉ literalKeywords ∧ w.head?.any beginsValue = false

instance (w : Text) : Decidable (Reserved w) := inferInstanceAs (Decidable (_ ∧ _))

variable (v : ValueWord)

theorem not_mem {ws : List Text} (h : ∀ w ∈ ws, Reserved w) : v.text ∉ ws := by
  intro hmem
  obtain ⟨hkeyword, hhead⟩ := h _ hmem
  rw [Bool.eq_false_iff] at hhead
  cases v with
  | symbol s =>
    refine hhead ?_
    obtain ⟨isLocal, name⟩ := s
    cases isLocal with
    | false => rfl
    | true => rfl
  | keyword w => exact hkeyword w.2
  | numeral t =>
    obtain ⟨c, hc, hfirst⟩ := t.2.head
    refine hhead ?_
    rw [show (numeral t).text.head? = some c from hc, Option.any_some, beginsValue, hfirst,
      Bool.or_true]

/-- **A word for a value is taken for a type** exactly if it is a local name. -/
theorem isType_text : TypeText.isType v.text = v.isLocal := by
  cases v with
  | symbol s => exact s.isType_text
  | keyword w =>
    exact (by decide : ∀ w ∈ literalKeywords, TypeText.isType w = false) w w.2
  | numeral t =>
    obtain ⟨⟨c, hc, hfirst⟩, hchars⟩ := t.2
    refine TypeText.isType_eq_false ?_ ?_ (Or.inl ?_)
    · intro d hd
      obtain rfl : c = d := Option.some.inj (hc.symm.trans hd)
      exact not_mem_of_class (by decide) hfirst
    · intro hlast
      exact absurd (hchars _ (List.mem_of_getLast? hlast)) (by decide)
    · intro hblank
      exact absurd (hchars _ hblank) (by decide)

theorem inSegment_word : (Token.word v.text).InSegment :=
  Token.inSegment_word (v.not_mem (by decide))

theorem isExpression_word : (Token.word v.text).isExpression = false := by
  have hwords : v.text ∉ Vocabulary.expressions := v.not_mem (by decide)
  simpa [Token.isExpression, Token.isOneOf] using hwords

end ValueWord

end LlvmAsm
