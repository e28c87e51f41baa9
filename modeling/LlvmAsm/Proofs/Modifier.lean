/-
  The modifiers of a global variable.

  * `IsTypeToken`: a token at which modifiers end, such as every type
    (`isTypeToken_of_isType`);
  * `Modifiers`: a sequence of words that may stand between the equals sign and the type
    of a variable, with `external` once at most;
  * `dropWordsAt_append`: what is taken off at one position ends before the first token
    that is none of the words;
  * `dropModifiers_modifiers`: every sequence is taken off, and nothing that follows it;
  * `symbol_modifiers`: a sequence means the same as `global`, or as `external global`.
-/
import LlvmAsm.Proofs.Renumbering.Statement
import LlvmAsm.Statement

namespace LlvmAsm

open Reading

/-! ## Words at a position -/

/-- The words at a position are taken off up to the first token that stays. -/
theorem dropWordsAt_append {ws : List Text} (before : List Token) {words after : List Token}
    (hwords : ∀ t ∈ words, t.isOneOf ws = true)
    (hafter : ∀ t ∈ after.head?, t.isOneOf ws = false) :
    dropWordsAt ws before.length (before ++ (words ++ after)) = before ++ after := by
  rw [dropWordsAt, List.take_left, List.drop_left, dropWhile_exact hwords hafter]

namespace Definition

/-! ## Types -/

/-- The token is no word that may stand before the type of a variable. -/
structure IsTypeToken (ty : Token) : Prop where
  not_modifier : ty.isOneOf Vocabulary.globalModifiers = false
  not_external : ty.isWord "external" = false

/-- Every type is a token at which the modifiers end. -/
theorem isTypeToken_of_isType {ty : Token} (h : TypeText.isType ty.text = true) :
    IsTypeToken ty := by
  have hwords : ∀ w ∈ "external".toList :: Vocabulary.globalModifiers,
      TypeText.isType w = false := by decide
  cases ty with
  | group => exact ⟨rfl, rfl⟩
  | word w =>
    have hnot : w ∉ "external".toList :: Vocabulary.globalModifiers := fun hmem =>
      Bool.false_ne_true ((hwords w hmem).symm.trans h)
    rw [List.mem_cons, not_or] at hnot
    exact ⟨eq_false_of_ne_true fun h => hnot.2 (List.contains_iff_mem.1 h),
      decide_eq_false hnot.1⟩

/-! ## Sequences of modifiers -/

/-- A sequence of modifiers of a variable. -/
structure Modifiers where
  words : List Text
  nonempty : words ≠ []
  allowed : ∀ w ∈ words, w ∈ Vocabulary.globalModifiers ∨ w = "external"
  once : words.count "external".toList ≤ 1

namespace Modifiers

/-- The word `external` is one of the modifiers. -/
def isExternal (m : Modifiers) : Bool := m.words.contains "external"

/-- The tokens of the modifiers. -/
def tokens (m : Modifiers) : List Token := m.words.map .word

/-- The modifiers `global` or `external global`. -/
def plain : Bool → Modifiers
  | false => ⟨["global"], by decide, by decide, by decide⟩
  | true => ⟨["external", "global"], by decide, by decide, by decide⟩

@[simp] theorem isExternal_plain (b : Bool) : (plain b).isExternal = b := by
  cases b <;> decide

/-- A sequence of modifiers has `external` at one place, or has the other words only. -/
theorem cases_external (m : Modifiers) :
    (m.isExternal = false ∧ ∀ t ∈ m.tokens, t.isOneOf Vocabulary.globalModifiers = true) ∨
    (m.isExternal = true ∧ ∃ before after, m.tokens = before ++ .word "external" :: after ∧
      (∀ t ∈ before, t.isOneOf Vocabulary.globalModifiers = true) ∧
      ∀ t ∈ after, t.isOneOf Vocabulary.globalModifiers = true) := by
  have hword (ws : List Text) (hws : ∀ w ∈ ws, w ∈ m.words) (hnot : "external".toList ∉ ws) :
      ∀ t ∈ ws.map Token.word, t.isOneOf Vocabulary.globalModifiers = true := by
    intro t ht
    obtain ⟨w, hw, rfl⟩ := List.mem_map.1 ht
    have hne : w ≠ "external" := fun heq => hnot (heq ▸ hw)
    exact List.contains_iff_mem.2 ((m.allowed w (hws w hw)).resolve_right hne)
  by_cases hmem : "external".toList ∈ m.words
  · obtain ⟨before, after, hwords⟩ := List.append_of_mem hmem
    have honce := m.once
    rw [hwords, List.count_append, List.count_cons_self] at honce
    have hbefore : "external".toList ∉ before := List.count_eq_zero.1 (by omega)
    have hafter : "external".toList ∉ after := List.count_eq_zero.1 (by omega)
    refine Or.inr ⟨List.contains_iff_mem.2 hmem, before.map .word, after.map .word, ?_,
      hword before (fun w hw => hwords ▸ List.mem_append_left _ hw) hbefore,
      hword after (fun w hw => hwords ▸ List.mem_append_right _ (List.mem_cons_of_mem _ hw)) hafter⟩
    rw [tokens, hwords, List.map_append, List.map_cons]
  · exact Or.inl ⟨eq_false_of_ne_true fun h => hmem (List.contains_iff_mem.1 h),
      hword m.words (fun _ hw => hw) hmem⟩

end Modifiers

/-! ## Taking them off -/

section
variable {name eq ty : Token}

/-- The words after the first one are taken off before it is. -/
theorem dropModifiers_first {first : Token} {words after : List Token}
    (hfirst : first.isOneOf Vocabulary.globalModifiers = true)
    (hwords : ∀ t ∈ words, t.isOneOf Vocabulary.globalModifiers = true)
    (hafter : ∀ t ∈ after.head?, t.isOneOf Vocabulary.globalModifiers = false) :
    dropWordsAt Vocabulary.globalModifiers 2 (dropWordsAt Vocabulary.globalModifiers 3
      (name :: eq :: first :: (words ++ after))) = name :: eq :: after := by
  have hthird : dropWordsAt Vocabulary.globalModifiers 3 (name :: eq :: first :: (words ++ after)) =
      name :: eq :: first :: after :=
    dropWordsAt_append [name, eq, first] hwords hafter
  have hsecond : dropWordsAt Vocabulary.globalModifiers 2 (name :: eq :: first :: after) =
      name :: eq :: after :=
    dropWordsAt_append [name, eq] (List.forall_mem_singleton.2 hfirst) hafter
  rw [hthird, hsecond]

theorem dropModifiers_external {words rest : List Token} (hty : IsTypeToken ty)
    (hwords : ∀ t ∈ words, t.isOneOf Vocabulary.globalModifiers = true) :
    dropWordsAt Vocabulary.globalModifiers 2
      ((name :: eq :: .word "external" :: (words ++ ty :: rest)).eraseIdx 2) =
      name :: eq :: ty :: rest :=
  dropWordsAt_append [name, eq] hwords (by simpa using hty.not_modifier)

/-- **A sequence of modifiers is taken off as a whole**, and nothing behind it. Where the
    words before `external` end depends on whether it is the first one. -/
theorem dropModifiers_modifiers (m : Modifiers) (hty : IsTypeToken ty) (name eq : Token)
    (rest : List Token) :
    dropModifiers (name :: eq :: (m.tokens ++ ty :: rest)) =
      (name :: eq :: ty :: rest, m.isExternal) := by
  have htype : ∀ t ∈ (ty :: rest).head?, t.isOneOf Vocabulary.globalModifiers = false := by
    simpa using hty.not_modifier
  have hexternal (after : List Token) : ∀ t ∈ (Token.word "external" :: after).head?,
      t.isOneOf Vocabulary.globalModifiers = false := by
    intro t ht
    cases ht
    decide
  rcases m.cases_external with ⟨hnot, hwords⟩ | ⟨hoccurs, before, after, htokens, hbefore, hafter⟩
  · cases htokens : m.tokens with
    | nil => exact absurd (List.map_eq_nil_iff.1 htokens) m.nonempty
    | cons first words =>
      obtain ⟨hfirst, hwords⟩ := List.forall_mem_cons.1 (htokens ▸ hwords)
      rw [dropModifiers]
      simp only [List.cons_append, dropModifiers_first hfirst hwords htype, hnot]
      exact if_neg (by simpa using hty.not_external)
  · rw [htokens, List.append_assoc, List.cons_append]
    cases before with
    | nil =>
      have hnone : ∀ t ∈ ([] : List Token), t.isOneOf Vocabulary.globalModifiers = true :=
        List.forall_mem_nil _
      have hthird : dropWordsAt Vocabulary.globalModifiers 3
          (name :: eq :: .word "external" :: (after ++ ty :: rest)) =
          name :: eq :: .word "external" :: ty :: rest :=
        dropWordsAt_append [name, eq, .word "external"] hafter htype
      have hsecond : dropWordsAt Vocabulary.globalModifiers 2
          (name :: eq :: .word "external" :: ty :: rest) =
          name :: eq :: .word "external" :: ty :: rest :=
        dropWordsAt_append [name, eq] hnone (hexternal _)
      rw [dropModifiers]
      simp only [List.nil_append, hthird, hsecond, hoccurs]
      rw [if_pos (by rfl)]
      exact congrArg (·, true) (dropModifiers_external hty hnone)
    | cons first words =>
      obtain ⟨hfirst, hwords⟩ := List.forall_mem_cons.1 hbefore
      rw [dropModifiers]
      simp only [List.cons_append, dropModifiers_first hfirst hwords (hexternal _), hoccurs]
      rw [if_pos (by rfl)]
      exact congrArg (·, true) (dropModifiers_external hty hafter)

end

/-! ## What they mean -/

/-- The tokens of a variable with modifiers. -/
def variableTokens (name : Token) (m : Modifiers) (ty : Token) (rest : List Token) : List Token :=
  name :: .word "=" :: (m.tokens ++ ty :: rest)

section
variable (name : Token) (m : Modifiers) {ty : Token} (rest : List Token)

/-- A word that introduces an alias or a type is no modifier. -/
theorem tokenAt_modifier (line : Line) (h : line.tokens = variableTokens name m ty rest) :
    ∃ word, tokenAt line line.tokens 2 = pure word ∧ word.is "alias" = false ∧
      word.is "type" = false := by
  cases hwords : m.words with
  | nil => exact absurd hwords m.nonempty
  | cons w words =>
    have htokens : line.tokens = name :: .word "=" :: .word w :: (words.map .word ++ ty :: rest) := by
      rw [h, variableTokens, Modifiers.tokens, hwords]
      rfl
    refine ⟨.word w, by rw [htokens]; rfl, ?_, ?_⟩
    all_goals
      have hallowed := m.allowed w (hwords ▸ List.mem_cons_self)
      refine decide_eq_false fun hw : w = _ => ?_
      subst hw
      revert hallowed
      decide

/-- A line with modifiers is read as a variable. -/
theorem symbol_variableTokens (line : Line) (h : line.tokens = variableTokens name m ty rest) :
    symbol line = do
      let kind ← globalVariable line name.text
      return ⟨line.number, some name.text, false, kind⟩ := by
  obtain ⟨word, hword, halias, htype⟩ := tokenAt_modifier name m rest line h
  have hname : textAt line line.tokens 0 = pure name.text := by
    rw [h]
    rfl
  rw [symbol, hname, hword]
  simp only [pure_bind, halias, htype, Bool.false_eq_true, if_false]

theorem ensures_globalVariable (line : Line) (ident : Text) (isExternal : Bool)
    (h : dropModifiers line.tokens = (name :: .word "=" :: ty :: rest, isExternal)) :
    (globalVariable line ident).Ensures (fun _ => True) fun kind _ =>
      ∃ value constructors, kind = .globalVariable ty.text isExternal value constructors := by
  have htext : textAt line (name :: .word "=" :: ty :: rest) 2 = pure ty.text := rfl
  rw [globalVariable, h]
  simp only [htext, pure_bind, ensures_bind, ensures_note]
  split
  · exact (ensures_pure _).2 ⟨_, _, rfl⟩
  split
  · exact ensures_of_ok fun kind hkind => by
      obtain ⟨value, -, hvalue⟩ := exists_of_bind_ok hkind
      exact ⟨some value, none, (Except.ok.inj hvalue).symm⟩
  split
  · rename_i hexternal
    exact (ensures_pure _).2 ⟨none, none, by rw [hexternal]⟩
  · trivial

/-- **Modifiers are transparent.** A variable with a sequence of modifiers is read like one
    with the word `global`, after `external` if that is one of them. If it can be read, it
    is external iff `external` is. -/
theorem symbol_modifiers (ty : { t : Token // IsTypeToken t }) (text text' : Text) (number : Nat)
    (indent : Indent) :
    let line : Line := ⟨text, number, indent, variableTokens name m ty rest⟩
    let plain : Line :=
      ⟨text', number, indent, variableTokens name (.plain m.isExternal) ty rest⟩
    symbol line = symbol plain ∧
    (symbol line).Ensures (fun _ => True) fun node _ =>
      ∃ value constructors, node.kind =
        .globalVariable ty.1.text (decide ("external".toList ∈ m.words)) value constructors := by
  intro line plain
  have hdrop : dropModifiers line.tokens = (name :: .word "=" :: ty.1 :: rest, m.isExternal) :=
    dropModifiers_modifiers m ty.2 name (.word "=") rest
  have hplain : dropModifiers plain.tokens = (name :: .word "=" :: ty.1 :: rest, m.isExternal) := by
    have := dropModifiers_modifiers (.plain m.isExternal) ty.2 name (.word "=") rest
    rwa [Modifiers.isExternal_plain] at this
  have hexternal : m.isExternal = decide ("external".toList ∈ m.words) :=
    List.contains_eq_mem _ _
  have halike : (globalVariable line name.text).Alike id (globalVariable plain name.text) :=
    (agreeWith_globalVariable (hplain.trans hdrop.symm) name.text).renumbered rfl
      fun _ _ h => h.1
  rw [symbol_variableTokens name m rest line rfl, symbol_variableTokens name _ rest plain rfl,
    halike.eq, ← hexternal, ensures_bind]
  refine ⟨rfl, (ensures_globalVariable name rest line name.text m.isExternal hdrop).mono ?_⟩
  exact fun kind _ hkind => (ensures_pure _).2 hkind

end

end Definition

end LlvmAsm
