/-
  Laws of the arrangement of tokens.

  `Token.Placed` lists what one more token can do to the tokens before it; the
  laws of a single placement are read off this list.

  * `Token.Apart.place`, `place_stars`, `place_signature` and `place_closeBrace`:
    which of these a token does;
  * `Token.place_beyond`: only the latest token goes on, and only an open brace
    reaches back further, so tokens without an open brace stay as they are once
    something stands after them (`foldl_place_beyond`).
-/
import LlvmAsm.Token.Arrangement
import Mathlib.Data.List.TakeWhile

namespace LlvmAsm

/-! ## Stars -/

namespace TypeText

theorem bare_append_of_stars {stars : Text} (h : ∀ c ∈ stars, c = '*') (w : Text) :
    bare (w ++ stars) = bare w := by
  unfold bare
  rw [List.reverse_append, List.dropWhile_append_of_pos]
  intro c hc
  simp [h c (List.mem_reverse.1 hc)]

theorem bare_of_getLast? {w : Text} (h : w.getLast? ≠ some '*') : bare w = w := by
  unfold bare
  rw [← List.head?_reverse] at h
  rw [dropWhile_eq_self, List.reverse_reverse]
  intro c hc
  rw [Option.mem_def] at hc
  rw [hc] at h
  simpa using h

theorem head?_of_bare {w : Text} {c : Char} (h : (bare w).head? = some c) : w.head? = some c := by
  rw [← bare_append_stars w, List.head?_append, h]
  rfl

theorem eq_star_of_mem_stars {w : Text} {c : Char} (h : c ∈ stars w) : c = '*' := by
  simpa using List.mem_takeWhile_imp h

theorem stars_append {w stars : Text} (h : ∀ c ∈ stars, c = '*') (hw : w.getLast? ≠ some '*') :
    TypeText.stars (w ++ stars) = stars := by
  have hbare : bare (w ++ stars) = w := by rw [bare_append_of_stars h, bare_of_getLast? hw]
  have := bare_append_stars (w ++ stars)
  rw [hbare] at this
  exact List.append_cancel_left this

end TypeText

namespace Token

@[simp] theorem append_nil (t : Token) : t.append [] = t := by
  cases t <;> simp [append]

theorem append_append (t : Token) (a b : Text) : (t.append a).append b = t.append (a ++ b) := by
  cases t <;> simp [append]

/-- The brace that is still open. -/
abbrev openBrace : Token := word ['{']

/-- The token is no open brace. -/
def Settled (t : Token) : Prop := t.isWord ['{'] = false

instance : DecidablePred Settled := fun t => inferInstanceAs (Decidable (t.isWord ['{'] = false))

theorem isWord_iff {w : Text} {t : Token} : t.isWord w = true ↔ t = word w := by
  cases t <;> simp [isWord]

theorem settled_iff {t : Token} : t.Settled ↔ t ≠ openBrace := by
  rw [Settled, Bool.eq_false_iff, ne_eq, isWord_iff]

/-! ## What a token does to those before it -/

/-- What one more token does to the tokens before it, the latest first. -/
inductive Placed (before : List Token) (t : Token) : List Token → Prop
  /-- it goes on with the latest token -/
  | joined (last : Token) (rest : List Token) (hbefore : before = last :: rest)
      (hext : extends? t.text last = true) :
    Placed before t (last.append t.text :: rest)
  /-- it completes a function type -/
  | signed (last : Token) (rest : List Token) (hbefore : before = last :: rest)
      (htype : TypeText.isType last.text = true) (hsignature : t.isSignature = true) :
    Placed before t (last.append (' ' :: t.text) :: rest)
  /-- it closes the latest open brace -/
  | closed (w head : Text) (inner rest : List Token) (hword : t = word w)
      (hbare : TypeText.bare w = head ++ ['}']) (hbefore : before = inner ++ openBrace :: rest)
      (hinner : ∀ a ∈ inner, a.Settled) :
    Placed before t
      (braceGroup (inner.reverse ++ if head.isEmpty then [] else [word head]) (TypeText.stars w)
        :: rest)
  /-- it stands by itself -/
  | apart : Placed before t (t :: before)

/-- A word closes a brace iff it ends with one and a brace is open. It folds the tokens
    since the latest open brace and what it holds before its own. -/
theorem closeBrace?_eq_some_iff {w : Text} {before after : List Token} :
    closeBrace? w before = some after ↔
      ∃ head inner rest, TypeText.bare w = head ++ ['}'] ∧ before = inner ++ openBrace :: rest ∧
        (∀ a ∈ inner, a.Settled) ∧
        after = braceGroup (inner.reverse ++ if head.isEmpty then [] else [word head])
          (TypeText.stars w) :: rest := by
  constructor
  · intro h
    unfold closeBrace? at h
    split at h
    · rename_i head hbare
      have hw : TypeText.bare w = head.reverse ++ ['}'] := by
        rw [← List.reverse_reverse (TypeText.bare w), hbare, List.reverse_cons]
      split at h
      · cases h
      · rename_i brace rest hrest
        have hbrace : brace = openBrace := by
          have := List.head?_dropWhile_not (fun t : Token => !t.isWord ['{']) before
          rw [hrest] at this
          exact isWord_iff.1 (by simpa using this)
        have hbefore : before = before.takeWhile (!·.isWord ['{']) ++ openBrace :: rest := by
          rw [← hbrace, ← hrest, List.takeWhile_append_dropWhile]
        have hinner : ∀ a ∈ before.takeWhile (!·.isWord ['{']), a.Settled := by
          intro a ha
          have := List.mem_takeWhile_imp ha
          simpa [Settled] using this
        exact ⟨head.reverse, _, rest, hw, hbefore, hinner, by simpa using h.symm⟩
    · cases h
  · rintro ⟨head, inner, rest, hbare, rfl, hinner, rfl⟩
    have hnot : ∀ a ∈ inner, (!a.isWord ['{']) = true := fun a ha => by
      simpa [Settled] using hinner a ha
    have hdrop : (openBrace :: rest).dropWhile (!·.isWord ['{']) = openBrace :: rest := rfl
    have htake : (openBrace :: rest).takeWhile (!·.isWord ['{']) = [] := rfl
    rw [closeBrace?, hbare, List.reverse_append]
    simp [List.dropWhile_append_of_pos hnot, List.takeWhile_append_of_pos hnot, hdrop, htake]

theorem placed_of_closeBrace? {w : Text} {before after : List Token}
    (h : closeBrace? w before = some after) : Placed before (word w) after := by
  obtain ⟨head, inner, rest, hbare, hbefore, hinner, rfl⟩ := closeBrace?_eq_some_iff.1 h
  exact .closed w head inner rest rfl hbare hbefore hinner

theorem placed_of_placeApart (before : List Token) (t : Token) :
    Placed before t (placeApart before t) := by
  have hword : ∀ w, Placed before (word w) ((closeBrace? w before).getD (word w :: before)) := by
    intro w
    cases hclose : closeBrace? w before with
    | none => exact .apart
    | some after => exact placed_of_closeBrace? hclose
  cases before with
  | nil =>
    cases t with
    | word w => exact hword w
    | group => exact .apart
  | cons last rest =>
    unfold placeApart
    dsimp only
    split
    · rename_i h
      simp only [Bool.and_eq_true] at h
      exact .signed last rest rfl h.1.2 h.2
    · cases t with
      | word w => exact hword w
      | group => exact .apart

/-- **Every placement is one of those listed.** -/
theorem placed (before : List Token) (t : Token) : Placed before t (place before t) := by
  cases before with
  | nil => exact placed_of_placeApart [] t
  | cons last rest =>
    rw [place]
    split
    · exact .joined last rest rfl ‹_›
    · exact placed_of_placeApart (last :: rest) t

/-! ## Which of these a token does -/

section
variable {t last : Token} {w stars : Text} {before rest inner old newer : List Token}

theorem extends?_eq_false (hquote : w.head? ≠ some '"') (hstars : ∃ c ∈ w, c ≠ '*')
    (last : Token) : extends? w last = false := by
  have hall : w.all (· = '*') = false := by simpa using hstars
  simp [extends?, hquote, hall]

theorem isSignature_eq_false (h : t.text.head? ≠ some '(') : t.isSignature = false := by
  have hbare : (TypeText.bare t.text).head? ≠ some '(' := fun h' => h (TypeText.head?_of_bare h')
  simp [isSignature, hbare]

theorem head?_of_isSignature (h : t.isSignature = true) : t.text.head? = some '(' := by
  by_cases hhead : t.text.head? = some '('
  · exact hhead
  · rw [isSignature_eq_false hhead] at h
    cases h

theorem closeBrace?_eq_none (h : (TypeText.bare w).getLast? ≠ some '}') (before : List Token) :
    closeBrace? w before = none := by
  unfold closeBrace?
  split
  · rename_i head hbare
    rw [← List.head?_reverse, hbare] at h
    exact absurd rfl h
  · rfl

/-- The token stands by itself whatever is before it. -/
structure Apart (t : Token) : Prop where
  quote : t.text.head? ≠ some '"'
  stars : ∃ c ∈ t.text, c ≠ '*'
  paren : t.text.head? ≠ some '('
  brace : ∀ w, t = word w → (TypeText.bare w).getLast? ≠ some '}'

theorem Apart.place (h : t.Apart) (before : List Token) : place before t = t :: before := by
  cases before with
  | nil =>
    cases t with
    | word w => simp [Token.place, placeApart, closeBrace?_eq_none (h.brace w rfl)]
    | group => rfl
  | cons last rest =>
    have hext := extends?_eq_false h.quote h.stars last
    have hsignature := isSignature_eq_false h.paren
    cases t with
    | word w =>
      simp [Token.place, placeApart, hext, hsignature, closeBrace?_eq_none (h.brace w rfl)]
    | group => simp [Token.place, placeApart, hext, hsignature]

/-- A word that neither begins like the end of another token nor ends with a
    brace stands by itself. -/
theorem apart_word {c : Char} (hhead : w.head? = some c) (hc : c ∉ ['"', '*', '('])
    (hbrace : (TypeText.bare w).getLast? ≠ some '}') : (word w).Apart := by
  simp only [List.mem_cons, List.not_mem_nil, or_false, not_or] at hc
  refine ⟨?_, ⟨c, List.mem_of_head? hhead, hc.2.1⟩, ?_, ?_⟩
  · simpa [text, hhead] using hc.1
  · simpa [text, hhead] using hc.2.2
  · rintro _ ⟨⟩
    exact hbrace

theorem apart_word_of_not_mem {c : Char} (hhead : w.head? = some c) (hc : c ∉ ['"', '*', '('])
    (hbrace : '}' ∉ w) : (word w).Apart := by
  refine apart_word hhead hc fun hlast => hbrace ?_
  rw [← TypeText.bare_append_stars w]
  exact List.mem_append_left _ (List.mem_of_getLast? hlast)

theorem apart_separator : separator.Apart :=
  apart_word (c := ',') rfl (by decide) (by decide)

/-- Stars go on with the token before them. -/
theorem place_stars (hlast : last.isSeparator = false) (hstars : ∀ c ∈ stars, c = '*')
    (rest : List Token) : place (last :: rest) (word stars) = last.append stars :: rest := by
  have hall : stars.all (· = '*') = true := by simpa using hstars
  have hext : extends? (word stars).text last = true := by simp [extends?, text, hlast, hall]
  rw [place, if_pos hext]
  rfl

/-- Parentheses go on with no name. -/
theorem extends?_of_paren {w : Text} (hhead : w.head? = some '(') (last : Token) :
    extends? w last = false :=
  extends?_eq_false (by simp [hhead]) ⟨'(', List.mem_of_head? hhead, by decide⟩ last

/-- A signature after a type completes a function type. -/
theorem place_signature (hlast : last.isSeparator = false)
    (htype : TypeText.isType last.text = true) (hsignature : t.isSignature = true)
    (rest : List Token) : place (last :: rest) t = last.append (' ' :: t.text) :: rest := by
  have hext : extends? t.text last = false :=
    extends?_of_paren (head?_of_isSignature hsignature) last
  unfold place placeApart
  simp [hext, hlast, htype, hsignature]

/-- A closing brace, with stars or not, makes a group of the tokens since the
    latest open brace. -/
theorem place_closeBrace (hinner : ∀ a ∈ inner, a.Settled) (hstars : ∀ c ∈ stars, c = '*')
    (rest : List Token) :
    place (inner ++ openBrace :: rest) (word ('}' :: stars)) =
      braceGroup inner.reverse stars :: rest := by
  have hext : ∀ last, extends? ('}' :: stars) last = false :=
    extends?_eq_false (by simp) ⟨'}', List.mem_cons_self, by decide⟩
  have hsignature : (word ('}' :: stars)).isSignature = false :=
    isSignature_eq_false (by simp [text])
  have hbare : TypeText.bare ('}' :: stars) = ['}'] :=
    (TypeText.bare_append_of_stars hstars ['}']).trans (TypeText.bare_of_getLast? (by decide))
  have hclose : closeBrace? ('}' :: stars) (inner ++ openBrace :: rest) =
      some (braceGroup inner.reverse stars :: rest) := by
    refine closeBrace?_eq_some_iff.2 ⟨[], inner, rest, hbare, rfl, hinner, ?_⟩
    rw [show '}' :: stars = ['}'] ++ stars from rfl, TypeText.stars_append hstars (by decide)]
    simp
  obtain ⟨last, before, hbefore⟩ : ∃ last before, inner ++ openBrace :: rest = last :: before :=
    List.exists_cons_of_ne_nil (by simp)
  rw [hbefore] at hclose ⊢
  unfold place placeApart
  simp [hext, hsignature, hclose, text]

/-! ## Out of reach -/

/-- Only the latest token goes on, and only open braces reach further back. -/
theorem place_beyond (newer : List Token) (ht : t.Settled) (hold : ∀ a ∈ old, a.Settled)
    (x : Token) :
    ∃ newer' more, place (newer ++ t :: old) x = newer' ++ t.append more :: old ∧
      (newer ≠ [] → newer' ≠ [] ∧ more = []) := by
  have hplaced := placed (newer ++ t :: old) x
  generalize place (newer ++ t :: old) x = after at hplaced
  have hlatest : ∀ last rest more, newer ++ t :: old = last :: rest →
      ∃ newer' more', last.append more :: rest = newer' ++ t.append more' :: old ∧
        (newer ≠ [] → newer' ≠ [] ∧ more' = []) := by
    intro last rest more hbefore
    cases newer with
    | nil =>
      obtain ⟨rfl, rfl⟩ : t = last ∧ old = rest := by simpa using hbefore
      exact ⟨[], more, rfl, by simp⟩
    | cons n newer =>
      obtain ⟨rfl, rfl⟩ : n = last ∧ newer ++ t :: old = rest := by simpa using hbefore
      exact ⟨n.append more :: newer, [], by simp, by simp⟩
  cases hplaced with
  | joined last rest hbefore => exact hlatest last rest _ hbefore
  | signed last rest hbefore => exact hlatest last rest _ hbefore
  | apart => exact ⟨x :: newer, [], by simp, by simp⟩
  | closed w head inner rest _ _ hbefore hinner =>
    -- the open brace is none of the tokens that are out of reach
    obtain ⟨newer', rfl⟩ : ∃ newer', rest = newer' ++ t :: old := by
      have hbrace : openBrace ∉ t :: old := by
        intro hmem
        have hsettled : openBrace.Settled := by
          rcases List.mem_cons.1 hmem with rfl | hmem
          · exact ht
          · exact hold _ hmem
        cases hsettled
      rcases List.append_eq_append_iff.1 hbefore with ⟨as, rfl, has⟩ | ⟨cs, hcs, hrest⟩
      · have hmem : openBrace ∈ as ++ openBrace :: rest := by simp
        exact absurd (has ▸ hmem) hbrace
      · cases cs with
        | nil =>
          simp only [List.nil_append] at hrest
          exact absurd (hrest ▸ List.mem_cons_self) hbrace
        | cons b cs =>
          simp only [List.cons_append, List.cons.injEq] at hrest
          exact ⟨cs, hrest.2⟩
    exact ⟨_ :: newer', [], by rw [append_nil]; rfl, by simp⟩

theorem settled_append (ht : t.Settled) (hne : t.text ≠ []) (more : Text) :
    (t.append more).Settled := by
  cases t with
  | group => rfl
  | word w =>
    have hw : w ≠ [] := hne
    simp only [Settled, isWord, decide_eq_false_iff_not, append] at ht ⊢
    intro h
    obtain ⟨c, w, rfl⟩ := List.exists_cons_of_ne_nil hw
    simp only [List.cons_append, List.cons.injEq, List.append_eq_nil_iff] at h
    exact ht (by rw [h.1, h.2.1])

theorem foldl_place_beyond (newer : List Token) (ht : t.Settled) (hne : t.text ≠ [])
    (hold : ∀ a ∈ old, a.Settled) (xs : List Token) :
    ∃ newer' more, xs.foldl place (newer ++ t :: old) = newer' ++ t.append more :: old ∧
      (newer ≠ [] → newer' ≠ [] ∧ more = []) := by
  induction xs generalizing newer t with
  | nil => exact ⟨newer, [], by simp, by simp⟩
  | cons x xs ih =>
    obtain ⟨newer₁, more₁, hplace, h₁⟩ := place_beyond newer ht hold x
    obtain ⟨newer₂, more₂, hfold, h₂⟩ := ih newer₁ (settled_append ht hne more₁)
      (by simp [hne])
    refine ⟨newer₂, more₁ ++ more₂, ?_, fun hnewer => ?_⟩
    · rw [List.foldl_cons, hplace, hfold, append_append]
    · obtain ⟨hnewer₁, rfl⟩ := h₁ hnewer
      obtain ⟨hnewer₂, rfl⟩ := h₂ hnewer₁
      exact ⟨hnewer₂, rfl⟩

theorem place_ne_nil (before : List Token) (t : Token) : place before t ≠ [] := by
  have hplaced := placed before t
  generalize place before t = after at hplaced
  cases hplaced with
  | joined | signed | closed | apart => exact List.cons_ne_nil _ _

/-- No brace is open in settled tokens, so a brace is closed in front of them as it is
    closed by itself. -/
theorem closeBrace?_append (w : Text) (newer : List Token) (hold : ∀ a ∈ old, a.Settled) :
    closeBrace? w (newer ++ old) = (closeBrace? w newer).map (· ++ old) := by
  have hdrop : old.dropWhile (!·.isWord ['{']) = [] := by
    refine List.dropWhile_eq_nil_iff.2 fun a ha => ?_
    simpa [Settled] using hold a ha
  unfold closeBrace?
  split
  · rw [List.dropWhile_append, List.takeWhile_append, hdrop]
    cases hnewer : newer.dropWhile (!·.isWord ['{']) with
    | nil => simp
    | cons brace rest =>
      have hlength : (newer.takeWhile (!·.isWord ['{'])).length ≠ newer.length := by
        have hsplit := congrArg List.length
          (List.takeWhile_append_dropWhile (p := (!·.isWord ['{'])) (l := newer))
        rw [hnewer, List.length_append, List.length_cons] at hsplit
        omega
      simp [hlength]
  · rfl

/-- Settled tokens out of reach may be left out. -/
theorem place_append (hne : newer ≠ []) (hold : ∀ a ∈ old, a.Settled) (t : Token) :
    place (newer ++ old) t = place newer t ++ old := by
  obtain ⟨last, rest, rfl⟩ := List.exists_cons_of_ne_nil hne
  have happend : last :: (rest ++ old) = last :: rest ++ old := rfl
  rw [List.cons_append, place, place]
  split
  · rfl
  · unfold placeApart
    dsimp only
    split
    · rfl
    · cases t with
      | word w =>
        dsimp only
        rw [happend, closeBrace?_append w (last :: rest) hold]
        cases closeBrace? w (last :: rest) <;> rfl
      | group => rfl

theorem foldl_place_append (hne : newer ≠ []) (hold : ∀ a ∈ old, a.Settled) (xs : List Token) :
    xs.foldl place (newer ++ old) = xs.foldl place newer ++ old := by
  induction xs generalizing newer with
  | nil => rfl
  | cons x xs ih =>
    rw [List.foldl_cons, place_append hne hold, ih (place_ne_nil newer x), List.foldl_cons]

theorem place_nil (t : Token) : place [] t = [t] := by
  have hplaced := placed [] t
  generalize place [] t = after at hplaced
  cases hplaced with
  | joined last rest hbefore | signed last rest hbefore => cases hbefore
  | closed w head inner rest _ _ hbefore => simp at hbefore
  | apart => rfl

/-- The first token stays the first one. -/
theorem arrange_cons (ht : t.Settled) (hne : t.text ≠ []) (ts : List Token) :
    ∃ more rest, arrange (t :: ts) = t.append more :: rest := by
  obtain ⟨newer, more, hfold, -⟩ := foldl_place_beyond [] ht hne (List.forall_mem_nil _) ts
  refine ⟨more, newer.reverse, ?_⟩
  rw [List.nil_append] at hfold
  rw [arrange, List.foldl_cons, place_nil, hfold]
  simp

end

end Token

end LlvmAsm
