/-
  Exchanging one text for another.

  * `replace_append`, `replace_cons_of_not` and `replace_eq_self`: where the exchange takes
    place, and where it does not;
  * `exists_of_replace_append`: characters that are not in the new text were there before;
  * `hasPart_replace`: nothing of the old text is left, nor comes about, if the new text
    has none of its characters;
  * `replace_append_cons`: a character that is not in the old text parts what is before it
    from what is behind it, so pieces are exchanged one by one (`splitWhere_replace`).
-/
import LlvmAsm.Text

namespace LlvmAsm.Text

/-! ## Parts of a text -/

theorem startsWith_iff {t mark : Text} : startsWith t mark = true ↔ ∃ rest, t = mark ++ rest := by
  simp only [startsWith, Option.isSome_iff_exists, after?_eq_some_iff]

theorem startsWith_append_left {t mark : Text} (h : startsWith t mark = true) (u : Text) :
    startsWith (t ++ u) mark = true := by
  obtain ⟨rest, rfl⟩ := startsWith_iff.1 h
  exact startsWith_iff.2 ⟨rest ++ u, List.append_assoc _ _ _⟩

/-- What a text begins with does not reach beyond a character that is not in it. -/
theorem startsWith_append_cons {mark : Text} {c : Char} (hc : c ∉ mark) (t u : Text) :
    startsWith (t ++ c :: u) mark = startsWith t mark := by
  rw [Bool.eq_iff_iff]
  refine ⟨fun h => ?_, fun h => startsWith_append_left h _⟩
  obtain ⟨rest, hrest⟩ := startsWith_iff.1 h
  rcases List.append_eq_append_iff.1 hrest with ⟨more, hmark, hu⟩ | ⟨more, ht, -⟩
  · cases more with
    | nil => exact startsWith_iff.2 ⟨[], by rw [hmark, List.append_nil, List.append_nil]⟩
    | cons d more =>
      obtain ⟨rfl, -⟩ := List.cons.inj hu
      exact absurd (hmark ▸ List.mem_append_right _ List.mem_cons_self) hc
  · exact startsWith_iff.2 ⟨more, ht⟩

theorem hasPart_cons (c : Char) (t part : Text) :
    hasPart (c :: t) part = (startsWith (c :: t) part || hasPart t part) := rfl

/-- A part of the beginning is a part of the whole. -/
theorem hasPart_append_left {t part : Text} (h : hasPart t part = true) (u : Text) :
    hasPart (t ++ u) part = true := by
  induction t with
  | nil =>
    rw [List.isEmpty_iff.1 h]
    cases u with
    | nil => rfl
    | cons c u => exact Bool.or_eq_true_iff.2 (Or.inl (startsWith_iff.2 ⟨c :: u, rfl⟩))
  | cons c t ih =>
    rw [List.cons_append, hasPart_cons, Bool.or_eq_true]
    rw [hasPart_cons, Bool.or_eq_true] at h
    exact h.imp (fun h => startsWith_append_left h u) ih

/-! ## The exchange -/

variable {old new : Text}

theorem replace_nil (old new : Text) : replace [] old new = [] := by
  rw [replace]

theorem replace_append (hold : old ≠ []) (new rest : Text) :
    replace (old ++ rest) old new = new ++ replace rest old new := by
  obtain ⟨o, os, rfl⟩ := List.exists_cons_of_ne_nil hold
  have hstarts : startsWith (o :: (os ++ rest)) (o :: os) = true := startsWith_iff.2 ⟨rest, rfl⟩
  rw [List.cons_append, replace, if_pos hstarts, List.length_cons, Nat.add_sub_cancel,
    List.drop_left]

theorem replace_cons_of_not {c : Char} {t : Text} (h : startsWith (c :: t) old = false)
    (new : Text) : replace (c :: t) old new = c :: replace t old new := by
  rw [replace, h]
  rfl

/-- The first character of the old text decides whether anything can be exchanged. -/
theorem replace_cons_of_ne {c o : Char} (h : c ≠ o) (t os new : Text) :
    replace (c :: t) (o :: os) new = c :: replace t (o :: os) new := by
  refine replace_cons_of_not ?_ new
  simp [startsWith, after?, Ne.symm h]

/-- Induction along an exchange: over what is exchanged, and over single characters where
    nothing is. -/
theorem replace_induction (hold : old ≠ []) {motive : Text → Prop} (nil : motive [])
    (exchange : ∀ rest, motive rest → motive (old ++ rest))
    (keep : ∀ c rest, startsWith (c :: rest) old = false → motive rest → motive (c :: rest))
    (t : Text) : motive t := by
  induction hn : t.length using Nat.strongRecOn generalizing t with
  | ind n ih =>
    subst hn
    cases t with
    | nil => exact nil
    | cons c rest =>
      by_cases hstarts : startsWith (c :: rest) old = true
      · obtain ⟨rest', hrest⟩ := startsWith_iff.1 hstarts
        rw [hrest]
        refine exchange rest' (ih rest'.length ?_ rest' rfl)
        have := List.length_pos_iff.2 hold
        rw [hrest, List.length_append]
        omega
      · exact keep c rest (eq_false_of_ne_true hstarts) (ih rest.length (by simp) rest rfl)

/-- A text without the old one stays as it is. -/
theorem replace_eq_self {t : Text} (h : hasPart t old = false) (new : Text) :
    replace t old new = t := by
  induction t with
  | nil => exact replace_nil old new
  | cons c t ih =>
    rw [hasPart_cons, Bool.or_eq_false_iff] at h
    rw [replace_cons_of_not h.1, ih h.2]

/-- The characters of the result were there, or are those of the new text. -/
theorem mem_replace (hold : old ≠ []) {t : Text} {c : Char} (h : c ∈ replace t old new) :
    c ∈ t ∨ c ∈ new := by
  induction t using replace_induction hold with
  | nil =>
    rw [replace_nil] at h
    exact absurd h List.not_mem_nil
  | exchange rest ih =>
    rw [replace_append hold, List.mem_append] at h
    rcases h with h | h
    · exact Or.inr h
    · exact (ih h).imp_left (List.mem_append_right _)
  | keep a rest hstarts ih =>
    rw [replace_cons_of_not hstarts, List.mem_cons] at h
    rcases h with rfl | h
    · exact Or.inl List.mem_cons_self
    · exact (ih h).imp_left (List.mem_cons_of_mem a)

/-- What the result begins with was there before, if none of it is in the new text. -/
theorem exists_of_replace_append (hold : old ≠ []) (hnew : new ≠ []) {t u w : Text}
    (hu : ∀ c ∈ u, c ∉ new) (h : replace t old new = u ++ w) : ∃ rest, t = u ++ rest := by
  induction t using replace_induction hold generalizing u with
  | nil =>
    rw [replace_nil] at h
    rw [(List.append_eq_nil_iff.1 h.symm).1]
    exact ⟨[], rfl⟩
  | exchange rest ih =>
    cases u with
    | nil => exact ⟨old ++ rest, rfl⟩
    | cons c u =>
      obtain ⟨n, ns, rfl⟩ := List.exists_cons_of_ne_nil hnew
      rw [replace_append hold, List.cons_append, List.cons_append] at h
      obtain ⟨rfl, -⟩ := List.cons.inj h
      exact absurd List.mem_cons_self (hu n List.mem_cons_self)
  | keep c rest hstarts ih =>
    cases u with
    | nil => exact ⟨c :: rest, rfl⟩
    | cons d u =>
      rw [replace_cons_of_not hstarts, List.cons_append] at h
      obtain ⟨rfl, hrest⟩ := List.cons.inj h
      obtain ⟨rest', rfl⟩ := ih (fun a ha => hu a (List.mem_cons_of_mem _ ha)) hrest
      exact ⟨rest', rfl⟩

/-- Characters that are not in a text do not help to make it. -/
theorem hasPart_append_of_not_mem (hold : old ≠ []) {u : Text} (hu : ∀ c ∈ old, c ∉ u)
    (t : Text) : hasPart (u ++ t) old = hasPart t old := by
  obtain ⟨o, os, rfl⟩ := List.exists_cons_of_ne_nil hold
  induction u with
  | nil => rfl
  | cons c u ih =>
    have hne : o ≠ c := fun heq => hu o List.mem_cons_self (heq ▸ List.mem_cons_self)
    have hstarts : startsWith (c :: (u ++ t)) (o :: os) = false := by
      simp [startsWith, after?, hne]
    rw [List.cons_append, hasPart_cons, hstarts, Bool.false_or]
    exact ih fun a ha hmem => hu a ha (List.mem_cons_of_mem c hmem)

/-- **Nothing of the old text is left.** An occurrence in the result has no character of the
    new text, so it would have been there before. -/
theorem hasPart_replace (hold : old ≠ []) (hnew : new ≠ []) (h : ∀ c ∈ old, c ∉ new) (t : Text) :
    hasPart (replace t old new) old = false := by
  induction t using replace_induction hold with
  | nil =>
    rw [replace_nil]
    exact List.isEmpty_eq_false_iff.2 hold
  | exchange rest ih => rwa [replace_append hold, hasPart_append_of_not_mem hold h]
  | keep c rest hstarts ih =>
    have hnot : startsWith (c :: replace rest old new) old = false := by
      refine eq_false_of_ne_true fun hmade => ?_
      obtain ⟨w, hw⟩ := startsWith_iff.1 hmade
      rw [← replace_cons_of_not hstarts] at hw
      have hbefore := startsWith_iff.2 (exists_of_replace_append hold hnew h hw)
      exact Bool.false_ne_true (hstarts.symm.trans hbefore)
    rw [replace_cons_of_not hstarts, hasPart_cons, hnot, ih]
    rfl

/-- **A character that is not in the old text** parts what is exchanged. -/
theorem replace_append_cons (hold : old ≠ []) {c : Char} (hc : c ∉ old) (t u : Text) :
    replace (t ++ c :: u) old new = replace t old new ++ c :: replace u old new := by
  induction t using replace_induction hold with
  | nil =>
    have hstarts : startsWith (c :: u) old = false := by
      rw [← List.nil_append (c :: u), startsWith_append_cons hc]
      exact eq_false_of_ne_true fun h => by
        obtain ⟨rest, hrest⟩ := startsWith_iff.1 h
        exact hold (List.append_eq_nil_iff.1 hrest.symm).1
    rw [List.nil_append, replace_cons_of_not hstarts, replace_nil, List.nil_append]
  | exchange rest ih =>
    rw [List.append_assoc, replace_append hold, ih, replace_append hold, List.append_assoc]
  | keep a rest hstarts ih =>
    have hstill : startsWith (a :: (rest ++ c :: u)) old = false := by
      rw [← List.cons_append, startsWith_append_cons hc, hstarts]
    rw [List.cons_append, replace_cons_of_not hstill, ih, replace_cons_of_not hstarts,
      List.cons_append]

/-! ## Pieces -/

section
variable {α : Type} {p : α → Bool}

theorem splitWhere_eq_singleton {as : List α} (h : ∀ a ∈ as, p a = false) :
    splitWhere p as = [as] := by
  induction as with
  | nil => rfl
  | cons a as ih =>
    obtain ⟨ha, has⟩ := List.forall_mem_cons.1 h
    rw [splitWhere, ha, ih has]
    rfl

/-- No element of a list satisfies `p`, or there is a first one. -/
theorem forall_or_exists_first (p : α → Bool) (as : List α) :
    (∀ a ∈ as, p a = false) ∨
      ∃ before a after, as = before ++ a :: after ∧ (∀ b ∈ before, p b = false) ∧ p a = true := by
  induction as with
  | nil => exact Or.inl (List.forall_mem_nil _)
  | cons a as ih =>
    by_cases ha : p a = true
    · exact Or.inr ⟨[], a, as, rfl, List.forall_mem_nil _, ha⟩
    · have ha := eq_false_of_ne_true ha
      rcases ih with has | ⟨before, b, after, rfl, hbefore, hb⟩
      · exact Or.inl (List.forall_mem_cons.2 ⟨ha, has⟩)
      · exact Or.inr ⟨a :: before, b, after, rfl, List.forall_mem_cons.2 ⟨ha, hbefore⟩, hb⟩

end

/-- **Pieces are exchanged one by one**, if neither text holds a character at which the
    pieces end. -/
theorem splitWhere_replace (hold : old ≠ []) {p : Char → Bool} (hp : ∀ c ∈ old, p c = false)
    (hp' : ∀ c ∈ new, p c = false) (t : Text) :
    splitWhere p (replace t old new) = (splitWhere p t).map (replace · old new) := by
  have hkeep {u : Text} (hu : ∀ c ∈ u, p c = false) : ∀ c ∈ replace u old new, p c = false :=
    fun c hc => (mem_replace hold hc).elim (hu c) (hp' c)
  induction hn : t.length using Nat.strongRecOn generalizing t with
  | ind n ih =>
    subst hn
    rcases forall_or_exists_first p t with ht | ⟨before, c, after, rfl, hbefore, hc⟩
    · rw [splitWhere_eq_singleton ht, splitWhere_eq_singleton (hkeep ht)]
      rfl
    · have hmem : c ∉ old := fun hmem => Bool.false_ne_true ((hp c hmem).symm.trans hc)
      rw [replace_append_cons hold hmem, splitWhere_append_cons (hkeep hbefore) hc,
        splitWhere_append_cons hbefore hc, List.map_cons]
      exact congrArg _ (ih after.length (by simp; omega) after rfl)

end LlvmAsm.Text
