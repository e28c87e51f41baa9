/-
  Nesting: texts whose enclosers and quotes fit together.

  `marks` are the enclosers of a text outside quotes, and `Nested` the words in
  which they are properly nested. `unwind` is a stack machine for these words
  (`nested_iff_unwind`), and `Clears` says what it makes of a text; one lemma for
  each kind of character follows it through the text.
-/
import LlvmAsm.Token
import Mathlib.Algebra.Group.Nat.Even

namespace LlvmAsm

/-! ## Marks -/

/-- An encloser that is opened or closed. -/
inductive Mark where
  | opener (e : Encloser)
  | closer (e : Encloser)
deriving DecidableEq, Repr

/-- The mark that a character outside quotes is. -/
def Mark.of? (c : Char) : Option Mark :=
  match Encloser.ofOpener? c, Encloser.ofCloser? c with
  | some e, _ => some (.opener e)
  | none, some e => some (.closer e)
  | none, none => none

theorem Mark.of?_delimiter : ∀ c ∈ [' ', '\t', ',', '"'], Mark.of? c = none := by
  intro c hc
  simp only [List.mem_cons, List.not_mem_nil, or_false] at hc
  rcases hc with rfl | rfl | rfl | rfl <;> rfl

theorem Mark.of?_eq_opener {c : Char} {e : Encloser} :
    Mark.of? c = some (.opener e) ↔ Encloser.ofOpener? c = some e := by
  unfold Mark.of?
  cases Encloser.ofOpener? c <;> cases Encloser.ofCloser? c <;> simp

theorem Mark.of?_eq_closer {c : Char} {e : Encloser} :
    Mark.of? c = some (.closer e) ↔
      Encloser.ofOpener? c = none ∧ Encloser.ofCloser? c = some e := by
  unfold Mark.of?
  cases Encloser.ofOpener? c <;> cases Encloser.ofCloser? c <;> simp

theorem Mark.of?_eq_none {c : Char} :
    Mark.of? c = none ↔ Encloser.ofOpener? c = none ∧ Encloser.ofCloser? c = none := by
  unfold Mark.of?
  cases Encloser.ofOpener? c <;> cases Encloser.ofCloser? c <;> simp

/-- Whether a quote is open after a character. -/
def quotedBy (quoted : Bool) (c : Char) : Bool := if c = '"' then !quoted else quoted

/-- Whether a quote is open after a text. -/
def quotedAfter (quoted : Bool) (t : Text) : Bool := t.foldl quotedBy quoted

/-- The mark that a character is, unless a quote is open. -/
def mark? (quoted : Bool) (c : Char) : Option Mark := if quoted then none else Mark.of? c

/-- The marks of a text outside quotes, if a quote is open before it or not. -/
def marksFrom (quoted : Bool) : Text → List Mark
  | [] => []
  | c :: t => (mark? quoted c).toList ++ marksFrom (quotedBy quoted c) t

/-- The marks of a text outside quotes. -/
def marks (t : Text) : List Mark := marksFrom false t

theorem quotedAfter_append (quoted : Bool) (t t' : Text) :
    quotedAfter quoted (t ++ t') = quotedAfter (quotedAfter quoted t) t' :=
  List.foldl_append

theorem marksFrom_append (quoted : Bool) (t t' : Text) :
    marksFrom quoted (t ++ t') = marksFrom quoted t ++ marksFrom (quotedAfter quoted t) t' := by
  induction t generalizing quoted with
  | nil => rfl
  | cons c t ih =>
    rw [List.cons_append, marksFrom, ih, marksFrom, List.append_assoc]
    rfl

/-- No quote is open after a text with quotes in pairs. -/
theorem quotedAfter_eq_false_iff (t : Text) : quotedAfter false t = false ↔ Even (t.count '"') := by
  have h : ∀ quoted, quotedAfter quoted t = false ↔ (Even (t.count '"') ↔ quoted = false) := by
    induction t with
    | nil => simp [quotedAfter]
    | cons c t ih =>
      intro quoted
      change quotedAfter (quotedBy quoted c) t = false ↔ _
      rw [ih, quotedBy]
      by_cases hc : c = '"'
      · subst hc
        rw [if_pos rfl, List.count_cons_self, Nat.even_add_one]
        cases quoted <;> simp
      · rw [if_neg hc, List.count_cons_of_ne hc]
  simpa using h false

/-! ## Nesting -/

/-- The marks are properly nested. -/
inductive Nested : List Mark → Prop where
  | nil : Nested []
  | group (e : Encloser) {inner rest : List Mark} (hinner : Nested inner) (hrest : Nested rest) :
    Nested (.opener e :: inner ++ .closer e :: rest)

/-- The open enclosers after some marks, the latest first, if every closer
    closes the latest opener. -/
def unwind : List Encloser → List Mark → Option (List Encloser)
  | stack, [] => some stack
  | stack, .opener e :: ms => unwind (e :: stack) ms
  | e' :: stack, .closer e :: ms => if e' = e then unwind stack ms else none
  | [], .closer _ :: _ => none

theorem unwind_append (stack : List Encloser) (ms ms' : List Mark) :
    unwind stack (ms ++ ms') = (unwind stack ms).bind (unwind · ms') := by
  fun_induction unwind stack ms with
  | case1 stack => rfl
  | case2 stack e ms ih => exact ih
  | case3 stack e ms ih => simpa [unwind] using ih
  | case4 e' stack e ms hne => simp [unwind, hne]
  | case5 e ms => rfl

/-- Nested marks leave the stack as it is. -/
theorem Nested.unwind {ms : List Mark} (h : Nested ms) (stack : List Encloser) :
    unwind stack ms = some stack := by
  induction h generalizing stack with
  | nil => rfl
  | group e _ _ ihinner ihrest =>
    rw [List.cons_append, LlvmAsm.unwind, unwind_append, ihinner, Option.bind_some,
      LlvmAsm.unwind, if_pos rfl, ihrest]

/-- Nested marks, a closer for each encloser of the stack, and nested marks
    after each of them. -/
def Completes : List Encloser → List Mark → Prop
  | [], ms => Nested ms
  | e :: stack, ms => ∃ inner rest, ms = inner ++ .closer e :: rest ∧ Nested inner ∧
      Completes stack rest

/-- A further group may stand in front. -/
theorem Completes.group {stack : List Encloser} {e : Encloser} {ms : List Mark}
    (h : Completes (e :: stack) ms) : Completes stack (.opener e :: ms) := by
  obtain ⟨inner, rest, rfl, hinner, hrest⟩ := h
  cases stack with
  | nil => exact Nested.group e hinner hrest
  | cons e' stack =>
    obtain ⟨inner', rest', rfl, hinner', hrest'⟩ := hrest
    refine ⟨.opener e :: inner ++ .closer e :: inner', rest', ?_,
      Nested.group e hinner hinner', hrest'⟩
    simp

theorem completes_of_unwind {stack : List Encloser} {ms : List Mark}
    (h : LlvmAsm.unwind stack ms = some []) : Completes stack ms := by
  fun_induction LlvmAsm.unwind stack ms with
  | case1 stack =>
    obtain rfl : stack = [] := Option.some.inj h
    exact .nil
  | case2 stack e ms ih => exact (ih h).group
  | case3 stack e ms ih => exact ⟨[], ms, rfl, .nil, ih h⟩
  | case4 e' stack e ms hne => cases h
  | case5 e ms => cases h

/-- **The marks are nested iff the stack machine empties its stack.** -/
theorem nested_iff_unwind (ms : List Mark) : Nested ms ↔ unwind [] ms = some [] :=
  ⟨fun h => h.unwind [], completes_of_unwind⟩

instance : DecidablePred Nested := fun ms => decidable_of_iff _ (nested_iff_unwind ms).symm

/-- Quotes come in pairs, and the enclosers outside quotes are nested. -/
def Balanced (t : Text) : Prop := Even (t.count '"') ∧ Nested (marks t)

/-! ## What is left of a text -/

/-- The text closes all enclosers of the stack and the quote, if one is open,
    and is balanced otherwise. -/
def Clears (stack : List Encloser) (quoted : Bool) (t : Text) : Prop :=
  unwind stack (marksFrom quoted t) = some [] ∧ quotedAfter quoted t = false

theorem balanced_iff_clears (t : Text) : Balanced t ↔ Clears [] false t := by
  rw [Balanced, nested_iff_unwind, ← quotedAfter_eq_false_iff, and_comm]
  rfl

section
variable {quoted : Bool} {c : Char}

/-- There are no marks in a quote, and neither quotes nor blanks nor commas are
    marks. -/
theorem of_mark? {m : Mark} (h : mark? quoted c = some m) :
    quoted = false ∧ Mark.of? c = some m ∧ c ∉ [' ', '\t', ',', '"'] := by
  unfold mark? at h
  split at h
  · cases h
  · rename_i hquoted
    refine ⟨by simpa using hquoted, h, fun hc => ?_⟩
    rw [Mark.of?_delimiter c hc] at h
    cases h

theorem quotedBy_of_mark? {m : Mark} (h : mark? quoted c = some m) : quotedBy quoted c = quoted :=
  if_neg fun hc => (of_mark? h).2.2 (by simp [hc])

theorem clears_cons_of_plain (h : mark? quoted c = none) (stack : List Encloser) (t : Text) :
    Clears stack quoted (c :: t) ↔ Clears stack (quotedBy quoted c) t := by
  unfold Clears
  rw [marksFrom, h]
  rfl

theorem clears_cons_of_opener {e : Encloser} (h : mark? quoted c = some (.opener e))
    (stack : List Encloser) (t : Text) :
    Clears stack quoted (c :: t) ↔ Clears (e :: stack) quoted t := by
  unfold Clears
  rw [marksFrom, h, quotedBy_of_mark? h, quotedAfter, List.foldl_cons, quotedBy_of_mark? h]
  rfl

theorem clears_cons_of_closer {e e' : Encloser} (h : mark? quoted c = some (.closer e))
    (stack : List Encloser) (t : Text) :
    Clears (e' :: stack) quoted (c :: t) ↔ e' = e ∧ Clears stack quoted t := by
  unfold Clears
  rw [marksFrom, h, quotedBy_of_mark? h, quotedAfter, List.foldl_cons, quotedBy_of_mark? h]
  by_cases he : e' = e
  · simp [unwind, he, quotedAfter]
  · simp [unwind, he]

theorem not_clears_nil_of_closer {e : Encloser} (h : mark? quoted c = some (.closer e))
    (t : Text) : ¬ Clears [] quoted (c :: t) := by
  unfold Clears
  rw [marksFrom, h]
  simp [unwind]

theorem marks_append_singleton (t : Text) :
    marks (t ++ [c]) = marks t ++ (mark? (quotedAfter false t) c).toList := by
  rw [marks, marksFrom_append, marks, marksFrom, marksFrom, List.append_nil]

end

end LlvmAsm
