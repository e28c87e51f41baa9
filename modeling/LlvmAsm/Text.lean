/-
  Texts: finite sequences of characters, and the few operations on them that
  every part of the library shares.

  * `Text` is a list of characters, so that every operation below is an
    ordinary list function; a string literal stands for its characters;
  * `Text.after?` removes a given beginning and `Text.afterSpaces?` spaces,
    `Text.hasPart` looks for a text anywhere, `Text.replace` exchanges every
    occurrence of one;
  * `splitWhere` cuts a list at the elements that satisfy a predicate;
  * `Text.ofNat` is the decimal text of a number.
-/

namespace LlvmAsm

/-- A text is the list of its characters. -/
abbrev Text := List Char

/-- A string literal may stand where a text is expected. -/
instance : Coe String Text := ⟨String.toList⟩

/-! ## Cutting a list -/

section
variable {α : Type}

/-- The pieces of a list between the elements that satisfy `p`; there is one
    piece more than there are such elements. -/
def splitWhere (p : α → Bool) : List α → List (List α)
  | [] => [[]]
  | a :: as =>
    if p a then [] :: splitWhere p as
    else match splitWhere p as with
      | [] => [[a]]
      | piece :: pieces => (a :: piece) :: pieces

theorem splitWhere_ne_nil (p : α → Bool) (as : List α) : splitWhere p as ≠ [] := by
  cases as with
  | nil => simp [splitWhere]
  | cons a as =>
    simp only [splitWhere]
    split
    · simp
    · split <;> simp

/-- A piece ends at the first element that satisfies `p`. -/
theorem splitWhere_append_cons {p : α → Bool} {as : List α} (has : ∀ a ∈ as, p a = false) {b : α}
    (hb : p b = true) (bs : List α) : splitWhere p (as ++ b :: bs) = as :: splitWhere p bs := by
  induction as with
  | nil => rw [List.nil_append, splitWhere, if_pos hb]
  | cons a as ih =>
    obtain ⟨ha, has⟩ := List.forall_mem_cons.1 has
    rw [List.cons_append, splitWhere, if_neg (by simp [ha]), ih has]

theorem dropWhile_eq_self {p : α → Bool} {as : List α} (h : ∀ a ∈ as.head?, p a = false) :
    as.dropWhile p = as := by
  cases as with
  | nil => rfl
  | cons a as => simp [h a rfl]

/-- Exactly the elements in front are dropped. -/
theorem dropWhile_exact {p : α → Bool} {as rest : List α} (has : ∀ a ∈ as, p a = true)
    (hrest : ∀ a ∈ rest.head?, p a = false) : (as ++ rest).dropWhile p = rest := by
  rw [List.dropWhile_append_of_pos has, dropWhile_eq_self hrest]

end

namespace Text

/-! ## Beginnings, endings, occurrences -/

/-- The rest of the text after the beginning `mark`, if it begins so. -/
def after? : (t mark : Text) → Option Text
  | t, [] => some t
  | [], _ :: _ => none
  | c :: t, m :: mark => if m = c then after? t mark else none

theorem after?_eq_some_iff {t mark rest : Text} :
    t.after? mark = some rest ↔ t = mark ++ rest := by
  induction mark generalizing t with
  | nil => cases t <;> simp [after?, eq_comm]
  | cons m mark ih =>
    cases t with
    | nil => simp [after?]
    | cons c t =>
      simp only [after?, List.cons_append, List.cons.injEq]
      split
      · rename_i h
        simp [ih, h]
      · rename_i h
        simp only [reduceCtorEq, false_iff, not_and]
        exact fun h' => absurd h'.symm h

/-- The text begins with `mark`. -/
def startsWith (t mark : Text) : Bool := (t.after? mark).isSome

/-- The text ends with `mark`. -/
def endsWith (t mark : Text) : Bool := startsWith t.reverse mark.reverse

/-- The rest of the text after the spaces that it begins with, if there are
    any. -/
def afterSpaces? : Text → Option Text
  | ' ' :: t => some (t.dropWhile (· = ' '))
  | _ => none

/-- The text `part` stands somewhere in the text. -/
def hasPart (t part : Text) : Bool :=
  match t with
  | [] => part.isEmpty
  | c :: rest => startsWith (c :: rest) part || hasPart rest part

/-- Every occurrence of the nonempty text `old`, from left to right and
    without overlap, exchanged for `new`. -/
def replace (t old new : Text) : Text :=
  match t with
  | [] => []
  | c :: rest =>
    if startsWith (c :: rest) old then new ++ replace (rest.drop (old.length - 1)) old new
    else c :: replace rest old new
termination_by t.length
decreasing_by all_goals simp +arith

/-! ## Numbers -/

/-- The decimal text of a number. -/
def ofNat (n : Nat) : Text := Nat.toDigits 10 n

end Text

end LlvmAsm
