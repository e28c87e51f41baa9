/-
  Readings that differ in the numbers of lines only.

  `Renumbered f g r s`: the reading `s` is `r` with every number `n` of a failure
  changed to `f n`, and with its value changed by `g`; both note the same types.
  `Alike f r s` is the case of equal values. Readings in sequence are renumbered
  step by step (`Renumbered.bind`), so that the readers can be followed one after
  the other.

  What the readers of one line do is told by what they do on two lines side by side:
  `Parallel line line' V r s` says that the same types are noted, and that there are
  two values related by `V`, or the same failure on each of the lines. So one walk
  through a reader yields that its line matters to nothing but the number in a failure
  (`Parallel.renumbered`), on which line and for which causes it may fail, and what
  holds of its value (`Parallel.ensures`).
-/
import LlvmAsm.Proofs.Reading

namespace LlvmAsm

/-! ## Other numbers -/

/-- The failure with another number of its line. -/
def Failure.renumber (f : Nat → Nat) (e : Failure) : Failure := { e with number := f e.number }

namespace Reading

variable {α β γ δ : Type} {f : Nat → Nat}

/-- The reading with other numbers in its failures. -/
def renumber (f : Nat → Nat) (r : Reading α) : Reading α :=
  ⟨r.result.mapError (Failure.renumber f), r.noted⟩

theorem renumber_bind (f : Nat → Nat) (r : Reading α) (k : α → Reading β) :
    (r >>= k).renumber f = r.renumber f >>= fun a => (k a).renumber f := by
  obtain ⟨result, noted⟩ := r
  cases result <;> rfl

/-- The second reading is the first one with its numbers changed by `f`, and its value
    by `g`. -/
def Renumbered (f : Nat → Nat) (g : α → β) (r : Reading α) (s : Reading β) : Prop :=
  s = g <$> r.renumber f

/-- The second reading is the first one with its numbers changed by `f`. -/
abbrev Alike (f : Nat → Nat) (r s : Reading α) : Prop := r.Renumbered f id s

theorem renumbered_pure {g : α → β} {a : α} {b : β} (h : b = g a) :
    (pure a : Reading α).Renumbered f g (pure b) := by
  rw [h]
  rfl

theorem renumbered_fail {g : α → β} {e e' : Failure} (h : e' = e.renumber f) :
    (fail e : Reading α).Renumbered f g (fail e') := by
  rw [h]
  rfl

theorem renumbered_ofExcept {g : α → β} {r : Except Failure α} {s : Except Failure β}
    (h : s = (r.mapError (Failure.renumber f)).map g) :
    (liftM r : Reading α).Renumbered f g (liftM s) := by
  rw [h]
  cases r <;> rfl

/-- Sequences are renumbered step by step. -/
theorem Renumbered.bind {r : Reading α} {s : Reading β} {g : α → β} {k : α → Reading γ}
    {l : β → Reading δ} {g' : γ → δ} (h : r.Renumbered f g s)
    (hk : ∀ a, (k a).Renumbered f g' (l (g a))) : (r >>= k).Renumbered f g' (s >>= l) := by
  unfold Renumbered at h hk ⊢
  rw [h, renumber_bind, map_bind, bind_map_left]
  exact bind_congr hk

theorem Alike.bind {r s : Reading α} {k : α → Reading γ} {l : α → Reading δ} {g : γ → δ}
    (h : r.Alike f s) (hk : ∀ a, (k a).Renumbered f g (l a)) :
    (r >>= k).Renumbered f g (s >>= l) := Renumbered.bind h hk

/-- Readings that differ in no number are equal. -/
theorem Alike.eq {r s : Reading α} (h : r.Alike id s) : s = r := by
  have hid : r.renumber id = r := by
    obtain ⟨result, noted⟩ := r
    cases result <;> rfl
  exact h.trans ((id_map _).trans hid)

/-! ## Two lines side by side -/

variable {line line' : Line}

/-- The readings of two lines note the same types, and they yield values that are related
    by `V`, or fail for the same cause, each on its own line. That cause is no nested
    assignment, which no reader comes upon. -/
inductive Parallel (line line' : Line) (V : α → β → Prop) : Reading α → Reading β → Prop
  | value {a : α} {b : β} (h : V a b) (noted : List Text) :
    Parallel line line' V ⟨.ok a, noted⟩ ⟨.ok b, noted⟩
  | failure {cause : Cause} (h : cause ≠ .nestedAssignment) (noted : List Text) :
    Parallel line line' V ⟨.error ⟨line.number, cause⟩, noted⟩
      ⟨.error ⟨line'.number, cause⟩, noted⟩

/-- The readings of two lines yield the same value. -/
abbrev Agree (line line' : Line) (r s : Reading α) : Prop := r.Parallel line line' Eq s

/-- The readings of two lines yield the same value, and `P` holds of it. -/
abbrev AgreeWith (line line' : Line) (P : α → Prop) (r s : Reading α) : Prop :=
  r.Parallel line line' (fun a b => b = a ∧ P a) s

section
variable {V : α → β → Prop} {W : γ → δ → Prop}

theorem parallel_pure {a : α} {b : β} (h : V a b) :
    (pure a : Reading α).Parallel line line' V (pure b) := .value h []

theorem agree_pure (a : α) : (pure a : Reading α).Agree line line' (pure a) := parallel_pure rfl

theorem agreeWith_pure {P : α → Prop} {a : α} (h : P a) :
    (pure a : Reading α).AgreeWith line line' P (pure a) := parallel_pure ⟨rfl, h⟩

theorem agree_note (ty : Text) : (note ty).Agree line line' (note ty) := .value rfl [ty]

theorem parallel_fail {cause : Cause} (h : cause ≠ .nestedAssignment) :
    (fail ⟨line.number, cause⟩ : Reading α).Parallel line line' V (fail ⟨line'.number, cause⟩) :=
  .failure h []

theorem parallel_lacks (expected : Expected) (ts : List Token) :
    (fail (line.lacks expected ts) : Reading α).Parallel line line' V
      (fail (line'.lacks expected ts)) := parallel_fail (by simp)

/-- Sequences go on side by side, step by step. -/
theorem Parallel.bind {r : Reading α} {s : Reading β} {k : α → Reading γ} {l : β → Reading δ}
    (h : r.Parallel line line' V s) (hk : ∀ a b, V a b → (k a).Parallel line line' W (l b)) :
    (r >>= k).Parallel line line' W (s >>= l) := by
  cases h with
  | @value a b hab noted =>
    change Parallel line line' W ⟨(k a).result, noted ++ (k a).noted⟩
      ⟨(l b).result, noted ++ (l b).noted⟩
    have hab := hk a b hab
    generalize k a = r', l b = s' at hab ⊢
    cases hab with
    | value h => exact .value h _
    | failure h => exact .failure h _
  | failure h noted => exact .failure h noted

theorem Agree.bind {r s : Reading α} {k : α → Reading γ} {l : α → Reading δ}
    (h : r.Agree line line' s) (hk : ∀ a, (k a).Parallel line line' W (l a)) :
    (r >>= k).Parallel line line' W (s >>= l) := by
  refine Parallel.bind h ?_
  rintro a _ rfl
  exact hk a

theorem AgreeWith.bind {P : α → Prop} {r s : Reading α} {k : α → Reading γ}
    {l : α → Reading δ} (h : r.AgreeWith line line' P s)
    (hk : ∀ a, P a → (k a).Parallel line line' W (l a)) :
    (r >>= k).Parallel line line' W (s >>= l) := by
  refine Parallel.bind h ?_
  rintro a _ ⟨rfl, ha⟩
  exact hk _ ha

theorem Parallel.map {r : Reading α} {s : Reading β} {g : α → γ} {g' : β → δ}
    (h : r.Parallel line line' V s) (hg : ∀ a b, V a b → W (g a) (g' b)) :
    (g <$> r).Parallel line line' W (g' <$> s) := by
  rw [← bind_pure_comp, ← bind_pure_comp]
  exact h.bind fun a b hab => parallel_pure (hg a b hab)

theorem Agree.map {r s : Reading α} (h : r.Agree line line' s) (g : α → γ) :
    (g <$> r).Agree line line' (g <$> s) := Parallel.map h fun _ _ => congrArg g

/-- What goes on side by side differs in numbers only, if the values do. -/
theorem Parallel.renumbered {f : Nat → Nat} {g : α → β} {r : Reading α} {s : Reading β}
    (h : r.Parallel line line' V s) (hline : line'.number = f line.number)
    (hV : ∀ a b, V a b → b = g a) : r.Renumbered f g s := by
  cases h with
  | value hab noted =>
    rw [hV _ _ hab]
    refine Reading.ext ?_ ?_
    · rw [result_map]
      rfl
    · rw [noted_map]
      rfl
  | failure _ noted =>
    rw [hline]
    rfl

theorem Agree.alike {f : Nat → Nat} {r s : Reading α} (h : r.Agree line line' s)
    (hline : line'.number = f line.number) : r.Alike f s :=
  Parallel.renumbered h hline fun _ _ hab => hab.symm

/-- A failure is one of the line, and a value is related to another one. -/
theorem Parallel.ensures {E : Failure → Prop} {P : α → Prop} {r : Reading α} {s : Reading β}
    (h : r.Parallel line line' V s)
    (hE : ∀ cause, cause ≠ .nestedAssignment → E ⟨line.number, cause⟩)
    (hP : ∀ a b, V a b → P a) : r.Ensures E fun a _ => P a := by
  cases h with
  | value hab => exact hP _ _ hab
  | failure h => exact hE _ h

end

/-! ### Tokens of a line -/

theorem agree_tokenAt (ts : List Token) (position : Nat) :
    (tokenAt line ts position).Agree line line' (tokenAt line' ts position) := by
  unfold tokenAt
  split
  · exact agree_pure _
  · exact parallel_lacks _ _

theorem agree_textAt (ts : List Token) (position : Nat) :
    (textAt line ts position).Agree line line' (textAt line' ts position) :=
  (agree_tokenAt ts position).map Token.text

end Reading

end LlvmAsm
