/-
  Laws of readings.

  * `run_bind`: to run two readings in sequence is to run the first one and to
    run the second one with the registry that the first one left, so that it
    comes to the same whether types are entered at once or collected first;
  * `Ensures E P` says how a reading may end: with a failure that satisfies
    `E`, or with a value and the types noted for it that satisfy `P`.
    `ensures_bind` goes through a sequence step by step;
  * `FailsAt n` says that the only line that failures name is line `n`.
-/
import LlvmAsm.Reading

namespace LlvmAsm.Reading

variable {α β : Type}

/-! ## Results and notes -/

@[simp] theorem result_ofExcept (result : Except Failure α) : (ofExcept result).result = result :=
  rfl

@[simp] theorem noted_ofExcept (result : Except Failure α) : (ofExcept result).noted = [] := rfl

/-- A result from outside is taken over without a note. -/
theorem liftM_eq (result : Except Failure α) : (liftM result : Reading α) = ofExcept result := rfl

/-- After a value, a sequence yields what its second part yields. -/
theorem result_bind_ok {r : Reading α} {a : α} (h : r.result = .ok a) (f : α → Reading β) :
    (r >>= f).result = (f a).result := by
  simp [result_bind, h, Except.bind]

theorem noted_bind_ok {r : Reading α} {a : α} (h : r.result = .ok a) (f : α → Reading β) :
    (r >>= f).noted = r.noted ++ (f a).noted := by
  simp [noted_bind, h]

/-- After a failure, nothing is read any more. -/
theorem result_bind_error {r : Reading α} {e : Failure} (h : r.result = .error e)
    (f : α → Reading β) : (r >>= f).result = .error e := by
  simp [result_bind, h, Except.bind]

theorem noted_bind_error {r : Reading α} {e : Failure} (h : r.result = .error e)
    (f : α → Reading β) : (r >>= f).noted = r.noted := by
  simp [noted_bind, h]

/-- A sequence has a value only if both of its parts have one. -/
theorem exists_of_bind_ok {r : Reading α} {f : α → Reading β} {b : β}
    (h : (r >>= f).result = .ok b) : ∃ a, r.result = .ok a ∧ (f a).result = .ok b := by
  cases ha : r.result with
  | error e =>
    rw [result_bind_error ha] at h
    cases h
  | ok a =>
    rw [result_bind_ok ha] at h
    exact ⟨a, rfl, h⟩

theorem exists_of_map_ok {r : Reading α} {g : α → β} {b : β} (h : (g <$> r).result = .ok b) :
    ∃ a, r.result = .ok a ∧ g a = b := by
  rw [← bind_pure_comp] at h
  obtain ⟨a, ha, hb⟩ := exists_of_bind_ok h
  exact ⟨a, ha, Except.ok.inj hb⟩

theorem result_map (g : α → β) (r : Reading α) : (g <$> r).result = r.result.map g := by
  rw [← bind_pure_comp, result_bind]
  cases r.result <;> rfl

theorem noted_map (g : α → β) (r : Reading α) : (g <$> r).noted = r.noted := by
  rw [← bind_pure_comp, noted_bind]
  cases r.result <;> simp

/-! ## Runs -/

@[simp] theorem run_pure (a : α) (known : Registry) :
    (pure a : Reading α).run known = (.ok a, known) := rfl

@[simp] theorem run_fail (f : Failure) (known : Registry) :
    (fail f : Reading α).run known = (.error f, known) := rfl

@[simp] theorem run_ofExcept (result : Except Failure α) (known : Registry) :
    (ofExcept result).run known = (result, known) := rfl

@[simp] theorem run_note (ty : Text) (known : Registry) :
    (note ty).run known = (.ok (), known.note ty) := rfl

/-- **The registry is threaded through a sequence**: the second reading begins
    with the registry that the first one leaves, and is left out if that one
    fails. -/
theorem run_bind (r : Reading α) (f : α → Reading β) (known : Registry) :
    (r >>= f).run known =
      match r.run known with
      | (.ok a, known') => (f a).run known'
      | (.error e, known') => (.error e, known') := by
  cases h : r.result with
  | ok a => simp [run, h, result_bind_ok h, noted_bind_ok h, Registry.learn_append]
  | error e => simp [run, h, result_bind_error h, noted_bind_error h]

theorem run_map (g : α → β) (r : Reading α) (known : Registry) :
    (g <$> r).run known = ((r.run known).1.map g, (r.run known).2) := by
  simp [run, result_map, noted_map]

/-! ## How a reading ends -/

/-- The reading ends with a failure that satisfies `E`, or with a value and
    noted types that satisfy `P`. -/
def Ensures (E : Failure → Prop) (P : α → List Text → Prop) (r : Reading α) : Prop :=
  match r.result with
  | .ok a => P a r.noted
  | .error e => E e

section
variable {E : Failure → Prop} {P Q : α → List Text → Prop} {R : β → List Text → Prop}

theorem Ensures.ok {r : Reading α} (h : r.Ensures E P) {a : α} (ha : r.result = .ok a) :
    P a r.noted := by
  simpa [Ensures, ha] using h

theorem Ensures.error {r : Reading α} (h : r.Ensures E P) {e : Failure}
    (he : r.result = .error e) : E e := by
  simpa [Ensures, he] using h

/-- What holds of the value, if there is one. -/
theorem ensures_of_ok {r : Reading α} (h : ∀ a, r.result = .ok a → P a r.noted) :
    r.Ensures (fun _ => True) P := by
  unfold Ensures
  split
  · exact h _ ‹_›
  · trivial

theorem Ensures.mono {r : Reading α} (h : r.Ensures E P) (hPQ : ∀ a ns, P a ns → Q a ns) :
    r.Ensures E Q := by
  unfold Ensures at *
  split at h
  · exact hPQ _ _ h
  · exact h

@[simp] theorem ensures_pure (a : α) : (pure a : Reading α).Ensures E P ↔ P a [] := Iff.rfl

@[simp] theorem ensures_fail (f : Failure) : (fail f : Reading α).Ensures E P ↔ E f := Iff.rfl

@[simp] theorem ensures_note (ty : Text) {P : Unit → List Text → Prop} :
    (note ty).Ensures E P ↔ P () [ty] := Iff.rfl

/-- A result from outside ends well if its failures do. -/
theorem ensures_ofExcept {result : Except Failure α} (h : ∀ e, result = .error e → E e) :
    (liftM result : Reading α).Ensures E fun a _ => result = .ok a := by
  rw [liftM_eq]
  unfold Ensures
  cases hr : result with
  | ok a => simp
  | error e => exact h e hr

/-- A sequence ends well iff its first part ends so that the second one does. -/
theorem ensures_bind (r : Reading α) (f : α → Reading β) :
    (r >>= f).Ensures E R ↔
      r.Ensures E fun a ns => (f a).Ensures E fun b ms => R b (ns ++ ms) := by
  cases h : r.result with
  | ok a => simp [Ensures, h, result_bind_ok h, noted_bind_ok h]
  | error e => simp [Ensures, h, result_bind_error h]

theorem ensures_map (g : α → β) (r : Reading α) :
    (g <$> r).Ensures E R ↔ r.Ensures E fun a ns => R (g a) ns := by
  cases h : r.result with
  | ok a => simp [Ensures, h, result_map, noted_map, Except.map]
  | error e => simp [Ensures, h, result_map, Except.map]

/-- The steps of a sequence one after the other. -/
theorem Ensures.bind {r : Reading α} {f : α → Reading β} (h : r.Ensures E P)
    (hf : ∀ a ns, P a ns → (f a).Ensures E fun b ms => R b (ns ++ ms)) :
    (r >>= f).Ensures E R :=
  (ensures_bind r f).2 (h.mono hf)

end

/-! ## Where a reading fails -/

/-- Every failure of the reading names the line with the given number. -/
def FailsAt (n : Nat) (r : Reading α) : Prop := r.Ensures (·.number = n) fun _ _ => True

end LlvmAsm.Reading
