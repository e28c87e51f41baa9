/-
  Readings with the registry at hand.

  A `Reading` collects the types that it meets and cannot look at a registry. A
  `ThreadedReading` is given the registry that the readings before it have left. It may look at
  the types there, and leaves a registry to those that follow. A `PositionalReading` may break
  off besides, without a result, where a position is out of range.

  * `enter` enters a type into the registry at hand;
  * a reading is lifted when it is run with the registry at hand, and a lift goes through a
    sequence step by step. So a reader with the registry at hand may be compared with one that
    collects its types. What is given no registry, such as the token at a position, a block
    address or a label, is lifted as it is;
  * a lift has the same result with every registry (`outcome_liftM`). That is not so of every
    reading: `get_ne_liftM`.
-/
import LlvmAsm.Proofs.Reading

namespace LlvmAsm

/-- A reading that begins with the registry at hand and leaves another one. -/
abbrev ThreadedReading (α : Type) := ExceptT Failure (StateM Registry) α

/-- A threaded reading that may break off. -/
abbrev PositionalReading (α : Type) := OptionT ThreadedReading α

/-- An access out of range breaks a reading off. -/
instance : MonadLift Option PositionalReading := ⟨fun access => OptionT.mk (pure access)⟩

/-- A reading is run with the registry at hand. -/
instance : MonadLift Reading ThreadedReading := ⟨fun r => ExceptT.mk fun known => r.run known⟩

instance : LawfulMonadLift Reading ThreadedReading where
  monadLift_pure _ := rfl
  monadLift_bind r f := by
    -- the law of runs, with the pairs of the two monads taken apart
    funext known
    change (r >>= f).run known = _
    rw [Reading.run_bind]
    change _ = (ExceptT.bindCont _ (r.run known).1 : StateM Registry _) (r.run known).2
    rcases r.run known with ⟨e | a, known'⟩ <;> rfl

namespace Positional

open Reading

variable {α β : Type}

/-- Enters a type into the registry at hand. -/
def enter (ty : Text) : PositionalReading Unit := modify (·.note ty)

/-- What a reading comes to with the registry at hand: a failure, or a result unless it has
    broken off; and the registry that it leaves. -/
def outcome (p : PositionalReading α) (known : Registry) :
    Except Failure (Option α) × Registry := p.run.run.run known

/-- What a reading notes is entered into the registry at hand. -/
theorem liftM_note (ty : Text) : (liftM (note ty) : PositionalReading Unit) = enter ty := rfl

/-- A result from outside is taken over. -/
theorem liftM_ofExcept (result : Except Failure α) :
    (liftM (liftM result : Reading α) : PositionalReading α) = liftM result := rfl

/-- What follows a result from outside matters only for that result. -/
theorem liftM_bind_congr {result : Except Failure α} {f g : α → PositionalReading β}
    (h : ∀ a, result = .ok a → f a = g a) : (liftM result >>= f) = liftM result >>= g := by
  cases result with
  | error e => rfl
  | ok a => exact h a rfl

/-- An access in range. -/
@[simp] theorem liftM_some (a : α) : (liftM (some a) : PositionalReading α) = pure a := rfl

theorem map_eq_liftM {p : PositionalReading α} {r : Reading α} (h : p = liftM r) (f : α → β) :
    f <$> p = liftM (f <$> r) := by
  rw [h, liftM_map]

/-- A lift has the result of the reading, and enters the types that are noted. -/
theorem outcome_liftM (r : Reading α) (known : Registry) :
    outcome (liftM r) known = (some <$> r).run known := by
  change ((liftM r : ThreadedReading α) >>= fun a => pure (some a)) known = _
  rw [bind_pure_comp, ← liftM_map]
  rfl

theorem outcome_failure (known : Registry) :
    outcome (failure : PositionalReading α) known = (.ok none, known) := rfl

/-- A reading that breaks off is not one that ends. -/
theorem failure_ne_liftM (r : Reading α) : (failure : PositionalReading α) ≠ liftM r := by
  intro h
  have hresult : (outcome (failure : PositionalReading α) .empty).1 =
      (outcome (liftM r) .empty).1 := by rw [h]
  rw [outcome_failure, outcome_liftM, run_map] at hresult
  cases hr : (r.run .empty).1 with
  | ok a => rw [hr] at hresult; cases hresult
  | error e => rw [hr] at hresult; cases hresult

/-- A reading whose result is the registry at hand is no lift. -/
theorem get_ne_liftM (r : Reading Registry) : (get : PositionalReading Registry) ≠ liftM r := by
  intro h
  have hresult (known : Registry) :
      (.ok (some known) : Except Failure (Option Registry)) = (some <$> r).result := by
    have hget : (outcome (get : PositionalReading Registry) known).1 =
        (outcome (liftM r) known).1 := by rw [h]
    rwa [outcome_liftM] at hget
  -- two registries that differ would both be the result of `r`
  cases (hresult ⟨[]⟩).trans (hresult ⟨[[]]⟩).symm

end Positional

end LlvmAsm
