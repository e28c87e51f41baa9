/-
  Readings: what it yields to read a piece of assembly text.

  A `Reading α` is a value or a failure, together with the types met on the
  way, in order. A failure does not undo what was noted before it. A reading
  cannot look at the registry, so its outcome does not depend on what was read
  before; `Reading.run` enters what it noted into a registry.

  Readings form a lawful monad: `result_bind` and `noted_bind` say what a
  sequence yields.
-/
import LlvmAsm.Line
import LlvmAsm.Registry

namespace LlvmAsm

/-- A value or a failure, and the types met on the way. -/
structure Reading (α : Type) where
  result : Except Failure α
  noted : List Text

namespace Reading

variable {α β : Type}

@[ext] theorem ext {r s : Reading α} (hr : r.result = s.result) (hn : r.noted = s.noted) :
    r = s := by
  cases r; cases s; simp_all

/-- A reading that yields a given result and notes nothing. -/
def ofExcept (result : Except Failure α) : Reading α := ⟨result, []⟩

/-- A reading that fails. -/
def fail (f : Failure) : Reading α := ofExcept (.error f)

/-- A reading that notes a type. -/
def note (ty : Text) : Reading Unit := ⟨.ok (), [ty]⟩

/-- The sequence of two readings; the second one is left out if the first one
    fails. -/
def andThen (r : Reading α) (f : α → Reading β) : Reading β :=
  match r.result with
  | .ok a =>
    let s := f a
    ⟨s.result, r.noted ++ s.noted⟩
  | .error e => ⟨.error e, r.noted⟩

instance : Monad Reading where
  pure a := ofExcept (.ok a)
  bind := andThen

instance : MonadLift (Except Failure) Reading := ⟨ofExcept⟩

@[simp] theorem result_pure (a : α) : (pure a : Reading α).result = .ok a := rfl

@[simp] theorem noted_pure (a : α) : (pure a : Reading α).noted = [] := rfl

theorem result_bind (r : Reading α) (f : α → Reading β) :
    (r >>= f).result = r.result.bind fun a => (f a).result := by
  simp only [bind, andThen]
  split <;> simp_all [Except.bind]

theorem noted_bind (r : Reading α) (f : α → Reading β) :
    (r >>= f).noted = r.noted ++
      match r.result with
      | .ok a => (f a).noted
      | .error _ => [] := by
  simp only [bind, andThen]
  split <;> simp

instance : LawfulMonad Reading := LawfulMonad.mk' Reading
  (by
    intro α r
    obtain ⟨result, noted⟩ := r
    cases result <;> simp [Functor.map, andThen, ofExcept])
  (by
    intro α β a f
    simp [bind, andThen, pure, ofExcept])
  (by
    intro α β γ r f g
    obtain ⟨result, noted⟩ := r
    cases result with
    | error e => simp [bind, andThen]
    | ok a =>
      simp only [bind, andThen]
      cases (f a).result <;> simp)

/-- The result of a reading, and the registry after it. -/
def run (r : Reading α) (known : Registry) : Except Failure α × Registry :=
  (r.result, known.learn r.noted)

/-! ## Tokens of a line -/

/-- The token at a position, which must be there. -/
def tokenAt (line : Line) (tokens : List Token) (position : Nat) : Reading Token :=
  match tokens[position]? with
  | some t => pure t
  | none => fail (line.lacks (.token position) tokens)

/-- The text of the token at a position, which must be there. -/
def textAt (line : Line) (tokens : List Token) (position : Nat) : Reading Text :=
  Token.text <$> tokenAt line tokens position

end Reading

end LlvmAsm
