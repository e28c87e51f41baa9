/-
  Readings that refine others.

  `RefinedBy P r s`: wherever `r` has a value, `s` has one that is related to it
  by `P`, and notes the same types. `Kept r s` is the case of equal values, in
  which both have the same run (`Kept.run`).

  The line for which operands and constants are read matters to failures only:
  `kept_operand`, `kept_expression`, `kept_parameters` and `kept_initialValue` hold
  of any two lines.
-/
import LlvmAsm.Proofs.Constant

namespace LlvmAsm

namespace Reading

variable {α β γ δ : Type} {P : α → β → Prop} {Q : γ → δ → Prop}

/-! ## Values that are kept -/

/-- Wherever the first reading has a value, the second one has a related value and
    notes the same types. -/
def RefinedBy (P : α → β → Prop) (r : Reading α) (s : Reading β) : Prop :=
  ∀ a, r.result = .ok a → ∃ b, s.result = .ok b ∧ s.noted = r.noted ∧ P a b

/-- Wherever the first reading has a value, the second one has the same value and
    notes the same types. -/
abbrev Kept (r s : Reading α) : Prop := r.RefinedBy Eq s

theorem refinedBy_pure {a : α} {b : β} (h : P a b) :
    (pure a : Reading α).RefinedBy P (pure b) := by
  rintro _ ⟨⟩
  exact ⟨b, rfl, rfl, h⟩

/-- Nothing is asked of the second reading where the first one fails. -/
theorem refinedBy_fail (f : Failure) (s : Reading β) : (fail f : Reading α).RefinedBy P s := by
  rintro _ ⟨⟩

theorem Kept.refl (r : Reading α) : r.Kept r := fun a ha => ⟨a, ha, rfl, rfl⟩

/-- Sequences refine each other step by step. -/
theorem RefinedBy.bind_ok {r : Reading α} {s : Reading β} {f : α → Reading γ}
    {g : β → Reading δ} (h : r.RefinedBy P s)
    (hf : ∀ a b, r.result = .ok a → P a b → (f a).RefinedBy Q (g b)) :
    (r >>= f).RefinedBy Q (s >>= g) := by
  intro c hc
  obtain ⟨a, ha, hfa⟩ := exists_of_bind_ok hc
  obtain ⟨b, hb, hnoted, hab⟩ := h a ha
  obtain ⟨d, hd, hnoted', hcd⟩ := hf a b ha hab c hfa
  refine ⟨d, ?_, ?_, hcd⟩
  · rw [result_bind_ok hb, hd]
  · rw [noted_bind_ok hb, noted_bind_ok ha, hnoted, hnoted']

theorem RefinedBy.bind {r : Reading α} {s : Reading β} {f : α → Reading γ} {g : β → Reading δ}
    (h : r.RefinedBy P s) (hf : ∀ a b, P a b → (f a).RefinedBy Q (g b)) :
    (r >>= f).RefinedBy Q (s >>= g) :=
  h.bind_ok fun a b _ => hf a b

theorem Kept.bind_ok {r s : Reading α} {f : α → Reading γ} {g : α → Reading δ} (h : r.Kept s)
    (hf : ∀ a, r.result = .ok a → (f a).RefinedBy Q (g a)) : (r >>= f).RefinedBy Q (s >>= g) := by
  refine RefinedBy.bind_ok h ?_
  rintro a _ ha rfl
  exact hf a ha

theorem Kept.bind {r s : Reading α} {f : α → Reading γ} {g : α → Reading δ} (h : r.Kept s)
    (hf : ∀ a, (f a).RefinedBy Q (g a)) : (r >>= f).RefinedBy Q (s >>= g) :=
  h.bind_ok fun a _ => hf a

theorem Kept.map {r s : Reading α} (h : r.Kept s) (f : α → β) : (f <$> r).Kept (f <$> s) := by
  rw [← bind_pure_comp, ← bind_pure_comp]
  exact h.bind fun a => Kept.refl _

/-- A value that is read alike on two lines is kept. -/
theorem Agree.kept {line line' : Line} {r s : Reading α} (h : r.Agree line line' s) :
    r.Kept s := by
  rintro a ha
  cases h with
  | value hab noted => exact ⟨_, rfl, rfl, hab ▸ (Except.ok.inj ha).symm⟩
  | failure => cases ha

/-- **A kept value has the same run**, whatever types are known before. -/
theorem Kept.run {r s : Reading α} (h : r.Kept s) {a : α} {known known' : Registry}
    (hrun : r.run known = (.ok a, known')) : s.run known = (.ok a, known') := by
  obtain ⟨hresult, hknown⟩ := Prod.mk.inj hrun
  obtain ⟨_, hs, hnoted, rfl⟩ := h a hresult
  rw [Reading.run, hs, hnoted, hknown]

end Reading

open Reading

/-! ## Operands and constants -/

section
variable (line line' : Line)

theorem kept_tokenAt {ts ts' : List Token} {i : Nat}
    (h : ∀ t, ts[i]? = some t → ts'[i]? = some t) :
    (tokenAt line ts i).Kept (tokenAt line' ts' i) := by
  unfold tokenAt
  cases ht : ts[i]? with
  | none => exact refinedBy_fail _ _
  | some t =>
    rw [h t ht]
    exact Kept.refl _

theorem kept_textAt {ts ts' : List Token} {i : Nat}
    (h : ∀ t, ts[i]? = some t → ts'[i]? = some t) :
    (textAt line ts i).Kept (textAt line' ts' i) :=
  (kept_tokenAt line line' h).map Token.text

theorem kept_expression (ty : Token) (ts : List Token) :
    (expression line ty ts).Kept (expression line' ty ts) :=
  (agree_expression ty ts).kept

theorem kept_parameters (ts : List Token) : (parameters line ts).Kept (parameters line' ts) :=
  (agree_parameters ts).kept

theorem kept_expressionOf (segment : List Token) :
    (expressionOf line segment).Kept (expressionOf line' segment) :=
  (agree_expressionOf segment).kept

theorem kept_operand (segment : List Token) :
    (operand line segment).Kept (operand line' segment) :=
  (agree_operand segment).kept

theorem kept_operands (parts : List (List Token)) :
    (operands line parts).Kept (operands line' parts) :=
  (agree_operands parts).kept

theorem kept_elements (parts : List (List Token)) :
    (elements line parts).Kept (elements line' parts) :=
  (agree_elements parts).kept

theorem kept_initialValue (ty : Text) (value : Token) :
    (initialValue line ty value).Kept (initialValue line' ty value) :=
  (agree_initialValue ty value).kept

end

end LlvmAsm
