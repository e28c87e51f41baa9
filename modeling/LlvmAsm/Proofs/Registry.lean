/-
  The registry as a set.

  A registry is valid if it holds no name twice and none that may not be
  entered. `mem_names_learn` says which names a registry holds after more
  types, `Valid.learn` that a valid registry stays valid, and
  `learn_eq_self` when nothing is new to it.
-/
import LlvmAsm.Registry
import Mathlib.Data.List.Nodup

namespace LlvmAsm.Registry

/-- The text may be entered: it is neither empty nor the unknown type. -/
def Enters (ty : Text) : Prop := ty ≠ [] ∧ ty ≠ TypeText.unknown

/-- No name is held twice, and every name may be entered. -/
structure Valid (r : Registry) : Prop where
  nodup : r.names.Nodup
  enters : ∀ ty ∈ r.names, Enters ty

/-! ## One more type -/

theorem note_of_mem {r : Registry} {ty : Text} (h : ty ∈ r.names) : r.note ty = r := by
  simp [note, h]

theorem note_of_not_enters {r : Registry} {ty : Text} (h : ¬ Enters ty) : r.note ty = r := by
  have : ty = [] ∨ ty = TypeText.unknown := by
    rw [Enters, not_and_or, not_not, not_not] at h
    exact h
  rcases this with rfl | rfl <;> simp [note]

theorem note_of_new {r : Registry} {ty : Text} (hty : Enters ty) (h : ty ∉ r.names) :
    r.note ty = ⟨r.names ++ [ty]⟩ := by
  simp [note, hty.1, hty.2, h]

theorem mem_names_note {r : Registry} {ty ty' : Text} :
    ty' ∈ (r.note ty).names ↔ ty' ∈ r.names ∨ ty' = ty ∧ Enters ty := by
  by_cases hty : Enters ty
  · by_cases h : ty ∈ r.names
    · rw [note_of_mem h]
      constructor
      · exact Or.inl
      · rintro (h' | ⟨rfl, -⟩)
        exacts [h', h]
    · simp [note_of_new hty h, hty]
  · simp [note_of_not_enters hty, hty]

theorem Valid.note {r : Registry} (h : r.Valid) (ty : Text) : (r.note ty).Valid := by
  by_cases hty : Enters ty
  · by_cases hmem : ty ∈ r.names
    · rwa [note_of_mem hmem]
    · rw [note_of_new hty hmem]
      refine ⟨?_, fun ty' hty' => ?_⟩
      · exact List.nodup_append.2 ⟨h.nodup, List.nodup_singleton _, fun a ha b hb => by
          rw [List.mem_singleton] at hb
          rintro rfl
          exact hmem (hb ▸ ha)⟩
      · rcases List.mem_append.1 hty' with h' | h'
        · exact h.enters ty' h'
        · rwa [List.mem_singleton.1 h']
  · rwa [note_of_not_enters hty]

/-! ## More types -/

theorem valid_empty : empty.Valid := ⟨List.nodup_nil, by simp [empty]⟩

/-- **Validity is kept**, whatever types are met. -/
theorem Valid.learn {r : Registry} (h : r.Valid) (tys : List Text) : (r.learn tys).Valid := by
  induction tys generalizing r with
  | nil => exact h
  | cons ty tys ih => exact ih (h.note ty)

/-- **The names after more types**: those before, and the types that may be
    entered. -/
theorem mem_names_learn {r : Registry} {tys : List Text} {ty : Text} :
    ty ∈ (r.learn tys).names ↔ ty ∈ r.names ∨ ty ∈ tys ∧ Enters ty := by
  induction tys generalizing r with
  | nil => simp
  | cons ty' tys ih =>
    change ty ∈ ((r.note ty').learn tys).names ↔ _
    rw [ih, mem_names_note, List.mem_cons]
    constructor
    · rintro ((h | ⟨rfl, h⟩) | ⟨h, h'⟩)
      exacts [Or.inl h, Or.inr ⟨Or.inl rfl, h⟩, Or.inr ⟨Or.inr h, h'⟩]
    · rintro (h | ⟨rfl | h, h'⟩)
      exacts [Or.inl (Or.inl h), Or.inl (Or.inr ⟨rfl, h'⟩), Or.inr ⟨h, h'⟩]

/-- The same types, in any order and number, lead to the same names. -/
theorem mem_names_learn_congr {r : Registry} {tys tys' : List Text}
    (h : ∀ ty, ty ∈ tys ↔ ty ∈ tys') (ty : Text) :
    ty ∈ (r.learn tys).names ↔ ty ∈ (r.learn tys').names := by
  rw [mem_names_learn, mem_names_learn, h]

/-- Types may be collected in a registry of their own first. -/
theorem mem_names_learn_names {r : Registry} {tys : List Text} {ty : Text} :
    ty ∈ (r.learn (empty.learn tys).names).names ↔ ty ∈ (r.learn tys).names := by
  rw [mem_names_learn, mem_names_learn, mem_names_learn]
  simp [empty]

/-- Nothing changes if every type that may be entered is known already. -/
theorem learn_eq_self {r : Registry} {tys : List Text}
    (h : ∀ ty ∈ tys, Enters ty → ty ∈ r.names) : r.learn tys = r := by
  induction tys with
  | nil => rfl
  | cons ty tys ih =>
    have hty : r.note ty = r := by
      by_cases he : Enters ty
      · exact note_of_mem (h ty List.mem_cons_self he)
      · exact note_of_not_enters he
    change (r.note ty).learn tys = r
    rw [hty]
    exact ih fun ty' h' => h ty' (List.mem_cons_of_mem _ h')

end LlvmAsm.Registry
