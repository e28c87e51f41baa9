/-
  The registry of type names.

  A registry holds the types met while reading, each once and in the order in
  which they were first met. `Registry.note` adds a type, `Registry.learn`
  several; the empty text and the unknown type are never added. Names are only
  ever appended: `names_prefix_learn`.
-/
import LlvmAsm.TypeText

namespace LlvmAsm

/-- The types met so far, in the order of their first appearance. -/
structure Registry where
  names : List Text
deriving DecidableEq, Repr

namespace Registry

/-- The registry before any type is met. -/
def empty : Registry := ⟨[]⟩

/-- The registry after one more type. -/
def note (r : Registry) (ty : Text) : Registry :=
  if ty = [] ∨ ty = TypeText.unknown ∨ ty ∈ r.names then r else ⟨r.names ++ [ty]⟩

/-- The registry after more types, from left to right. -/
def learn (r : Registry) (tys : List Text) : Registry := tys.foldl note r

@[simp] theorem learn_nil (r : Registry) : r.learn [] = r := rfl

theorem learn_append (r : Registry) (tys tys' : List Text) :
    r.learn (tys ++ tys') = (r.learn tys).learn tys' :=
  List.foldl_append

theorem names_prefix_note (r : Registry) (ty : Text) : r.names <+: (r.note ty).names := by
  simp only [note]
  split
  · exact List.prefix_refl _
  · exact List.prefix_append _ _

/-- No name is lost or moved. -/
theorem names_prefix_learn (r : Registry) (tys : List Text) :
    r.names <+: (r.learn tys).names := by
  induction tys generalizing r with
  | nil => exact List.prefix_refl _
  | cons ty tys ih => exact (names_prefix_note r ty).trans (ih (r.note ty))

end Registry

end LlvmAsm
