/-
  Laws of the readers of constants: on two lines they go side by side
  (`agree_elements`, `agree_initialValue`). The line that is read matters to nothing
  but the number in a failure.
-/
import LlvmAsm.Constant
import LlvmAsm.Proofs.Operand

namespace LlvmAsm

open Reading

variable {line line' : Line}

/-- An element by induction on how it is read: the cases are the forms of a
    value, and those of a list of elements. -/
theorem agree_element_elements :
    (∀ segment : List Token, (element line segment).Agree line line' (element line' segment)) ∧
    ∀ parts : List (List Token),
      (elements line parts).Agree line line' (elements line' parts) := by
  apply element.mutual_induct
  case case1 | case2 | case7 | case8 =>
    intros
    rw [element.eq_def, element.eq_def]
    simp_all [agree_pure]
  case case10 | case11 =>
    intros
    rw [element.eq_def, element.eq_def]
    simp_all [parallel_fail]
  case case3 =>
    intro ty head rest hnull hempty hexpr
    rw [element.eq_def, element.eq_def]
    simp only [hnull, hempty, hexpr, Bool.false_eq_true, if_false, if_true]
    exact (agree_expression ty _).map _
  case case4 | case5 | case6 =>
    intro ty rest text inner hnull hempty hexpr ih
    rw [element.eq_def, element.eq_def]
    simp only [hnull, hempty, hexpr, Bool.false_eq_true, if_false]
    exact ih.map _
  case case9 =>
    intro ty head hnull hempty hexpr next tail hc hblock hbrace hangle hbracket
    rw [element.eq_def, element.eq_def]
    simp only [hnull, hempty, hexpr, hc, hblock, Bool.false_eq_true, if_false, if_true]
    exact (agree_blockAddress _).map _
  case case12 =>
    rw [elements, elements]
    exact agree_pure _
  case case13 =>
    intro parts ih
    rwa [elements, elements]
  case case14 =>
    intro t ts parts ih ih'
    rw [elements, elements]
    exact ih.bind fun _ => ih'.bind fun _ => agree_pure _

theorem agree_elements (parts : List (List Token)) :
    (elements line parts).Agree line line' (elements line' parts) :=
  agree_element_elements.2 parts

theorem agree_initialValue (ty : Text) (value : Token) :
    (initialValue line ty value).Agree line line' (initialValue line' ty value) := by
  unfold initialValue
  split
  · exact agree_pure _
  split
  · exact agree_pure _
  split
  · split
    · exact agree_pure _
    · exact parallel_fail (by simp)
  · exact (agree_elements _).map _
  · split
    · exact (agree_elements _).map _
    · exact (agree_elements _).map _
  · exact (agree_elements _).map _
  · exact parallel_fail (by simp)

end LlvmAsm
