/-
  The grammar of initial values and their spelling.

  `Initializer` is a constant of the assembly as a tree of any depth, `Initializer.print`
  its text, and `Initializer.tree` the constant that a reader should find in the text.
  A tree says what its types are where the assembly does; the types of members need not
  be those that the type of the whole has.

  * `Initializer.induction` is the induction over trees, with the members of structures
    and the elements of arrays as lists;
  * `Ty.isScalar_print_int`, `Ty.IsPointer.isScalar_print` and
    `Ty.IsAggregate.not_isScalar_print`: which types readers take for scalar.
-/
import LlvmAsm.Proofs.Element
import LlvmAsm.Proofs.Type.Token

namespace LlvmAsm

/-! ## Types by their values -/

namespace Ty

/-- The values of the type are addresses. -/
def IsPointer : Ty → Prop
  | pointer _ | functionPointer .. => True
  | _ => False

/-- The values of the type may be written in braces. -/
def IsBrace : Ty → Prop
  | struct packed _ _ => packed = false
  | named _ => True
  | _ => False

/-- The values of the type have members. -/
def IsAggregate : Ty → Prop
  | struct .. | array .. | named _ => True
  | _ => False

variable {T : Ty}

theorem IsBrace.isAggregate (h : T.IsBrace) : T.IsAggregate := by
  cases T with
  | struct | named => trivial
  | _ => cases h

end Ty

theorem TypeText.one_le_levels_iff {ty : Text} : 1 ≤ levels ty ↔ isPointer ty = true := by
  rw [isPointer_iff, ← List.head?_reverse, levels, stars]
  cases ty.reverse with
  | nil => simp
  | cons c rest => by_cases hc : c = '*' <;> simp [hc]

namespace Ty

variable {T : Ty}

theorem isScalar_print_int (bits : Nat) : TypeText.IsScalar (int bits).print := by
  have hdigits : ∀ c ∈ Text.ofNat bits, isDigit c = true := fun _ => Text.isDigit_of_mem_ofNat
  left
  simpa [print, TypeText.isNumber, TypeText.isInteger, Text.ofNat_ne_nil] using Or.inl hdigits

theorem IsPointer.isScalar_print (h : T.IsPointer) : TypeText.IsScalar T.print := by
  right
  rw [ge_iff_le, TypeText.one_le_levels_iff]
  cases T with
  | pointer target => exact (TypeText.isPointer_append (by simp) _).trans (by decide)
  | functionPointer result params variadic =>
    rw [print, TypeText.isPointer_append (by simp), ← List.cons_append,
      TypeText.isPointer_append (by simp)]
    decide
  | _ => cases h

/-- The spelling of a type with members begins with a character of its own, and ends
    with none that stands for a pointer. -/
theorem IsAggregate.print_shape (h : T.IsAggregate) :
    (∃ c rest, c ∈ ['{', '<', '[', '%'] ∧ T.print = c :: rest) ∧
      TypeText.isPointer T.print = false := by
  cases T with
  | struct packed first rest =>
    cases packed with
    | false =>
      exact ⟨⟨'{', _, by decide, rfl⟩, (TypeText.isPointer_append (by simp) _).trans (by decide)⟩
    | true =>
      exact ⟨⟨'<', _, by decide, rfl⟩, (TypeText.isPointer_append (by simp) _).trans (by decide)⟩
  | array length element =>
    exact ⟨⟨'[', _, by decide, rfl⟩, (TypeText.isPointer_append (by simp) _).trans (by decide)⟩
  | named name =>
    refine ⟨⟨'%', _, by decide, rfl⟩, TypeText.isPointer_eq_false fun hlast => ?_⟩
    rcases List.mem_cons.1 (List.mem_of_getLast? hlast) with hstar | hstar
    · cases hstar
    · exact name.not_mem_text (by decide) hstar
  | _ => cases h

theorem IsAggregate.not_isScalar_print (h : T.IsAggregate) : ¬TypeText.IsScalar T.print := by
  obtain ⟨⟨c, rest, hc, hprint⟩, hpointer⟩ := h.print_shape
  rintro (hnumber | hlevels)
  · rw [hprint] at hnumber
    simp only [List.mem_cons, List.not_mem_nil, or_false] at hc
    rcases hc with rfl | rfl | rfl | rfl <;>
      simp [TypeText.isNumber, TypeText.isInteger, TypeText.floats] at hnumber
  · rw [ge_iff_le, TypeText.one_le_levels_iff, hpointer] at hlevels
    cases hlevels

end Ty

/-! ## Initial values -/

/-- The literal of an integer: decimal digits, and a sign if it is negative. -/
structure IntLiteral where
  negative : Bool
  digits : Text
  ne_nil : digits ≠ []
  all_digits : ∀ c ∈ digits, c.isDigit = true

/-- The text of a literal. -/
def IntLiteral.text (l : IntLiteral) : Text := if l.negative then '-' :: l.digits else l.digits

/-- A text that may stand between quotes. -/
structure QuoteFree where
  text : Text
  no_quote : '"' ∉ text

/-- A constant that a variable may have at the beginning. -/
inductive Initializer where
  | int (bits : Nat) (literal : IntLiteral)
  | null (ty : {T : Ty // T.IsPointer})
  | symbol (ty : {T : Ty // T.IsPointer}) (name : PlainName)
  | zero (ty : {T : Ty // T.IsAggregate})
  | chars (length : Nat) (content : QuoteFree)
  /-- a structure of one member or more -/
  | struct (ty : {T : Ty // T.IsBrace}) (first : Initializer) (rest : List Initializer)
  | array (length : Nat) (elementTy : Ty) (elements : List Initializer)

namespace Initializer

/-- The type of a constant. -/
def ty : Initializer → Ty
  | int bits _ => .int bits
  | null T | symbol T _ | zero T => T
  | chars length _ => .array length (.int 8)
  | struct T _ _ => T
  | array length elementTy _ => .array length elementTy

mutual

/-- The text of a constant, without its type. -/
def print : Initializer → Text
  | int _ literal => literal.text
  | null _ => "null"
  | symbol _ name => '@' :: name.text
  | zero _ => "zeroinitializer"
  | chars _ content => 'c' :: '"' :: content.text ++ ['"']
  | struct _ first rest =>
    '{' :: ' ' :: commaList ((first.ty.print ++ ' ' :: first.print) :: printAll rest) ++ [' ', '}']
  | array _ _ elements => '[' :: commaList (printAll elements) ++ [']']

/-- The texts of constants with their types. -/
def printAll : List Initializer → List Text
  | [] => []
  | c :: cs => (c.ty.print ++ ' ' :: c.print) :: printAll cs

end

mutual

/-- The constant that is meant. -/
def tree : Initializer → Constant
  | int bits literal => .value (Ty.int bits).print literal.text
  | null T => .value T.1.print "0"
  | symbol T name => .value T.1.print ('@' :: name.text)
  | zero T => .emptyStruct T.1.print
  | chars length content => .string (Ty.array length (.int 8)).print content.text
  | struct T first rest => .struct T.1.print (first.tree :: treeAll rest)
  | array length elementTy elements => .list (Ty.array length elementTy).print (treeAll elements)

/-- The constants that are meant. -/
def treeAll : List Initializer → List Constant
  | [] => []
  | c :: cs => c.tree :: treeAll cs

end

/-- Induction over a constant, with all members and elements. -/
theorem induction {motive : Initializer → Prop}
    (int : ∀ bits literal, motive (int bits literal)) (null : ∀ T, motive (null T))
    (symbol : ∀ T name, motive (symbol T name)) (zero : ∀ T, motive (zero T))
    (chars : ∀ length content, motive (chars length content))
    (struct : ∀ T first rest, motive first → (∀ c ∈ rest, motive c) →
      motive (struct T first rest))
    (array : ∀ length elementTy elements, (∀ c ∈ elements, motive c) →
      motive (array length elementTy elements)) (c : Initializer) : motive c :=
  @Initializer.rec motive (fun cs => ∀ c ∈ cs, motive c) int null symbol zero chars
    (fun T first rest hfirst hrest => struct T first rest hfirst hrest)
    (fun length elementTy elements helements => array length elementTy elements helements)
    (by simp) (fun _ _ hc hcs => List.forall_mem_cons.2 ⟨hc, hcs⟩) c

end Initializer

end LlvmAsm
