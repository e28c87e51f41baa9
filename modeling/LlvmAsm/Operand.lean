/-
  Operands and constants.

  * `Operand` is a parameter, an argument or an operand of an instruction;
  * `Expression` is an operation with operands in parentheses, which may stand
    wherever an operand or a constant is expected;
  * `Constant` is the initial value of a global variable.
-/
import LlvmAsm.Text

namespace LlvmAsm

/-! ## Expressions -/

/-- An operation with operands in parentheses, e.g.
    `getelementptr inbounds ([4 x i8]* @s, i32 0, i32 0)`. -/
structure Expression (α : Type) where
  op : Text
  /-- the word between the operation and its operands -/
  variant : Option Text
  ty : Text
  params : List α
  /-- the name of the first operand -/
  ident : Option Text
deriving DecidableEq, Repr

/-! ## Operands -/

/-- An operand. -/
inductive Operand where
  /-- a name or a literal of some type -/
  | scalar (ty ident : Text) (byVal : Bool)
  /-- a structure written in braces -/
  | struct (ty : Text) (values : List Operand)
  | expr (e : Expression Operand)
  /-- the address of a label in a function -/
  | blockAddress (func label : Text)
  /-- any number of further arguments -/
  | varargs
deriving Repr

namespace Operand

/-- The type of an operand. -/
def ty? : Operand → Option Text
  | scalar ty _ _ | struct ty _ => some ty
  | expr e => some e.ty
  | blockAddress _ _ | varargs => none

/-- The operand with another type, if it has one. -/
def withType (o : Operand) (ty : Text) : Operand :=
  match o with
  | scalar _ ident byVal => scalar ty ident byVal
  | struct _ values => struct ty values
  | expr e => expr { e with ty := ty }
  | o => o

/-- The name of an operand. -/
def ident? : Operand → Option Text
  | scalar _ ident _ => some ident
  | expr e => e.ident
  | blockAddress func _ => some func
  | struct _ _ | varargs => none

mutual

/-- Equality of operands is decidable. -/
def decEq (a b : Operand) : Decidable (a = b) :=
  match a, b with
  | scalar t i v, scalar t' i' v' => decidable_of_iff (t = t' ∧ i = i' ∧ v = v') (by simp)
  | struct t vs, struct t' vs' =>
    have := decEqList vs vs'
    decidable_of_iff (t = t' ∧ vs = vs') (by simp)
  | expr ⟨o, v, t, p, i⟩, expr ⟨o', v', t', p', i'⟩ =>
    have := decEqList p p'
    decidable_of_iff (o = o' ∧ v = v' ∧ t = t' ∧ p = p' ∧ i = i') (by simp)
  | blockAddress f l, blockAddress f' l' => decidable_of_iff (f = f' ∧ l = l') (by simp)
  | varargs, varargs => isTrue rfl
  | scalar .., struct .. | scalar .., expr .. | scalar .., blockAddress .. | scalar .., varargs
  | struct .., scalar .. | struct .., expr .. | struct .., blockAddress .. | struct .., varargs
  | expr .., scalar .. | expr .., struct .. | expr .., blockAddress .. | expr .., varargs
  | blockAddress .., scalar .. | blockAddress .., struct .. | blockAddress .., expr ..
  | blockAddress .., varargs | varargs, scalar .. | varargs, struct .. | varargs, expr ..
  | varargs, blockAddress .. => isFalse (by simp)

/-- Equality of operand lists is decidable. -/
def decEqList (as bs : List Operand) : Decidable (as = bs) :=
  match as, bs with
  | [], [] => isTrue rfl
  | [], _ :: _ | _ :: _, [] => isFalse (by simp)
  | a :: as, b :: bs =>
    have := decEq a b
    have := decEqList as bs
    decidable_of_iff (a = b ∧ as = bs) (by simp)

end

instance : DecidableEq Operand := decEq

end Operand

/-! ## Constants -/

/-- The initial value of a global variable or of a part of it. -/
inductive Constant where
  /-- a name or a literal -/
  | value (ty value : Text)
  /-- a value without content -/
  | emptyStruct (ty : Text)
  /-- a text of characters -/
  | string (ty text : Text)
  /-- a structure -/
  | struct (ty : Text) (contents : List Constant)
  /-- an array or a vector -/
  | list (ty : Text) (contents : List Constant)
  | expr (e : Expression Operand)
  /-- the address of a label in a function -/
  | blockAddress (func label : Text)
deriving Repr

namespace Constant

mutual

/-- Equality of constants is decidable. -/
def decEq (a b : Constant) : Decidable (a = b) :=
  match a, b with
  | value t v, value t' v' => decidable_of_iff (t = t' ∧ v = v') (by simp)
  | emptyStruct t, emptyStruct t' => decidable_of_iff (t = t') (by simp)
  | string t s, string t' s' => decidable_of_iff (t = t' ∧ s = s') (by simp)
  | struct t cs, struct t' cs' | list t cs, list t' cs' =>
    have := decEqList cs cs'
    decidable_of_iff (t = t' ∧ cs = cs') (by simp)
  | expr e, expr e' => decidable_of_iff (e = e') (by simp)
  | blockAddress f l, blockAddress f' l' => decidable_of_iff (f = f' ∧ l = l') (by simp)
  | value .., emptyStruct .. | value .., string .. | value .., struct .. | value .., list ..
  | value .., expr .. | value .., blockAddress ..
  | emptyStruct .., value .. | emptyStruct .., string .. | emptyStruct .., struct ..
  | emptyStruct .., list .. | emptyStruct .., expr .. | emptyStruct .., blockAddress ..
  | string .., value .. | string .., emptyStruct .. | string .., struct .. | string .., list ..
  | string .., expr .. | string .., blockAddress ..
  | struct .., value .. | struct .., emptyStruct .. | struct .., string .. | struct .., list ..
  | struct .., expr .. | struct .., blockAddress ..
  | list .., value .. | list .., emptyStruct .. | list .., string .. | list .., struct ..
  | list .., expr .. | list .., blockAddress ..
  | expr .., value .. | expr .., emptyStruct .. | expr .., string .. | expr .., struct ..
  | expr .., list .. | expr .., blockAddress ..
  | blockAddress .., value .. | blockAddress .., emptyStruct .. | blockAddress .., string ..
  | blockAddress .., struct .. | blockAddress .., list .. | blockAddress .., expr .. =>
    isFalse (by simp)

/-- Equality of lists of constants is decidable. -/
def decEqList (as bs : List Constant) : Decidable (as = bs) :=
  match as, bs with
  | [], [] => isTrue rfl
  | [], _ :: _ | _ :: _, [] => isFalse (by simp)
  | a :: as, b :: bs =>
    have := decEq a b
    have := decEqList as bs
    decidable_of_iff (a = b ∧ as = bs) (by simp)

end

instance : DecidableEq Constant := decEq

end Constant

end LlvmAsm
