/-
  Types as they are spelled in the assembly text.

  The library keeps a type as its text and asks the text which kind of type it
  spells: a number, `void`, a structure (with arrays and named types), a
  pointer or a function. A pointer type ends in a star, and `levels` counts
  the stars at the end.
-/
import LlvmAsm.Text.Digit

namespace LlvmAsm.TypeText

/-- The spelling of a type that the text does not tell. -/
def unknown : Text := "?"

/-! ## Stars -/

/-- A pointer type: it ends in a star. -/
def isPointer (ty : Text) : Bool := ty.endsWith "*"

/-- The type without the stars at its end. -/
def bare (ty : Text) : Text := (ty.reverse.dropWhile (· == '*')).reverse

/-- The stars at the end of the type. -/
def stars (ty : Text) : Text := ty.reverse.takeWhile (· == '*')

/-- The number of stars at the end of the type. -/
def levels (ty : Text) : Nat := (stars ty).length

/-- The type that a pointer points to: one star less. A type without stars
    stays as it is. -/
def pointee (ty : Text) : Text := if isPointer ty then ty.dropLast else ty

/-- The type of a pointer to a value of the given type. -/
def pointerTo (ty : Text) : Text := ty ++ ['*']

theorem bare_append_stars (ty : Text) : bare ty ++ stars ty = ty := by
  have hall : ∀ x ∈ ty.reverse.takeWhile (· == '*'), x = '*' := by
    intro x hx
    have := List.all_takeWhile (l := ty.reverse) (p := (· == '*'))
    simpa using List.all_eq_true.1 this x hx
  have hrev : (ty.reverse.takeWhile (· == '*')).reverse = ty.reverse.takeWhile (· == '*') := by
    rw [List.eq_replicate_iff.2 ⟨rfl, hall⟩, List.reverse_replicate]
  rw [bare, stars, ← hrev, ← List.reverse_append, List.takeWhile_append_dropWhile,
    List.reverse_reverse]

/-! ## Kinds -/

/-- The type of no value. -/
def isVoid (ty : Text) : Bool := ty = "void"

/-- An integer type: `i` and a number of bits. -/
def isInteger : Text → Bool
  | 'i' :: bits => bits ≠ [] && bits.all isDigit
  | _ => false

/-- The floating point types. -/
def floats : List Text := ["float", "double", "x86_fp80", "half", "fp128"]

/-- A type of numbers. -/
def isNumber (ty : Text) : Bool := isInteger ty || floats.contains ty

/-- An array type `[n x T]`, on one line. -/
def isArray : Text → Bool
  | '[' :: t =>
    match (Text.leadingDigits? t).bind fun (_, t) => Text.after? t " x " with
    | some t => Text.endsWith t "]" && !t.contains '\n'
    | none => false
  | _ => false

/-- A structure type: an array, a structure in braces, packed or not, or a
    named type. -/
def isStruct (ty : Text) : Bool :=
  !isPointer ty &&
    (isArray ty || ty.startsWith ['{'] || ty.startsWith ['<', '{'] && ty.endsWith ['}', '>']
      || ty.startsWith "%")

/-- A type other than a function type. -/
def isPlain (ty : Text) : Bool := isVoid ty || isNumber ty || isStruct ty || isPointer ty

/-- The text before the first blank with an opening parenthesis, and the text
    from that parenthesis on. -/
def splitSignature? : Text → Option (Text × Text)
  | [] => none
  | c :: t =>
    if c = ' ' ∧ t.head? = some '(' then some ([], t)
    else (splitSignature? t).map fun (result, signature) => (c :: result, signature)

/-- A function type `R (A, …)`, or a pointer to one. The result type is plain:
    it ends before the first parenthesis that follows a blank. -/
def isFunction (ty : Text) : Bool :=
  match splitSignature? ty with
  | some (result, signature) => (bare signature).endsWith ")" && isPlain result
  | none => false

/-- The text spells a type. -/
def isType (ty : Text) : Bool := isPlain ty || isFunction ty

end LlvmAsm.TypeText
