/-
  Number literals of the assembly text and their normal form.

  A literal may be a word (`null`, `true`, `false`), the bits of a binary
  floating point number (`0x` and sixteen digits) or a decimal number with a
  point or an exponent. `Literal.normal` writes all of these as plain decimal
  numbers and leaves every other text alone.
-/
import LlvmAsm.Binary64.Shortest
import LlvmAsm.Text.Digit

namespace LlvmAsm.Literal

/-- The value of a run of hexadecimal digits. -/
def hexValue? (ds : Text) : Option Nat :=
  ds.foldlM (fun n c => (hexDigit? c).map (16 * n + ·)) 0

/-- The bits written by sixteen hexadecimal digits, the first of which may be a
    plus sign instead. -/
def bits? (t : Text) : Option Nat :=
  if t.length = 16 then
    match t with
    | '+' :: ds => hexValue? ds
    | ds => hexValue? ds
  else none

/-- The number denoted by a text with a point or an exponent, if it is finite. -/
def finiteNumber? (t : Text) : Option Binary64 :=
  if t.any (fun c => c = '.' || c = 'e' || c = 'E') then
    (Decimal.ofText? t).bind fun d =>
      match Binary64.ofDecimal d with
      | .finite negative m q => some (.finite negative m q)
      | _ => none
  else none

/-- The normal form of a literal: `0` for `null` and `false`, `1` for `true`,
    the decimal text of a floating point number, and the text itself if it is
    none of these. -/
def normal (t : Text) : Text :=
  if t = "null" ∨ t = "false" then "0"
  else if t = "true" then "1"
  else match t.after? "0x" with
    | some digits => ((bits? digits).map fun b => (Binary64.ofBits b).text).getD t
    | none => ((finiteNumber? t).map Binary64.text).getD t

end LlvmAsm.Literal
