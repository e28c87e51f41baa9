/-
  Decimal numbers and their texts.

  * `Decimal` is `± digits · 10 ^ exponent`;
  * `Decimal.ofText?` reads a text in positional or exponent notation;
  * `Decimal.positional` writes a number without an exponent, with a point
    only if there are digits behind it.
-/
import LlvmAsm.Text

namespace LlvmAsm

/-- The number `± digits · 10 ^ exponent`; the sign counts for zero too. -/
structure Decimal where
  negative : Bool
  digits : Nat
  exponent : Int
deriving DecidableEq, Repr

namespace Decimal

/-! ## Reading -/

/-- The value of a run of the digits `0` to `9`. -/
def digitsValue (ds : Text) : Nat := ds.foldl (fun n c => 10 * n + (c.toNat - '0'.toNat)) 0

/-- The sign that the text begins with, if any: true for `-`. -/
def sign : Text → Bool × Text
  | '-' :: t => (true, t)
  | '+' :: t => (false, t)
  | t => (false, t)

/-- An exponent part: nothing at all, or `e` or `E`, a sign if wanted, and
    digits up to the end of the text. -/
def exponentPart? : Text → Option Int
  | [] => some 0
  | c :: t =>
    if c = 'e' ∨ c = 'E' then
      let (negative, ds) := sign t
      if ds ≠ [] ∧ ds.all Char.isDigit then
        some (if negative then -(digitsValue ds : Int) else digitsValue ds)
      else none
    else none

/-- The number that a text denotes: a sign if wanted, digits with at most one
    point before, among or after them, and an exponent part. -/
def ofText? (t : Text) : Option Decimal :=
  let (negative, t) := sign t
  let whole := t.takeWhile Char.isDigit
  let (fraction, t) := match t.dropWhile Char.isDigit with
    | '.' :: t => (t.takeWhile Char.isDigit, t.dropWhile Char.isDigit)
    | t => ([], t)
  if whole = [] ∧ fraction = [] then none
  else
    (exponentPart? t).map fun e =>
      ⟨negative, digitsValue (whole ++ fraction), e - fraction.length⟩

/-! ## Writing -/

/-- Positional notation: zeros fill the places between the digits and the
    point, and the point is written only before digits. -/
def positional (d : Decimal) : Text :=
  let ds := Text.ofNat d.digits
  let magnitude :=
    if d.exponent ≥ 0 then ds ++ List.replicate d.exponent.toNat '0'
    else
      let places := (-d.exponent).toNat
      let padded := List.replicate (places + 1 - ds.length) '0' ++ ds
      padded.take (padded.length - places) ++ '.' :: padded.drop (padded.length - places)
  if d.negative then '-' :: magnitude else magnitude

end Decimal

end LlvmAsm
