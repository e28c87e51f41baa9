/-
  Binary floating point numbers of 64 bits.

  * `Binary64` is a number, an infinity or no number, with the finite ones in
    the form `± mantissa · 2 ^ exponent`;
  * `Binary64.ofBits` decodes the 64 bits of the interchange format;
  * `Binary64.ofDecimal` rounds a decimal number to the nearest one, to the
    even neighbour at a tie.
-/
import LlvmAsm.Decimal

namespace LlvmAsm

/-- A binary floating point number of 64 bits. -/
inductive Binary64 where
  /-- no number -/
  | nan
  /-- an infinity -/
  | infinite (negative : Bool)
  /-- `± mantissa · 2 ^ exponent`, with a mantissa of 53 bits, or less at the
      least exponent `-1074` -/
  | finite (negative : Bool) (mantissa : Nat) (exponent : Int)
deriving DecidableEq, Repr

namespace Binary64

/-- The number with the given bits: one for the sign, eleven for the exponent,
    52 for the fraction. -/
def ofBits (bits : Nat) : Binary64 :=
  let negative := bits / Nat.pow 2 63 % 2 == 1
  let biased : Nat := bits / Nat.pow 2 52 % Nat.pow 2 11
  let fraction : Nat := bits % Nat.pow 2 52
  if biased = 2047 then
    if fraction = 0 then infinite negative else nan
  else if biased = 0 then finite negative fraction (-1074)
  else finite negative (Nat.pow 2 52 + fraction) ((biased : Int) - 1075)

/-- The quotient of two natural numbers rounded to the nearest one, to the even
    one at a tie. -/
def roundDiv (num den : Nat) : Nat :=
  let quotient := num / den
  let twice := 2 * (num % den)
  if twice > den ∨ twice = den ∧ quotient % 2 = 1 then quotient + 1 else quotient

/-- The greatest `e` with `2 ^ e ≤ num / den`, for positive numbers. -/
def binade (num den : Nat) : Int :=
  let e : Int := (num.log2 : Int) - den.log2
  if den * Nat.pow 2 e.toNat ≤ num * Nat.pow 2 (-e).toNat then e else e - 1

/-- The number nearest to `± num / den`, an infinity from `2 ^ 1024` on. -/
def ofRatio (negative : Bool) (num den : Nat) : Binary64 :=
  if num = 0 then finite negative 0 (-1074)
  else
    let exponent := max (binade num den - 52) (-1074)
    let mantissa := roundDiv (num * Nat.pow 2 (-exponent).toNat) (den * Nat.pow 2 exponent.toNat)
    let (mantissa, exponent) :=
      if mantissa = Nat.pow 2 53 then (Nat.pow 2 52, exponent + 1) else (mantissa, exponent)
    if exponent > 971 then infinite negative else finite negative mantissa exponent

/-- The number nearest to a decimal one. Beyond 400 places before or behind the
    point the answer is an infinity or zero whatever the digits are, so no such
    power of ten is computed. -/
def ofDecimal (d : Decimal) : Binary64 :=
  let places : Int := (Text.ofNat d.digits).length + d.exponent
  if d.digits = 0 ∨ places < -400 then finite d.negative 0 (-1074)
  else if places > 400 then infinite d.negative
  else ofRatio d.negative (d.digits * Nat.pow 10 d.exponent.toNat) (Nat.pow 10 (-d.exponent).toNat)

end Binary64

end LlvmAsm
