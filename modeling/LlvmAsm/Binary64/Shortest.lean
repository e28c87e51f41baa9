/-
  The shortest decimal number that reads back as a given binary one.

  The numbers that round to `m · 2 ^ q` form an interval around it, with its
  ends if `m` is even. Of all decimal numbers in the interval, `shortest`
  takes one with the fewest digits, and of these the nearest; at a tie, the
  greater one. It looks at the grids of the multiples of `10 ^ k` from coarse
  to fine: if a point of a grid lies in the interval then one of the two
  neighbours of `m · 2 ^ q` on that grid does, so two tests per grid are
  enough.

  `Binary64.text` writes the number so found in positional notation.
-/
import LlvmAsm.Binary64

namespace LlvmAsm.Binary64

/-- The interval of the numbers that round to `middle`, all in multiples of
    the unit `num / den`. -/
structure Interval where
  low : Nat
  middle : Nat
  high : Nat
  /-- the ends of the interval belong to it -/
  closed : Bool
  num : Nat
  den : Nat

/-- The interval of `m · 2 ^ q`. The unit is a quarter of `2 ^ q`: the lower
    end is half as far away where a smaller exponent begins. -/
def interval (m : Nat) (q : Int) : Interval where
  low := if m = Nat.pow 2 52 ∧ q ≠ -1074 then 4 * m - 1 else 4 * m - 2
  middle := 4 * m
  high := 4 * m + 2
  closed := m % 2 = 0
  num := Nat.pow 2 (q - 2).toNat
  den := Nat.pow 2 (2 - q).toNat

/-- The greatest `e` with `10 ^ e ≤ num / den`, for positive numbers. -/
def decade (num den : Nat) : Int :=
  if den ≤ num then (Text.ofNat (num / den)).length - 1
  else
    let places := (Text.ofNat (den / num)).length
    if den ≤ num * Nat.pow 10 (places - 1) then 1 - (places : Int) else -(places : Int)

/-- The better one of the two neighbours of the middle among the multiples of
    `10 ^ k`, if one of them lies in the interval. -/
def Interval.onGrid? (i : Interval) (k : Int) : Option Nat :=
  let scale := i.num * Nat.pow 10 (-k).toNat
  let step := i.den * Nat.pow 10 k.toNat
  let below := i.middle * scale / step
  let inside (a b : Nat) : Bool := a < b || i.closed && a == b
  let lower := inside (i.low * scale) (below * step)
  let upper := inside ((below + 1) * step) (i.high * scale)
  let excess := i.middle * scale % step
  match lower, upper with
  | true, true => some (if 2 * excess < step then below else below + 1)
  | true, false => some below
  | false, true => some (below + 1)
  | false, false => none

/-- Looks at `tries` grids, each ten times finer than the one before, and takes
    the first one with a point in the interval. -/
def Interval.search (i : Interval) : (tries : Nat) → (k : Int) → Nat × Int
  | 0, k => ((i.onGrid? k).getD 0, k)
  | tries + 1, k =>
    match i.onGrid? k with
    | some d => (d, k)
    | none => i.search tries (k - 1)

/-- The shortest decimal number that reads back as `± m · 2 ^ q`. The first grid
    is ten times coarser than the first digit, since a power of ten above the
    number may lie in the interval; seventeen digits are always enough. -/
def shortest (negative : Bool) (m : Nat) (q : Int) : Decimal :=
  if m = 0 then ⟨negative, 0, 0⟩
  else
    let i := interval m q
    let (digits, exponent) := i.search 17 (decade (i.middle * i.num) i.den + 1)
    ⟨negative, digits, exponent⟩

/-- The text of a number: the shortest decimal that reads back, in positional
    notation. -/
def text : Binary64 → Text
  | nan => "NaN"
  | infinite negative => if negative then "-inf" else "inf"
  | finite negative m q => (shortest negative m q).positional

end LlvmAsm.Binary64
