/-!
The fewest decimal digits that identify a floating point number. A finite number stands for the
interval of reals that round to it; a decimal identifies it if it lies in that interval. The
coarsest decimal grid with a point in the interval gives the digits, and of its points the one
nearest to the number. All comparisons are between natural numbers.
-/

set_option autoImplicit false

namespace Mos6502

/-- A positive decimal: `digits * 10 ^ exponent`. -/
structure Decimal where
  digits : Nat
  exponent : Int
  deriving DecidableEq, Repr

/-- An interval of positive reals and a point in it, as fractions of one denominator. -/
structure Interval where
  low : Nat
  point : Nat
  high : Nat
  denominator : Nat
  /-- Whether the two ends belong to the interval. -/
  closed : Bool
  deriving Repr

namespace Interval

/-- The interval in units of a power of ten. -/
def scale (i : Interval) (exponent : Int) : Interval :=
  if 0 ≤ exponent then { i with denominator := i.denominator * Nat.pow 10 exponent.toNat }
  else
    let factor := Nat.pow 10 (-exponent).toNat
    { i with low := i.low * factor, point := i.point * factor, high := i.high * factor }

/-- Whether a natural number lies in the interval. -/
def contains (i : Interval) (n : Nat) : Bool :=
  let n := n * i.denominator
  if i.closed then i.low ≤ n && n ≤ i.high else i.low < n && n < i.high

/-- The natural number in the interval that is nearest to its point, the even one of two that are
equally near. Only the two neighbours of the point are looked at. -/
def nearest? (i : Interval) : Option Nat :=
  let below := i.point / i.denominator
  let above := below + 1
  match i.contains below, i.contains above with
  | true, true =>
    let twice := 2 * i.point
    let middle := (below + above) * i.denominator
    if twice < middle || twice == middle && below % 2 == 0 then some below else some above
  | true, false => some below
  | false, true => some above
  | false, false => none

/-- Looks through grids from `10 ^ exponent` down, over at most `count` of them. -/
def coarsest? (i : Interval) (exponent : Int) : Nat → Option Decimal
  | 0 => none
  | count + 1 =>
    match (i.scale exponent).nearest? with
    | some digits => some ⟨digits, exponent⟩
    | none => i.coarsest? (exponent - 1) count

end Interval

namespace Decimal

/-- The reals that round to a positive finite number, given by its bits: halfway to its neighbours
on both sides, with the ends if its significand is even. Below a power of two the gap is half as
wide. -/
def roundingInterval (bits : UInt64) : Interval :=
  let bits := bits.toNat % 0x8000000000000000
  let fraction := bits % 0x10000000000000
  let biased := bits / 0x10000000000000
  let significand := if biased = 0 then fraction else fraction + 0x10000000000000
  let shift := max biased 1
  let factor := if 1077 ≤ shift then Nat.pow 2 (shift - 1077) else 1
  let denominator := if 1077 ≤ shift then 1 else Nat.pow 2 (1077 - shift)
  let down := if fraction = 0 ∧ 1 < biased then 1 else 2
  { low := (4 * significand - down) * factor
    point := 4 * significand * factor
    high := (4 * significand + 2) * factor
    denominator
    closed := significand % 2 == 0 }

/-- The fewest digits that identify a positive finite number. -/
def shortest (x : Float) : Decimal :=
  ((roundingInterval x.toBits).coarsest? 309 640).getD ⟨0, 0⟩

end Decimal

end Mos6502
