import Mos6502.Decimal.Shortest

/-!
Numbers. A numeral is a number as it stands in a text; it stands for an integer if it has neither a
fraction nor an exponent and fits into 64 bits, and for a floating point number otherwise.

A floating point number is computed from the digits that fit into 64 bits, first digits first, by
one multiplication with, or division by, a power of ten. That is exact up to a rounding or two, and
a numeral too large for it stands for nothing.
-/

set_option autoImplicit false

namespace Mos6502.Json

/-- A number, told apart by how it is written: with or without a fraction or an exponent. -/
inductive Number where
  | integer (n : Int)
  | real (x : Float)
  deriving Inhabited, Repr

/-- A numeral: its sign, and the digits of its parts. The exponent is signed by itself. -/
structure Numeral where
  negative : Bool
  whole : List Nat
  fraction : List Nat
  exponent : Option (Bool × List Nat)
  deriving DecidableEq, Repr

/-- Appends digits to a number as long as it fits in 64 bits; also counts the digits left
over. -/
def gatherDigits : List Nat → Nat → Nat × Nat
  | [], n => (n, 0)
  | d :: ds, n =>
    if n * 10 + d < UInt64.size then gatherDigits ds (n * 10 + d) else (n, ds.length + 1)

/-- A number times a power of ten; nothing if it is too large. Powers below `10 ^ -308` are taken in
steps. -/
def timesPowerOfTen (x : Float) (exponent : Int) : Option Float :=
  if 308 < exponent then
    if x == 0 then some x else none
  else if 0 ≤ exponent then
    let product := x * Float.ofScientific 1 false exponent.toNat
    if product.isInf then none else some product
  else if -308 ≤ exponent then some (x / Float.ofScientific 1 false exponent.natAbs)
  else if x == 0 then some x
  else timesPowerOfTen (x / 1e308) (exponent + 308)
termination_by exponent.natAbs
decreasing_by omega

namespace Numeral

/-- What a numeral with a fraction or an exponent, or with too many digits, stands for, without its
sign: the significand gathered so far is carried on into the fraction, and each digit left over
before the point counts as a power of ten. -/
def magnitude? (n : Numeral) (significand left : Nat) : Option Float :=
  let (significand, skipped) := gatherDigits n.fraction significand
  let shift : Int := left - (n.fraction.length - skipped : Nat)
  let x := (UInt64.ofNat significand).toFloat
  match n.exponent with
  | none => timesPowerOfTen x shift
  | some (negative, digits) =>
    let exponent : Nat := digits.foldl (fun e d ↦ e * 10 + d) 0
    if exponent < 0x80000000 then
      timesPowerOfTen x (if negative then shift - (exponent : Int) else shift + exponent)
    else if significand = 0 ∨ negative then some 0
    else none

/-- What a numeral stands for; nothing if it is too large. Minus zero is no integer. -/
def value? (n : Numeral) : Option Number :=
  let (significand, left) := gatherDigits n.whole 0
  let sign (x : Float) : Float := if n.negative then -x else x
  if left = 0 ∧ n.fraction = [] ∧ n.exponent = none then
    if !n.negative then some (.integer significand)
    else if significand = 0 ∨ 0x8000000000000000 < significand then
      some (.real (sign (UInt64.ofNat significand).toFloat))
    else some (.integer (-significand))
  else (n.magnitude? significand left).map fun x ↦ .real (sign x)

end Numeral

/-- How floating point numbers are written in messages: with the fewest digits that identify them
and always with a point, positionally if the first digit stands for `10 ^ -5` or more and for less
than `10 ^ 16`, and otherwise with a signed exponent. -/
def realText (x : Float) : String :=
  let sign := if x.toBits.toNat < 0x8000000000000000 then "" else "-"
  let zeros (n : Int) : String := String.ofList (List.replicate n.toNat '0')
  let text :=
    if x == 0 then "0.0"
    else
      let decimal := Decimal.shortest x
      let digits := Nat.toDigits 10 decimal.digits
      let point := decimal.exponent + digits.length
      if 0 ≤ decimal.exponent ∧ point ≤ 16 then
        String.ofList digits ++ zeros decimal.exponent ++ ".0"
      else if 0 < point ∧ point ≤ 16 then
        String.ofList (digits.take point.toNat) ++ "." ++ String.ofList (digits.drop point.toNat)
      else if -5 < point ∧ point ≤ 0 then
        "0." ++ zeros (-point) ++ String.ofList digits
      else
        let fraction := if digits.length = 1 then "" else "." ++ String.ofList (digits.drop 1)
        let exponent := point - 1
        let mark := if exponent < 0 then "e" else "e+"
        String.ofList (digits.take 1) ++ fraction ++ mark ++ toString exponent
  sign ++ text


end Mos6502.Json
