/-!
# Finite doubles as integers times powers of two

A finite double is `± mantissa · 2 ^ exponent`. Rounding to an integer, the
remainder of a division and the total order are computed on this form or on
the bits, exactly, so each is a statement about integers.
-/

namespace StreamTransform.Decimal

/-- The number `± mantissa · 2 ^ exponent`. -/
structure Dyadic where
  negative : Bool
  mantissa : Nat
  exponent : Int
  deriving Repr, DecidableEq

def isFinite (x : Float) : Bool := (x.toBits.toNat / Nat.pow 2 52) % Nat.pow 2 11 != 2047

def isNegative (x : Float) : Bool := x.toBits.toNat / Nat.pow 2 63 == 1

/-- The value of a finite double; the mantissa has at most 53 bits. -/
def toDyadic (x : Float) : Dyadic :=
  let bits := x.toBits.toNat
  let biased : Nat := (bits / Nat.pow 2 52) % Nat.pow 2 11
  let fraction := bits % Nat.pow 2 52
  if biased == 0 then ⟨isNegative x, fraction, -1074⟩
  else ⟨isNegative x, fraction + Nat.pow 2 52, (biased : Int) - 1075⟩

def signed (negative : Bool) (x : Float) : Float := if negative then -x else x

/-- The double with the value of `d`, which has to be a value that a double can hold. -/
def ofDyadic (d : Dyadic) : Float :=
  if d.mantissa == 0 then signed d.negative 0.0
  else
    let width := d.mantissa.log2 + 1
    -- the exponent at which the mantissa has 53 bits, or the least one there is
    let exponent : Int := max (d.exponent + width - 53) (-1074)
    let shift := exponent - d.exponent
    let mantissa :=
      if shift ≤ 0 then d.mantissa * Nat.pow 2 (-shift).toNat
      else d.mantissa / Nat.pow 2 shift.toNat
    let bits :=
      if mantissa < Nat.pow 2 52 then mantissa
      else (exponent + 1075).toNat * Nat.pow 2 52 + (mantissa - Nat.pow 2 52)
    signed d.negative (Float.ofBits (UInt64.ofNat bits))

/-- Rounds the magnitude down or up to an integer; the sign stays, also that of zero. -/
def integerPart (up : Bool) (d : Dyadic) : Float :=
  let unit := Nat.pow 2 (-d.exponent).toNat
  let whole := d.mantissa / unit
  let rest := d.mantissa % unit
  signed d.negative (Float.ofNat (if up && rest != 0 then whole + 1 else whole))

/-- The greatest integer that is not above `x`. -/
def floor (x : Float) : Float :=
  if !isFinite x then x
  else
    let d := toDyadic x
    if 0 ≤ d.exponent then x else integerPart d.negative d

/-- The least integer that is not below `x`. -/
def ceiling (x : Float) : Float :=
  if !isFinite x then x
  else
    let d := toDyadic x
    if 0 ≤ d.exponent then x else integerPart (!d.negative) d

/-- The nearest integer; a half goes up. -/
def round (x : Float) : Float :=
  if isFinite x then floor (x + 0.5) else x

/-- What a division truncated toward zero leaves; it has the sign of the dividend. -/
def remainder (x y : Float) : Float :=
  if x.isNaN || y.isNaN || !isFinite x || y == 0.0 then 0.0 / 0.0
  else if !isFinite y then x
  else
    let a := toDyadic x
    let b := toDyadic y
    let exponent := min a.exponent b.exponent
    let dividend := a.mantissa * Nat.pow 2 (a.exponent - exponent).toNat
    let divisor := b.mantissa * Nat.pow 2 (b.exponent - exponent).toNat
    ofDyadic ⟨a.negative, dividend % divisor, exponent⟩

/-- A key of the total order of doubles: `-0` is below `0`, and a NaN is beyond every number. -/
def orderKey (x : Float) : Int :=
  let bits := x.toBits.toNat
  if bits < Nat.pow 2 63 then (bits : Int) else Int.ofNat (Nat.pow 2 63) - 1 - (bits : Int)

end StreamTransform.Decimal
