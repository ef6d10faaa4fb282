import StreamTransform.Decimal.Shortest
import StreamTransform.Text.Blank
import StreamTransform.Text.Letter

/-!
# Numerals

The text of a number is always positional and has no exponent. `display` also
writes the sign of zero and short names of the infinities; `write` is what
paths convert a number to. `read` accepts the reverse grammar only: an optional
minus, ASCII digits and at most one point, between blanks. Everything else
reads as NaN.
-/

namespace StreamTransform.Decimal

/-- The digits without exponent, with a point only where a fraction follows. -/
def positional (d : Digits) : String :=
  let ds := Nat.toDigits 10 d.digits
  let text :=
    if 0 ≤ d.exponent then ds ++ List.replicate d.exponent.toNat '0'
    else
      let places := (-d.exponent).toNat
      if ds.length > places then ds.take (ds.length - places) ++ '.' :: ds.drop (ds.length - places)
      else '0' :: '.' :: List.replicate (places - ds.length) '0' ++ ds
  String.ofList text

/-- The numeral of a finite double other than zero. -/
def finiteText (x : Float) : String :=
  let d := toDyadic x
  (if d.negative then "-" else "") ++ positional (shortest d)

/-- The text of a number in reports. -/
def display (x : Float) : String :=
  if x.isNaN then "NaN"
  else if !isFinite x then if isNegative x then "-inf" else "inf"
  else if x == 0.0 then if isNegative x then "-0" else "0"
  else finiteText x

/-- The text that a number converts to. -/
def write (x : Float) : String :=
  if x.isNaN then "NaN"
  else if !isFinite x then if isNegative x then "-Infinity" else "Infinity"
  else if x == 0.0 then "0"
  else finiteText x

/-- Digits and points of a numeral under way: the value of the digits, how many there were, how
many of them followed a point, and how many points. -/
structure Tally where
  value : Nat
  digits : Nat
  places : Nat
  points : Nat

/-- Counts the characters of an unsigned numeral; any other character ends the attempt. -/
def Tally.count? (t : Tally) : List Char → Option Tally
  | [] => some t
  | c :: r =>
    if Text.isAsciiDigit c then
      count? { t with
        value := 10 * t.value + (c.toNat - '0'.toNat)
        digits := t.digits + 1
        places := if t.points == 0 then t.places else t.places + 1 } r
    else if c == '.' then count? { t with points := t.points + 1 } r
    else none

/-- The value of an unsigned numeral with at least one digit and at most one point. -/
def unsigned? (cs : List Char) : Option Float :=
  match Tally.count? ⟨0, 0, 0, 0⟩ cs with
  | some t =>
    if t.digits == 0 || t.points > 1 then none
    else some (Float.ofScientific t.value true t.places)
  | none => none

def nan : Float := 0.0 / 0.0

/-- The number that a text converts to. -/
def read (s : String) : Float :=
  match Text.trim s.toList with
  | '-' :: r =>
    match unsigned? r with
    | some x => -x
    | none => nan
  | cs => (unsigned? cs).getD nan

end StreamTransform.Decimal
