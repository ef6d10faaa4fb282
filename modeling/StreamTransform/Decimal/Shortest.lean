import StreamTransform.Decimal.Binary64

/-!
# The fewest digits that read back

The reals that round to a finite positive double form an interval; its ends
belong to it when the mantissa is even. On the grid of multiples of a power of
ten only the two neighbours of the double can be the nearest hit. The coarsest
grid with a hit gives the fewest digits; of two hits the nearer is taken and an
exact tie goes up.
-/

namespace StreamTransform.Decimal

/-- The natural number `digits` times `10 ^ exponent`. -/
structure Digits where
  digits : Nat
  exponent : Int
  deriving Repr, DecidableEq

/-- A double and the ends of its interval, as multiples of one unit `num / den`. -/
structure Interval where
  low : Nat
  value : Nat
  high : Nat
  closed : Bool
  num : Nat
  den : Nat

/-- The interval of a positive finite double, in quarters of its last place. -/
def Interval.ofDyadic (d : Dyadic) : Interval :=
  let unit := d.exponent - 2
  let m := d.mantissa
  -- below a power of two the doubles lie twice as dense
  let below := if m == Nat.pow 2 52 && d.exponent > -1074 then 1 else 2
  { low := 4 * m - below
    value := 4 * m
    high := 4 * m + 2
    closed := m % 2 == 0
    num := if 0 ≤ unit then Nat.pow 2 unit.toNat else 1
    den := if 0 ≤ unit then 1 else Nat.pow 2 (-unit).toNat }

/-- Whether `point / scale` of the interval's units lies in it. -/
def Interval.holds (i : Interval) (point scale : Nat) : Bool :=
  if i.closed then i.low * scale ≤ point && point ≤ i.high * scale
  else i.low * scale < point && point < i.high * scale

/-- The nearer neighbour of the value on the grid of multiples of `10 ^ k` that lies in the
interval. -/
def Interval.hit? (i : Interval) (k : Int) : Option Nat :=
  -- one step of the grid is `step / scale` units
  let step := (if 0 ≤ k then Nat.pow 10 k.toNat else 1) * i.den
  let scale := (if 0 ≤ k then 1 else Nat.pow 10 (-k).toNat) * i.num
  let below := i.value * scale / step
  let above := below + 1
  let gapBelow := i.value * scale - below * step
  let gapAbove := above * step - i.value * scale
  match i.holds (below * step) scale, i.holds (above * step) scale with
  | true, true => some (if gapBelow < gapAbove then below else above)
  | true, false => some below
  | false, true => some above
  | false, false => none

/-- The first hit on grids that grow finer from `10 ^ k`. -/
def Interval.search (i : Interval) : Nat → Int → Digits
  | 0, k => ⟨0, k⟩
  | n + 1, k =>
    match i.hit? k with
    | some digits => ⟨digits, k⟩
    | none => i.search n (k - 1)

/-- The digits of a positive finite double. Twenty-two grids are enough: the first lies at most
two powers of ten above the value, and the seventeenth digit always hits. -/
def shortest (d : Dyadic) : Digits :=
  let bits : Int := d.mantissa.log2 + 1 + d.exponent
  (Interval.ofDyadic d).search 22 (bits * 30103 / 100000 + 1)

end StreamTransform.Decimal
