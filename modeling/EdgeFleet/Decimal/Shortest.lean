import EdgeFleet.Decimal.Double

/-! The shortest decimal for a double. The search goes from one digit to seventeen over the grid of that many
digits; if a point of a grid reads back, so does one of the value's two neighbours on it. -/
namespace EdgeFleet.Decimal

/-- A decimal: `digits` times ten to the power `exponent`. -/
structure Scientific where
  digits : Nat
  exponent : Int
  deriving DecidableEq

/-- The reals that round to a double, all over a common denominator. -/
structure Interval where
  low : Nat
  value : Nat
  high : Nat
  den : Nat
  closed : Bool

/-- The interval of `m` times two to the power `q`. Below a power of two the doubles lie twice as
close; the ends round to an even significand. -/
def Interval.of (m : Nat) (q : Int) : Interval :=
  -- the lower neighbour of a power of two is half as far away
  let narrow := m = Double.exponentPlace ∧ q ≠ -1074
  let (unit, den) := if 0 ≤ q then (Nat.pow 2 q.toNat, 4) else (1, 4 * Nat.pow 2 (-q).toNat)
  { low := (4 * m - if narrow then 1 else 2) * unit
    value := 4 * m * unit
    high := (4 * m + 2) * unit
    den
    closed := m % 2 = 0 }

/-- Whether `d` times ten to the power `k` lies in the interval. -/
def Interval.holds (i : Interval) (d : Nat) (k : Int) : Bool :=
  let point := d * Nat.pow 10 k.toNat * i.den
  let low := i.low * Nat.pow 10 (-k).toNat
  let high := i.high * Nat.pow 10 (-k).toNat
  if i.closed then low ≤ point && point ≤ high else low < point && point < high

/-- The distance of `d` times ten to the power `k` from the value, over a denominator that depends
on `k` alone. -/
def Interval.distance (i : Interval) (d : Nat) (k : Int) : Nat :=
  let point := d * Nat.pow 10 k.toNat * i.den
  let value := i.value * Nat.pow 10 (-k).toNat
  (point - value) + (value - point)

/-- The value's neighbour below on the grid of ten to the power `k`. -/
def Interval.floor (i : Interval) (k : Int) : Nat :=
  i.value * Nat.pow 10 (-k).toNat / (i.den * Nat.pow 10 k.toNat)

/-- The point of the grid that reads back, the nearer one of two, the even one of a tie. -/
def Interval.onGrid? (i : Interval) (k : Int) : Option Nat :=
  let below := i.floor k
  let above := below + 1
  match below ≠ 0 && i.holds below k, i.holds above k with
  | true, true =>
    let a := i.distance below k
    let b := i.distance above k
    some (if a < b || (a == b && below % 2 == 0) then below else above)
  | true, false => some below
  | false, true => some above
  | false, false => none

/-- The first grid from `k` down that has a point which reads back. -/
def Interval.search (i : Interval) : Nat → Int → Scientific
  | 0, k => ⟨i.floor k, k⟩
  | fuel + 1, k =>
    match i.onGrid? k with
    | some d => ⟨d, k⟩
    | none => i.search fuel (k - 1)

/-- Moves the zeros at the end of the digits into the exponent. -/
def Scientific.normal : Nat → Scientific → Scientific
  | 0, s => s
  | fuel + 1, s =>
    if s.digits ≠ 0 ∧ s.digits % 10 = 0 then
      Scientific.normal fuel ⟨s.digits / 10, s.exponent + 1⟩
    else s

/-- An exponent of ten whose power exceeds the value: the value is below `2 ^ bits`, and the common
logarithm of two lies between `3 / 10` and `4 / 13`. -/
def startExponent (m : Nat) (q : Int) : Int :=
  let bits := (Nat.log2 m : Int) + 1 + q
  if 0 ≤ bits then bits * 4 / 13 + 1 else Int.fdiv (bits * 3) 10 + 1

/-- The shortest decimal for a positive finite double. -/
def shortest (x : Double) : Scientific :=
  let (m, q) := x.scaled
  Scientific.normal 20 ((Interval.of m q).search 40 (startExponent m q))

end EdgeFleet.Decimal
