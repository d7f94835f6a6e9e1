namespace EdgeFleet.Decimal

/-- A binary64 number: the sign bit, eleven bits of exponent and 52 bits of significand. -/
structure Double where
  bits : UInt64
  deriving DecidableEq, Inhabited

namespace Double

def signPlace : Nat := 0x8000000000000000

/-- The place value of the exponent's last bit, which is how many significands there are to each
exponent. -/
def exponentPlace : Nat := 0x10000000000000

def isNegative (x : Double) : Bool :=
  signPlace ≤ x.bits.toNat

/-- The bits without the sign. -/
def magnitudeBits (x : Double) : Nat :=
  x.bits.toNat % signPlace

/-- Whether the number is zero of either sign. -/
def isZero (x : Double) : Bool :=
  x.magnitudeBits == 0

def neg (x : Double) : Double :=
  ⟨x.bits ^^^ 0x8000000000000000⟩

/-- The magnitude of a finite number as `m` times two to the power `q`. -/
def scaled (x : Double) : Nat × Int :=
  let exponent : Nat := x.magnitudeBits / exponentPlace
  let fraction : Nat := x.magnitudeBits % exponentPlace
  if exponent = 0 then (fraction, -1074) else (exponentPlace + fraction, (exponent : Int) - 1075)

/-- Zero without a sign. -/
def zero : Double := ⟨0⟩

/-- Whether two finite numbers are equal: zeros are, whatever their signs. -/
def same (x y : Double) : Bool :=
  x == y || (x.isZero && y.isZero)

/-- The quotient rounded to the nearest integer, a tie to the even one. -/
def roundDiv (num den : Nat) : Nat :=
  let quotient := num / den
  let twice := 2 * (num % den)
  if den < twice || (twice == den && quotient % 2 == 1) then quotient + 1 else quotient

/-- A ratio divided by two to the power `q`. -/
def shiftRatio (num den : Nat) (q : Int) : Nat × Nat :=
  if 0 ≤ q then (num, den * Nat.pow 2 q.toNat) else (num * Nat.pow 2 (-q).toNat, den)

/-- The exponent at which the ratio has 53 bits before its point, at least the smallest one. -/
def ratioExponent (num den : Nat) : Int :=
  let guess := (Nat.log2 num : Int) - Nat.log2 den - 52
  -- the logarithms are rounded down, so the guess is right or one too great
  let (n, d) := shiftRatio num den guess
  let exact := if n / d < exponentPlace then guess - 1 else guess
  max exact (-1074)

/-- The double nearest to `num / den`, or nothing beyond the greatest one; `den` is positive. -/
def ofRatio? (num den : Nat) : Option Double :=
  if num = 0 then some zero
  else
    let q := ratioExponent num den
    let (n, d) := shiftRatio num den q
    -- a significand that rounds up to the next power of two carries into the exponent
    let bits := (q + 1074).toNat * exponentPlace + roundDiv n d
    if bits < 0x7FF * exponentPlace then some ⟨bits.toUInt64⟩ else none

/-- The double nearest to a number of 64 bits. -/
def ofNat (n : Nat) : Double :=
  (ofRatio? n 1).getD zero

/-- The product of two magnitudes, rounded; nothing beyond the greatest double. -/
def mul? (x y : Double) : Option Double :=
  let (m, p) := x.scaled
  let (n, q) := y.scaled
  let (num, den) := shiftRatio (m * n) 1 (-(p + q))
  ofRatio? num den

/-- The quotient of two magnitudes, rounded; `y` is not zero. -/
def div? (x y : Double) : Option Double :=
  let (m, p) := x.scaled
  let (n, q) := y.scaled
  let (num, den) := shiftRatio m n (q - p)
  ofRatio? num den

/-- Ten to a power of at most 308, rounded. -/
def powerOfTen (k : Nat) : Double :=
  (ofRatio? (Nat.pow 10 k) 1).getD zero

/-- Divides by powers of ten of at most 308 digits at a time, rounding after each. -/
def scaleDown (x : Double) (k : Nat) : Double :=
  if h : k ≤ 308 then (x.div? (powerOfTen k)).getD zero
  else if x.isZero then x
  else scaleDown ((x.div? (powerOfTen 308)).getD zero) (k - 308)
termination_by k

/-- The double for `significand` times ten to the power `exponent`. The significand and the power
are rounded first and their product or quotient again; nothing beyond the greatest double. -/
def ofDecimal? (significand : Nat) (exponent : Int) : Option Double :=
  let x := ofNat significand
  if 0 ≤ exponent then
    if exponent ≤ 308 then x.mul? (powerOfTen exponent.toNat)
    else if x.isZero then some x else none
  else some (x.scaleDown (-exponent).toNat)

end Double

end EdgeFleet.Decimal
