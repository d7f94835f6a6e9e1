import EdgeFleet.Text.Numeral

namespace EdgeFleet

/-- An address. -/
structure Ipv4 where
  a : UInt8
  b : UInt8
  c : UInt8
  d : UInt8
  deriving DecidableEq

namespace Ipv4

/-- The number of up to three digits at the start, below 256 and without a leading zero. -/
def octet? (cs : List Char) : Option (UInt8 × List Char) :=
  let digits := cs.takeWhile Text.Numeral.isDigit
  let n := Text.Numeral.value digits
  if digits = [] ∨ 3 < digits.length ∨ 255 < n then none
  else if digits.head? = some '0' ∧ digits ≠ ['0'] then none
  else some (n.toUInt8, cs.drop digits.length)

def pointOctet? : List Char → Option (UInt8 × List Char)
  | '.' :: rest => octet? rest
  | _ => none

def ofChars? (cs : List Char) : Option Ipv4 := do
  let (a, cs) ← octet? cs
  let (b, cs) ← pointOctet? cs
  let (c, cs) ← pointOctet? cs
  let (d, cs) ← pointOctet? cs
  if cs = [] then some ⟨a, b, c, d⟩ else none

def parse? (s : String) : Option Ipv4 := ofChars? s.toList

def chars (x : Ipv4) : List Char :=
  Nat.toDigits 10 x.a.toNat ++ '.' :: Nat.toDigits 10 x.b.toNat ++
    '.' :: Nat.toDigits 10 x.c.toNat ++ '.' :: Nat.toDigits 10 x.d.toNat

def render (x : Ipv4) : String := String.ofList x.chars

end Ipv4

end EdgeFleet
