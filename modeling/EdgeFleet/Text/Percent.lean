import EdgeFleet.Text.Utf8

namespace EdgeFleet.Text.Percent

def hexValue? (b : UInt8) : Option UInt8 :=
  if 0x30 ≤ b && b ≤ 0x39 then some (b - 0x30)
  else if 0x41 ≤ b && b ≤ 0x46 then some (b - 0x37)
  else if 0x61 ≤ b && b ≤ 0x66 then some (b - 0x57)
  else none

/-- The octets with every escape resolved; a malformed escape stays as it is. -/
def unescape : List UInt8 → List UInt8
  | 0x25 :: h :: l :: rest =>
    match hexValue? h, hexValue? l with
    | some x, some y => (x * 16 + y) :: unescape rest
    | _, _ => 0x25 :: unescape (h :: l :: rest)
  | b :: rest => b :: unescape rest
  | [] => []

/-- The text with its escapes resolved, unless that is not UTF-8. -/
def decode? (s : String) : Option String :=
  Utf8.decode? (unescape (Utf8.encode s))

end EdgeFleet.Text.Percent
