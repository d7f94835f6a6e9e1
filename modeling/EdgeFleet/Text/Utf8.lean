namespace EdgeFleet.Text.Utf8

/-- The mark that stands for octets which are not UTF-8. -/
def replacement : Char := '\uFFFD'

/-- The number of octets that must follow a first octet, and the range of the next one. -/
def lead? (b : UInt8) : Option (Nat × UInt8 × UInt8) :=
  if b ≤ 0x7F then some (0, 0x80, 0xBF)
  else if 0xC2 ≤ b && b ≤ 0xDF then some (1, 0x80, 0xBF)
  else if b = 0xE0 then some (2, 0xA0, 0xBF)
  else if b = 0xED then some (2, 0x80, 0x9F)
  else if 0xE1 ≤ b && b ≤ 0xEF then some (2, 0x80, 0xBF)
  else if b = 0xF0 then some (3, 0x90, 0xBF)
  else if 0xF1 ≤ b && b ≤ 0xF3 then some (3, 0x80, 0xBF)
  else if b = 0xF4 then some (3, 0x80, 0x8F)
  else none

/-- The bits that a first octet contributes to its character. -/
def leadBits (b : UInt8) (tails : Nat) : Nat :=
  match tails with
  | 0 => b.toNat
  | 1 => b.toNat % 32
  | 2 => b.toNat % 16
  | _ => b.toNat % 8

/-- A character under construction: the octets it still needs, the range of the next one and the
bits so far. -/
structure Partial where
  missing : Nat
  low : UInt8
  high : UInt8
  bits : Nat

/-- The character that starts at `b`, or an owed one, or nothing. -/
def start (b : UInt8) : Except Unit (Char ⊕ Partial) :=
  match lead? b with
  | none => .error ()
  | some (0, _, _) => .ok (.inl (Char.ofNat b.toNat))
  | some (n + 1, low, high) => .ok (.inr ⟨n + 1, low, high, leadBits b (n + 1)⟩)

/-- Reads octets after `owed`, the character under construction, with `mark` for what is invalid. -/
def markedFrom (mark : List Char) : Option Partial → List UInt8 → List Char
  | none, [] => []
  | some _, [] => mark
  | none, b :: rest =>
    match start b with
    | .error _ => mark ++ markedFrom mark none rest
    | .ok (.inl c) => c :: markedFrom mark none rest
    | .ok (.inr p) => markedFrom mark (some p) rest
  | some p, b :: rest =>
    if p.low ≤ b && b ≤ p.high then
      let bits := p.bits * 64 + b.toNat % 64
      if p.missing ≤ 1 then Char.ofNat bits :: markedFrom mark none rest
      else markedFrom mark (some ⟨p.missing - 1, 0x80, 0xBF, bits⟩) rest
    else
      -- the part before `b` gives one mark, and `b` starts anew
      match start b with
      | .error _ => mark ++ mark ++ markedFrom mark none rest
      | .ok (.inl c) => mark ++ c :: markedFrom mark none rest
      | .ok (.inr q) => mark ++ markedFrom mark (some q) rest

def lossy (octets : List UInt8) : String :=
  String.ofList (markedFrom [replacement] none octets)

def encode (s : String) : List UInt8 :=
  s.toUTF8.toList

def decode? (octets : List UInt8) : Option String :=
  String.fromUTF8? ⟨octets.toArray⟩

end EdgeFleet.Text.Utf8
