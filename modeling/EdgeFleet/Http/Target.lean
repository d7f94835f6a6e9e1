import EdgeFleet.Text.Utf8

namespace EdgeFleet.Http

def isPathOctet (b : UInt8) : Bool :=
  b == 0x21 || b == 0x22 || (0x24 ≤ b && b ≤ 0x3B) || b == 0x3D || (0x40 ≤ b && b ≤ 0x5F) ||
    (0x61 ≤ b && b ≤ 0x7E) || 0x80 ≤ b

def isQueryOctet (b : UInt8) : Bool :=
  b == 0x21 || (0x24 ≤ b && b ≤ 0x3B) || b == 0x3D || (0x3F ≤ b && b ≤ 0x7E) || 0x80 ≤ b

/-- Whether the octet may stand in an authority, a percent sign aside. -/
def isAuthorityOctet (b : UInt8) : Bool :=
  b == 0x21 || b == 0x24 || (0x26 ≤ b && b ≤ 0x2E) || (0x30 ≤ b && b ≤ 0x3B) || b == 0x3D ||
    (0x40 ≤ b && b ≤ 0x5B) || b == 0x5D || b == 0x5F || (0x61 ≤ b && b ≤ 0x7A) || b == 0x7E

/-- The path of a target that starts with it: the octets before a question mark or a number sign, if
they and the query behind them are well-formed. -/
def pathOf? (octets : List UInt8) : Option (List UInt8) :=
  let beforeFragment := octets.takeWhile (· != 0x23)
  let path := beforeFragment.takeWhile (· != 0x3F)
  let query := (beforeFragment.drop path.length).drop 1
  if path.all isPathOctet && query.all isQueryOctet then some path else none

/-- What has been seen of an authority: colons and a percent sign since the last bracket or at sign,
the brackets, and whether an at sign came last. -/
structure AuthorityScan where
  colons : Nat := 0
  percent : Bool := false
  opened : Bool := false
  closed : Bool := false
  endsInAt : Bool := false

def AuthorityScan.step (s : AuthorityScan) (b : UInt8) : Option AuthorityScan :=
  let s' := { s with endsInAt := false }
  -- a colon, brackets, an at sign and a percent sign count; the rest must be allowed
  if b = 0x3A then if 8 ≤ s.colons then none else some { s' with colons := s.colons + 1 }
  else if b = 0x5B then if s.percent || s.opened then none else some { s' with opened := true }
  else if b = 0x5D then
    if !s.opened || s.closed then none
    else some { s' with closed := true, colons := 0, percent := false }
  else if b = 0x40 then some { s' with colons := 0, percent := false, endsInAt := true }
  else if b = 0x25 then some { s' with percent := true }
  else if isAuthorityOctet b then some s'
  else none

/-- The octets of an authority at the start and what follows it. -/
def splitAuthority (octets : List UInt8) : List UInt8 × List UInt8 :=
  octets.span fun b => b != 0x2F && b != 0x3F && b != 0x23

def isAuthority (octets : List UInt8) : Bool :=
  match octets.foldlM (fun s b => s.step b) ({} : AuthorityScan) with
  | none => false
  | some s => s.opened == s.closed && s.colons ≤ 1 && !s.endsInAt && !s.percent

def isSchemeOctet (b : UInt8) : Bool :=
  b == 0x2B || b == 0x2D || b == 0x2E || (0x30 ≤ b && b ≤ 0x39) || (0x41 ≤ b && b ≤ 0x5A) ||
    (0x61 ≤ b && b ≤ 0x7A) || b == 0x7E

/-- What follows a scheme, a colon and two slashes. The outer nothing says that there is no scheme,
the inner one that it is too long. -/
def afterScheme? (octets : List UInt8) : Option (Option (List UInt8)) :=
  let scheme := octets.takeWhile isSchemeOctet
  match octets.drop scheme.length with
  | 0x3A :: 0x2F :: 0x2F :: rest => some (if 64 < scheme.length then none else some rest)
  | _ => none

/-- The greatest length of a target. -/
def maxTarget : Nat := 65534

/-- The path of a target, empty for an authority alone; nothing if the target is malformed. -/
def targetPath? (octets : List UInt8) : Option (List UInt8) :=
  if maxTarget < octets.length then none
  else match octets with
  | [] => none
  | [0x2A] => some [0x2A]
  | 0x2F :: _ => pathOf? octets
  | _ =>
    match afterScheme? octets with
    | some none => none
    | some (some rest) =>
      let (authority, rest) := splitAuthority rest
      if authority = [] || !isAuthority authority then none
      else (pathOf? rest).map fun path => if path = [] then [0x2F] else path
    | none => if isAuthority octets && (splitAuthority octets).2 = [] then some [] else none

end EdgeFleet.Http
