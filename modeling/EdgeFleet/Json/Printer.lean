import EdgeFleet.Json.Basic
import EdgeFleet.Decimal.Shortest
import EdgeFleet.Text.Quoted

namespace EdgeFleet.Json

/-- A character inside a text: quotes, backslashes and control characters are escaped. -/
def escapeChar (c : Char) : List Char :=
  if c = '"' then ['\\', '"']
  else if c = '\\' then ['\\', '\\']
  else if c = '\n' then ['\\', 'n']
  else if c = '\r' then ['\\', 'r']
  else if c = '\t' then ['\\', 't']
  else if c = '\x08' then ['\\', 'b']
  else if c = '\x0c' then ['\\', 'f']
  else if c.toNat < 0x20 then
    let digits := Text.hexDigits c.toNat
    ['\\', 'u'] ++ List.replicate (4 - digits.length) '0' ++ digits
  else [c]

def textChars (s : String) : List Char :=
  '"' :: s.toList.flatMap escapeChar ++ ['"']

def integerChars : Int → List Char
  | .ofNat n => Nat.toDigits 10 n
  | .negSucc n => '-' :: Nat.toDigits 10 (n + 1)

/-- The digits `ds` times ten to the power `exponent`, written with a point between the places 1e-5
and 1e16 and with a signed exponent elsewhere. -/
def decimalChars (ds : List Char) (exponent : Int) : List Char :=
  let point : Int := ds.length + exponent
  if -5 < point ∧ point ≤ 16 then
    if 0 ≤ exponent then ds ++ List.replicate exponent.toNat '0' ++ ['.', '0']
    else if 0 < point then ds.take point.toNat ++ '.' :: ds.drop point.toNat
    else ['0', '.'] ++ List.replicate (-point).toNat '0' ++ ds
  else
    let mantissa := match ds with
      | [] => []
      | [d] => [d]
      | d :: rest => d :: '.' :: rest
    let power := point - 1
    mantissa ++ 'e' :: (if power < 0 then '-' else '+') :: Nat.toDigits 10 power.natAbs

/-- A double by the fewest digits that read back as it. -/
def realChars (x : Decimal.Double) : List Char :=
  let sign := if x.isNegative then ['-'] else []
  if x.isZero then sign ++ ['0', '.', '0']
  else
    let s := Decimal.shortest x
    sign ++ decimalChars (Nat.toDigits 10 s.digits) s.exponent

def numberChars : Number → List Char
  | .integer n => integerChars n
  | .real x => realChars x

/-- How a text is laid out: what stands before an item or an end bracket at a depth, and after the
name of a member. -/
structure Layout where
  line : Nat → List Char
  colon : List Char

/-- Everything on one line, without blanks. -/
def Layout.compact : Layout where
  line _ := []
  colon := [':']

/-- Each item on a line of its own, two spaces to the right of its bracket. -/
def Layout.pretty : Layout where
  line depth := '\n' :: List.replicate (2 * depth) ' '
  colon := [':', ' ']

mutual

def chars (l : Layout) (depth : Nat) : Json → List Char
  | .null => ['n', 'u', 'l', 'l']
  | .bool true => ['t', 'r', 'u', 'e']
  | .bool false => ['f', 'a', 'l', 's', 'e']
  | .number n => numberChars n
  | .text s => textChars s
  | .array [] => ['[', ']']
  | .array (a :: rest) =>
    '[' :: l.line (depth + 1) ++ chars l (depth + 1) a ++
      itemChars l (depth + 1) rest ++ l.line depth ++ [']']
  | .object [] => ['{', '}']
  | .object ((k, a) :: rest) =>
    '{' :: l.line (depth + 1) ++ textChars k ++ l.colon ++ chars l (depth + 1) a ++
      memberChars l (depth + 1) rest ++ l.line depth ++ ['}']

/-- The items after the first one. -/
def itemChars (l : Layout) (depth : Nat) : List Json → List Char
  | [] => []
  | a :: rest => ',' :: l.line depth ++ chars l depth a ++ itemChars l depth rest

/-- The members after the first one. -/
def memberChars (l : Layout) (depth : Nat) : List (String × Json) → List Char
  | [] => []
  | (k, a) :: rest =>
    ',' :: l.line depth ++ textChars k ++ l.colon ++ chars l depth a ++ memberChars l depth rest

end

def compact (j : Json) : String := String.ofList (j.chars .compact 0)

/-- The value over several lines. -/
def pretty (j : Json) : String := String.ofList (j.chars .pretty 0)

end EdgeFleet.Json
