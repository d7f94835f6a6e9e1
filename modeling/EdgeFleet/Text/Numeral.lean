namespace EdgeFleet.Text

def decimal (n : Nat) : String :=
  String.ofList (Nat.toDigits 10 n)

namespace Numeral

/-- Whether the character is one of `0` to `9`. -/
def isDigit (c : Char) : Bool :=
  '0' ≤ c && c ≤ '9'

def digit (c : Char) : Nat :=
  c.toNat - '0'.toNat

/-- The value of a row of digits that follows digits of value `n`. -/
def extend (n : Nat) (cs : List Char) : Nat :=
  cs.foldl (fun n c => 10 * n + digit c) n

def value (cs : List Char) : Nat :=
  extend 0 cs

/-- One or more digits and nothing else. -/
def digits? (cs : List Char) : Option Nat :=
  if cs ≠ [] ∧ cs.all isDigit then some (value cs) else none

/-- A numeral with an optional `+`, at most `limit`. -/
def unsigned? (limit : Nat) (cs : List Char) : Option Nat :=
  let read := match cs with
    | '+' :: rest => digits? rest
    | _ => digits? cs
  read.filter (· ≤ limit)

/-- A numeral with an optional sign, from `-limit - 1` to `limit`. -/
def signed? (limit : Nat) (cs : List Char) : Option Int :=
  match cs with
  | '-' :: rest => ((digits? rest).filter (· ≤ limit + 1)).map fun n => -(n : Int)
  | _ => (unsigned? limit cs).map fun n => (n : Int)

theorem digits?_eq_some_iff {cs : List Char} {n : Nat} :
    digits? cs = some n ↔ cs ≠ [] ∧ (∀ c ∈ cs, isDigit c = true) ∧ value cs = n := by
  simp only [digits?, List.all_eq_true]
  split
  · rename_i h
    simp only [Option.some.injEq, h, true_and, ne_eq, not_false_eq_true]
    exact ⟨fun e => ⟨h.2, e⟩, fun e => e.2⟩
  · rename_i h
    simp only [reduceCtorEq, false_iff]
    exact fun ⟨hn, hd, _⟩ => h ⟨hn, hd⟩

end Numeral

end EdgeFleet.Text
