import EdgeFleet.Json.Shape
import EdgeFleet.Text.Blank

namespace EdgeFleet

/-- What an identifier identifies. -/
inductive RecordKind
  | edge
  | user
  deriving DecidableEq

/-- The identifier of a record in the directory: a positive number of 32 bits. -/
structure RecordId (kind : RecordKind) where
  value : UInt32
  ne_zero : value ≠ 0
  deriving DecidableEq

/-- The identifier of an edge. -/
abbrev EdgeId := RecordId .edge

/-- The identifier of a user. -/
abbrev UserId := RecordId .user

/-- Why a number or a text is no identifier. -/
inductive IdError
  | notANumber (text : String)
  | zero
  deriving DecidableEq

def IdError.message : IdError → String
  | .notANumber text => "not a valid record id: " ++ Text.quoted text
  | .zero => "record id must not be zero"

namespace RecordId

variable {kind : RecordKind}

instance : Ord (RecordId kind) := ⟨fun a b => compare a.value b.value⟩

theorem compare_eq_iff {a b : RecordId kind} : compare a b = .eq ↔ a = b := by
  have hv : compare a b = .eq ↔ a.value = b.value :=
    Std.LawfulEqOrd.compare_eq_iff_eq (a := a.value) (b := b.value)
  rw [hv, RecordId.mk.injEq]

instance : Std.LawfulEqOrd (RecordId kind) where
  compare_self := compare_eq_iff.mpr rfl
  eq_of_compare := compare_eq_iff.mp

instance : Std.TransOrd (RecordId kind) where
  eq_swap {a b} :=
    show compare a.value b.value = (compare b.value a.value).swap from Std.OrientedCmp.eq_swap
  isLE_trans {a b c} hab hbc :=
    show (compare a.value c.value).isLE = true from
      Std.TransCmp.isLE_trans (b := b.value) hab hbc

def ofWord (n : UInt32) : Except IdError (RecordId kind) :=
  if h : n = 0 then .error .zero else .ok ⟨n, h⟩

def parse (s : String) : Except IdError (RecordId kind) :=
  match Text.Numeral.unsigned? 0xFFFFFFFF (Text.trimChars s.toList) with
  | none => .error (.notANumber s)
  | some n => ofWord n.toUInt32

def render (id : RecordId kind) : String :=
  Text.decimal id.value.toNat

def describe (id : RecordId kind) : String :=
  (match kind with | .edge => "EdgeId(" | .user => "UserId(") ++ id.render ++ ")"

def toJson (id : RecordId kind) : Json := .ofNat id.value.toNat

def reader : Json.Reader (RecordId kind) := do
  match ofWord (← Json.Reader.word32) with
  | .ok id => return id
  | .error e => Json.Reader.mismatch (.refused e.message)

theorem ofWord_value (id : RecordId kind) : ofWord id.value = .ok id := by
  simp [ofWord, id.ne_zero]

end RecordId

end EdgeFleet
