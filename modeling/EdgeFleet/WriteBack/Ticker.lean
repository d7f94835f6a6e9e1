import EdgeFleet.Timestamp

namespace EdgeFleet.WriteBack

/-- A ticker: its period and the moment of its next tick, in milliseconds. -/
structure Ticker where
  period : Nat
  due : Nat
  deriving DecidableEq

namespace Ticker

/-- The ticker that starts at the moment zero; its first tick comes after a period. -/
def start (period : Nat) : Ticker := ⟨period, period⟩

/-- By how much a tick may be late and still count as being on time. -/
def tolerance : Nat := 5

/-- The ticker after a tick at a moment. After a late one the next tick is a whole period away. -/
def fire (t : Ticker) (now : Nat) : Ticker :=
  { t with due := (if t.due + tolerance < now then now else t.due) + t.period }

theorem due_fire_of_le {t : Ticker} {now : Nat} (h : now ≤ t.due + tolerance) :
    (t.fire now).due = t.due + t.period := by
  have hn : ¬ t.due + tolerance < now := Nat.not_lt.mpr h
  simp [fire, hn]

theorem due_fire_of_lt {t : Ticker} {now : Nat} (h : t.due + tolerance < now) :
    (t.fire now).due = now + t.period := by
  simp [fire, h]

/-- A ticker that is looked at when it is due keeps to the multiples of its period. -/
theorem fire_due (t : Ticker) : t.fire t.due = ⟨t.period, t.due + t.period⟩ := by
  simp [fire]

end Ticker

end EdgeFleet.WriteBack
