/-
When a periodic loop is due.

The first tick is due at once and every later one a multiple of the period after it. A tick that comes
in time, or at most a little late, is followed by the next multiple; one that comes later than that is followed
by the first multiple still to come, so that missed ticks are skipped and never made up for.
-/
namespace AdaptiveMtu

namespace Schedule

/-- How late a tick may come, in milliseconds, without making the loop skip any. -/
def leeway : Nat := 5

/-- The deadline that follows one that was served at the time `now`. -/
def next (period deadline now : Nat) : Nat :=
  if now ≤ deadline + leeway then deadline + period
  else deadline + ((now - deadline) / period + 1) * period

theorem lt_next {period : Nat} (h : 0 < period) (deadline now : Nat) :
    deadline < next period deadline now := by
  unfold next
  split
  · omega
  · have : 0 < ((now - deadline) / period + 1) * period := Nat.mul_pos (Nat.succ_pos _) h
    omega

end Schedule

/-- The timer of a loop. -/
structure Ticker where
  /-- When it began. -/
  startedAt : Nat
  /-- When it is due next. -/
  deadline : Nat

namespace Ticker

/-- A timer that begins now, and is due at once. -/
def beginning (now : Nat) : Ticker := ⟨now, now⟩

/-- The timer after a tick that was served at the time `now`. -/
def next (t : Ticker) (period now : Nat) : Ticker :=
  { t with deadline := Schedule.next period t.deadline now }

end Ticker

end AdaptiveMtu
