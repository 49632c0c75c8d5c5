import Mathlib.Tactic.Common

namespace HostComm.TimeEvents

structure TimeEvent where
  millisCnt : Nat
  active : Bool
  raised : Bool
  deriving DecidableEq, Repr

def timeEventStart (timeMs : Nat) : TimeEvent := ⟨timeMs, true, false⟩

def timeEventStop : TimeEvent := ⟨0, false, false⟩

def timeEventUpdate (t : TimeEvent) : TimeEvent :=
  if t.active then
    if 0 < t.millisCnt then { t with millisCnt := t.millisCnt - 1 } else { t with raised := true }
  else t

def timeEventIsRaised (t : TimeEvent) : Bool := t.raised

@[simp] theorem isRaised_start (timeMs : Nat) : timeEventIsRaised (timeEventStart timeMs) = false := rfl

@[simp] theorem isRaised_stop : timeEventIsRaised timeEventStop = false := rfl

/-- A timer started with `timeMs` after `t` ticks. -/
def elapsed (timeMs t : Nat) : TimeEvent := ⟨timeMs - t, true, decide (timeMs < t)⟩

theorem start_eq (timeMs : Nat) : timeEventStart timeMs = elapsed timeMs 0 := by
  simp [timeEventStart, elapsed]

@[simp] theorem update_stop : timeEventUpdate timeEventStop = timeEventStop := rfl

@[simp] theorem update_elapsed (timeMs t : Nat) :
    timeEventUpdate (elapsed timeMs t) = elapsed timeMs (t + 1) := by
  by_cases h : t < timeMs
  · have hpos : 0 < timeMs - t := Nat.sub_pos_of_lt h
    have hlater : ¬ timeMs < t := by omega
    have hnext : ¬ timeMs < t + 1 := by omega
    simp [timeEventUpdate, elapsed, hpos, hlater, hnext, Nat.sub_sub]
  · have hzero : timeMs - t = 0 := by omega
    have hzero' : timeMs - (t + 1) = 0 := by omega
    have hnext : timeMs < t + 1 := by omega
    simp [timeEventUpdate, elapsed, hzero, hzero', hnext]

end HostComm.TimeEvents
