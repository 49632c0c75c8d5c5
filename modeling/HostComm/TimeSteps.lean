import HostComm.Preemption
import HostComm.TimeEvents

namespace HostComm.TimeSteps

open Preemption TimeEvents

section statements

variable {σ : Type} (get : σ → TimeEvent) (set : σ → TimeEvent → σ)

def storeTimer (f : TimeEvent → TimeEvent) (rest : Code σ) : Code σ :=
  .assign (fun s => set s (f (get s))) rest

def timeEventStartCode (timeMs : Nat) (rest : Code σ) : Code σ :=
  storeTimer get set (fun t => { t with millisCnt := timeMs })
    (storeTimer get set (fun t => { t with active := true })
      (storeTimer get set (fun t => { t with raised := false }) rest))

def timeEventStopCode (rest : Code σ) : Code σ :=
  storeTimer get set (fun t => { t with active := false })
    (storeTimer get set (fun t => { t with raised := false })
      (storeTimer get set (fun t => { t with millisCnt := 0 }) rest))

/-- A state in which a tick changes nothing but this timer. -/
structure Ticking (tick : σ → σ) (s : σ) : Prop where
  get_set : ∀ t, get (set s t) = t
  set_set : ∀ t u, set (set s t) u = set s u
  set_get : set s (get s) = s
  tick_set : ∀ t, tick (set s t) = set s (timeEventUpdate t)

end statements

theorem iterate_inactive {t : TimeEvent} (h : t.active = false) (k : Nat) :
    timeEventUpdate^[k] t = t := by
  apply Function.iterate_fixed
  rw [timeEventUpdate, if_neg (by simp [h])]

theorem iterate_elapsed (timeMs t k : Nat) :
    timeEventUpdate^[k] (elapsed timeMs t) = elapsed timeMs (t + k) := by
  induction k with
  | zero => rfl
  | succ k ih =>
      rw [Function.iterate_succ_apply', ih, update_elapsed]
      rfl

theorem iterate_active (timeMs k : Nat) (raised : Bool) :
    timeEventUpdate^[k] ⟨timeMs, true, raised⟩ = ⟨timeMs - k, true, raised || decide (timeMs < k)⟩ := by
  induction k with
  | zero => simp
  | succ k ih =>
      rw [Function.iterate_succ_apply', ih]
      by_cases h : k < timeMs
      · have hpos : 0 < timeMs - k := Nat.sub_pos_of_lt h
        have hnot : ¬ timeMs < k := by omega
        have hnext : ¬ timeMs < k + 1 := by omega
        simp [timeEventUpdate, hpos, hnot, hnext, Nat.sub_sub]
      · have hzero : timeMs - k = 0 := by omega
        have hzero' : timeMs - (k + 1) = 0 := by omega
        have hnext : timeMs < k + 1 := by omega
        simp [timeEventUpdate, hzero, hzero', hnext]

theorem lower_raised (timeMs k : Nat) (raised : Bool) :
    { timeEventUpdate^[k] ⟨timeMs, true, raised⟩ with raised := false } =
      elapsed timeMs (min k timeMs) := by
  have hmillis : timeMs - min k timeMs = timeMs - k := by omega
  have hnot : ¬ timeMs < min k timeMs := by omega
  simp [iterate_active, elapsed, hmillis, hnot]

namespace Ticking

variable {σ : Type} {get : σ → TimeEvent} {set : σ → TimeEvent → σ} {tick : σ → σ} {s s' : σ}
variable {rest : Code σ} {n : Nat}

theorem iterate_set (h : Ticking get set tick s) (t : TimeEvent) (k : Nat) :
    tick^[k] (set s t) = set s (timeEventUpdate^[k] t) := by
  induction k generalizing t with
  | zero => rfl
  | succ k ih => rw [Function.iterate_succ_apply, h.tick_set, ih, Function.iterate_succ_apply]

theorem exec_stop (h : Ticking get set tick s) :
    (timeEventStopCode get set rest).exec s = rest.exec (set s timeEventStop) := by
  simp only [timeEventStopCode, storeTimer, Code.exec_assign, h.get_set, h.set_set]
  rfl

theorem exec_start (h : Ticking get set tick s) (timeMs : Nat) :
    (timeEventStartCode get set timeMs rest).exec s = rest.exec (set s (timeEventStart timeMs)) := by
  simp only [timeEventStartCode, storeTimer, Code.exec_assign, h.get_set, h.set_set]
  rfl

theorem ends_store (h : Ticking get set tick s) {t : TimeEvent} {f : TimeEvent → TimeEvent}
    (he : Ends tick (storeTimer get set f rest) (set s t) n s') :
    ∃ k m, k + m = n ∧ Ends tick rest (set s (f (timeEventUpdate^[k] t))) m s' := by
  obtain ⟨k, m, hsum, hrest⟩ := he.step
  refine ⟨k, m, hsum, ?_⟩
  rwa [h.iterate_set, h.get_set, h.set_set] at hrest

theorem ends_stop (h : Ticking get set tick s)
    (he : Ends tick (timeEventStopCode get set rest) s n s') :
    ∃ m, m ≤ n ∧ Ends tick rest (set s timeEventStop) m s' := by
  rw [timeEventStopCode, ← h.set_get] at he
  obtain ⟨k₁, m₁, hn, h₁⟩ := h.ends_store he
  obtain ⟨k₂, m₂, hm₁, h₂⟩ := h.ends_store h₁
  rw [iterate_inactive rfl] at h₂
  obtain ⟨k₃, m₃, hm₂, h₃⟩ := h.ends_store h₂
  rw [iterate_inactive rfl] at h₃
  exact ⟨m₃, by omega, h₃⟩

/-- Only the ticks between the last two stores of a start count, and they
cannot raise the timer. -/
theorem ends_start (h : Ticking get set tick s) (hoff : (get s).active = false) {timeMs : Nat}
    (he : Ends tick (timeEventStartCode get set timeMs rest) s n s') :
    ∃ m, m ≤ n ∧ Ends tick rest (set s (timeEventStart timeMs)) m s' := by
  rw [timeEventStartCode, ← h.set_get] at he
  obtain ⟨k₁, m₁, hn, h₁⟩ := h.ends_store he
  rw [iterate_inactive hoff] at h₁
  obtain ⟨k₂, m₂, hm₁, h₂⟩ := h.ends_store h₁
  rw [iterate_inactive (t := { get s with millisCnt := timeMs }) hoff] at h₂
  obtain ⟨k₃, m₃, hm₂, h₃⟩ := h.ends_store h₂
  refine ⟨min k₃ timeMs + m₃, by omega, ?_⟩
  apply Ends.delay
  rw [h.iterate_set, start_eq, iterate_elapsed, Nat.zero_add, ← lower_raised timeMs k₃ (get s).raised]
  exact h₃

theorem late_stop (h : Ticking get set tick s) (hrest : Late tick rest (set s timeEventStop)) :
    Late tick (timeEventStopCode get set rest) s := by
  intro n s' he
  obtain ⟨m, hm, hends⟩ := h.ends_stop he
  obtain ⟨k, hk, hs⟩ := hrest m s' hends
  refine ⟨k, Nat.le_trans hk hm, ?_⟩
  rw [hs, h.exec_stop]

theorem late_start (h : Ticking get set tick s) (hoff : (get s).active = false) {timeMs : Nat}
    (hrest : Late tick rest (set s (timeEventStart timeMs))) :
    Late tick (timeEventStartCode get set timeMs rest) s := by
  intro n s' he
  obtain ⟨m, hm, hends⟩ := h.ends_start hoff he
  obtain ⟨k, hk, hs⟩ := hrest m s' hends
  refine ⟨k, Nat.le_trans hk hm, ?_⟩
  rw [hs, h.exec_start]

end Ticking

end HostComm.TimeSteps
