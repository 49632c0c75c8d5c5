import HostComm.UartSteps

namespace HostComm.RxArmed

open UartDriver Runs UartSteps

def InCritical : MainPc → Prop
  | .fillTx _ => True
  | .setBusyTx _ => True
  | .releaseLock _ => True
  | _ => False

def LockInside (m : UartSys) : Prop := m.uart.huart.lock = true ↔ InCritical m.pc

def Armed (m : UartSys) : Prop := m.uart.huart.rxState = .busyRx ∧ m.uart.huart.rxIt = true

/-- No receive interrupt comes while the main loop holds the lock. -/
def Unlocked (m : UartSys) : UartEvent → Prop
  | .rxByte _ => m.uart.huart.lock = false
  | _ => True

instance (m : UartSys) : ∀ e, Decidable (Unlocked m e)
  | .rxByte _ => inferInstanceAs (Decidable (_ = _))
  | .call _ => isTrue trivial
  | .main => isTrue trivial
  | .txComplete => isTrue trivial

theorem transmitIt_keeps (h : UartHandle) (chunk : List UInt8) :
    (halUartTransmitIt h chunk).2.rxState = h.rxState ∧
      (halUartTransmitIt h chunk).2.rxIt = h.rxIt ∧
      (halUartTransmitIt h chunk).2.lock = h.lock := by
  rw [halUartTransmitIt]
  split_ifs with hready hlen hlock
  · exact ⟨rfl, rfl, rfl⟩
  · exact ⟨rfl, rfl, rfl⟩
  · refine ⟨rfl, rfl, ?_⟩
    rw [Bool.not_eq_true] at hlock
    rw [hlock]
    rfl
  · exact ⟨rfl, rfl, rfl⟩

theorem endTransmit_keeps (u : Uart) :
    (uartEndTransmitIt u).huart.rxState = u.huart.rxState ∧
      (uartEndTransmitIt u).huart.rxIt = u.huart.rxIt ∧
      (uartEndTransmitIt u).huart.lock = u.huart.lock := by
  simp only [uartEndTransmitIt, halUartTxCpltCallback]
  split_ifs
  · exact transmitIt_keeps ..
  · exact transmitIt_keeps ..
  · exact ⟨rfl, rfl, rfl⟩

theorem receiveIt_lock (u : Uart) (byte : UInt8) :
    (uartReceiveIt u byte).huart.lock = u.huart.lock := by
  rw [uartReceiveIt]
  split_ifs
  · cases hlock : u.huart.lock <;>
      simp [halUartRxCpltCallback, halUartReceiveIt, hlock, UartHandle.startReceive,
        UartHandle.takeLock, UartHandle.releaseLock]
  · rfl

theorem main_keeps (junk : UInt8) (m : UartSys) :
    (mainStep junk m).uart.huart.rxState = m.uart.huart.rxState ∧
      (mainStep junk m).uart.huart.rxIt = m.uart.huart.rxIt := by
  rw [mainStep]
  split
  all_goals first | exact ⟨rfl, rfl⟩ | (split_ifs <;> exact ⟨rfl, rfl⟩)

theorem lockInside_ite {p : Prop} [Decidable p] {m m' : UartSys} (h : LockInside m)
    (h' : LockInside m') : LockInside (if p then m else m') := by
  split_ifs
  · exact h
  · exact h'

theorem lock_main (junk : UInt8) (m : UartSys) (h : LockInside m) : LockInside (mainStep junk m) := by
  rw [LockInside] at h
  rw [mainStep]
  cases hpc : m.pc with
  | idle => exact h
  | takeLock byte => exact iff_of_true rfl trivial
  | releaseLock byte => exact iff_of_false Bool.false_ne_true id
  | test =>
      rw [hpc] at h
      exact lockInside_ite h h
  | checkState byte =>
      rw [hpc] at h
      exact lockInside_ite h h
  | checkLock byte =>
      rw [hpc] at h
      exact lockInside_ite h h
  | _ =>
      rw [hpc] at h
      exact h

theorem lock_step (junk : UInt8) (m : UartSys) (e : UartEvent) (h : LockInside m) :
    LockInside (uartStep junk m e) := by
  cases e with
  | main => exact lock_main junk m h
  | call data =>
      rw [uartStep]
      split_ifs with hpc
      · rw [LockInside, hpc] at h
        exact lockInside_ite h h
      · exact h
  | txComplete =>
      refine lockInside_ite ?_ h
      rw [LockInside, (endTransmit_keeps m.uart).2.2]
      exact h
  | rxByte byte =>
      refine lockInside_ite ?_ h
      rw [LockInside, receiveIt_lock]
      exact h

theorem receiveIt_armed {u : Uart} (byte : UInt8) (h : u.huart.rxState = .busyRx) :
    ((uartReceiveIt u byte).huart.rxState = .busyRx ↔ u.huart.lock = false) ∧
      (u.huart.lock = false → (uartReceiveIt u byte).huart.rxIt = true) := by
  rw [uartReceiveIt, if_pos h]
  cases hlock : u.huart.lock <;>
    simp [halUartRxCpltCallback, halUartReceiveIt, hlock, UartHandle.startReceive,
      UartHandle.takeLock, UartHandle.releaseLock]

theorem armed_step (junk : UInt8) (m : UartSys) (e : UartEvent) (h : Armed m)
    (hgood : Unlocked m e) : Armed (uartStep junk m e) := by
  obtain ⟨hstate, hit⟩ := h
  cases e with
  | call data =>
      rw [uartStep, callTransmit]
      dsimp only
      split_ifs <;> exact ⟨hstate, hit⟩
  | main =>
      obtain ⟨hs, hi⟩ := main_keeps junk m
      exact ⟨hs.trans hstate, hi.trans hit⟩
  | txComplete =>
      rw [uartStep]
      split_ifs
      · obtain ⟨hs, hi, -⟩ := endTransmit_keeps m.uart
        exact ⟨hs.trans hstate, hi.trans hit⟩
      · exact ⟨hstate, hit⟩
  | rxByte byte =>
      rw [uartStep, if_pos hit]
      obtain ⟨hs, hi⟩ := receiveIt_armed byte hstate
      exact ⟨hs.mpr hgood, hi hgood⟩

/-- The receiver stays armed in every run whose receive interrupts find the
lock free. There the lock is held in the critical section only, and the next
receive interrupt arms the receiver again exactly outside of it. -/
theorem receiver_rearmed (junk : UInt8) (events : List UartEvent)
    (hgood : Along Unlocked (uartStep junk) uartStart events) :
    let m := run (uartStep junk) uartStart events
    (m.uart.huart.rxState = .busyRx ∧ m.uart.huart.rxIt = true) ∧
      (m.uart.huart.lock = true ↔ InCritical m.pc) ∧
      ∀ byte, (uartStep junk m (.rxByte byte)).uart.huart.rxState = .busyRx ↔
        ¬ InCritical m.pc := by
  intro m
  have harmed : Armed m := run_invariant (armed_step junk) ⟨rfl, rfl⟩ hgood
  have hlock : LockInside m :=
    run_preserves (lock_step junk) (iff_of_false Bool.false_ne_true id) events
  refine ⟨harmed, hlock, ?_⟩
  intro byte
  rw [uartStep, if_pos harmed.2, ← show _ ↔ _ from hlock, Bool.not_eq_true]
  exact (receiveIt_armed byte harmed.1).1

theorem receiver_rearmed_between_steps :
    (run (uartStep 0) uartStart [.call [7], .rxByte 1, .main, .rxByte 2]).uart.huart.rxState =
      .busyRx := by
  have hgood : Along Unlocked (uartStep 0) uartStart
      [.call [7], .rxByte 1, .main, .rxByte 2] := by decide +kernel
  exact (receiver_rearmed 0 _ hgood).1.1

/-- A byte received between the lock and the unlock is the last one. -/
theorem receiver_lost :
    let m := run (uartStep 0) uartStart ([.call [7]] ++ List.replicate 5 .main ++ [.rxByte 1])
    m.pc = .fillTx 7 ∧ m.uart.huart.rxState = .ready ∧ m.uart.huart.rxIt = false := by
  decide +kernel

end HostComm.RxArmed
