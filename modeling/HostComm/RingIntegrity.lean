import HostComm.WritePreempted
import HostComm.ReadPreempted

namespace HostComm.RingIntegrity

open CircularBuffer Runs RingSteps WritePreempted ReadPreempted

/-- What was taken out and what the ring reports are what was in it and what
was written, in order, exactly when no interrupt hits one of the bad places
between two assignments of the main loop. -/
theorem ring_preempted {c : CircularBuff} (hc : c.Valid) :
    (∀ data events, (run txStep (writeStart c data) events).pc = .returned .ok →
      ((run txStep (writeStart c data) events).taken ++
          contents (run txStep (writeStart c data) events).cb = contents c ++ data ↔
        Along KeepsByte txStep (writeStart c data) events)) ∧
    (∀ k events complete, Along Accepts rxStep (readStart c k) events →
      (run rxStep (readStart c k) events).pc = .returned complete →
      ((run rxStep (readStart c k) events).taken ++
          contents (run rxStep (readStart c k) events).cb =
          contents c ++ (run rxStep (readStart c k) events).arrived ↔
        Along KeepsFlag rxStep (readStart c k) events)) :=
  ⟨fun data events => write_preempted hc data events,
    fun k events _ hok => read_preempted hc k events hok⟩

def sevens (head : Nat) (full : Bool) : CircularBuff := ⟨fun _ => 7, head, 0, 512, full⟩

theorem ring_preempted_between_bytes :
    let tx := run txStep (writeStart (sevens 1 false) [8, 9])
      (List.replicate 6 .main ++ [.txComplete 99] ++ List.replicate 5 .main)
    let rx := run rxStep (readStart (sevens 2 false) 1)
      ([.main, .rxByte 8] ++ List.replicate 4 .main)
    tx.taken ++ contents tx.cb = contents (sevens 1 false) ++ [8, 9] ∧
      rx.taken ++ contents rx.cb = contents (sevens 2 false) ++ rx.arrived := by
  have htx : (run txStep (writeStart (sevens 1 false) [8, 9])
      (List.replicate 6 .main ++ [.txComplete 99] ++ List.replicate 5 .main)).pc =
      .returned .ok := by decide +kernel
  have hkeep : Along KeepsByte txStep (writeStart (sevens 1 false) [8, 9])
      (List.replicate 6 .main ++ [.txComplete 99] ++ List.replicate 5 .main) := by decide +kernel
  have hrx : (run rxStep (readStart (sevens 2 false) 1)
      ([.main, .rxByte 8] ++ List.replicate 4 .main)).pc = .returned true := by decide +kernel
  have hok : Along Accepts rxStep (readStart (sevens 2 false) 1)
      ([.main, .rxByte 8] ++ List.replicate 4 .main) := by decide +kernel
  have hflag : Along KeepsFlag rxStep (readStart (sevens 2 false) 1)
      ([.main, .rxByte 8] ++ List.replicate 4 .main) := by decide +kernel
  have hone : (sevens 1 false).Valid := ⟨by decide, by decide, by decide, by simp [sevens]⟩
  have htwo : (sevens 2 false).Valid := ⟨by decide, by decide, by decide, by simp [sevens]⟩
  exact ⟨((ring_preempted hone).1 _ _ htx).mpr hkeep,
    ((ring_preempted htwo).2 _ _ _ hok hrx).mpr hflag⟩

/-- The three bad places. A transmit interrupt takes the last byte before the
flag assignment, and the empty ring reports 512 bytes; a byte arrives when the
flag of a full ring has been cleared, and the ring reports none; a byte fills
the ring before the last tail assignment, and 511 bytes are reported as 512. -/
theorem ring_integrity_broken :
    let events : List RxEvent := [.main, .main, .main, .rxByte 8, .main, .main]
    let tx := run txStep (writeStart (sevens 0 false) [8])
      (List.replicate 5 .main ++ [.txComplete 99, .main, .main])
    let rx := run rxStep (readStart (sevens 0 true) 1) events
    let rx' := run rxStep (readStart (sevens 511 false) 1) events
    (tx.pc = .returned .ok ∧ tx.taken = [8] ∧ circularBuffGetDataLen tx.cb = 512 ∧
      tx.taken ++ contents tx.cb ≠ contents (sevens 0 false) ++ [8]) ∧
    (Along Accepts rxStep (readStart (sevens 0 true) 1) events ∧ rx.pc = .returned true ∧
      rx.taken = [7] ∧ circularBuffGetDataLen rx.cb = 0 ∧
      rx.taken ++ contents rx.cb ≠ contents (sevens 0 true) ++ rx.arrived) ∧
    (Along Accepts rxStep (readStart (sevens 511 false) 1) events ∧ rx'.pc = .returned true ∧
      rx'.taken = [7] ∧ circularBuffGetDataLen rx'.cb = 512 ∧
      rx'.taken ++ contents rx'.cb ≠ contents (sevens 511 false) ++ rx'.arrived) := by
  decide +kernel

end HostComm.RingIntegrity
