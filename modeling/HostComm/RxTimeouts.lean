import HostComm.RxMoves
import HostComm.Runs

namespace HostComm.RxTimeouts

open Protocol TimeEvents UartDriver ByteRings TxQueue TxSend TxFsm RxFsm RxStream RxParser RxMoves Runs

def eventsOf : RxState → List RxInternal
  | .preambleProc => [.preambleOk]
  | .headerProc => [.headerOk, .headerError]
  | .payloadProc => [.payloadOk]
  | .crcAndPostambleProc => [.crcAndPostambleOk, .crcError, .postambleError]
  | _ => []

def EventPending (h : HostCommRxFsm) : Prop := h.internal ∈ eventsOf h.state

instance (h : HostCommRxFsm) : Decidable (EventPending h) := inferInstanceAs (Decidable (_ ∈ _))

/-- The frame is given up: the ring is empty, one response is issued, the
timer is off and the machine looks for the next preamble. -/
structure Resynchronised (s s' : RxSys) : Prop where
  ring : s'.rx.contents = []
  response : s'.responses =
    s.responses ++ [⟨noPayloadRequest targetToHostResNack false, s.handle.packet⟩]
  timer : timer s'.handle s.handle.state = timeEventStop
  state : s'.handle.state = .preambleProc

theorem timeout_header {s : RxSys} (hs : s.handle.state = .headerProc) (hraised : Raised s.handle)
    (hevent : ¬ EventPending s.handle) :
    headerProcOnReact s =
      enterSeqPreambleProc (exitActionHeaderProc (sendResponse (clearRxData s) targetToHostResNack)) := by
  rw [Raised, hs] at hraised
  simp only [EventPending, hs, eventsOf, List.mem_cons, not_or] at hevent
  simp only [headerProcOnReact, if_neg hevent.1, hraised, true_or, if_true]

theorem timeout_payload {s : RxSys} (hs : s.handle.state = .payloadProc) (hraised : Raised s.handle)
    (hevent : ¬ EventPending s.handle) :
    payloadProcOnReact s =
      enterSeqPreambleProc (sendResponse (clearRxData (exitActionPayloadProc s)) targetToHostResNack) := by
  rw [Raised, hs] at hraised
  simp only [EventPending, hs, eventsOf, List.mem_singleton] at hevent
  simp only [payloadProcOnReact, if_neg hevent, hraised, if_true]

theorem timeout_crc (env : Env) {s : RxSys} (hs : s.handle.state = .crcAndPostambleProc)
    (hraised : Raised s.handle) (hevent : ¬ EventPending s.handle) :
    crcAndPostambleProcOnReact env s =
      enterSeqPreambleProc (sendResponse (exitActionCrcAndPostambleProc s) targetToHostResNack) := by
  rw [Raised, hs] at hraised
  simp only [EventPending, hs, eventsOf, List.mem_cons, not_or] at hevent
  simp only [crcAndPostambleProcOnReact, if_neg hevent.1, hraised, true_or, if_true,
    exitActionCrcAndPostambleProc, isRaised_stop, Bool.false_eq_true, if_false]

theorem contents_clearRxData (s : RxSys) : (clearRxData s).rx.contents = [] :=
  ByteRing.contents_reset _

/-- A timeout resynchronises in the header and payload states always, and in
the last state when there is nothing to clear. -/
theorem timeout_resynchronises (env : Env) {s : RxSys} (hw : Waits s.handle.state)
    (hraised : Raised s.handle) (hevent : ¬ EventPending s.handle) :
    Resynchronised s (hostCommRxFsmRun env s) ↔
      s.handle.state ≠ .crcAndPostambleProc ∨ s.rx.contents = [] := by
  rcases hw with hs | hs | hs
  · simp only [hostCommRxFsmRun, hs, timeout_header hs hraised hevent]
    refine iff_of_true ⟨contents_clearRxData s, ?_, ?_, rfl⟩ (.inl (by decide))
    · simp [enterSeqPreambleProc, exitActionHeaderProc, sendResponse]
    · rw [hs]
      rfl
  · simp only [hostCommRxFsmRun, hs, timeout_payload hs hraised hevent]
    refine iff_of_true ⟨contents_clearRxData _, ?_, ?_, rfl⟩ (.inl (by decide))
    · simp [enterSeqPreambleProc, exitActionPayloadProc, sendResponse]
    · simp [timer, hs, enterSeqPreambleProc, exitActionPayloadProc, sendResponse,
        hostCommRxFsmSetNextState]
  · simp only [hostCommRxFsmRun, hs, timeout_crc env hs hraised hevent]
    constructor
    · exact fun h => .inr h.ring
    · rintro (hne | hempty)
      · exact absurd rfl hne
      · refine ⟨hempty, rfl, ?_, rfl⟩
        rw [hs]
        rfl

def waiting (env : Env) (bytes : List UInt8) (calls ticks : Nat) : RxSys :=
  let h : HostCommRxFsm := ⟨.invalid, .invalid, .invalid, timeEventStop, timeEventStop,
    timeEventStop, ⟨⟨0, 0, 0⟩, .zero⟩⟩
  run (rxStep env) (hostCommRxFsmInit (.start h hostCommTxQueueInit))
    (bytes.map .rxByte ++ List.replicate calls (.run []) ++ List.replicate ticks .tick)

theorem timeout_resynchronises_header :
    let env : Env := ⟨fun _ => 0, 0⟩
    let s := waiting env (protocolPreamble ++ [1, 0xBB, 0]) 2 31
    Resynchronised s (hostCommRxFsmRun env s) := by
  intro env s
  exact (timeout_resynchronises env (by decide +kernel) (by decide +kernel) (by decide +kernel)).mpr
    (.inl (by decide +kernel))

/-- Seven of the last eight bytes of an empty frame: they stay in the ring. -/
theorem crc_timeout_keeps_ring :
    let env : Env := ⟨fun _ => 0, 0⟩
    let s := waiting env (protocolPreamble ++ [1, 0xBB, 0, 0] ++ [1, 0xBB, 0, 0, 0x55, 0xBB, 0x55]) 4 6
    Waits s.handle.state ∧ Raised s.handle ∧ ¬ EventPending s.handle ∧
      ¬ Resynchronised s (hostCommRxFsmRun env s) := by
  intro env s
  have hring : (hostCommRxFsmRun env s).rx.contents.length = 7 := by decide +kernel
  refine ⟨by decide +kernel, by decide +kernel, by decide +kernel, ?_⟩
  intro h
  rw [h.ring] at hring
  cases hring

end HostComm.RxTimeouts
