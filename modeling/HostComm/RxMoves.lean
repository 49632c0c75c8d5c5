import HostComm.RxParser

namespace HostComm.RxMoves

open Protocol TimeEvents UartDriver ByteRings TxQueue TxSend TxFsm RxFsm RxStream RxParser

def Waits (w : RxState) : Prop := w = .headerProc ∨ w = .payloadProc ∨ w = .crcAndPostambleProc

instance (w : RxState) : Decidable (Waits w) := inferInstanceAs (Decidable (_ ∨ _))

def timer (h : HostCommRxFsm) : RxState → TimeEvent
  | .headerProc => h.headerTimeout
  | .payloadProc => h.payloadTimeout
  | .crcAndPostambleProc => h.crcAndPostambleTimeout
  | _ => timeEventStop

def setTimer (h : HostCommRxFsm) (state : RxState) (t : TimeEvent) : HostCommRxFsm :=
  match state with
  | .headerProc => { h with headerTimeout := t }
  | .payloadProc => { h with payloadTimeout := t }
  | .crcAndPostambleProc => { h with crcAndPostambleTimeout := t }
  | _ => h

def timeoutMs (h : HostCommRxFsm) : RxState → Nat
  | .headerProc => headerBytesTimeoutMs
  | .payloadProc => h.packet.header.payloadLen.toNat
  | .crcAndPostambleProc => postambleBytesTimeoutMs
  | _ => 0

def goto (h : HostCommRxFsm) (next : RxState) : HostCommRxFsm :=
  setTimer (hostCommRxFsmSetNextState (setTimer h h.state timeEventStop) next) next
    (timeEventStart (timeoutMs h next))

@[simp] theorem state_setTimer (h : HostCommRxFsm) (state : RxState) (t : TimeEvent) :
    (setTimer h state t).state = h.state := by
  cases state <;> rfl

@[simp] theorem external_setTimer (h : HostCommRxFsm) (state : RxState) (t : TimeEvent) :
    (setTimer h state t).external = h.external := by
  cases state <;> rfl

@[simp] theorem packet_setTimer (h : HostCommRxFsm) (state : RxState) (t : TimeEvent) :
    (setTimer h state t).packet = h.packet := by
  cases state <;> rfl

@[simp] theorem state_goto (h : HostCommRxFsm) (next : RxState) : (goto h next).state = next := by
  simp [goto, hostCommRxFsmSetNextState]

@[simp] theorem external_goto (h : HostCommRxFsm) (next : RxState) :
    (goto h next).external = .invalid := by
  simp [goto, hostCommRxFsmSetNextState]

@[simp] theorem packet_goto (h : HostCommRxFsm) (next : RxState) :
    (goto h next).packet = h.packet := by
  simp [goto, hostCommRxFsmSetNextState]

/-- The transitions of the machine, each with the response it issues. -/
inductive Edge : RxState → Option UInt8 → RxState → Prop
  | found : Edge .preambleProc none .headerProc
  | withPayload : Edge .headerProc none .payloadProc
  | noPayload : Edge .headerProc none .crcAndPostambleProc
  | stored : Edge .payloadProc none .crcAndPostambleProc
  | accept : Edge .crcAndPostambleProc (some targetToHostResAck) .packetReady
  | rejectHeader : Edge .headerProc (some targetToHostResNack) .preambleProc
  | rejectPayload : Edge .payloadProc (some targetToHostResNack) .preambleProc
  | rejectCrc : Edge .crcAndPostambleProc (some targetToHostResNack) .preambleProc
  | release : Edge .packetReady none .preambleProc

structure Answered (s : RxSys) (type : Option UInt8) (s' : RxSys) : Prop where
  queue : s'.queue = match type with
    | none => s.queue
    | some type => (hostCommTxFsmSendPacketNoPayload s.queue type false).2
  responses : s'.responses = s.responses ++
    (type.map fun type => RxResponse.mk (noPayloadRequest type false) s.handle.packet).toList

/-- What one run call can do to the machine. -/
inductive Moves (s s' : RxSys) : Prop
  | stay (handle : s'.handle = { s.handle with
        internal := s'.handle.internal, packet := s'.handle.packet })
      (header : s.handle.state ≠ .headerProc →
        s'.handle.packet.header = s.handle.packet.header)
      (quiet : ¬ Raised s.handle)
      (held : s.handle.state = .packetReady →
        s.handle.external ≠ .packetProccessed ∧ s' = s)
      (answered : Answered s none s')
  | leave (type : Option UInt8) (next : RxState) (edge : Edge s.handle.state type next)
      (handle : s'.handle = goto s.handle next)
      (released : s.handle.state = .packetReady →
        s.handle.external = .packetProccessed ∧ s'.rx = s.rx ∧ s'.irqs = s.irqs ∧
          s'.reads = s.reads ∧ s'.arrived = s.arrived)
      (answered : Answered s type s')

theorem answered_none {s s' : RxSys} (hqueue : s'.queue = s.queue)
    (hresp : s'.responses = s.responses) : Answered s none s' :=
  ⟨hqueue, by simpa using hresp⟩

theorem moves_during {s s' : RxSys} (hready : s.handle.state ≠ .packetReady)
    (hquiet : ¬ Raised s.handle)
    (handle : s'.handle = { s.handle with
      internal := s'.handle.internal, packet := s'.handle.packet })
    (header : s.handle.state ≠ .headerProc → s'.handle.packet.header = s.handle.packet.header)
    (hqueue : s'.queue = s.queue) (hresp : s'.responses = s.responses) : Moves s s' :=
  .stay handle header hquiet (fun h => absurd h hready) (answered_none hqueue hresp)

theorem moves_setInternal {s s' : RxSys} (hready : s.handle.state ≠ .packetReady)
    (hquiet : ¬ Raised s.handle) (event : RxInternal) (handle : s'.handle = s.handle)
    (hqueue : s'.queue = s.queue) (hresp : s'.responses = s.responses) :
    Moves s (s'.setInternal event) :=
  moves_during hready hquiet (by rw [RxSys.setInternal, handle])
    (fun _ => by rw [RxSys.setInternal, handle]) hqueue hresp

theorem moves_preamble (env : Env) {s : RxSys} (hs : s.handle.state = .preambleProc) :
    Moves s (preambleProcOnReact env s) := by
  have hquiet : ¬ Raised s.handle := by simp [Raised, hs]
  have hready : s.handle.state ≠ .packetReady := by simp [hs]
  rw [preambleProcOnReact]
  split_ifs
  · refine .leave none .headerProc (hs ▸ .found) ?_ (fun h => absurd h hready) (answered_none rfl rfl)
    simp [enterSeqHeaderProc, goto, setTimer, timeoutMs, hs, hostCommRxFsmSetNextState]
  · rw [duringActionPreambleProc]
    refine moves_during hready hquiet ?_ (fun _ => ?_) ?_ ?_
    all_goals
      split_ifs
      · dsimp only
        split_ifs
        · simp [RxSys.setInternal]
        · simp
      · simp

theorem moves_header {s : RxSys} (hs : s.handle.state = .headerProc) :
    Moves s (headerProcOnReact s) := by
  have hready : s.handle.state ≠ .packetReady := by simp [hs]
  rw [headerProcOnReact]
  by_cases hok : s.handle.internal = .headerOk
  · rw [if_pos hok]
    dsimp only
    split_ifs
    · refine .leave none .payloadProc (hs ▸ .withPayload) ?_ (fun h => absurd h hready)
        (answered_none rfl rfl)
      simp [enterSeqPayloadProc, exitActionHeaderProc, goto, setTimer, timeoutMs, hs,
        hostCommRxFsmSetNextState]
    · refine .leave none .crcAndPostambleProc (hs ▸ .noPayload) ?_ (fun h => absurd h hready)
        (answered_none rfl rfl)
      simp [enterSeqCrcAndPostambleProc, exitActionHeaderProc, goto, setTimer, timeoutMs, hs,
        hostCommRxFsmSetNextState]
  rw [if_neg hok]
  by_cases hout : timeEventIsRaised s.handle.headerTimeout = true ∨ s.handle.internal = .headerError
  · rw [if_pos hout]
    dsimp only
    refine .leave (some targetToHostResNack) .preambleProc (hs ▸ .rejectHeader) ?_
      (fun h => absurd h hready) ⟨?_, ?_⟩
    all_goals
      split_ifs
      · simp [enterSeqPreambleProc, exitActionHeaderProc, sendResponse, goto, setTimer, hs,
          hostCommRxFsmSetNextState]
      · simp [enterSeqPreambleProc, exitActionHeaderProc, sendResponse, goto, setTimer, hs,
          hostCommRxFsmSetNextState]
  · rw [if_neg hout]
    have hquiet : ¬ Raised s.handle := by
      rw [Raised, hs]
      exact fun h => hout (.inl h)
    rw [duringActionHeaderProc]
    refine moves_during hready hquiet ?_ (fun h => absurd hs h) ?_ ?_
    all_goals
      split_ifs
      · simp only [setInternal_ite]
        simp [RxSys.setInternal, loadHeader]
      · simp

theorem moves_payload {s : RxSys} (hs : s.handle.state = .payloadProc) :
    Moves s (payloadProcOnReact s) := by
  have hready : s.handle.state ≠ .packetReady := by simp [hs]
  rw [payloadProcOnReact]
  by_cases hok : s.handle.internal = .payloadOk
  · rw [if_pos hok]
    refine .leave none .crcAndPostambleProc (hs ▸ .stored) ?_ (fun h => absurd h hready)
      (answered_none rfl rfl)
    simp [enterSeqCrcAndPostambleProc, exitActionPayloadProc, goto, setTimer, timeoutMs, hs,
      hostCommRxFsmSetNextState]
  rw [if_neg hok]
  by_cases hraised : timeEventIsRaised s.handle.payloadTimeout = true
  · rw [if_pos hraised]
    dsimp only
    refine .leave (some targetToHostResNack) .preambleProc (hs ▸ .rejectPayload) ?_
      (fun h => absurd h hready) ⟨?_, ?_⟩
    · simp [enterSeqPreambleProc, exitActionPayloadProc, sendResponse, goto, setTimer, hs,
        hostCommRxFsmSetNextState]
    · simp [enterSeqPreambleProc, exitActionPayloadProc, sendResponse]
    · simp [enterSeqPreambleProc, exitActionPayloadProc, sendResponse]
  · rw [if_neg hraised]
    have hquiet : ¬ Raised s.handle := by rwa [Raised, hs]
    rw [duringActionPayloadProc]
    refine moves_during hready hquiet ?_ (fun _ => ?_) ?_ ?_
    all_goals
      split_ifs
      · simp [RxSys.setInternal, loadPayload]
      · simp

theorem moves_crc (env : Env) {s : RxSys} (hs : s.handle.state = .crcAndPostambleProc) :
    Moves s (crcAndPostambleProcOnReact env s) := by
  have hready : s.handle.state ≠ .packetReady := by simp [hs]
  rw [crcAndPostambleProcOnReact]
  by_cases hok : s.handle.internal = .crcAndPostambleOk
  · rw [if_pos hok]
    refine .leave (some targetToHostResAck) .packetReady (hs ▸ .accept) ?_ (fun h => absurd h hready)
      ⟨rfl, rfl⟩
    simp [enterSeqPacketReady, exitActionCrcAndPostambleProc, sendResponse, goto, setTimer, hs,
      hostCommRxFsmSetNextState]
  rw [if_neg hok]
  by_cases hout : timeEventIsRaised s.handle.crcAndPostambleTimeout = true ∨
      s.handle.internal = .crcError ∨ s.handle.internal = .postambleError
  · rw [if_pos hout]
    simp only [exitActionCrcAndPostambleProc, isRaised_stop, Bool.false_eq_true, if_false]
    refine .leave (some targetToHostResNack) .preambleProc (hs ▸ .rejectCrc) ?_
      (fun h => absurd h hready) ⟨rfl, rfl⟩
    simp [enterSeqPreambleProc, sendResponse, goto, setTimer, hs, hostCommRxFsmSetNextState]
  · rw [if_neg hout]
    have hquiet : ¬ Raised s.handle := by
      rw [Raised, hs]
      exact fun h => hout (.inl h)
    rw [duringActionCrcAndPostambleProc]
    by_cases hguard : crcSizeBytes + postambleSizeBytes ≤ (getRxDataLen s).1
    · simp only [if_pos hguard]
      rw [crc_event]
      exact moves_setInternal hready hquiet _ (by simp) (by simp) (by simp)
    · rw [if_neg hguard]
      refine moves_during hready hquiet ?_ (fun _ => ?_) ?_ ?_
      all_goals simp

theorem moves_packetReady {s : RxSys} (hs : s.handle.state = .packetReady) :
    Moves s (packetReadyOnReact s) := by
  rw [packetReadyOnReact]
  split_ifs with hext
  · refine .leave none .preambleProc (hs ▸ .release) ?_ (fun _ => ⟨hext, rfl, rfl, rfl, rfl⟩)
      (answered_none rfl rfl)
    simp [enterSeqPreambleProc, goto, setTimer, hs, hostCommRxFsmSetNextState]
  · exact .stay rfl (fun _ => rfl) (by simp [Raised, hs]) (fun _ => ⟨hext, rfl⟩)
      (answered_none rfl rfl)

theorem moves_run (env : Env) (s : RxSys) : Moves s (hostCommRxFsmRun env s) := by
  rw [hostCommRxFsmRun]
  cases hs : s.handle.state with
  | preambleProc => exact moves_preamble env hs
  | headerProc => exact moves_header hs
  | payloadProc => exact moves_payload hs
  | crcAndPostambleProc => exact moves_crc env hs
  | packetReady => exact moves_packetReady hs
  | _ =>
      exact .stay rfl (fun _ => rfl) (by simp [Raised, hs]) (fun h => by simp [hs] at h)
        (answered_none rfl rfl)

end HostComm.RxMoves
