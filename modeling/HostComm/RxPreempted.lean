import HostComm.TimeSteps
import HostComm.TimerDiscipline

namespace HostComm.RxPreempted

open Protocol TimeEvents UartDriver ByteRings TxQueue TxSend TxFsm RxFsm RxStream RxMoves
open TimerDiscipline Preemption TimeSteps Runs

section code

def timerOf (w : RxState) (s : RxSys) : TimeEvent := timer s.handle w

def setTimerOf (w : RxState) (s : RxSys) (t : TimeEvent) : RxSys :=
  { s with handle := setTimer s.handle w t }

def startCode (w : RxState) (timeMs : Nat) (rest : Code RxSys) : Code RxSys :=
  timeEventStartCode (timerOf w) (setTimerOf w) timeMs rest

def stopCode (w : RxState) (rest : Code RxSys) : Code RxSys :=
  timeEventStopCode (timerOf w) (setTimerOf w) rest

def store (φ : HostCommRxFsm → HostCommRxFsm) (rest : Code RxSys) : Code RxSys :=
  .assign (fun s => { s with handle := φ s.handle }) rest

def setNextStateCode (next : RxState) (rest : Code RxSys) : Code RxSys :=
  store (fun h => { h with state := next })
    (store (fun h => { h with internal := .invalid })
      (store (fun h => { h with external := .invalid }) rest))

def setInternalCode (event : RxInternal) (rest : Code RxSys) : Code RxSys :=
  store (fun h => { h with internal := event }) rest

def enterSeqPreambleProcCode : Code RxSys := setNextStateCode .preambleProc .done

def enterSeqHeaderProcCode : Code RxSys :=
  setNextStateCode .headerProc (startCode .headerProc headerBytesTimeoutMs .done)

def enterSeqPayloadProcCode : Code RxSys :=
  setNextStateCode .payloadProc
    (.look (fun s => s.handle.packet.header.payloadLen.toNat) fun timeMs =>
      startCode .payloadProc timeMs .done)

def enterSeqCrcAndPostambleProcCode : Code RxSys :=
  setNextStateCode .crcAndPostambleProc (startCode .crcAndPostambleProc postambleBytesTimeoutMs .done)

def readPreambleCode (local_ : UInt8) : List UInt8 → Code RxSys
  | [] => setInternalCode .preambleOk .done
  | bit :: bits => .call (fun s => readRxData s 1) fun bytes =>
      let preamble := bytes.headD local_
      if preamble ≠ bit then .done else readPreambleCode preamble bits

def duringActionPreambleProcCode (env : Env) : Code RxSys :=
  .call getRxDataLen fun len =>
    if preambleSizeBytes ≤ len then readPreambleCode env.junk protocolPreamble else .done

def preambleProcOnReactCode (env : Env) : Code RxSys :=
  .branch (fun s => s.handle.internal = .preambleOk) enterSeqHeaderProcCode
    (duringActionPreambleProcCode env)

def duringActionHeaderProcCode : Code RxSys :=
  .call getRxDataLen fun len =>
    if headerSizeBytes ≤ len then
      .call (fun s => readRxData s headerSizeBytes) fun bytes =>
        .assign (fun s => loadHeader s bytes)
          (.branch (fun s => protocolCheckValidHeader s.handle.packet = true)
            (setInternalCode .headerOk .done) (setInternalCode .headerError .done))
    else .done

/-- The source looks at the timer a second time. -/
def rejectHeaderCode : Code RxSys :=
  let answer := .assign (fun s => sendResponse s targetToHostResNack)
    (stopCode .headerProc enterSeqPreambleProcCode)
  .branch (fun s => timeEventIsRaised s.handle.headerTimeout = true) (.assign clearRxData answer) answer

def headerProcOnReactCode : Code RxSys :=
  .branch (fun s => s.handle.internal = .headerOk)
    (stopCode .headerProc
      (.branch (fun s => 0 < s.handle.packet.header.payloadLen.toNat) enterSeqPayloadProcCode
        enterSeqCrcAndPostambleProcCode))
    (.branch (fun s => timeEventIsRaised s.handle.headerTimeout = true) rejectHeaderCode
      (.branch (fun s => s.handle.internal = .headerError) rejectHeaderCode
        duringActionHeaderProcCode))

def duringActionPayloadProcCode : Code RxSys :=
  .look (fun s => s.handle.packet.header.payloadLen.toNat % 256) fun expDataLen =>
    .call getRxDataLen fun len =>
      if expDataLen ≤ len then
        setInternalCode .payloadOk
          (.look (fun s => s.handle.packet.header.payloadLen.toNat) fun dataLen =>
            .call (fun s => readRxData s dataLen) fun bytes =>
              .assign (fun s => loadPayload s bytes) .done)
      else .done

def payloadProcOnReactCode : Code RxSys :=
  .branch (fun s => s.handle.internal = .payloadOk)
    (stopCode .payloadProc enterSeqCrcAndPostambleProcCode)
    (.branch (fun s => timeEventIsRaised s.handle.payloadTimeout = true)
      (stopCode .payloadProc (.assign clearRxData
        (.assign (fun s => sendResponse s targetToHostResNack) enterSeqPreambleProcCode)))
      duringActionPayloadProcCode)

def duringActionCrcAndPostambleProcCode (env : Env) : Code RxSys :=
  .call getRxDataLen fun len =>
    if crcSizeBytes + postambleSizeBytes ≤ len then
      .call (fun s => readRxData s crcSizeBytes) fun crc =>
        .call (fun s => readRxData s postambleSizeBytes) fun post =>
          .branch (fun s => rxCrc env s.handle.packet ≠ readWord env.junk crc)
            (setInternalCode .crcError .done)
            (if readWord env.junk post ≠ postamble then
              setInternalCode .postambleError (setInternalCode .crcAndPostambleOk .done)
            else setInternalCode .crcAndPostambleOk .done)
    else .done

def rejectCrcAndPostambleCode : Code RxSys :=
  let answer := .assign (fun s => sendResponse s targetToHostResNack) enterSeqPreambleProcCode
  stopCode .crcAndPostambleProc
    (.branch (fun s => timeEventIsRaised s.handle.crcAndPostambleTimeout = true)
      (.assign clearRxData answer) answer)

def crcAndPostambleProcOnReactCode (env : Env) : Code RxSys :=
  .branch (fun s => s.handle.internal = .crcAndPostambleOk)
    (stopCode .crcAndPostambleProc
      (.assign (fun s => sendResponse s targetToHostResAck) (setNextStateCode .packetReady .done)))
    (.branch (fun s => timeEventIsRaised s.handle.crcAndPostambleTimeout = true)
      rejectCrcAndPostambleCode
      (.branch (fun s => s.handle.internal = .crcError) rejectCrcAndPostambleCode
        (.branch (fun s => s.handle.internal = .postambleError) rejectCrcAndPostambleCode
          (duringActionCrcAndPostambleProcCode env))))

def packetReadyOnReactCode : Code RxSys :=
  .branch (fun s => s.handle.external = .packetProccessed) enterSeqPreambleProcCode .done

def onReactCode (env : Env) : RxState → Code RxSys
  | .preambleProc => preambleProcOnReactCode env
  | .headerProc => headerProcOnReactCode
  | .payloadProc => payloadProcOnReactCode
  | .crcAndPostambleProc => crcAndPostambleProcOnReactCode env
  | .packetReady => packetReadyOnReactCode
  | _ => .done

def stateOf (s : RxSys) : RxState := s.handle.state

def hostCommRxFsmRunCode (env : Env) : Code RxSys := .look stateOf (onReactCode env)

end code

section refinement

theorem exec_setInternal (event : RxInternal) (rest : Code RxSys) (s : RxSys) :
    (setInternalCode event rest).exec s = rest.exec (s.setInternal event) := rfl

theorem exec_setNextState (next : RxState) (rest : Code RxSys) (s : RxSys) :
    (setNextStateCode next rest).exec s =
      rest.exec { s with handle := hostCommRxFsmSetNextState s.handle next } := rfl

theorem exec_start (w : RxState) (timeMs : Nat) (rest : Code RxSys) (s : RxSys) :
    (startCode w timeMs rest).exec s = rest.exec (setTimerOf w s (timeEventStart timeMs)) := by
  cases w <;> rfl

theorem exec_stop (w : RxState) (rest : Code RxSys) (s : RxSys) :
    (stopCode w rest).exec s = rest.exec (setTimerOf w s timeEventStop) := by
  cases w <;> rfl

theorem exec_readPreamble (bits : List UInt8) (local_ : UInt8) (s : RxSys) :
    (readPreambleCode local_ bits).exec s =
      if (readPreamble local_ s bits).1 then (readPreamble local_ s bits).2.setInternal .preambleOk
      else (readPreamble local_ s bits).2 := by
  induction bits generalizing local_ s with
  | nil => rfl
  | cons bit bits ih =>
      rw [readPreambleCode, Code.exec_call, readPreamble]
      by_cases hbit : (readRxData s 1).1.headD local_ ≠ bit
      · simp only [if_pos hbit, Code.exec_done, Bool.false_eq_true, if_false]
      · simp only [if_neg hbit]
        exact ih ..

theorem exec_during_preamble (env : Env) (s : RxSys) :
    (duringActionPreambleProcCode env).exec s = duringActionPreambleProc env s := by
  rw [duringActionPreambleProcCode, Code.exec_call, duringActionPreambleProc, Code.exec_ite,
    exec_readPreamble, Code.exec_done]

theorem exec_during_header (s : RxSys) :
    duringActionHeaderProcCode.exec s = duringActionHeaderProc s := by
  rw [duringActionHeaderProcCode, Code.exec_call, duringActionHeaderProc, Code.exec_ite]
  simp only [Code.exec_call, Code.exec_assign, Code.exec_branch, exec_setInternal, Code.exec_done]

theorem exec_during_payload (s : RxSys) :
    duringActionPayloadProcCode.exec s = duringActionPayloadProc s := by
  rw [duringActionPayloadProcCode, Code.exec_look, Code.exec_call, duringActionPayloadProc,
    Code.exec_ite]
  simp only [Code.exec_look, Code.exec_call, Code.exec_assign, exec_setInternal, Code.exec_done]

theorem exec_during_crc (env : Env) (s : RxSys) :
    (duringActionCrcAndPostambleProcCode env).exec s = duringActionCrcAndPostambleProc env s := by
  rw [duringActionCrcAndPostambleProcCode, Code.exec_call, duringActionCrcAndPostambleProc,
    Code.exec_ite, Code.exec_done]
  dsimp only
  by_cases hlen : crcSizeBytes + postambleSizeBytes ≤ (getRxDataLen s).1
  · rw [if_pos hlen, if_pos hlen, Code.exec_call, Code.exec_call, Code.exec_branch, Code.exec_ite]
    simp only [exec_setInternal, Code.exec_done]
    rw [apply_ite (fun s : RxSys => s.setInternal .crcAndPostambleOk)]
  · rw [if_neg hlen, if_neg hlen]

theorem exec_rejectHeader (s : RxSys) :
    rejectHeaderCode.exec s = enterSeqPreambleProc (exitActionHeaderProc (sendResponse
      (if timeEventIsRaised s.handle.headerTimeout then clearRxData s else s)
        targetToHostResNack)) := by
  rw [rejectHeaderCode, Code.exec_branch]
  split_ifs
  · rfl
  · rfl

theorem exec_header (s : RxSys) : headerProcOnReactCode.exec s = headerProcOnReact s := by
  rw [headerProcOnReactCode, Code.exec_branch, exec_stop, Code.exec_branch, Code.exec_branch,
    Code.exec_branch, exec_rejectHeader, exec_during_header, headerProcOnReact]
  by_cases hok : s.handle.internal = .headerOk
  · rw [if_pos hok, if_pos hok]
    rfl
  · rw [if_neg hok, if_neg hok, ← ite_or]

theorem exec_payload (s : RxSys) : payloadProcOnReactCode.exec s = payloadProcOnReact s := by
  rw [payloadProcOnReactCode, Code.exec_branch, exec_stop, Code.exec_branch, exec_stop,
    exec_during_payload, payloadProcOnReact]
  rfl

theorem exec_rejectCrcAndPostamble (s : RxSys) :
    rejectCrcAndPostambleCode.exec s = enterSeqPreambleProc (sendResponse
      (exitActionCrcAndPostambleProc s) targetToHostResNack) := by
  rw [rejectCrcAndPostambleCode, exec_stop, Code.exec_branch, if_neg (by simp [setTimerOf, setTimer])]
  rfl

theorem exec_crc (env : Env) (s : RxSys) :
    (crcAndPostambleProcOnReactCode env).exec s = crcAndPostambleProcOnReact env s := by
  rw [crcAndPostambleProcOnReactCode, Code.exec_branch, exec_stop, Code.exec_branch,
    Code.exec_branch, Code.exec_branch, exec_rejectCrcAndPostamble, exec_during_crc,
    crcAndPostambleProcOnReact]
  by_cases hok : s.handle.internal = .crcAndPostambleOk
  · rw [if_pos hok, if_pos hok]
    rfl
  · have hstopped : timeEventIsRaised
        (exitActionCrcAndPostambleProc s).handle.crcAndPostambleTimeout ≠ true := by
      simp [exitActionCrcAndPostambleProc]
    simp only [if_neg hok, if_neg hstopped, ← ite_or]

/-- Without ticks the statements of a run call are the run call. -/
theorem exec_run (env : Env) (s : RxSys) :
    (hostCommRxFsmRunCode env).exec s = hostCommRxFsmRun env s := by
  rw [hostCommRxFsmRunCode, Code.exec_look, hostCommRxFsmRun, stateOf]
  cases s.handle.state with
  | preambleProc =>
      rw [onReactCode, preambleProcOnReactCode, Code.exec_branch, exec_during_preamble,
        preambleProcOnReact]
      rfl
  | headerProc => exact exec_header s
  | payloadProc => exact exec_payload s
  | crcAndPostambleProc => exact exec_crc env s
  | packetReady =>
      rw [onReactCode, packetReadyOnReactCode, Code.exec_branch, packetReadyOnReact]
      rfl
  | _ => rfl

end refinement

section ticks

theorem rxBytes_handle (s : RxSys) (h : HostCommRxFsm) (bytes : List UInt8) :
    rxBytes { s with handle := h } bytes = { rxBytes s bytes with handle := h } := by
  induction bytes generalizing s with
  | nil => rfl
  | cons b bytes ih => exact ih (rxByte s b)

abbrev tick : RxSys → RxSys := hostCommRxFsmTimeEventUpdate

theorem interrupts_tick (s : RxSys) : interrupts (tick s) = tick (interrupts s) := by
  have hirqs : (tick s).irqs = s.irqs := rfl
  rw [interrupts_eq, hirqs, interrupts_eq]
  exact (rxBytes_handle { s with irqs := s.irqs.tail } (tick s).handle _).trans (by
    rw [tick, hostCommRxFsmTimeEventUpdate, hostCommRxFsmTimeEventUpdate, handle_rxBytes])

theorem getRxDataLen_tick (s : RxSys) :
    getRxDataLen (tick s) = ((getRxDataLen s).1, tick (getRxDataLen s).2) := by
  rw [getRxDataLen, interrupts_tick]
  rfl

theorem readRxData_tick (s : RxSys) (len : Nat) :
    readRxData (tick s) len = ((readRxData s len).1, tick (readRxData s len).2) := by
  rw [readRxData, interrupts_tick]
  rfl

theorem clearRxData_tick (s : RxSys) : clearRxData (tick s) = tick (clearRxData s) := by
  rw [clearRxData, interrupts_tick]
  rfl

theorem setTimer_setTimer (h : HostCommRxFsm) (w : RxState) (t u : TimeEvent) :
    setTimer (setTimer h w t) w u = setTimer h w u := by
  cases w <;> rfl

def Only (w : RxState) (h : HostCommRxFsm) : Prop :=
  ∀ v, Waits v → v ≠ w → timer h v = timeEventStop

def Off (h : HostCommRxFsm) : Prop := ∀ v, Waits v → timer h v = timeEventStop

theorem ticking {w : RxState} (hw : Waits w) {s : RxSys} (h : Only w s.handle) :
    Ticking (timerOf w) (setTimerOf w) tick s where
  get_set t := by
    rcases hw with rfl | rfl | rfl
    all_goals rfl
  set_set t u := by simp only [setTimerOf, setTimer_setTimer]
  set_get := by
    rcases hw with rfl | rfl | rfl
    all_goals rfl
  tick_set t := by
    have hstopped (v : RxState) (hv : Waits v) (hne : v ≠ w) :
        timeEventUpdate (timer s.handle v) = timer s.handle v := by
      rw [h v hv hne, update_stop]
    have hheader := hstopped .headerProc (.inl rfl)
    have hpayload := hstopped .payloadProc (.inr (.inl rfl))
    have hcrc := hstopped .crcAndPostambleProc (.inr (.inr rfl))
    simp only [timer] at hheader hpayload hcrc
    rcases hw with rfl | rfl | rfl
    · simp only [hostCommRxFsmTimeEventUpdate, setTimerOf, setTimer, hpayload (by decide),
        hcrc (by decide)]
    · simp only [hostCommRxFsmTimeEventUpdate, setTimerOf, setTimer, hheader (by decide),
        hcrc (by decide)]
    · simp only [hostCommRxFsmTimeEventUpdate, setTimerOf, setTimer, hheader (by decide),
        hpayload (by decide)]

theorem off_setTimerOf {w : RxState} {s : RxSys} (h : Only w s.handle) :
    Off (setTimerOf w s timeEventStop).handle := by
  intro v hv
  rw [setTimerOf, timer_setTimer _ _ _ hv]
  split_ifs with heq
  · rfl
  · exact h v hv (Ne.symm heq)

theorem Off.only {h : HostCommRxFsm} (hoff : Off h) (w : RxState) : Only w h :=
  fun v hv _ => hoff v hv

end ticks

section leaving

variable {rest : Code RxSys}

theorem late_stop {w : RxState} (hw : Waits w) {s : RxSys} (h : Only w s.handle)
    (hrest : Off (setTimerOf w s timeEventStop).handle → Late tick rest (setTimerOf w s timeEventStop)) :
    Late tick (stopCode w rest) s :=
  (ticking hw h).late_stop (hrest (off_setTimerOf h))

theorem late_start {w : RxState} (hw : Waits w) {s : RxSys} (h : Off s.handle) (timeMs : Nat) :
    Late tick (startCode w timeMs .done) s := by
  refine (ticking hw (h.only w)).late_start ?_ .done
  rw [timerOf, h w hw]
  rfl

theorem late_store {φ : HostCommRxFsm → HostCommRxFsm} {s : RxSys}
    (hφ : ∀ s : RxSys, φ (tick s).handle = (tick { s with handle := φ s.handle }).handle)
    (hrest : Late tick rest { s with handle := φ s.handle }) : Late tick (store φ rest) s := by
  refine Late.assign ?_ hrest
  intro s
  simp only [hφ]
  rfl

theorem late_setNextState {next : RxState} {s : RxSys}
    (hrest : Late tick rest { s with handle := hostCommRxFsmSetNextState s.handle next }) :
    Late tick (setNextStateCode next rest) s := by
  refine late_store (fun _ => rfl) ?_
  refine late_store (fun _ => rfl) ?_
  exact late_store (fun _ => rfl) hrest

theorem off_setNextState {h : HostCommRxFsm} (hoff : Off h) (next : RxState) :
    Off (hostCommRxFsmSetNextState h next) :=
  fun v hv => (timer_setNextState h next v).trans (hoff v hv)

variable {s : RxSys}

theorem late_enterPreamble : Late tick enterSeqPreambleProcCode s := late_setNextState .done

theorem late_enterHeader (h : Off s.handle) : Late tick enterSeqHeaderProcCode s := by
  refine late_setNextState (late_start (.inl rfl) ?_ _)
  exact off_setNextState h _

theorem late_enterPayload (h : Off s.handle) : Late tick enterSeqPayloadProcCode s := by
  refine late_setNextState (Late.look (fun _ => rfl) (late_start (.inr (.inl rfl)) ?_ _))
  exact off_setNextState h _

theorem late_enterCrc (h : Off s.handle) : Late tick enterSeqCrcAndPostambleProcCode s := by
  refine late_setNextState (late_start (.inr (.inr rfl)) ?_ _)
  exact off_setNextState h _

end leaving

section during

theorem blind_setInternal {event : RxInternal} {rest : Code RxSys} (h : Blind tick rest) :
    Blind tick (setInternalCode event rest) :=
  .assign (fun _ => rfl) h

theorem blind_readPreamble (bits : List UInt8) (local_ : UInt8) :
    Blind tick (readPreambleCode local_ bits) := by
  induction bits generalizing local_ with
  | nil => exact blind_setInternal .done
  | cons bit bits ih =>
      refine .call (fun s => readRxData_tick s 1) fun bytes => ?_
      dsimp only
      split_ifs
      · exact .done
      · exact ih _

theorem blind_during_preamble (env : Env) : Blind tick (duringActionPreambleProcCode env) := by
  refine .call getRxDataLen_tick fun len => ?_
  split_ifs
  · exact blind_readPreamble _ _
  · exact .done

theorem blind_during_header : Blind tick duringActionHeaderProcCode := by
  refine .call getRxDataLen_tick fun len => ?_
  split_ifs
  · refine .call (fun s => readRxData_tick s _) fun bytes => ?_
    refine .assign (fun _ => rfl) (.branch (fun _ => Iff.rfl) ?_ ?_)
    · exact blind_setInternal .done
    · exact blind_setInternal .done
  · exact .done

theorem blind_during_payload : Blind tick duringActionPayloadProcCode := by
  refine .look (fun _ => rfl) fun expDataLen => .call getRxDataLen_tick fun len => ?_
  split_ifs
  · refine blind_setInternal (.look (fun _ => rfl) fun dataLen => ?_)
    refine .call (fun s => readRxData_tick s _) fun bytes => ?_
    exact .assign (fun _ => rfl) .done
  · exact .done

theorem blind_during_crc (env : Env) : Blind tick (duringActionCrcAndPostambleProcCode env) := by
  refine .call getRxDataLen_tick fun len => ?_
  split_ifs
  · refine .call (fun s => readRxData_tick s _) fun crc => ?_
    refine .call (fun s => readRxData_tick s _) fun post => ?_
    refine .branch (fun _ => Iff.rfl) (blind_setInternal .done) ?_
    split_ifs
    · exact blind_setInternal (blind_setInternal .done)
    · exact blind_setInternal .done
  · exact .done

end during

section calls

variable (env : Env) {s s' : RxSys} {n : Nat}

theorem only_of_timers {h : HostCommRxFsm} {t : Nat} (hinv : RxTimers h t) : Only h.state h :=
  fun v hv hne => (hinv v hv).trans (if_neg (Ne.symm hne))

theorem state_enterPreamble (s : RxSys) : stateOf (enterSeqPreambleProcCode.exec s) = .preambleProc :=
  rfl

theorem state_enterHeader (s : RxSys) : stateOf (enterSeqHeaderProcCode.exec s) = .headerProc := rfl

theorem state_enterPayload (s : RxSys) : stateOf (enterSeqPayloadProcCode.exec s) = .payloadProc :=
  rfl

theorem state_enterCrc (s : RxSys) :
    stateOf (enterSeqCrcAndPostambleProcCode.exec s) = .crcAndPostambleProc := rfl

theorem serial_preamble (hs : s.handle.state = .preambleProc) (hoff : Off s.handle)
    (he : Ends tick (preambleProcOnReactCode env) s n s') :
    Serial tick stateOf (preambleProcOnReactCode env) s n s' := by
  have hrest := he.branch fun _ => Iff.rfl
  refine Serial.branch (fun _ => Iff.rfl) ?_
  by_cases hok : s.handle.internal = .preambleOk
  · rw [if_pos hok] at hrest ⊢
    refine .of_late (a := 0) (Nat.zero_add n) hrest (late_enterHeader hoff) rfl ?_
    rw [state_enterHeader, stateOf, hs]
    decide
  · rw [if_neg hok] at hrest ⊢
    exact .of_blind (a := 0) (Nat.zero_add n) hrest (blind_during_preamble env) rfl

theorem raised_iterate {t : TimeEvent} (h : timeEventIsRaised t = true) (k : Nat) :
    timeEventIsRaised (timeEventUpdate^[k] t) = true := by
  induction k with
  | zero => exact h
  | succ k ih =>
      rw [Function.iterate_succ_apply', timeEventUpdate]
      split_ifs
      · exact ih
      · rfl
      · exact ih

theorem late_answerHeader (h : Only .headerProc s.handle) :
    Late tick (.assign (fun s => sendResponse s targetToHostResNack)
      (stopCode .headerProc enterSeqPreambleProcCode)) s := by
  refine .assign (fun _ => rfl) ?_
  exact late_stop (.inl rfl) h fun _ => late_enterPreamble

theorem headerTimeout_iterate (s : RxSys) (k : Nat) :
    (tick^[k] s).handle.headerTimeout = timeEventUpdate^[k] s.handle.headerTimeout := by
  induction k generalizing s with
  | zero => rfl
  | succ k ih => exact ih (tick s)

theorem only_iterate {w : RxState} (h : Only w s.handle) (k : Nat) : Only w (tick^[k] s).handle := by
  induction k with
  | zero => exact h
  | succ k ih =>
      rw [Function.iterate_succ_apply']
      intro v hv hne
      have hupdate : timer (tick (tick^[k] s)).handle v =
          timeEventUpdate (timer (tick^[k] s).handle v) := by
        rcases hv with rfl | rfl | rfl
        all_goals rfl
      rw [hupdate, ih v hv hne, update_stop]

theorem internal_iterate (s : RxSys) (k : Nat) : (tick^[k] s).handle.internal = s.handle.internal :=
  iterate_keeps (g := tick) (v := fun s => s.handle.internal) (fun _ => rfl) s k

def headerPendingCode : Code RxSys :=
  .branch (fun s => timeEventIsRaised s.handle.headerTimeout = true) rejectHeaderCode
    (.branch (fun s => s.handle.internal = .headerError) rejectHeaderCode duringActionHeaderProcCode)

theorem serial_rejectHeader {a m : Nat} (hs : s.handle.state = .headerProc)
    (honly : Only .headerProc s.handle) (hsum : a + m = n)
    (hwhy : timeEventIsRaised (tick^[a] s).handle.headerTimeout = true ∨
      s.handle.internal = .headerError)
    (he : Ends tick rejectHeaderCode (tick^[a] s) m s') :
    Serial tick stateOf headerPendingCode s n s' := by
  obtain ⟨k, m', hm, hrest⟩ := he.branch_late
  rw [← Function.iterate_add_apply] at hrest
  have honly' : Only .headerProc (tick^[k + a] s).handle := only_iterate honly _
  have hwhy' : timeEventIsRaised (tick^[k + a] s).handle.headerTimeout = true ∨
      (tick^[k + a] s).handle.internal = .headerError := by
    rw [internal_iterate]
    refine hwhy.imp_left fun hraised => ?_
    rw [Function.iterate_add_apply, headerTimeout_iterate]
    exact raised_iterate hraised k
  refine .of_late (a := k + a) (by omega) hrest ?_ ?_ ?_
  · split_ifs
    · refine .assign clearRxData_tick (late_answerHeader ?_)
      rwa [handle_clearRxData]
    · exact late_answerHeader honly'
  · rw [headerPendingCode, Code.exec_branch, Code.exec_branch, ← ite_or, if_pos hwhy',
      rejectHeaderCode, Code.exec_branch, Code.exec_ite]
  · rw [Code.exec_ite]
    split_ifs
    · rw [Code.exec_assign, Code.exec_assign, exec_stop, state_enterPreamble, stateOf, hs]
      decide
    · rw [Code.exec_assign, exec_stop, state_enterPreamble, stateOf, hs]
      decide

theorem serial_headerPending (hs : s.handle.state = .headerProc) (honly : Only .headerProc s.handle)
    (he : Ends tick headerPendingCode s n s') : Serial tick stateOf headerPendingCode s n s' := by
  obtain ⟨k, m, hsum, hrest⟩ := he.branch_late
  by_cases hraised : timeEventIsRaised (tick^[k] s).handle.headerTimeout = true
  · rw [if_pos hraised] at hrest
    exact serial_rejectHeader hs honly hsum (.inl hraised) hrest
  rw [if_neg hraised] at hrest
  have hlast := hrest.branch fun _ => Iff.rfl
  by_cases herror : (tick^[k] s).handle.internal = .headerError
  · rw [if_pos herror] at hlast
    exact serial_rejectHeader hs honly hsum (.inr (internal_iterate s k ▸ herror)) hlast
  · rw [if_neg herror] at hlast
    refine .of_blind hsum hlast blind_during_header ?_
    rw [headerPendingCode, Code.exec_branch, if_neg hraised, Code.exec_branch, if_neg herror]

theorem serial_header (hs : s.handle.state = .headerProc) (honly : Only .headerProc s.handle)
    (he : Ends tick headerProcOnReactCode s n s') :
    Serial tick stateOf headerProcOnReactCode s n s' := by
  have hrest := he.branch fun _ => Iff.rfl
  refine Serial.branch (fun _ => Iff.rfl) ?_
  by_cases hok : s.handle.internal = .headerOk
  · rw [if_pos hok] at hrest ⊢
    refine .of_late (a := 0) (Nat.zero_add n) hrest ?_ rfl ?_
    · refine late_stop (.inl rfl) honly fun hoff => .branch (fun _ => Iff.rfl) ?_ ?_
      · exact fun _ => late_enterPayload hoff
      · exact fun _ => late_enterCrc hoff
    · rw [exec_stop, Code.exec_branch]
      split_ifs
      · rw [state_enterPayload, stateOf, hs]
        decide
      · rw [state_enterCrc, stateOf, hs]
        decide
  · rw [if_neg hok] at hrest ⊢
    exact serial_headerPending hs honly hrest

theorem serial_payload (hs : s.handle.state = .payloadProc) (honly : Only .payloadProc s.handle)
    (he : Ends tick payloadProcOnReactCode s n s') :
    Serial tick stateOf payloadProcOnReactCode s n s' := by
  have hrest := he.branch fun _ => Iff.rfl
  refine Serial.branch (fun _ => Iff.rfl) ?_
  by_cases hok : s.handle.internal = .payloadOk
  · rw [if_pos hok] at hrest ⊢
    refine .of_late (a := 0) (Nat.zero_add n) hrest ?_ rfl ?_
    · exact late_stop (.inr (.inl rfl)) honly late_enterCrc
    · rw [exec_stop, state_enterCrc, stateOf, hs]
      decide
  rw [if_neg hok] at hrest ⊢
  obtain ⟨k, m, hsum, hlater⟩ := hrest.branch_late
  by_cases hraised : timeEventIsRaised (tick^[k] s).handle.payloadTimeout = true
  · rw [if_pos hraised] at hlater
    refine .of_late hsum hlater ?_ ((Code.exec_branch ..).trans (if_pos hraised)) ?_
    · refine late_stop (.inr (.inl rfl)) (only_iterate honly k) fun _ => ?_
      exact .assign clearRxData_tick (.assign (fun _ => rfl) late_enterPreamble)
    · rw [exec_stop, Code.exec_assign, Code.exec_assign, state_enterPreamble, stateOf, hs]
      decide
  · rw [if_neg hraised] at hlater
    exact .of_blind hsum hlater blind_during_payload ((Code.exec_branch ..).trans (if_neg hraised))

theorem late_branch_off {w : RxState} (hw : Waits w) (hoff : Off s.handle) {yes no : Code RxSys}
    (hno : Late tick no s) :
    Late tick (.branch (fun s => timeEventIsRaised (timer s.handle w) = true) yes no) s := by
  have hstopped (k : Nat) : timeEventIsRaised (timer (tick^[k] s).handle w) ≠ true := by
    rw [only_iterate (hoff.only .preambleProc) k w hw (by rcases hw with rfl | rfl | rfl <;> decide),
      isRaised_stop]
    exact Bool.false_ne_true
  have hnow : timeEventIsRaised (timer s.handle w) ≠ true := hstopped 0
  intro n s' he
  obtain ⟨k, m, hsum, hrest⟩ := he.branch_late
  rw [if_neg (hstopped k)] at hrest
  obtain ⟨b, hb, hs⟩ := hno (k + m) s' hrest.delay
  refine ⟨b, by omega, ?_⟩
  rw [hs, Code.exec_branch, if_neg hnow]

theorem late_rejectCrc (honly : Only .crcAndPostambleProc s.handle) :
    Late tick rejectCrcAndPostambleCode s := by
  refine late_stop (.inr (.inr rfl)) honly fun hoff => ?_
  refine late_branch_off (.inr (.inr rfl)) hoff ?_
  exact .assign (fun _ => rfl) late_enterPreamble

theorem serial_crc (hs : s.handle.state = .crcAndPostambleProc)
    (honly : Only .crcAndPostambleProc s.handle)
    (he : Ends tick (crcAndPostambleProcOnReactCode env) s n s') :
    Serial tick stateOf (crcAndPostambleProcOnReactCode env) s n s' := by
  have hrest := he.branch fun _ => Iff.rfl
  refine Serial.branch (fun _ => Iff.rfl) ?_
  by_cases hok : s.handle.internal = .crcAndPostambleOk
  · rw [if_pos hok] at hrest ⊢
    refine .of_late (a := 0) (Nat.zero_add n) hrest ?_ rfl ?_
    · refine late_stop (.inr (.inr rfl)) honly fun _ => ?_
      exact .assign (fun _ => rfl) (late_setNextState .done)
    · rw [exec_stop, Code.exec_assign, exec_setNextState, stateOf, stateOf, hs]
      exact fun h => by cases h
  rw [if_neg hok] at hrest ⊢
  obtain ⟨k, m, hsum, hlater⟩ := hrest.branch_late
  -- the three reasons to refuse lead to one branch
  have hreject (hends : Ends tick rejectCrcAndPostambleCode (tick^[k] s) m s')
      (hwhy : (timeEventIsRaised (tick^[k] s).handle.crcAndPostambleTimeout = true ∨
        (tick^[k] s).handle.internal = .crcError) ∨
          (tick^[k] s).handle.internal = .postambleError) :
      Serial tick stateOf (.branch (fun s => timeEventIsRaised s.handle.crcAndPostambleTimeout = true)
        rejectCrcAndPostambleCode
        (.branch (fun s => s.handle.internal = .crcError) rejectCrcAndPostambleCode
          (.branch (fun s => s.handle.internal = .postambleError) rejectCrcAndPostambleCode
            (duringActionCrcAndPostambleProcCode env)))) s n s' := by
    refine .of_late hsum hends (late_rejectCrc (only_iterate honly k)) ?_ ?_
    · rw [Code.exec_branch, Code.exec_branch, Code.exec_branch, ← ite_or, ← ite_or, if_pos hwhy]
    · rw [exec_rejectCrcAndPostamble, stateOf, stateOf, hs]
      exact fun h => by cases h
  by_cases hraised : timeEventIsRaised (tick^[k] s).handle.crcAndPostambleTimeout = true
  · rw [if_pos hraised] at hlater
    exact hreject hlater (.inl (.inl hraised))
  rw [if_neg hraised] at hlater
  have hcrc := hlater.branch fun _ => Iff.rfl
  by_cases hcrcError : (tick^[k] s).handle.internal = .crcError
  · rw [if_pos hcrcError] at hcrc
    exact hreject hcrc (.inl (.inr hcrcError))
  rw [if_neg hcrcError] at hcrc
  have hpostamble := hcrc.branch fun _ => Iff.rfl
  by_cases hpostambleError : (tick^[k] s).handle.internal = .postambleError
  · rw [if_pos hpostambleError] at hpostamble
    exact hreject hpostamble (.inr hpostambleError)
  · rw [if_neg hpostambleError] at hpostamble
    refine .of_blind hsum hpostamble (blind_during_crc env) ?_
    rw [Code.exec_branch, if_neg hraised, Code.exec_branch, if_neg hcrcError, Code.exec_branch,
      if_neg hpostambleError]

theorem blind_packetReady : Blind tick packetReadyOnReactCode := by
  refine .branch (fun _ => Iff.rfl) ?_ .done
  exact .assign (fun _ => rfl) (.assign (fun _ => rfl) (.assign (fun _ => rfl) .done))

theorem serial_onReact {t : Nat} (hinv : RxTimers s.handle t)
    (he : Ends tick (onReactCode env s.handle.state) s n s') :
    Serial tick stateOf (onReactCode env s.handle.state) s n s' := by
  have honly := only_of_timers hinv
  cases hs : s.handle.state with
  | preambleProc =>
      rw [hs] at he
      refine serial_preamble env hs (fun v hv => ?_) he
      exact (hinv v hv).trans (if_neg (by rcases hv with rfl | rfl | rfl <;> simp [hs]))
  | headerProc =>
      rw [hs] at he honly
      exact serial_header hs honly he
  | payloadProc =>
      rw [hs] at he honly
      exact serial_payload hs honly he
  | crcAndPostambleProc =>
      rw [hs] at he honly
      exact serial_crc env hs honly he
  | packetReady =>
      rw [hs] at he
      exact .of_blind (a := 0) (Nat.zero_add n) he blind_packetReady rfl
  | _ =>
      rw [hs] at he
      exact .of_blind (a := 0) (Nat.zero_add n) he .done rfl

/-- A run call with ticks at its statements is a run call with ticks around
it, and none is lost when it stays in its state. -/
theorem serial_run {t : Nat} (hinv : RxTimers s.handle t)
    (he : Ends tick (hostCommRxFsmRunCode env) s n s') :
    Serial tick stateOf (hostCommRxFsmRunCode env) s n s' := by
  refine Serial.look (fun _ => rfl) ?_
  exact serial_onReact env hinv (he.look fun _ => rfl)

end calls

end HostComm.RxPreempted
