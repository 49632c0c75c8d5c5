import HostComm.TimeSteps
import HostComm.TxFsm

namespace HostComm.TxPreempted

open Protocol TimeEvents UartDriver TxQueue TxSend TxFsm Preemption TimeSteps

section code

def ackTimeoutOf (s : TxSys) : TimeEvent := s.handle.ackTimeout

def setAckTimeout (s : TxSys) (t : TimeEvent) : TxSys :=
  { s with handle := { s.handle with ackTimeout := t } }

def startCode (timeMs : Nat) (rest : Code TxSys) : Code TxSys :=
  timeEventStartCode ackTimeoutOf setAckTimeout timeMs rest

def stopCode (rest : Code TxSys) : Code TxSys := timeEventStopCode ackTimeoutOf setAckTimeout rest

def store (φ : HostCommTxFsm → HostCommTxFsm) (rest : Code TxSys) : Code TxSys :=
  .assign (fun s => { s with handle := φ s.handle }) rest

def record (o : TxObs) (rest : Code TxSys) : Code TxSys :=
  .assign (fun s => { s with trace := o :: s.trace }) rest

def setNextStateCode (next : TxState) (rest : Code TxSys) : Code TxSys :=
  store (fun h => { h with state := next })
    (store (fun h => { h with internal := .invalid })
      (store (fun h => { h with external := .invalid }) (stopCode rest)))

def finishCode : Code TxSys :=
  record .done (setNextStateCode .pollPendingTransfer (store (fun h => { h with retryCnt := 0 }) .done))

def duringActionPollPendingTransfersCode : Code TxSys :=
  .branch (fun s => hostCommTxQueueGetPendingTransfers s.queue ≠ 0)
    (store (fun h => { h with internal := .pendingPacket }) .done) .done

/-- The send touches neither the handle nor its timer, so it is one statement. -/
def sendCode (env : Env) (cause : SendCause) : Code TxSys :=
  .assign (fun s => { s with
    uart := (txSendPacket (env.behind s.handle.request.ackExpected) s.uart s.handle.request.packet).2
    trace := .sent cause s.handle.request :: s.trace }) .done

def enterSeqTransmitPacketCode (env : Env) (cause : SendCause) : Code TxSys :=
  setNextStateCode .transmitPacket
    (.branch (fun s => s.handle.request.ackExpected = true)
      (startCode maxAckTimeoutMs (sendCode env cause))
      (store (fun h => { h with internal := .noAckExpected }) (sendCode env cause)))

def pollPendingTransfersOnReactCode (env : Env) : Code TxSys :=
  .branch (fun s => s.handle.internal = .pendingPacket)
    (.assign exitActionPollPendingTransfers (enterSeqTransmitPacketCode env .first))
    duringActionPollPendingTransfersCode

def ackTimeoutCode (env : Env) : Code TxSys :=
  record .ackTimeout (stopCode
    (.look (fun s => s.handle.retryCnt) fun retryCnt =>
      store (fun h => { h with retryCnt := (retryCnt + 1) % 256 })
        (if maxNumOfTransferRetries ≤ retryCnt then finishCode
        else enterSeqTransmitPacketCode env .timeout)))

def transmitPacketOnReactCode (env : Env) : Code TxSys :=
  .branch (fun s => s.handle.external = .ackReceived ∨ s.handle.internal = .noAckExpected)
    (stopCode finishCode)
    (.branch (fun s => s.handle.external = .nackReceived)
      (stopCode (enterSeqTransmitPacketCode env .nack))
      (.branch (fun s => timeEventIsRaised s.handle.ackTimeout = true) (ackTimeoutCode env) .done))

def onReactCode (env : Env) : TxState → Code TxSys
  | .pollPendingTransfer => pollPendingTransfersOnReactCode env
  | .transmitPacket => transmitPacketOnReactCode env
  | _ => .done

def hostCommTxFsmRunCode (env : Env) : Code TxSys :=
  .look (fun s => s.handle.state) (onReactCode env)

end code

abbrev tick : TxSys → TxSys := hostCommTxFsmTimeEventUpdate

theorem ticking (s : TxSys) : Ticking ackTimeoutOf setAckTimeout tick s where
  get_set _ := rfl
  set_set _ _ := rfl
  set_get := rfl
  tick_set _ := rfl

section refinement

variable (env : Env)

theorem exec_stop (rest : Code TxSys) (s : TxSys) :
    (stopCode rest).exec s = rest.exec (setAckTimeout s timeEventStop) := (ticking s).exec_stop

theorem exec_start (timeMs : Nat) (rest : Code TxSys) (s : TxSys) :
    (startCode timeMs rest).exec s = rest.exec (setAckTimeout s (timeEventStart timeMs)) :=
  (ticking s).exec_start timeMs

theorem exec_setNextState (next : TxState) (rest : Code TxSys) (s : TxSys) :
    (setNextStateCode next rest).exec s =
      rest.exec { s with handle := hostCommTxFsmSetNextState s.handle next } := by
  rw [setNextStateCode, store, Code.exec_assign, store, Code.exec_assign, store, Code.exec_assign,
    exec_stop]
  rfl

theorem exec_finish (s : TxSys) : finishCode.exec s = finish s := by
  rw [finishCode, record, Code.exec_assign, exec_setNextState]
  rfl

theorem exec_enterTransmit (cause : SendCause) (s : TxSys) :
    (enterSeqTransmitPacketCode env cause).exec s = enterSeqTransmitPacket env cause s := by
  rw [enterSeqTransmitPacketCode, exec_setNextState, Code.exec_branch, exec_start,
    enterSeqTransmitPacket, entryActionTransmitPacket]
  split_ifs
  · rfl
  · rfl

theorem exec_run (s : TxSys) : (hostCommTxFsmRunCode env).exec s = hostCommTxFsmRun env s := by
  rw [hostCommTxFsmRunCode, Code.exec_look, hostCommTxFsmRun]
  cases s.handle.state with
  | pollPendingTransfer =>
      rw [onReactCode, pollPendingTransfersOnReactCode, Code.exec_branch, Code.exec_assign,
        exec_enterTransmit, duringActionPollPendingTransfersCode, Code.exec_branch]
      rfl
  | transmitPacket =>
      rw [onReactCode, transmitPacketOnReactCode, Code.exec_branch, exec_stop, exec_finish,
        Code.exec_branch, exec_stop, exec_enterTransmit, Code.exec_branch, ackTimeoutCode, record,
        Code.exec_assign, exec_stop, Code.exec_look, store, Code.exec_assign, Code.exec_ite,
        exec_finish, exec_enterTransmit, Code.exec_done]
      rfl
  | _ => rfl

end refinement

section calls

variable (env : Env) {s s' : TxSys} {n : Nat} {rest : Code TxSys}

theorem late_stop {s : TxSys} (h : Late tick rest (setAckTimeout s timeEventStop)) :
    Late tick (stopCode rest) s := (ticking s).late_stop h

theorem late_store {φ : HostCommTxFsm → HostCommTxFsm} {s : TxSys}
    (hφ : ∀ s : TxSys, φ (tick s).handle = (tick { s with handle := φ s.handle }).handle)
    (hrest : Late tick rest { s with handle := φ s.handle }) : Late tick (store φ rest) s := by
  refine Late.assign ?_ hrest
  intro s
  simp only [hφ]
  rfl

theorem late_setNextState {next : TxState} {s : TxSys}
    (hrest : Late tick rest { s with handle := hostCommTxFsmSetNextState s.handle next }) :
    Late tick (setNextStateCode next rest) s := by
  refine late_store (fun _ => rfl) ?_
  refine late_store (fun _ => rfl) ?_
  exact late_store (fun _ => rfl) (late_stop hrest)

theorem late_finish : Late tick finishCode s := by
  refine .assign (fun _ => rfl) (late_setNextState ?_)
  exact late_store (fun _ => rfl) .done

theorem late_enterTransmit (cause : SendCause) :
    Late tick (enterSeqTransmitPacketCode env cause) s := by
  have hsend (s : TxSys) : Late tick (sendCode env cause) s := .assign (fun _ => rfl) .done
  refine late_setNextState (.branch (fun _ => Iff.rfl) (fun _ => ?_) fun _ => ?_)
  · exact (ticking _).late_start rfl (hsend _)
  · exact late_store (fun _ => rfl) (hsend _)

theorem late_ackTimeout : Late tick (ackTimeoutCode env) s := by
  refine .assign (fun _ => rfl) (late_stop (.look (fun _ => rfl) ?_))
  refine late_store (fun _ => rfl) ?_
  split_ifs
  · exact late_finish
  · exact late_enterTransmit env .timeout

theorem trace_ne {o : TxObs} {t u : List TxObs} (h : u <:+ t) : o :: t ≠ u := by
  intro heq
  have hlen := h.length_le
  rw [← heq, List.length_cons] at hlen
  exact Nat.not_succ_le_self _ hlen

theorem serial_poll (he : Ends tick (pollPendingTransfersOnReactCode env) s n s') :
    Serial tick TxSys.trace (pollPendingTransfersOnReactCode env) s n s' := by
  have hrest := he.branch fun _ => Iff.rfl
  refine Serial.branch (fun _ => Iff.rfl) ?_
  split_ifs at hrest ⊢
  · refine .of_late (a := 0) (Nat.zero_add n) hrest ?_ rfl ?_
    · exact .assign (fun _ => rfl) (late_enterTransmit env .first)
    · rw [Code.exec_assign, exec_enterTransmit]
      exact trace_ne (List.suffix_cons _ _)
  · refine .of_blind (a := 0) (Nat.zero_add n) hrest ?_ rfl
    exact .branch (fun _ => Iff.rfl) (.assign (fun _ => rfl) .done) .done

theorem serial_ackTimeout {k m : Nat} (hsum : k + m = n)
    (hraised : timeEventIsRaised (tick^[k] s).handle.ackTimeout = true)
    (he : Ends tick (ackTimeoutCode env) (tick^[k] s) m s') :
    Serial tick TxSys.trace
      (.branch (fun s => timeEventIsRaised s.handle.ackTimeout = true) (ackTimeoutCode env) .done)
      s n s' := by
  have htrace : (tick^[k] s).trace = s.trace :=
    iterate_keeps (g := tick) (v := TxSys.trace) (fun _ => rfl) s k
  refine .of_late hsum he (late_ackTimeout env) ((Code.exec_branch ..).trans (if_pos hraised)) ?_
  rw [ackTimeoutCode, record, Code.exec_assign, exec_stop, Code.exec_look, store, Code.exec_assign,
    Code.exec_ite, exec_finish, exec_enterTransmit, ← htrace]
  split_ifs
  · exact trace_ne (List.suffix_cons _ _)
  · exact trace_ne (List.suffix_cons _ _)

theorem serial_transmit (he : Ends tick (transmitPacketOnReactCode env) s n s') :
    Serial tick TxSys.trace (transmitPacketOnReactCode env) s n s' := by
  have hrest := he.branch fun _ => Iff.rfl
  refine Serial.branch (fun _ => Iff.rfl) ?_
  by_cases hdone : s.handle.external = .ackReceived ∨ s.handle.internal = .noAckExpected
  · rw [if_pos hdone] at hrest ⊢
    refine .of_late (a := 0) (Nat.zero_add n) hrest (late_stop late_finish) rfl ?_
    rw [exec_stop, exec_finish]
    exact trace_ne List.suffix_rfl
  rw [if_neg hdone] at hrest ⊢
  have hnext := hrest.branch fun _ => Iff.rfl
  refine Serial.branch (fun _ => Iff.rfl) ?_
  by_cases hnack : s.handle.external = .nackReceived
  · rw [if_pos hnack] at hnext ⊢
    refine .of_late (a := 0) (Nat.zero_add n) hnext (late_stop (late_enterTransmit env .nack)) rfl ?_
    rw [exec_stop, exec_enterTransmit]
    exact trace_ne List.suffix_rfl
  rw [if_neg hnack] at hnext ⊢
  obtain ⟨k, m, hsum, hlater⟩ := hnext.branch_late
  by_cases hraised : timeEventIsRaised (tick^[k] s).handle.ackTimeout = true
  · rw [if_pos hraised] at hlater
    exact serial_ackTimeout env hsum hraised hlater
  · rw [if_neg hraised] at hlater
    exact .of_blind hsum hlater .done ((Code.exec_branch ..).trans (if_neg hraised))

theorem serial_onReact (he : Ends tick (onReactCode env s.handle.state) s n s') :
    Serial tick TxSys.trace (onReactCode env s.handle.state) s n s' := by
  cases hs : s.handle.state with
  | pollPendingTransfer =>
      rw [hs] at he
      exact serial_poll env he
  | transmitPacket =>
      rw [hs] at he
      exact serial_transmit env he
  | _ =>
      rw [hs] at he
      exact .of_blind (a := 0) (Nat.zero_add n) he .done rfl

/-- A run call with ticks at its statements is a run call with ticks around
it, and none is lost when it neither sends nor ends a request. -/
theorem serial_run (he : Ends tick (hostCommTxFsmRunCode env) s n s') :
    Serial tick TxSys.trace (hostCommTxFsmRunCode env) s n s' := by
  refine Serial.look (fun _ => rfl) ?_
  exact serial_onReact env (he.look fun _ => rfl)

end calls

end HostComm.TxPreempted
