import HostComm.TimeEvents
import HostComm.TxQueue
import HostComm.TxSend

namespace HostComm.TxFsm

open Protocol TimeEvents TxQueue TxSend UartDriver

abbrev maxNumOfTransferRetries : Nat := 2
abbrev maxAckTimeoutMs : Nat := 50

inductive TxState
  | invalid
  | pollPendingTransfer
  | transmitPacket
  | last
  deriving DecidableEq, Repr

inductive TxInternal
  | invalid
  | pendingPacket
  | noAckExpected
  | last
  deriving DecidableEq, Repr

inductive TxExternal
  | invalid
  | ackReceived
  | nackReceived
  | last
  deriving DecidableEq, Repr

structure HostCommTxFsm where
  state : TxState
  internal : TxInternal
  external : TxExternal
  ackTimeout : TimeEvent
  retryCnt : Nat
  request : TxRequest

inductive SendCause
  | first
  | nack
  | timeout
  deriving DecidableEq, Repr

inductive TxObs
  | accepted (req : TxRequest)
  | external (event : TxExternal)
  | dequeued (req : TxRequest)
  | sent (cause : SendCause) (req : TxRequest)
  | ackTimeout
  | done

/-- The machine with the queue and the driver it calls. No function reads
`trace`, the observations so far with the newest first. -/
structure TxSys where
  handle : HostCommTxFsm
  queue : HostCommTxQueue
  uart : Uart
  trace : List TxObs

def clearEvents (h : HostCommTxFsm) : HostCommTxFsm :=
  { h with internal := .invalid, external := .invalid, ackTimeout := timeEventStop }

def hostCommTxFsmSetNextState (h : HostCommTxFsm) (next : TxState) : HostCommTxFsm :=
  clearEvents { h with state := next }

def enterSeqPollPendingTransfers (s : TxSys) : TxSys :=
  { s with handle := { hostCommTxFsmSetNextState s.handle .pollPendingTransfer with retryCnt := 0 } }

def hostCommTxFsmInit (h : HostCommTxFsm) (uart : Uart) : TxSys :=
  let zeroed := { h with request := { h.request with packet := ⟨⟨0, 0, 0⟩, .zero⟩ } }
  enterSeqPollPendingTransfers
    { handle := clearEvents zeroed, queue := hostCommTxQueueInit, uart, trace := [] }

def duringActionPollPendingTransfers (s : TxSys) : TxSys :=
  if hostCommTxQueueGetPendingTransfers s.queue ≠ 0 then
    { s with handle := { s.handle with internal := .pendingPacket } }
  else s

def exitActionPollPendingTransfers (s : TxSys) : TxSys :=
  let r := hostCommTxQueueReadRequest s.queue s.handle.request
  { s with
    queue := r.2.1
    handle := { s.handle with request := r.2.2 }
    trace := .dequeued r.2.2 :: s.trace }

def entryActionTransmitPacket (env : Env) (cause : SendCause) (s : TxSys) : TxSys :=
  let handle :=
    if s.handle.request.ackExpected then
      { s.handle with ackTimeout := timeEventStart maxAckTimeoutMs }
    else { s.handle with internal := .noAckExpected }
  { s with
    handle
    uart := (txSendPacket (env.behind s.handle.request.ackExpected) s.uart s.handle.request.packet).2
    trace := .sent cause s.handle.request :: s.trace }

def enterSeqTransmitPacket (env : Env) (cause : SendCause) (s : TxSys) : TxSys :=
  entryActionTransmitPacket env cause
    { s with handle := hostCommTxFsmSetNextState s.handle .transmitPacket }

def exitActionTransmitPacket (s : TxSys) : TxSys :=
  { s with handle := { s.handle with ackTimeout := timeEventStop } }

def pollPendingTransfersOnReact (env : Env) (s : TxSys) : TxSys :=
  if s.handle.internal = .pendingPacket then
    enterSeqTransmitPacket env .first (exitActionPollPendingTransfers s)
  else duringActionPollPendingTransfers s

def finish (s : TxSys) : TxSys :=
  enterSeqPollPendingTransfers { s with trace := .done :: s.trace }

def transmitPacketOnReact (env : Env) (s : TxSys) : TxSys :=
  if s.handle.external = .ackReceived ∨ s.handle.internal = .noAckExpected then
    finish (exitActionTransmitPacket s)
  else if s.handle.external = .nackReceived then
    enterSeqTransmitPacket env .nack (exitActionTransmitPacket s)
  else if timeEventIsRaised s.handle.ackTimeout then
    let s := exitActionTransmitPacket { s with trace := .ackTimeout :: s.trace }
    let retryCnt := s.handle.retryCnt
    -- the counter is a `uint8_t` and is incremented after the comparison
    let s := { s with handle := { s.handle with retryCnt := (retryCnt + 1) % 256 } }
    if maxNumOfTransferRetries ≤ retryCnt then finish s
    else enterSeqTransmitPacket env .timeout s
  else s

def hostCommTxFsmRun (env : Env) (s : TxSys) : TxSys :=
  match s.handle.state with
  | .pollPendingTransfer => pollPendingTransfersOnReact env s
  | .transmitPacket => transmitPacketOnReact env s
  | _ => s

def hostCommTxFsmTimeEventUpdate (s : TxSys) : TxSys :=
  { s with handle := { s.handle with ackTimeout := timeEventUpdate s.handle.ackTimeout } }

def hostCommTxFsmSetExtEvent (s : TxSys) (event : TxExternal) : TxSys :=
  { s with
    handle := { s.handle with external := event }
    trace := .external event :: s.trace }

def writeRequest (s : TxSys) (req : TxRequest) : TxSys :=
  let r := hostCommTxQueueWriteRequest s.queue req
  { s with queue := r.2, trace := if r.1 then .accepted req :: s.trace else s.trace }

/-- `strlen` in a 16-bit field, as the header stores it. -/
def hostCommTxFsmWriteDbgMsg (q : HostCommTxQueue) (local_ : TxRequest) (dbgMsg : List UInt8)
    (ackExpected : Bool) : Bool × HostCommTxQueue :=
  let payloadLen := UInt16.ofNat dbgMsg.length
  if 0 < payloadLen.toNat ∧ payloadLen.toNat < maxPayloadSize then
    hostCommTxQueueWriteRequest q
      { src := txSrcFwUser, ackExpected
        packet := ⟨⟨targetToHostEvtPrintDbgMsg, targetToHostDir, payloadLen⟩,
          local_.packet.payload.load (dbgMsg.take payloadLen.toNat)⟩ }
  else (false, q)

def noPayloadRequest (type : UInt8) (ackExpected : Bool) : TxRequest :=
  { src := txSrcRxFsm, ackExpected, packet := ⟨⟨type, targetToHostDir, 0⟩, .zero⟩ }

def hostCommTxFsmSendPacketNoPayload (q : HostCommTxQueue) (type : UInt8) (ackExpected : Bool) :
    Bool × HostCommTxQueue :=
  hostCommTxQueueWriteRequest q (noPayloadRequest type ackExpected)

inductive TxEvent
  | request (req : TxRequest)
  | run
  | tick
  | external (event : TxExternal)
  | txComplete

/-- One step of the machine's environment. A completion interrupt needs a
running transfer. -/
def txStep (env : Env) (s : TxSys) : TxEvent → TxSys
  | .request req => writeRequest s req
  | .run => hostCommTxFsmRun env s
  | .tick => hostCommTxFsmTimeEventUpdate s
  | .external event => hostCommTxFsmSetExtEvent s event
  | .txComplete => if s.uart.huart.txIt then { s with uart := uartEndTransmitIt s.uart } else s

theorem writeRequest_keeps {β : Type} (view : List TxObs → β) {s : TxSys} {req : TxRequest}
    (h : view (.accepted req :: s.trace) = view s.trace) :
    view (writeRequest s req).trace = view s.trace := by
  rw [writeRequest]
  dsimp only
  split_ifs
  · exact h
  · rfl

theorem txComplete_uart (env : Env) (s : TxSys) :
    ∃ uart, txStep env s .txComplete = { s with uart } := by
  rw [txStep]
  split_ifs
  · exact ⟨_, rfl⟩
  · exact ⟨_, rfl⟩

end HostComm.TxFsm
