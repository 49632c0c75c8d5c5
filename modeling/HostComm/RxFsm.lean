import HostComm.TxFsm

namespace HostComm.RxFsm

open Protocol LittleEndian Crc TimeEvents UartDriver ByteRings TxQueue TxSend TxFsm

abbrev headerBytesTimeoutMs : Nat := 30
abbrev postambleBytesTimeoutMs : Nat := 5

inductive RxState
  | invalid
  | preambleProc
  | headerProc
  | payloadProc
  | crcAndPostambleProc
  | packetReady
  | last
  deriving DecidableEq, Repr

inductive RxInternal
  | invalid
  | preambleOk
  | headerOk
  | headerError
  | payloadOk
  | crcAndPostambleOk
  | postambleError
  | crcError
  | reqPacketReady
  | last
  deriving DecidableEq, Repr

inductive RxExternal
  | invalid
  | packetProccessed
  | last
  deriving DecidableEq, Repr

structure HostCommRxFsm where
  state : RxState
  internal : RxInternal
  external : RxExternal
  headerTimeout : TimeEvent
  payloadTimeout : TimeEvent
  crcAndPostambleTimeout : TimeEvent
  packet : PacketData

structure RxRead where
  len : Nat
  ok : Bool
  bytes : List UInt8

/-- A response request, with the packet the machine held when it issued it. -/
structure RxResponse where
  request : TxRequest
  packet : PacketData

/-- The machine with the ring it reads and the queue it writes. `irqs` are the
bytes that arrive before each of the next ring operations of a run call. No
function reads the last four fields, the history. -/
structure RxSys where
  handle : HostCommRxFsm
  rx : ByteRing rxDataBuffSize
  queue : HostCommTxQueue
  irqs : List (List UInt8)
  arrived : List UInt8
  overflows : Nat
  reads : List RxRead
  responses : List RxResponse

namespace RxSys

def start (handle : HostCommRxFsm) (queue : HostCommTxQueue) : RxSys :=
  { handle, rx := .init (fun _ => 0) rxDataBuffSize_pos, queue, irqs := [], arrived := [], overflows := 0
    reads := [], responses := [] }

def consumed (s : RxSys) : List UInt8 := s.reads.flatMap RxRead.bytes

def setInternal (s : RxSys) (event : RxInternal) : RxSys :=
  { s with handle := { s.handle with internal := event } }

end RxSys

def rxByte (s : RxSys) (byte : UInt8) : RxSys :=
  { s with
    rx := rxArrival s.rx byte
    arrived := s.arrived ++ [byte]
    overflows := if s.rx.Room 1 then s.overflows else s.overflows + 1 }

def rxBytes (s : RxSys) (bytes : List UInt8) : RxSys := bytes.foldl rxByte s

def interrupts (s : RxSys) : RxSys :=
  match s.irqs with
  | [] => s
  | batch :: rest => rxBytes { s with irqs := rest } batch

def getRxDataLen (s : RxSys) : Nat × RxSys :=
  (uartGetRxDataLen (interrupts s).rx, interrupts s)

def readRxData (s : RxSys) (len : Nat) : List UInt8 × RxSys :=
  let s := interrupts s
  let r := uartReadRxData s.rx len
  (r.2.1, { s with rx := r.2.2, reads := s.reads ++ [⟨len, r.1, r.2.1⟩] })

def clearRxData (s : RxSys) : RxSys :=
  let s := interrupts s
  { s with rx := uartClearRxData s.rx }

def sendResponse (s : RxSys) (type : UInt8) : RxSys :=
  { s with
    queue := (hostCommTxFsmSendPacketNoPayload s.queue type false).2
    responses := s.responses ++ [⟨noPayloadRequest type false, s.handle.packet⟩] }

def hostCommRxFsmSetNextState (h : HostCommRxFsm) (next : RxState) : HostCommRxFsm :=
  { h with state := next, internal := .invalid, external := .invalid }

def enterSeqPreambleProc (s : RxSys) : RxSys :=
  { s with handle := hostCommRxFsmSetNextState s.handle .preambleProc }

/-- The reads of the preamble bytes, one byte at a time into one local: a
short read leaves the local as it was. -/
def readPreamble (local_ : UInt8) (s : RxSys) : List UInt8 → Bool × RxSys
  | [] => (true, s)
  | bit :: bits =>
      let r := readRxData s 1
      let preamble := r.1.headD local_
      if preamble ≠ bit then (false, r.2) else readPreamble preamble r.2 bits

def duringActionPreambleProc (env : Env) (s : RxSys) : RxSys :=
  let g := getRxDataLen s
  if preambleSizeBytes ≤ g.1 then
    let r := readPreamble env.junk g.2 protocolPreamble
    if r.1 then r.2.setInternal .preambleOk else r.2
  else g.2

def enterSeqHeaderProc (s : RxSys) : RxSys :=
  { s with
    handle := { hostCommRxFsmSetNextState s.handle .headerProc with
                headerTimeout := timeEventStart headerBytesTimeoutMs } }

def preambleProcOnReact (env : Env) (s : RxSys) : RxSys :=
  if s.handle.internal = .preambleOk then enterSeqHeaderProc s else duringActionPreambleProc env s

def exitActionHeaderProc (s : RxSys) : RxSys :=
  { s with handle := { s.handle with headerTimeout := timeEventStop } }

def loadHeader (s : RxSys) (bytes : List UInt8) : RxSys :=
  { s with handle := { s.handle with
      packet := { s.handle.packet with header := s.handle.packet.header.load bytes } } }

def duringActionHeaderProc (s : RxSys) : RxSys :=
  let g := getRxDataLen s
  if headerSizeBytes ≤ g.1 then
    let r := readRxData g.2 headerSizeBytes
    let s := loadHeader r.2 r.1
    if protocolCheckValidHeader s.handle.packet then s.setInternal .headerOk
    else s.setInternal .headerError
  else g.2

/-- The parameter of the timer is the payload length in milliseconds. -/
def enterSeqPayloadProc (s : RxSys) : RxSys :=
  { s with
    handle := { hostCommRxFsmSetNextState s.handle .payloadProc with
                payloadTimeout := timeEventStart s.handle.packet.header.payloadLen.toNat } }

def enterSeqCrcAndPostambleProc (s : RxSys) : RxSys :=
  { s with
    handle := { hostCommRxFsmSetNextState s.handle .crcAndPostambleProc with
                crcAndPostambleTimeout := timeEventStart postambleBytesTimeoutMs } }

def headerProcOnReact (s : RxSys) : RxSys :=
  if s.handle.internal = .headerOk then
    let s := exitActionHeaderProc s
    if 0 < s.handle.packet.header.payloadLen.toNat then enterSeqPayloadProc s
    else enterSeqCrcAndPostambleProc s
  else if timeEventIsRaised s.handle.headerTimeout ∨ s.handle.internal = .headerError then
    let s := if timeEventIsRaised s.handle.headerTimeout then clearRxData s else s
    enterSeqPreambleProc (exitActionHeaderProc (sendResponse s targetToHostResNack))
  else duringActionHeaderProc s

def exitActionPayloadProc (s : RxSys) : RxSys :=
  { s with handle := { s.handle with payloadTimeout := timeEventStop } }

def loadPayload (s : RxSys) (bytes : List UInt8) : RxSys :=
  { s with handle := { s.handle with
      packet := { s.handle.packet with payload := s.handle.packet.payload.load bytes } } }

def duringActionPayloadProc (s : RxSys) : RxSys :=
  -- `exp_data_len` is a `uint8_t`
  let expDataLen := s.handle.packet.header.payloadLen.toNat % 256
  let g := getRxDataLen s
  if expDataLen ≤ g.1 then
    let s := g.2.setInternal .payloadOk
    let r := readRxData s s.handle.packet.header.payloadLen.toNat
    loadPayload r.2 r.1
  else g.2

def payloadProcOnReact (s : RxSys) : RxSys :=
  if s.handle.internal = .payloadOk then enterSeqCrcAndPostambleProc (exitActionPayloadProc s)
  else if timeEventIsRaised s.handle.payloadTimeout then
    let s := clearRxData (exitActionPayloadProc s)
    enterSeqPreambleProc (sendResponse s targetToHostResNack)
  else duringActionPayloadProc s

def exitActionCrcAndPostambleProc (s : RxSys) : RxSys :=
  { s with handle := { s.handle with crcAndPostambleTimeout := timeEventStop } }

def readWord (junk : UInt8) (bytes : List UInt8) : UInt32 :=
  word32 (bytes ++ List.replicate (4 - bytes.length) junk)

def rxCrc (env : Env) (p : PacketData) : UInt32 :=
  crc32Accumulate (headerPtr p env.after) (headerSizeBytes + p.header.payloadLen.toNat) 0

def duringActionCrcAndPostambleProc (env : Env) (s : RxSys) : RxSys :=
  let g := getRxDataLen s
  if crcSizeBytes + postambleSizeBytes ≤ g.1 then
    let c := readRxData g.2 crcSizeBytes
    let recvCrc := readWord env.junk c.1
    let p := readRxData c.2 postambleSizeBytes
    let recvPostamble := readWord env.junk p.1
    let s := p.2
    if rxCrc env s.handle.packet ≠ recvCrc then s.setInternal .crcError
    else
      let s := if recvPostamble ≠ postamble then s.setInternal .postambleError else s
      -- the source assigns this event on both paths
      s.setInternal .crcAndPostambleOk
  else g.2

def enterSeqPacketReady (s : RxSys) : RxSys :=
  { s with handle := hostCommRxFsmSetNextState s.handle .packetReady }

def crcAndPostambleProcOnReact (env : Env) (s : RxSys) : RxSys :=
  if s.handle.internal = .crcAndPostambleOk then
    enterSeqPacketReady (sendResponse (exitActionCrcAndPostambleProc s) targetToHostResAck)
  else if timeEventIsRaised s.handle.crcAndPostambleTimeout ∨ s.handle.internal = .crcError ∨
      s.handle.internal = .postambleError then
    -- the exit action stops the timer before the source looks at it again
    let s := exitActionCrcAndPostambleProc s
    let s := if timeEventIsRaised s.handle.crcAndPostambleTimeout then clearRxData s else s
    enterSeqPreambleProc (sendResponse s targetToHostResNack)
  else duringActionCrcAndPostambleProc env s

def packetReadyOnReact (s : RxSys) : RxSys :=
  if s.handle.external = .packetProccessed then enterSeqPreambleProc s else s

def clearTimeEvents (h : HostCommRxFsm) : HostCommRxFsm :=
  { h with
    headerTimeout := timeEventStop
    payloadTimeout := timeEventStop
    crcAndPostambleTimeout := timeEventStop }

def hostCommRxFsmEnter (s : RxSys) : RxSys := enterSeqPreambleProc s

def hostCommRxFsmInit (s : RxSys) : RxSys :=
  hostCommRxFsmEnter
    { s with handle := clearTimeEvents { s.handle with packet := ⟨⟨0, 0, 0⟩, .zero⟩ } }

def hostCommRxFsmTimeEventUpdate (s : RxSys) : RxSys :=
  { s with handle := { s.handle with
      headerTimeout := timeEventUpdate s.handle.headerTimeout
      payloadTimeout := timeEventUpdate s.handle.payloadTimeout
      crcAndPostambleTimeout := timeEventUpdate s.handle.crcAndPostambleTimeout } }

def hostCommRxFsmRun (env : Env) (s : RxSys) : RxSys :=
  match s.handle.state with
  | .preambleProc => preambleProcOnReact env s
  | .headerProc => headerProcOnReact s
  | .payloadProc => payloadProcOnReact s
  | .crcAndPostambleProc => crcAndPostambleProcOnReact env s
  | .packetReady => packetReadyOnReact s
  | _ => s

def hostCommRxFsmSetExtEvent (s : RxSys) (event : RxExternal) : RxSys :=
  { s with handle := { s.handle with external := event } }

/-- The enumerators are ordered as declared. -/
def hostCommRxFsmIsActive (h : HostCommRxFsm) : Bool :=
  RxState.invalid.ctorIdx < h.state.ctorIdx && h.state.ctorIdx < RxState.last.ctorIdx

inductive RxEvent
  | run (irqs : List (List UInt8))
  | rxByte (byte : UInt8)
  | tick
  | external (event : RxExternal)

/-- A run call in which bytes arrive before its ring operations; what is left
of them arrives right after it. With no `irqs` the call is one atomic step. -/
def runCall (env : Env) (s : RxSys) (irqs : List (List UInt8)) : RxSys :=
  let s := hostCommRxFsmRun env { s with irqs }
  rxBytes { s with irqs := [] } s.irqs.flatten

def rxStep (env : Env) (s : RxSys) : RxEvent → RxSys
  | .run irqs => runCall env s irqs
  | .rxByte byte => RxFsm.rxByte s byte
  | .tick => hostCommRxFsmTimeEventUpdate s
  | .external event => hostCommRxFsmSetExtEvent s event

end HostComm.RxFsm
