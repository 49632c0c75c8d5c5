import HostComm.UartDriver

namespace HostComm.HalUart

open CircularBuffer ByteRings
open UartDriver (HalStatus HalUartState rxDataBuffSize txDataBuffSize rxDataBuffSize_pos txDataBuffSize_pos
  maxDataChunkSize rxArrival)

structure StatusFlags where
  pe : Bool
  fe : Bool
  ne : Bool
  ore : Bool
  rxne : Bool
  txe : Bool
  tc : Bool
  deriving DecidableEq

def StatusFlags.errors (f : StatusFlags) : Bool := f.pe || f.fe || f.ore || f.ne

structure Cr1 where
  txeie : Bool
  tcie : Bool
  rxneie : Bool
  peie : Bool
  deriving DecidableEq

structure ErrorCode where
  pe : Bool
  ne : Bool
  fe : Bool
  ore : Bool
  deriving DecidableEq

def ErrorCode.none : ErrorCode := ⟨false, false, false, false⟩

/-- Where the transfer pointer points to: the static buffer of the callback, the
local variable of `uart_transmit_it`, or that variable after the return. -/
inductive TxSource
  | dataChunk
  | localByte
  | gone
  deriving DecidableEq

def TxSource.afterReturn : TxSource → TxSource
  | .localByte => .gone
  | source => source

/-- The HAL handle and its registers. `txBuf` is the chunk behind the first
value of the transfer pointer, `txSent` how far the pointer has moved, and
`eie` the error interrupt bit of the third control register. Receptions are of
one byte, without DMA. -/
structure HalHandle where
  gState : HalUartState
  rxState : HalUartState
  lock : Bool
  txFrom : TxSource
  txBuf : List UInt8
  txSent : Nat
  txXferCount : Nat
  errorCode : ErrorCode
  cr1 : Cr1
  eie : Bool
  deriving DecidableEq

namespace HalHandle

def takeLock (h : HalHandle) : HalHandle := { h with lock := true }

def releaseLock (h : HalHandle) : HalHandle := { h with lock := false }

def fillTx (h : HalHandle) (source : TxSource) (chunk : List UInt8) : HalHandle :=
  { h with
    txFrom := source, txBuf := chunk, txSent := 0, txXferCount := chunk.length, errorCode := .none }

def setBusyTx (h : HalHandle) : HalHandle := { h with gState := .busyTx }

def enableTxe (h : HalHandle) : HalHandle := { h with cr1 := { h.cr1 with txeie := true } }

end HalHandle

def halInit : HalHandle :=
  ⟨.ready, .ready, false, .dataChunk, [], 0, 0, .none, ⟨false, false, false, false⟩, false⟩

def halUartTransmitIt (h : HalHandle) (source : TxSource) (chunk : List UInt8) :
    HalStatus × HalHandle :=
  if h.gState = .ready then
    if chunk.length = 0 then (.error, h)
    else if h.lock then (.busy, h)
    else (.ok, ((h.takeLock.fillTx source chunk).setBusyTx.releaseLock).enableTxe)
  else (.busy, h)

def uartStartReceiveIt (h : HalHandle) : HalHandle :=
  { h.releaseLock with
    errorCode := .none, rxState := .busyRx, cr1 := { h.cr1 with rxneie := true, peie := true }
    eie := true }

def halUartReceiveIt (h : HalHandle) : HalStatus × HalHandle :=
  if h.rxState = .ready then
    if h.lock then (.busy, h) else (.ok, uartStartReceiveIt h.takeLock)
  else (.busy, h)

def uartEndRxTransfer (h : HalHandle) : HalHandle :=
  { h with cr1 := { h.cr1 with rxneie := false, peie := false }, eie := false, rxState := .ready }

/-- The driver over the registers. `wire` are the writes to the data register,
and `lost` says that one of them read a variable that was gone; no function
reads these or the three fields before them. -/
structure Driver where
  rx : ByteRing rxDataBuffSize
  tx : ByteRing txDataBuffSize
  huart : HalHandle
  handed : List (List UInt8)
  accepted : List UInt8
  chunks : List (List UInt8)
  wire : List UInt8
  lost : Bool

def Driver.set (u : Driver) (huart : HalHandle) : Driver := { u with huart }

def uartInit : Driver :=
  { rx := .init (fun _ => 0) rxDataBuffSize_pos, tx := .init (fun _ => 0) txDataBuffSize_pos,
    huart := (halUartReceiveIt halInit).2, handed := [], accepted := [], chunks := []
    wire := [], lost := false }

def startTx (u : Driver) (chunk : List UInt8) : Driver :=
  let t := halUartTransmitIt u.huart .dataChunk chunk
  { u with huart := t.2, chunks := if t.1 = .ok then u.chunks ++ [chunk] else u.chunks }

def halUartTxCpltCallback (u : Driver) : Driver :=
  let dataLen := u.tx.dataLen % 2 ^ 16
  if dataLen ≠ 0 then
    let dataLen := if maxDataChunkSize ≤ dataLen then maxDataChunkSize - 1 else dataLen
    let r := u.tx.read dataLen
    startTx { u with tx := r.2.2 } r.2.1
  else u

def halUartRxCpltCallback (u : Driver) (byte : UInt8) : Driver :=
  { u with huart := (halUartReceiveIt u.huart).2, rx := rxArrival u.rx byte }

/-- What the handler reads through the transfer pointer. Behind the chunk and in
a variable that is gone it finds `junk`. -/
def readTx (junk : UInt8) (h : HalHandle) : UInt8 :=
  if h.txFrom = .gone then junk else h.txBuf.getD h.txSent junk

def uartTransmitIt (junk : UInt8) (u : Driver) : Driver :=
  if u.huart.gState = .busyTx then
    -- the counter is a `uint16_t`
    let count := (u.huart.txXferCount + (2 ^ 16 - 1)) % 2 ^ 16
    let h := { u.huart with txSent := u.huart.txSent + 1, txXferCount := count }
    { u with
      wire := u.wire ++ [readTx junk u.huart], lost := u.lost || u.huart.txFrom = .gone
      huart := if count = 0 then { h with cr1 := { h.cr1 with txeie := false, tcie := true } } else h }
  else u

def uartEndTransmitIt (u : Driver) : Driver :=
  halUartTxCpltCallback
    (u.set { u.huart with cr1 := { u.huart.cr1 with tcie := false }, gState := .ready })

def uartReceiveIt (u : Driver) (dr : UInt8) : Driver :=
  if u.huart.rxState = .busyRx then
    halUartRxCpltCallback
      (u.set { u.huart with
        cr1 := { u.huart.cr1 with rxneie := false, peie := false }, eie := false, rxState := .ready }) dr
  else u

/-- The error code after the flags, for the bits that were enabled on entry. -/
def collectErrors (h : HalHandle) (f : StatusFlags) : ErrorCode :=
  { pe := h.errorCode.pe || f.pe && h.cr1.peie
    ne := h.errorCode.ne || f.ne && h.eie
    fe := h.errorCode.fe || f.fe && h.eie
    ore := h.errorCode.ore || f.ore && (h.cr1.rxneie || h.eie) }

/-- The branch of the errors. The error callback is the weak one of the HAL
and does nothing, and there is no DMA request. -/
def errorIrq (u : Driver) (f : StatusFlags) (dr : UInt8) : Driver :=
  let code := collectErrors u.huart f
  let v := u.set { u.huart with errorCode := code }
  if code = .none then v
  else
    let w := if f.rxne && u.huart.cr1.rxneie then uartReceiveIt v dr else v
    -- a reception that was started again has cleared the code
    if w.huart.errorCode.ore then w.set (uartEndRxTransfer w.huart)
    else w.set { w.huart with errorCode := .none }

def transmitIrq (junk : UInt8) (u : Driver) (f : StatusFlags) : Driver :=
  if f.txe && u.huart.cr1.txeie then uartTransmitIt junk u
  else if f.tc && u.huart.cr1.tcie then uartEndTransmitIt u
  else u

def halUartIrqHandler (junk : UInt8) (u : Driver) (f : StatusFlags) (dr : UInt8) : Driver :=
  if !f.errors && (f.rxne && u.huart.cr1.rxneie) then uartReceiveIt u dr
  else if f.errors && (u.huart.eie || (u.huart.cr1.rxneie || u.huart.cr1.peie)) then
    errorIrq u f dr
  else transmitIrq junk u f

/-- Where the main loop stands in `uart_transmit_it`. The transmit interrupt is
enabled with a load and a store of the control register, and `leave` is the
return, with which the local variable is gone. -/
inductive HalPc
  | idle
  | test
  | pop
  | checkState (byte : UInt8)
  | checkLock (byte : UInt8)
  | takeLock (byte : UInt8)
  | fillTx (byte : UInt8)
  | setBusyTx (byte : UInt8)
  | releaseLock (byte : UInt8)
  | loadCr1 (byte : UInt8)
  | storeCr1 (byte : UInt8) (cr1 : Cr1)
  | leave
  deriving DecidableEq

structure HalSys where
  uart : Driver
  pc : HalPc

def callTransmit (m : HalSys) (data : List UInt8) : HalSys :=
  let u := { m.uart with handed := m.uart.handed ++ [data] }
  if (u.tx.write data).1 = .ok then
    { uart := { u with tx := (u.tx.write data).2, accepted := u.accepted ++ data }, pc := .test }
  else { uart := u, pc := .idle }

def mainStep (junk : UInt8) (m : HalSys) : HalSys :=
  match m.pc with
  | .idle => m
  | .test => if m.uart.huart.gState = .ready then { m with pc := .pop } else { m with pc := .idle }
  | .pop =>
      { uart := { m.uart with tx := m.uart.tx.get.2 }, pc := .checkState (m.uart.tx.get.1.getD junk) }
  | .checkState byte =>
      if m.uart.huart.gState = .ready then { m with pc := .checkLock byte }
      else { m with pc := .idle }
  | .checkLock byte =>
      if m.uart.huart.lock then { m with pc := .idle } else { m with pc := .takeLock byte }
  | .takeLock byte => ⟨m.uart.set m.uart.huart.takeLock, .fillTx byte⟩
  | .fillTx byte => ⟨m.uart.set (m.uart.huart.fillTx .localByte [byte]), .setBusyTx byte⟩
  | .setBusyTx byte => ⟨m.uart.set m.uart.huart.setBusyTx, .releaseLock byte⟩
  | .releaseLock byte => ⟨m.uart.set m.uart.huart.releaseLock, .loadCr1 byte⟩
  | .loadCr1 byte => { m with pc := .storeCr1 byte m.uart.huart.cr1 }
  | .storeCr1 byte cr1 =>
      { uart := { m.uart.set { m.uart.huart with cr1 := { cr1 with txeie := true } } with
          chunks := m.uart.chunks ++ [[byte]] }
        pc := .leave }
  | .leave =>
      ⟨m.uart.set { m.uart.huart with txFrom := m.uart.huart.txFrom.afterReturn }, .idle⟩

inductive HalEvent
  | call (data : List UInt8)
  | main
  | irq (flags : StatusFlags) (dr : UInt8)

def halStep (junk : UInt8) (m : HalSys) : HalEvent → HalSys
  | .call data => if m.pc = .idle then callTransmit m data else m
  | .main => mainStep junk m
  | .irq flags dr => { m with uart := halUartIrqHandler junk m.uart flags dr }

def halStart : HalSys := ⟨uartInit, .idle⟩

end HostComm.HalUart
