import HostComm.ByteRings

namespace HostComm.UartDriver

open CircularBuffer ByteRings

abbrev maxDataChunkSize : Nat := 100
abbrev rxDataBuffSize : Nat := 512
abbrev txDataBuffSize : Nat := 512

inductive HalStatus
  | ok
  | error
  | busy
  deriving DecidableEq, Repr

inductive HalUartState
  | ready
  | busyTx
  | busyRx
  deriving DecidableEq, Repr

/-- The fields of the HAL handle that the driver and the two interrupt paths
use; `txBuf` is the chunk behind the transfer pointer and size. -/
structure UartHandle where
  gState : HalUartState
  rxState : HalUartState
  lock : Bool
  txBuf : List UInt8
  txIt : Bool
  rxIt : Bool
  deriving DecidableEq, Repr

namespace UartHandle

def takeLock (h : UartHandle) : UartHandle := { h with lock := true }

def releaseLock (h : UartHandle) : UartHandle := { h with lock := false }

def fillTx (h : UartHandle) (chunk : List UInt8) : UartHandle := { h with txBuf := chunk }

def setBusyTx (h : UartHandle) : UartHandle := { h with gState := .busyTx }

def enableTxIt (h : UartHandle) : UartHandle := { h with txIt := true }

def startReceive (h : UartHandle) : UartHandle :=
  { h.releaseLock with rxState := .busyRx, rxIt := true }

end UartHandle

theorem rxDataBuffSize_pos : 0 < rxDataBuffSize := by decide

theorem txDataBuffSize_pos : 0 < txDataBuffSize := by decide

def halUartInit : UartHandle := ⟨.ready, .ready, false, [], false, false⟩

def halUartTransmitIt (h : UartHandle) (chunk : List UInt8) : HalStatus × UartHandle :=
  if h.gState = .ready then
    if chunk.length = 0 then (.error, h)
    else if h.lock then (.busy, h)
    else (.ok, ((h.takeLock.fillTx chunk).setBusyTx.releaseLock).enableTxIt)
  else (.busy, h)

def halUartReceiveIt (h : UartHandle) : HalStatus × UartHandle :=
  if h.rxState = .ready then
    if h.lock then (.busy, h) else (.ok, h.takeLock.startReceive)
  else (.busy, h)

/-- The two rings and the handle. No function reads the last three fields:
they record the calls of the transmit function, the bytes it accepted and the
chunks the HAL accepted. -/
structure Uart where
  rx : ByteRing rxDataBuffSize
  tx : ByteRing txDataBuffSize
  huart : UartHandle
  handed : List (List UInt8)
  accepted : List UInt8
  chunks : List (List UInt8)

def uartInit : Uart :=
  { rx := .init (fun _ => 0) rxDataBuffSize_pos, tx := .init (fun _ => 0) txDataBuffSize_pos,
    huart := (halUartReceiveIt halUartInit).2, handed := [], accepted := [], chunks := [] }

def uartGetRxDataLen (rx : ByteRing rxDataBuffSize) : Nat := rx.dataLen % 256

def uartReadRxData (rx : ByteRing rxDataBuffSize) (len : Nat) :
    Bool × List UInt8 × ByteRing rxDataBuffSize := rx.read (len % 256)

def uartClearRxData (rx : ByteRing rxDataBuffSize) : ByteRing rxDataBuffSize := rx.reset

/-- The ring part of the receive callback: a refused byte empties the ring. -/
def rxArrival (rx : ByteRing rxDataBuffSize) (byte : UInt8) : ByteRing rxDataBuffSize :=
  if (rx.write [byte]).1 ≠ .ok then (rx.write [byte]).2.reset else (rx.write [byte]).2

/-- Start a transfer, ignoring the status as the callers do. -/
def startTx (u : Uart) (chunk : List UInt8) : Uart :=
  { u with
    huart := (halUartTransmitIt u.huart chunk).2
    chunks := if (halUartTransmitIt u.huart chunk).1 = .ok then u.chunks ++ [chunk] else u.chunks }

/-- `junk` is what the local `byte` holds when the get fails. -/
def uartTransmitIt (junk : UInt8) (u : Uart) (data : List UInt8) : Bool × Uart :=
  let u := { u with handed := u.handed ++ [data] }
  if (u.tx.write data).1 = .ok then
    let u := { u with tx := (u.tx.write data).2, accepted := u.accepted ++ data }
    if u.huart.gState = .ready then
      (true, startTx { u with tx := u.tx.get.2 } [u.tx.get.1.getD junk])
    else (true, u)
  else (false, u)

def halUartTxCpltCallback (u : Uart) : Uart :=
  let dataLen := u.tx.dataLen % 2 ^ 16
  if dataLen ≠ 0 then
    let dataLen := if maxDataChunkSize ≤ dataLen then maxDataChunkSize - 1 else dataLen
    let r := u.tx.read dataLen
    startTx { u with tx := r.2.2 } r.2.1
  else u

def uartEndTransmitIt (u : Uart) : Uart :=
  halUartTxCpltCallback { u with huart := { u.huart with txIt := false, gState := .ready } }

def halUartRxCpltCallback (u : Uart) (byte : UInt8) : Uart :=
  { u with huart := (halUartReceiveIt u.huart).2, rx := rxArrival u.rx byte }

def uartReceiveIt (u : Uart) (byte : UInt8) : Uart :=
  if u.huart.rxState = .busyRx then
    halUartRxCpltCallback { u with huart := { u.huart with rxIt := false, rxState := .ready } } byte
  else u

theorem rxArrival_contents (rx : ByteRing rxDataBuffSize) (byte : UInt8) :
    (rxArrival rx byte).contents =
      if rx.contents.length < rxDataBuffSize then rx.contents ++ [byte] else [] := by
  unfold rxArrival
  by_cases h : rx.contents.length < rxDataBuffSize
  · obtain ⟨hok, hc⟩ := rx.write_of_room [byte] ⟨h, h⟩
    rw [if_neg (by simpa using hok), if_pos h, hc]
  · obtain ⟨hno, -⟩ := rx.write_of_no_room [byte] fun hroom => h hroom.1
    rw [if_pos hno, if_neg h, ByteRing.contents_reset]

theorem uartGetRxDataLen_eq (rx : ByteRing rxDataBuffSize) :
    uartGetRxDataLen rx = rx.contents.length % 256 := by
  rw [uartGetRxDataLen, ByteRing.dataLen_eq]

theorem le_contents_of_guard {rx : ByteRing rxDataBuffSize} {k : Nat}
    (h : k ≤ uartGetRxDataLen rx) : k ≤ rx.contents.length := by
  rw [uartGetRxDataLen_eq] at h
  exact h.trans (Nat.mod_le _ _)

end HostComm.UartDriver
