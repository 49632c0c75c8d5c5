import HostComm.UartDriver
import HostComm.Runs
import Mathlib.Logic.Function.Iterate

namespace HostComm.UartSteps

open CircularBuffer ByteRings UartDriver Runs

/-- Where the main loop stands in `uart_transmit_it`, after the ring write.
From `checkState` on it is inside `HAL_UART_Transmit_IT` with its one byte. -/
inductive MainPc
  | idle
  | test
  | pop
  | checkState (byte : UInt8)
  | checkLock (byte : UInt8)
  | takeLock (byte : UInt8)
  | fillTx (byte : UInt8)
  | setBusyTx (byte : UInt8)
  | releaseLock (byte : UInt8)
  | enableTxIt (byte : UInt8)
  deriving DecidableEq, Repr

structure UartSys where
  uart : Uart
  pc : MainPc

def setHuart (m : UartSys) (huart : UartHandle) (pc : MainPc) : UartSys :=
  { uart := { m.uart with huart }, pc }

def callTransmit (m : UartSys) (data : List UInt8) : UartSys :=
  let u := { m.uart with handed := m.uart.handed ++ [data] }
  if (u.tx.write data).1 = .ok then
    { uart := { u with tx := (u.tx.write data).2, accepted := u.accepted ++ data }, pc := .test }
  else { uart := u, pc := .idle }

/-- One step of the main loop. The lock macro is a test and then a store; the
private transfer fields are stored in one step, as no interrupt reads them
before the transmit interrupt is enabled. -/
def mainStep (junk : UInt8) (m : UartSys) : UartSys :=
  match m.pc with
  | .idle => m
  | .test => if m.uart.huart.gState = .ready then { m with pc := .pop } else { m with pc := .idle }
  | .pop =>
      { uart := { m.uart with tx := m.uart.tx.get.2 }, pc := .checkState (m.uart.tx.get.1.getD junk) }
  | .checkState byte =>
      if m.uart.huart.gState = .ready then { m with pc := .checkLock byte }
      else { m with pc := .idle }
  | .checkLock byte =>
      if m.uart.huart.lock then { m with pc := .idle } else { m with pc := .takeLock byte }
  | .takeLock byte => setHuart m m.uart.huart.takeLock (.fillTx byte)
  | .fillTx byte => setHuart m (m.uart.huart.fillTx [byte]) (.setBusyTx byte)
  | .setBusyTx byte => setHuart m m.uart.huart.setBusyTx (.releaseLock byte)
  | .releaseLock byte => setHuart m m.uart.huart.releaseLock (.enableTxIt byte)
  | .enableTxIt byte =>
      { uart := { m.uart with
          huart := m.uart.huart.enableTxIt
          chunks := m.uart.chunks ++ [[byte]] }
        pc := .idle }

inductive UartEvent
  | call (data : List UInt8)
  | main
  | txComplete
  | rxByte (byte : UInt8)

/-- Interrupts run to completion; each needs its interrupt to be enabled. -/
def uartStep (junk : UInt8) (m : UartSys) : UartEvent → UartSys
  | .call data => if m.pc = .idle then callTransmit m data else m
  | .main => mainStep junk m
  | .txComplete => if m.uart.huart.txIt then { m with uart := uartEndTransmitIt m.uart } else m
  | .rxByte byte => if m.uart.huart.rxIt then { m with uart := uartReceiveIt m.uart byte } else m

def uartStart : UartSys := ⟨uartInit, .idle⟩

theorem call_refines (junk : UInt8) (u : Uart) (data : List UInt8) :
    ∃ k, (mainStep junk)^[k] (callTransmit ⟨u, .idle⟩ data) =
      ⟨(uartTransmitIt junk u data).2, .idle⟩ := by
  by_cases hok : (u.tx.write data).1 = .ok
  · by_cases hready : u.huart.gState = .ready
    · cases hlock : u.huart.lock with
      | true =>
          refine ⟨4, ?_⟩
          simp [Function.iterate_succ_apply, callTransmit, mainStep, uartTransmitIt, startTx,
            halUartTransmitIt, hok, hready, hlock]
      | false =>
          refine ⟨9, ?_⟩
          simp [Function.iterate_succ_apply, callTransmit, mainStep, setHuart, uartTransmitIt,
            startTx, halUartTransmitIt, hok, hready, hlock]
    · refine ⟨1, ?_⟩
      simp [callTransmit, mainStep, uartTransmitIt, hok, hready]
  · refine ⟨0, ?_⟩
    simp [callTransmit, uartTransmitIt, hok]

end HostComm.UartSteps
