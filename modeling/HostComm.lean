import HostComm.Windows
import HostComm.Runs
import HostComm.Preemption
import HostComm.Fifo
import HostComm.CircularBuffer
import HostComm.CircularBufferFifo
import HostComm.ByteRings
import HostComm.LittleEndian
import HostComm.Protocol
import HostComm.XorWords
import HostComm.Crc
import HostComm.UartDriver
import HostComm.TxQueue
import HostComm.TxQueueFifo
import HostComm.TimeEvents
import HostComm.TxFsm
import HostComm.TxDiscipline
import HostComm.RxFsm
import HostComm.RxStream
import HostComm.RxParser
import HostComm.RxSound
import HostComm.RxChunk
import HostComm.FrameHistory
import HostComm.RxAtomic
import HostComm.RoundTrip
import HostComm.UartSteps
import HostComm.RxArmed
import HostComm.TxConservation
import HostComm.RingSteps
import HostComm.ReadPreempted
import HostComm.WritePreempted
import HostComm.RingIntegrity
import HostComm.RxMoves
import HostComm.RxResponses
import HostComm.TimerDiscipline
import HostComm.RxTimeouts
import HostComm.RxProgress
import HostComm.CrcBounds
import HostComm.RxResync
import HostComm.TxRetries
import HostComm.TxDbgMsg
import HostComm.TxWhole
import HostComm.HostSystem
import HostComm.AckOrder
import HostComm.RingFailures
import HostComm.RxHeader
import HostComm.TxQueuePeek
import HostComm.RxChecked
import HostComm.RxCarried
import HostComm.RxOverrun
import HostComm.RxFrames
import HostComm.RxSessions
import HostComm.Rounds
import HostComm.TxWire
import HostComm.RxDeadline
import HostComm.TxService
import HostComm.AckService
import HostComm.MainLoop
import HostComm.TxSilence
import HostComm.MainProgram
import HostComm.RxRecovery
import HostComm.HalUart
import HostComm.HalWire
import HostComm.HalOverrun
import HostComm.TimeSteps
import HostComm.RxPreempted
import HostComm.TxPreempted
import HostComm.HostPreempted
import HostComm.ByteLanes
import HostComm.RxDamage
import HostComm.AckWire
