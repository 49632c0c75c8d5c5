import HostComm.TxFsm

namespace HostComm.TxMoves

open Protocol TimeEvents TxQueue TxSend UartDriver TxFsm

def timedOut (s : TxSys) : TxSys :=
  let s := exitActionTransmitPacket { s with trace := .ackTimeout :: s.trace }
  { s with handle := { s.handle with retryCnt := (s.handle.retryCnt + 1) % 256 } }

/-- What one run call can do. -/
inductive Moves (env : Env) (s s' : TxSys) : Prop
  | poll (state : s.handle.state ≠ .transmitPacket)
      (next : s' = { s with handle := { s.handle with internal := s'.handle.internal } })
      (pending : s'.handle.internal = s.handle.internal ∨
        s'.handle.internal = .pendingPacket ∧ hostCommTxQueueGetPendingTransfers s.queue ≠ 0)
  | first (state : s.handle.state = .pollPendingTransfer)
      (pending : s.handle.internal = .pendingPacket)
      (next : s' = enterSeqTransmitPacket env .first (exitActionPollPendingTransfers s))
  | wait (state : s.handle.state = .transmitPacket)
      (quiet : timeEventIsRaised s.handle.ackTimeout = false)
      (external : s.handle.external ≠ .ackReceived ∧ s.handle.external ≠ .nackReceived)
      (internal : s.handle.internal ≠ .noAckExpected) (next : s' = s)
  | done (state : s.handle.state = .transmitPacket)
      (ack : s.handle.external = .ackReceived ∨ s.handle.internal = .noAckExpected)
      (next : s' = finish (exitActionTransmitPacket s))
  | nack (state : s.handle.state = .transmitPacket) (internal : s.handle.internal ≠ .noAckExpected)
      (raised : s.handle.external = .nackReceived)
      (next : s' = enterSeqTransmitPacket env .nack (exitActionTransmitPacket s))
  | retry (state : s.handle.state = .transmitPacket) (internal : s.handle.internal ≠ .noAckExpected)
      (raised : timeEventIsRaised s.handle.ackTimeout = true)
      (left : s.handle.retryCnt < maxNumOfTransferRetries)
      (next : s' = enterSeqTransmitPacket env .timeout (timedOut s))
  | giveUp (state : s.handle.state = .transmitPacket) (internal : s.handle.internal ≠ .noAckExpected)
      (raised : timeEventIsRaised s.handle.ackTimeout = true)
      (spent : maxNumOfTransferRetries ≤ s.handle.retryCnt) (next : s' = finish (timedOut s))

theorem moves_run (env : Env) (s : TxSys) : Moves env s (hostCommTxFsmRun env s) := by
  rw [hostCommTxFsmRun]
  cases hs : s.handle.state with
  | pollPendingTransfer =>
      have hne : s.handle.state ≠ .transmitPacket := by simp [hs]
      simp only [pollPendingTransfersOnReact, duringActionPollPendingTransfers]
      split_ifs with hpend hcnt
      · exact .first hs hpend rfl
      · exact .poll hne rfl (.inr ⟨rfl, hcnt⟩)
      · exact .poll hne rfl (.inl rfl)
  | transmitPacket =>
      simp only [transmitPacketOnReact]
      split_ifs with hdone hnack hraised hmax
      · exact .done hs hdone rfl
      · exact .nack hs (fun h => hdone (.inr h)) hnack rfl
      · exact .giveUp hs (fun h => hdone (.inr h)) hraised hmax rfl
      · exact .retry hs (fun h => hdone (.inr h)) hraised (Nat.lt_of_not_le hmax) rfl
      · exact .wait hs (Bool.eq_false_of_not_eq_true hraised) ⟨fun h => hdone (.inl h), hnack⟩
          (fun h => hdone (.inr h)) rfl
  | _ => exact .poll (by simp [hs]) rfl (.inl rfl)

end HostComm.TxMoves
