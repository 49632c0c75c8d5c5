import HostComm.Runs
import HostComm.TxMoves

namespace HostComm.TxRetries

open Protocol TimeEvents TxQueue TxSend UartDriver TxFsm TxMoves Runs

/-- The transmissions of one dequeued request by their cause. -/
structure Tally where
  first : Nat
  nacks : Nat
  timeouts : Nat
  deriving DecidableEq, Repr

namespace Tally

def add (n : Tally) : SendCause → Tally
  | .first => { n with first := n.first + 1 }
  | .nack => { n with nacks := n.nacks + 1 }
  | .timeout => { n with timeouts := n.timeouts + 1 }

def sends (n : Tally) : Nat := n.first + n.nacks + n.timeouts

end Tally

def tallies : List TxObs → List Tally
  | [] => []
  | .dequeued _ :: t => ⟨0, 0, 0⟩ :: tallies t
  | .sent cause _ :: t => (tallies t).modifyHead fun n => n.add cause
  | _ :: t => tallies t

def NackFound (s : TxSys) : TxEvent → Prop
  | .run => s.handle.state = .transmitPacket ∧ s.handle.internal ≠ .noAckExpected ∧
      s.handle.external = .nackReceived
  | _ => False

instance (s : TxSys) : ∀ e, Decidable (NackFound s e)
  | .run => inferInstanceAs (Decidable (_ ∧ _))
  | .request _ => .isFalse id
  | .tick => .isFalse id
  | .external _ => .isFalse id
  | .txComplete => .isFalse id

/-- The counter of the machine counts the timeout transmissions of the
current request, and nothing counts the answers to a negative acknowledge. -/
structure Counted (s : TxSys) : Prop where
  tallies : ∀ n ∈ tallies s.trace, n.first = 1 ∧ n.timeouts ≤ maxNumOfTransferRetries
  polling : s.handle.state ≠ .transmitPacket → s.handle.retryCnt = 0
  sending : s.handle.state = .transmitPacket → ∃ n before,
    TxRetries.tallies s.trace = n :: before ∧ n.timeouts = s.handle.retryCnt

theorem tallies_send (env : Env) (cause : SendCause) (s : TxSys) :
    tallies (enterSeqTransmitPacket env cause s).trace =
      (tallies s.trace).modifyHead fun n => n.add cause := rfl

theorem retryCnt_send (env : Env) (cause : SendCause) (s : TxSys) :
    (enterSeqTransmitPacket env cause s).handle.retryCnt = s.handle.retryCnt := by
  simp only [enterSeqTransmitPacket, entryActionTransmitPacket]
  split_ifs <;> rfl

theorem state_send (env : Env) (cause : SendCause) (s : TxSys) :
    (enterSeqTransmitPacket env cause s).handle.state = .transmitPacket := by
  simp only [enterSeqTransmitPacket, entryActionTransmitPacket]
  split_ifs <;> rfl

theorem counted_send (env : Env) (cause : SendCause) {s : TxSys} {n : Tally} {before : List Tally}
    (htallies : tallies s.trace = n :: before)
    (hbefore : ∀ m ∈ before, m.first = 1 ∧ m.timeouts ≤ maxNumOfTransferRetries)
    (hfirst : (n.add cause).first = 1) (hcnt : (n.add cause).timeouts = s.handle.retryCnt)
    (hle : s.handle.retryCnt ≤ maxNumOfTransferRetries) :
    Counted (enterSeqTransmitPacket env cause s) := by
  have hnext : tallies (enterSeqTransmitPacket env cause s).trace = n.add cause :: before := by
    rw [tallies_send, htallies, List.modifyHead_cons]
  constructor
  · rw [hnext]
    intro m hm
    rcases List.mem_cons.mp hm with rfl | hm
    · exact ⟨hfirst, hcnt ▸ hle⟩
    · exact hbefore m hm
  · exact fun hne => absurd (state_send env cause s) hne
  · exact fun _ => ⟨n.add cause, before, hnext, hcnt.trans (retryCnt_send env cause s).symm⟩

theorem counted_finish {s : TxSys}
    (h : ∀ n ∈ tallies s.trace, n.first = 1 ∧ n.timeouts ≤ maxNumOfTransferRetries) :
    Counted (finish s) := by
  constructor
  · exact h
  · exact fun _ => rfl
  · intro hs
    cases hs

theorem counted_run (env : Env) {s : TxSys} (h : Counted s) : Counted (hostCommTxFsmRun env s) := by
  cases moves_run env s with
  | poll state next pending =>
      have htrace : (hostCommTxFsmRun env s).trace = s.trace := by rw [next]
      have hstate : (hostCommTxFsmRun env s).handle.state = s.handle.state := by rw [next]
      have hcnt : (hostCommTxFsmRun env s).handle.retryCnt = s.handle.retryCnt := by rw [next]
      constructor
      · rw [htrace]
        exact h.tallies
      · rw [hstate, hcnt]
        exact h.polling
      · rw [hstate]
        exact fun hs => absurd hs state
  | first state pending next =>
      rw [next]
      have hzero : s.handle.retryCnt = 0 := h.polling (by simp [state])
      exact counted_send env .first (n := ⟨0, 0, 0⟩) rfl h.tallies rfl hzero.symm (hzero.trans_le (Nat.zero_le _))
  | wait state quiet external internal next =>
      rw [next]
      exact h
  | done state ack next =>
      rw [next]
      exact counted_finish h.tallies
  | nack state internal raised next =>
      rw [next]
      obtain ⟨n, before, htallies, hcnt⟩ := h.sending state
      have hall := h.tallies
      rw [htallies, List.forall_mem_cons] at hall
      exact counted_send env .nack htallies hall.2 hall.1.1 hcnt (hcnt ▸ hall.1.2)
  | retry state internal raised left next =>
      rw [next]
      obtain ⟨n, before, htallies, hcnt⟩ := h.sending state
      have hall := h.tallies
      rw [htallies, List.forall_mem_cons] at hall
      have hnext : (s.handle.retryCnt + 1) % 256 = s.handle.retryCnt + 1 := by
        have htwo : s.handle.retryCnt < 2 := left
        omega
      refine counted_send env .timeout (s := timedOut s) htallies hall.2 hall.1.1 ?_ ?_
      · exact (congrArg Nat.succ hcnt).trans hnext.symm
      · exact hnext.trans_le left
  | giveUp state internal raised spent next =>
      rw [next]
      exact counted_finish h.tallies

theorem counted_same {s s' : TxSys} (h : Counted s) (hstate : s'.handle.state = s.handle.state)
    (hcnt : s'.handle.retryCnt = s.handle.retryCnt) (htallies : tallies s'.trace = tallies s.trace) :
    Counted s' := by
  constructor
  · rw [htallies]
    exact h.tallies
  · rw [hstate, hcnt]
    exact h.polling
  · rw [hstate, hcnt, htallies]
    exact h.sending

theorem counted_step (env : Env) (s : TxSys) (e : TxEvent) (h : Counted s) :
    Counted (txStep env s e) := by
  cases e with
  | run => exact counted_run env h
  | request req => exact counted_same h rfl rfl (writeRequest_keeps tallies rfl)
  | tick => exact counted_same h rfl rfl rfl
  | external event => exact counted_same h rfl rfl rfl
  | txComplete =>
      obtain ⟨uart, hnext⟩ := txComplete_uart env s
      rw [hnext]
      exact counted_same h rfl rfl rfl

theorem counted_init (h : HostCommTxFsm) (uart : Uart) : Counted (hostCommTxFsmInit h uart) := by
  constructor
  · intro n hn
    cases hn
  · exact fun _ => rfl
  · intro hs
    cases hs

def NoNacks (s : TxSys) : Prop := ∀ n ∈ tallies s.trace, n.nacks = 0

theorem noNacks_send (env : Env) {cause : SendCause} (hcause : cause ≠ .nack) {s : TxSys}
    (h : NoNacks s) : NoNacks (enterSeqTransmitPacket env cause s) := by
  rw [NoNacks, tallies_send]
  rw [NoNacks] at h
  cases htallies : tallies s.trace with
  | nil =>
      intro n hn
      cases hn
  | cons n before =>
      rw [htallies, List.forall_mem_cons] at h
      rw [List.modifyHead_cons, List.forall_mem_cons]
      refine ⟨?_, h.2⟩
      cases cause with
      | first => exact h.1
      | nack => exact absurd rfl hcause
      | timeout => exact h.1

theorem noNacks_run (env : Env) {s : TxSys} (h : NoNacks s) (hnack : ¬ NackFound s .run) :
    NoNacks (hostCommTxFsmRun env s) := by
  cases moves_run env s with
  | poll state next pending =>
      rw [next]
      exact h
  | first state pending next =>
      rw [next]
      refine noNacks_send env (by simp) ?_
      rw [NoNacks, exitActionPollPendingTransfers, tallies, List.forall_mem_cons]
      exact ⟨rfl, h⟩
  | wait state quiet external internal next =>
      rw [next]
      exact h
  | done state ack next =>
      rw [next]
      exact h
  | nack state internal raised next => exact absurd ⟨state, internal, raised⟩ hnack
  | retry state internal raised left next =>
      rw [next]
      exact noNacks_send env (by simp) (s := timedOut s) h
  | giveUp state internal raised spent next =>
      rw [next]
      exact h

theorem noNacks_step (env : Env) (s : TxSys) (e : TxEvent) (h : NoNacks s) (he : ¬ NackFound s e) :
    NoNacks (txStep env s e) := by
  cases e with
  | run => exact noNacks_run env h he
  | request req =>
      have hkeep : tallies (writeRequest s req).trace = tallies s.trace := writeRequest_keeps tallies rfl
      rw [NoNacks, txStep, hkeep]
      exact h
  | tick => exact h
  | external event => exact h
  | txComplete =>
      obtain ⟨uart, hnext⟩ := txComplete_uart env s
      rw [hnext]
      exact h

theorem counted_reachable (env : Env) (h : HostCommTxFsm) (uart : Uart) (events : List TxEvent) :
    Counted (run (txStep env) (hostCommTxFsmInit h uart) events) :=
  run_preserves (counted_step env) (counted_init h uart) events

/-- In a run that answers no negative acknowledge a request is sent at most
once and for every timeout that is left to it. -/
theorem retries_bounded (env : Env) (h : HostCommTxFsm) (uart : Uart) (events : List TxEvent)
    (hrun : Along (fun s e => ¬ NackFound s e) (txStep env) (hostCommTxFsmInit h uart) events) :
    ∀ n ∈ tallies (run (txStep env) (hostCommTxFsmInit h uart) events).trace,
      n.sends ≤ 1 + maxNumOfTransferRetries := by
  intro n hn
  obtain ⟨hfirst, htimeouts⟩ := (counted_reachable env h uart events).tallies n hn
  have hnacks : n.nacks = 0 := by
    refine run_invariant (noNacks_step env) ?_ hrun n hn
    intro m hm
    cases hm
  rw [Tally.sends, hfirst, hnacks]
  exact Nat.add_le_add_left htimeouts 1

def oneRequest : List TxEvent :=
  [.request ⟨txSrcFwUser, ⟨⟨targetToHostEvtPrintDbgMsg, targetToHostDir, 0⟩, .zero⟩, true⟩, .run, .run]

def idleTx : HostCommTxFsm :=
  ⟨.invalid, .invalid, .invalid, timeEventStop, 0, ⟨0, ⟨⟨0, 0, 0⟩, .zero⟩, false⟩⟩

/-- Without an answer the request is sent three times. -/
theorem retries_bounded_timeouts :
    let env : Env := ⟨fun _ => 0, 0⟩
    let silence : List TxEvent := List.replicate 51 .tick ++ [.run]
    ∀ n ∈ tallies (run (txStep env) (hostCommTxFsmInit idleTx uartInit)
      (oneRequest ++ silence ++ silence ++ silence)).trace, n.sends ≤ 1 + maxNumOfTransferRetries := by
  intro env silence
  exact retries_bounded env idleTx uartInit _ (by decide +kernel)

/-- Three negative acknowledges cause four transmissions. -/
theorem nacks_uncounted :
    let env : Env := ⟨fun _ => 0, 0⟩
    let answer : List TxEvent := [.external .nackReceived, .run]
    ∃ n ∈ tallies (run (txStep env) (hostCommTxFsmInit idleTx uartInit)
      (oneRequest ++ answer ++ answer ++ answer)).trace, 1 + maxNumOfTransferRetries < n.sends := by
  intro env answer
  exact ⟨⟨1, 3, 0⟩, by decide +kernel, by decide⟩

end HostComm.TxRetries
