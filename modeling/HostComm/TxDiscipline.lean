import HostComm.TxFsm
import Mathlib.Data.List.Forall2

namespace HostComm.TxDiscipline

open Protocol TimeEvents TxQueue TxSend UartDriver TxFsm Runs

def isDequeued : TxObs → Bool
  | .dequeued _ => true
  | _ => false

def isSent : TxObs → Bool
  | .sent _ _ => true
  | _ => false

def isAck : TxObs → Bool
  | .external .ackReceived => true
  | _ => false

def isNack : TxObs → Bool
  | .external .nackReceived => true
  | _ => false

def isTimeout : TxObs → Bool
  | .ackTimeout => true
  | _ => false

def isTimeoutSend : TxObs → Bool
  | .sent .timeout _ => true
  | _ => false

def acceptedOf : List TxObs → List TxRequest
  | [] => []
  | .accepted r :: t => acceptedOf t ++ [r]
  | _ :: t => acceptedOf t

def sentOf : List TxObs → List TxRequest
  | [] => []
  | .sent _ r :: t => sentOf t ++ [r]
  | _ :: t => sentOf t

def sinceSent (t : List TxObs) : List TxObs := t.takeWhile fun o => !isSent o

def sinceDequeued (t : List TxObs) : List TxObs := t.takeWhile fun o => !isDequeued o

def timeoutsOf (t : List TxObs) : Nat := (sinceDequeued t).countP isTimeout

/-- Retransmissions of the current request that a timeout caused. -/
def timeoutSends (t : List TxObs) : Nat := (sinceDequeued t).countP isTimeoutSend

@[simp] theorem timeoutsOf_dequeued (r : TxRequest) (t : List TxObs) :
    timeoutsOf (.dequeued r :: t) = 0 := rfl

@[simp] theorem timeoutSends_dequeued (r : TxRequest) (t : List TxObs) :
    timeoutSends (.dequeued r :: t) = 0 := rfl

@[simp] theorem timeoutsOf_sent (c : SendCause) (r : TxRequest) (t : List TxObs) :
    timeoutsOf (.sent c r :: t) = timeoutsOf t := by
  simp [timeoutsOf, sinceDequeued, isDequeued, isTimeout]

@[simp] theorem timeoutSends_sent (c : SendCause) (r : TxRequest) (t : List TxObs) :
    timeoutSends (.sent c r :: t) = timeoutSends t + if c = .timeout then 1 else 0 := by
  cases c <;> simp [timeoutSends, sinceDequeued, isDequeued, isTimeoutSend, List.countP_cons]

@[simp] theorem timeoutsOf_ackTimeout (t : List TxObs) :
    timeoutsOf (.ackTimeout :: t) = timeoutsOf t + 1 := by
  simp [timeoutsOf, sinceDequeued, isDequeued, isTimeout, List.countP_cons]

@[simp] theorem timeoutSends_ackTimeout (t : List TxObs) :
    timeoutSends (.ackTimeout :: t) = timeoutSends t := by
  simp [timeoutSends, sinceDequeued, isDequeued, isTimeoutSend]

@[simp] theorem timeoutsOf_done (t : List TxObs) : timeoutsOf (.done :: t) = timeoutsOf t := by
  simp [timeoutsOf, sinceDequeued, isDequeued, isTimeout]

def AckSinceSent (t : List TxObs) : Prop := ∃ o ∈ sinceSent t, isAck o = true

def NackSinceSent (t : List TxObs) : Prop := ∃ o ∈ sinceSent t, isNack o = true

structure Polling (s : TxSys) (L : List TxRequest) : Prop where
  state : s.handle.state = .pollPendingTransfer
  retry : s.handle.retryCnt = 0
  pending : s.handle.internal = .pendingPacket → L ≠ []

structure Sending (s : TxSys) (eps : List (TxRequest × Nat)) : Prop where
  state : s.handle.state = .transmitPacket
  current : ∃ done k, eps = done ++ [(s.handle.request, k)]
  noAck : s.handle.internal = .noAckExpected ↔ s.handle.request.ackExpected = false
  retry : s.handle.retryCnt ≤ 2
  timeouts : timeoutsOf s.trace = s.handle.retryCnt
  resends : timeoutSends s.trace = s.handle.retryCnt

/-- The invariant of a run. `eps` are the dequeued requests as the machine
holds them, each with its number of transmissions. -/
structure Disciplined (s : TxSys) (eps : List (TxRequest × Nat)) (L : List TxRequest) : Prop where
  holds : Holds s.queue L
  sends : sentOf s.trace = eps.flatMap fun e => List.replicate e.2 e.1
  order : ∃ M, acceptedOf s.trace = M ++ L ∧ List.Forall₂ SameRequest M (eps.map Prod.fst)
  counts : ∀ e ∈ eps, 1 ≤ e.2 ∧ (e.1.ackExpected = false → e.2 = 1)
  phase : Polling s L ∨ Sending s eps
  ack : s.handle.external = .ackReceived → AckSinceSent s.trace
  nack : s.handle.external = .nackReceived → NackSinceSent s.trace
  bound : timeoutSends s.trace ≤ 2

theorem phase_congr {s s' : TxSys} {eps : List (TxRequest × Nat)} {L L' : List TxRequest}
    (h : Polling s L ∨ Sending s eps) (hstate : s'.handle.state = s.handle.state)
    (hinternal : s'.handle.internal = s.handle.internal)
    (hrequest : s'.handle.request = s.handle.request)
    (hretry : s'.handle.retryCnt = s.handle.retryCnt)
    (htimeouts : timeoutsOf s'.trace = timeoutsOf s.trace)
    (hresends : timeoutSends s'.trace = timeoutSends s.trace) (hL : L ≠ [] → L' ≠ []) :
    Polling s' L' ∨ Sending s' eps := by
  rcases h with hp | hp
  · refine .inl ⟨hstate.trans hp.state, hretry.trans hp.retry, fun he => ?_⟩
    exact hL (hp.pending (hinternal.symm.trans he))
  · refine .inr ⟨hstate.trans hp.state, ?_, ?_, hretry ▸ hp.retry, ?_, ?_⟩
    · rw [hrequest]
      exact hp.current
    · rw [hrequest, hinternal]
      exact hp.noAck
    · rw [htimeouts, hretry]
      exact hp.timeouts
    · rw [hresends, hretry]
      exact hp.resends

theorem disciplined_init (h : HostCommTxFsm) (uart : Uart) :
    Disciplined (hostCommTxFsmInit h uart) [] [] where
  holds := holds_init
  sends := rfl
  order := ⟨[], rfl, .nil⟩
  counts := by simp
  phase := .inl ⟨rfl, rfl, by
    intro he
    cases he⟩
  ack := by
    intro he
    cases he
  nack := by
    intro he
    cases he
  bound := Nat.zero_le 2

theorem disciplined_write {s : TxSys} {eps : List (TxRequest × Nat)} {L : List TxRequest}
    (h : Disciplined s eps L) {r : TxRequest} (hr : Fits r) :
    ∃ L', Disciplined (writeRequest s r) eps L' := by
  have hw := holds_write h.holds hr
  split_ifs at hw with hroom
  · obtain ⟨hok, hnext⟩ := hw
    refine ⟨L ++ [r], ?_⟩
    have hs : writeRequest s r =
        { s with queue := (hostCommTxQueueWriteRequest s.queue r).2
                 trace := .accepted r :: s.trace } := by simp [writeRequest, hok]
    rw [hs]
    obtain ⟨M, hM, hsame⟩ := h.order
    refine ⟨hnext, h.sends, ⟨M, by simp [acceptedOf, hM], hsame⟩, h.counts, ?_, ?_, ?_, h.bound⟩
    · exact phase_congr h.phase rfl rfl rfl rfl rfl rfl fun _ => by simp
    · intro he
      obtain ⟨o, ho, hack⟩ := h.ack he
      exact ⟨o, List.mem_cons_of_mem _ ho, hack⟩
    · intro he
      obtain ⟨o, ho, hnack⟩ := h.nack he
      exact ⟨o, List.mem_cons_of_mem _ ho, hnack⟩
  · refine ⟨L, ?_⟩
    have hs : writeRequest s r = s := by simp [writeRequest, hw]
    rwa [hs]

theorem disciplined_tick {s : TxSys} {eps : List (TxRequest × Nat)} {L : List TxRequest}
    (h : Disciplined s eps L) : Disciplined (hostCommTxFsmTimeEventUpdate s) eps L :=
  ⟨h.holds, h.sends, h.order, h.counts, phase_congr h.phase rfl rfl rfl rfl rfl rfl id, h.ack, h.nack,
    h.bound⟩

theorem disciplined_uart {s : TxSys} {eps : List (TxRequest × Nat)} {L : List TxRequest}
    (h : Disciplined s eps L) (u : Uart) : Disciplined { s with uart := u } eps L :=
  ⟨h.holds, h.sends, h.order, h.counts, phase_congr h.phase rfl rfl rfl rfl rfl rfl id, h.ack, h.nack,
    h.bound⟩

theorem disciplined_external {s : TxSys} {eps : List (TxRequest × Nat)} {L : List TxRequest}
    (h : Disciplined s eps L) (event : TxExternal) :
    Disciplined (hostCommTxFsmSetExtEvent s event) eps L := by
  refine ⟨h.holds, h.sends, h.order, h.counts, phase_congr h.phase rfl rfl rfl rfl rfl rfl id, ?_, ?_,
    h.bound⟩
  · rintro (rfl : event = .ackReceived)
    exact ⟨_, List.mem_cons_self, rfl⟩
  · rintro (rfl : event = .nackReceived)
    exact ⟨_, List.mem_cons_self, rfl⟩

theorem disciplined_finish {s : TxSys} {eps : List (TxRequest × Nat)} {L : List TxRequest}
    (h : Disciplined s eps L) : Disciplined (finish s) eps L where
  holds := h.holds
  sends := h.sends
  order := h.order
  counts := h.counts
  phase := .inl ⟨rfl, rfl, by
    intro he
    cases he⟩
  ack := by
    intro he
    cases he
  nack := by
    intro he
    cases he
  bound := h.bound

theorem sent_trace (env : Env) (cause : SendCause) (s : TxSys) :
    (enterSeqTransmitPacket env cause s).trace = .sent cause s.handle.request :: s.trace := rfl

theorem enterSeq_handle (env : Env) (cause : SendCause) (s : TxSys) :
    (enterSeqTransmitPacket env cause s).handle =
      { state := .transmitPacket
        internal := if s.handle.request.ackExpected then .invalid else .noAckExpected
        external := .invalid
        ackTimeout :=
          if s.handle.request.ackExpected then timeEventStart maxAckTimeoutMs else timeEventStop
        retryCnt := s.handle.retryCnt
        request := s.handle.request } := by
  cases hack : s.handle.request.ackExpected <;>
    simp [enterSeqTransmitPacket, entryActionTransmitPacket, hostCommTxFsmSetNextState, clearEvents,
      hack]

theorem disciplined_send (env : Env) (cause : SendCause) {s : TxSys} {done : List (TxRequest × Nat)}
    {k : Nat} {L : List TxRequest} (holds : Holds s.queue L)
    (sends : sentOf s.trace ++ [s.handle.request] =
      (done ++ [(s.handle.request, k)]).flatMap fun e => List.replicate e.2 e.1)
    (order : ∃ M, acceptedOf s.trace = M ++ L ∧
      List.Forall₂ SameRequest M ((done ++ [(s.handle.request, k)]).map Prod.fst))
    (hdone : ∀ e ∈ done, 1 ≤ e.2 ∧ (e.1.ackExpected = false → e.2 = 1))
    (hlast : 1 ≤ k ∧ (s.handle.request.ackExpected = false → k = 1))
    (htimeouts : timeoutsOf s.trace = s.handle.retryCnt)
    (hresends : timeoutSends s.trace + (if cause = .timeout then 1 else 0) = s.handle.retryCnt)
    (hle : s.handle.retryCnt ≤ 2) :
    Disciplined (enterSeqTransmitPacket env cause s) (done ++ [(s.handle.request, k)]) L := by
  refine ⟨holds, sends, order, ?_, .inr ⟨?_, ⟨done, k, ?_⟩, ?_, ?_, ?_, ?_⟩, ?_, ?_, ?_⟩
  · intro e he
    rcases List.mem_append.mp he with he | he
    · exact hdone e he
    · rw [List.mem_singleton.mp he]
      exact hlast
  · rw [enterSeq_handle]
  · rw [enterSeq_handle]
  · rw [enterSeq_handle]
    cases s.handle.request.ackExpected <;> simp
  · rw [enterSeq_handle]
    exact hle
  · rw [enterSeq_handle, sent_trace, timeoutsOf_sent, htimeouts]
  · rw [enterSeq_handle, sent_trace, timeoutSends_sent, hresends]
  · rw [enterSeq_handle]
    intro he
    cases he
  · rw [enterSeq_handle]
    intro he
    cases he
  · rw [sent_trace, timeoutSends_sent, hresends]
    exact hle

theorem disciplined_first (env : Env) {s : TxSys} {eps : List (TxRequest × Nat)} {r : TxRequest}
    {L : List TxRequest} (h : Disciplined s eps (r :: L)) (hp : Polling s (r :: L)) :
    ∃ eps', Disciplined (enterSeqTransmitPacket env .first (exitActionPollPendingTransfers s)) eps' L := by
  obtain ⟨q', hread, hq'⟩ := holds_read h.holds s.handle.request
  have hr : Fits r := h.holds.fits r List.mem_cons_self
  obtain ⟨M, hM, hsame⟩ := h.order
  let d := delivered r s.handle.request
  have hexit : exitActionPollPendingTransfers s =
      { s with queue := q', handle := { s.handle with request := d }
               trace := .dequeued d :: s.trace } := by
    simp only [exitActionPollPendingTransfers, hread, d]
  rw [hexit]
  refine ⟨eps ++ [(d, 1)], disciplined_send env .first hq' ?_ ⟨M ++ [r], ?_, ?_⟩ h.counts
    ⟨Nat.le_refl 1, fun _ => rfl⟩ ?_ ?_ ?_⟩
  · change sentOf s.trace ++ [d] = _
    rw [h.sends]
    simp [d]
  · change acceptedOf s.trace = _
    rw [hM, List.append_assoc, List.singleton_append]
  · rw [List.map_append]
    exact List.rel_append hsame (.cons (delivered_same hr _) .nil)
  · rw [hp.retry, timeoutsOf_dequeued]
  · rw [hp.retry, timeoutSends_dequeued]
    rfl
  · rw [hp.retry]
    exact Nat.zero_le 2

theorem disciplined_poll (env : Env) {s : TxSys} {eps : List (TxRequest × Nat)}
    {L : List TxRequest} (h : Disciplined s eps L) (hp : Polling s L) :
    ∃ eps' L', Disciplined (pollPendingTransfersOnReact env s) eps' L' := by
  by_cases hpend : s.handle.internal = .pendingPacket
  · rw [pollPendingTransfersOnReact, if_pos hpend]
    obtain ⟨r, L', rfl⟩ := List.exists_cons_of_ne_nil (hp.pending hpend)
    obtain ⟨eps', hnext⟩ := disciplined_first env h hp
    exact ⟨eps', L', hnext⟩
  · rw [pollPendingTransfersOnReact, if_neg hpend]
    refine ⟨eps, L, ?_⟩
    by_cases hcnt : hostCommTxQueueGetPendingTransfers s.queue ≠ 0
    · rw [duringActionPollPendingTransfers, if_pos hcnt]
      refine ⟨h.holds, h.sends, h.order, h.counts, .inl ⟨hp.state, hp.retry, ?_⟩, h.ack, h.nack,
        h.bound⟩
      rintro - rfl
      exact hcnt h.holds.count
    · rw [duringActionPollPendingTransfers, if_neg hcnt]
      exact h

theorem disciplined_resend (env : Env) (cause : SendCause) {s s' : TxSys}
    {eps : List (TxRequest × Nat)} {L : List TxRequest} (h : Disciplined s eps L)
    (hs : Sending s eps) (hack : s.handle.request.ackExpected = true)
    (hqueue : s'.queue = s.queue) (hreq : s'.handle.request = s.handle.request)
    (hsent : sentOf s'.trace = sentOf s.trace) (hacc : acceptedOf s'.trace = acceptedOf s.trace)
    (htimeouts : timeoutsOf s'.trace = s'.handle.retryCnt)
    (hresends : timeoutSends s'.trace + (if cause = .timeout then 1 else 0) = s'.handle.retryCnt)
    (hle : s'.handle.retryCnt ≤ 2) :
    ∃ eps', Disciplined (enterSeqTransmitPacket env cause s') eps' L := by
  obtain ⟨done, k, hk⟩ := hs.current
  obtain ⟨M, hM, hsame⟩ := h.order
  refine ⟨done ++ [(s'.handle.request, k + 1)], disciplined_send env cause (hqueue ▸ h.holds) ?_
    ⟨M, hacc.trans hM, ?_⟩ (fun e he => h.counts e (by simp [hk, he])) ?_ htimeouts hresends hle⟩
  · rw [hsent, h.sends, hk, hreq]
    simp [List.replicate_succ']
  · rw [hreq]
    simpa [hk] using hsame
  · rw [hreq, hack]
    exact ⟨Nat.le_add_left 1 k, fun hno => by cases hno⟩

theorem disciplined_exit {s : TxSys} {eps : List (TxRequest × Nat)} {L : List TxRequest}
    (h : Disciplined s eps L) (hs : Sending s eps) :
    Disciplined (exitActionTransmitPacket s) eps L :=
  ⟨h.holds, h.sends, h.order, h.counts,
    .inr ⟨hs.state, hs.current, hs.noAck, hs.retry, hs.timeouts, hs.resends⟩, h.ack, h.nack, h.bound⟩

theorem Sending.expects_ack {s : TxSys} {eps : List (TxRequest × Nat)} (hs : Sending s eps)
    (h : s.handle.internal ≠ .noAckExpected) : s.handle.request.ackExpected = true := by
  cases hno : s.handle.request.ackExpected with
  | true => rfl
  | false => exact absurd (hs.noAck.mpr hno) h

theorem disciplined_transmit (env : Env) {s : TxSys} {eps : List (TxRequest × Nat)}
    {L : List TxRequest} (h : Disciplined s eps L) (hs : Sending s eps) :
    ∃ eps', Disciplined (transmitPacketOnReact env s) eps' L := by
  rw [transmitPacketOnReact]
  split_ifs with hdone hnack hraised
  · exact ⟨eps, disciplined_finish (disciplined_exit h hs)⟩
  · have hack := hs.expects_ack fun h => hdone (.inr h)
    exact disciplined_resend env .nack h hs hack rfl rfl rfl rfl hs.timeouts hs.resends hs.retry
  · have hack := hs.expects_ack fun h => hdone (.inr h)
    dsimp only
    split_ifs with hmax
    · refine ⟨eps, h.holds, h.sends, h.order, h.counts, .inl ⟨rfl, rfl, ?_⟩, ?_, ?_, ?_⟩
      · intro he
        cases he
      · intro he
        cases he
      · intro he
        cases he
      · exact (timeoutSends_ackTimeout s.trace).trans_le h.bound
    · have hcnt : (s.handle.retryCnt + 1) % 256 = s.handle.retryCnt + 1 := by
        have := hs.retry
        omega
      refine disciplined_resend env .timeout h hs hack rfl rfl rfl rfl ?_ ?_ ?_
      · change timeoutsOf (.ackTimeout :: s.trace) = (s.handle.retryCnt + 1) % 256
        rw [timeoutsOf_ackTimeout, hs.timeouts, hcnt]
      · change timeoutSends (.ackTimeout :: s.trace) + 1 = (s.handle.retryCnt + 1) % 256
        rw [timeoutSends_ackTimeout, hs.resends, hcnt]
      · change (s.handle.retryCnt + 1) % 256 ≤ 2
        rw [hcnt]
        exact Nat.lt_of_not_le hmax
  · exact ⟨eps, h⟩

theorem disciplined_run (env : Env) {s : TxSys} {eps : List (TxRequest × Nat)}
    {L : List TxRequest} (h : Disciplined s eps L) :
    ∃ eps' L', Disciplined (hostCommTxFsmRun env s) eps' L' := by
  rcases h.phase with hp | hs
  · rw [hostCommTxFsmRun, hp.state]
    exact disciplined_poll env h hp
  · rw [hostCommTxFsmRun, hs.state]
    obtain ⟨eps', h'⟩ := disciplined_transmit env h hs
    exact ⟨eps', L, h'⟩

theorem disciplined_step (env : Env) (s : TxSys) (e : TxEvent)
    (h : ∃ eps L, Disciplined s eps L) (hfit : ∀ r, e = .request r → Fits r) :
    ∃ eps L, Disciplined (txStep env s e) eps L := by
  obtain ⟨eps, L, h⟩ := h
  cases e with
  | request r => exact ⟨eps, disciplined_write h (hfit r rfl)⟩
  | run => exact disciplined_run env h
  | tick => exact ⟨eps, L, disciplined_tick h⟩
  | external event => exact ⟨eps, L, disciplined_external h event⟩
  | txComplete =>
      obtain ⟨uart, hnext⟩ := txComplete_uart env s
      rw [hnext]
      exact ⟨eps, L, disciplined_uart h uart⟩

theorem disciplined_reachable (env : Env) {s : TxSys} (hs : ∃ eps L, Disciplined s eps L)
    (events : List TxEvent) (hfit : ∀ r, TxEvent.request r ∈ events → Fits r) :
    ∃ eps L, Disciplined (run (txStep env) s events) eps L := by
  refine run_preserves_mem (fun s e he hs => disciplined_step env s e hs ?_) hs
  rintro r rfl
  exact hfit r he

def Leaves (env : Env) (s : TxSys) : Prop :=
  s.handle.state = .transmitPacket ∧
    (hostCommTxFsmRun env s).handle.state = .pollPendingTransfer

/-- Only an acknowledge of the latest transmission or the third timeout ends
a request that expects an acknowledge. -/
theorem leaves_cases (env : Env) {s : TxSys} {eps : List (TxRequest × Nat)} {L : List TxRequest}
    (h : Disciplined s eps L) (hl : Leaves env s) (hack : s.handle.request.ackExpected = true) :
    (s.handle.external = .ackReceived ∧ AckSinceSent s.trace) ∨
      (timeoutsOf s.trace = 2 ∧ timeoutsOf (hostCommTxFsmRun env s).trace = 3) := by
  obtain ⟨hstate, hnext⟩ := hl
  rcases h.phase with hp | hs
  · rw [hp.state] at hstate
    cases hstate
  rw [hostCommTxFsmRun, hstate] at hnext ⊢
  simp only [transmitPacketOnReact] at hnext ⊢
  split_ifs at hnext ⊢ with hdone hnack hraised hmax
  · refine .inl ?_
    rcases hdone with hext | hint
    · exact ⟨hext, h.ack hext⟩
    · rw [hs.noAck.mp hint] at hack
      cases hack
  · rw [enterSeq_handle] at hnext
    cases hnext
  · have htwo : timeoutsOf s.trace = 2 := by
      rw [hs.timeouts]
      exact Nat.le_antisymm hs.retry hmax
    refine .inr ⟨htwo, ?_⟩
    change timeoutsOf (.done :: .ackTimeout :: s.trace) = 3
    rw [timeoutsOf_done, timeoutsOf_ackTimeout, htwo]
  · rw [enterSeq_handle] at hnext
    cases hnext
  · rw [hstate] at hnext
    cases hnext

theorem nack_resend (env : Env) {s : TxSys} {eps : List (TxRequest × Nat)} {L : List TxRequest}
    (h : Disciplined s eps L) {r : TxRequest}
    (hsend : (hostCommTxFsmRun env s).trace = .sent .nack r :: s.trace) : NackSinceSent s.trace := by
  rcases h.phase with hp | hs
  · rw [hostCommTxFsmRun, hp.state] at hsend
    simp only [pollPendingTransfersOnReact, duringActionPollPendingTransfers] at hsend
    split_ifs at hsend with hpend hcnt
    · cases hsend
    · exact absurd (congrArg List.length hsend) (by simp)
    · exact absurd (congrArg List.length hsend) (by simp)
  · rw [hostCommTxFsmRun, hs.state] at hsend
    simp only [transmitPacketOnReact] at hsend
    split_ifs at hsend with hdone hnack hraised hmax
    · cases hsend
    · exact h.nack hnack
    · cases hsend
    · cases hsend
    · exact absurd (congrArg List.length hsend) (by simp)

theorem dequeue_drops_external (env : Env) {s : TxSys} (hstate : s.handle.state = .pollPendingTransfer)
    (hpend : s.handle.internal = .pendingPacket) (event : TxExternal) :
    (hostCommTxFsmRun env (hostCommTxFsmSetExtEvent s event)).handle =
      (hostCommTxFsmRun env s).handle := by
  have hleft : hostCommTxFsmRun env (hostCommTxFsmSetExtEvent s event) =
      enterSeqTransmitPacket env .first
        (exitActionPollPendingTransfers (hostCommTxFsmSetExtEvent s event)) := by
    simp [hostCommTxFsmRun, hostCommTxFsmSetExtEvent, hstate, pollPendingTransfersOnReact, hpend]
  have hright : hostCommTxFsmRun env s =
      enterSeqTransmitPacket env .first (exitActionPollPendingTransfers s) := by
    simp [hostCommTxFsmRun, hstate, pollPendingTransfersOnReact, hpend]
  rw [hleft, hright, enterSeq_handle, enterSeq_handle]
  rfl

/-- Order and acknowledge discipline of the transmitter. The accepted requests
are the dequeued ones followed by those the queue holds. -/
theorem txFsm_discipline (env : Env) (h : HostCommTxFsm) (uart : Uart) (events : List TxEvent)
    (hfit : ∀ r, TxEvent.request r ∈ events → Fits r) :
    let s := run (txStep env) (hostCommTxFsmInit h uart) events
    (∃ (eps : List (TxRequest × Nat)) (M L : List TxRequest),
      Holds s.queue L ∧
      sentOf s.trace = eps.flatMap (fun e => List.replicate e.2 e.1) ∧
      acceptedOf s.trace = M ++ L ∧ List.Forall₂ SameRequest M (eps.map Prod.fst) ∧
      (∀ e ∈ eps, 1 ≤ e.2 ∧ (e.1.ackExpected = false → e.2 = 1)) ∧
      (s.handle.state = .transmitPacket → ∃ done k, eps = done ++ [(s.handle.request, k)])) ∧
    (Leaves env s → s.handle.request.ackExpected = true →
      (s.handle.external = .ackReceived ∧ AckSinceSent s.trace) ∨
        (timeoutsOf s.trace = 2 ∧ timeoutsOf (hostCommTxFsmRun env s).trace = 3)) ∧
    timeoutSends s.trace ≤ maxNumOfTransferRetries ∧
    (∀ r, (hostCommTxFsmRun env s).trace = .sent .nack r :: s.trace → NackSinceSent s.trace) ∧
    (s.handle.state = .pollPendingTransfer → s.handle.internal = .pendingPacket → ∀ event,
      (hostCommTxFsmRun env (hostCommTxFsmSetExtEvent s event)).handle =
        (hostCommTxFsmRun env s).handle) := by
  intro s
  obtain ⟨eps, L, hd⟩ := disciplined_reachable env ⟨[], [], disciplined_init h uart⟩ events hfit
  obtain ⟨M, hM, hsame⟩ := hd.order
  refine ⟨⟨eps, M, L, hd.holds, hd.sends, hM, hsame, hd.counts, ?_⟩, leaves_cases env hd, hd.bound,
    fun r hr => nack_resend env hd hr, dequeue_drops_external env⟩
  intro hstate
  rcases hd.phase with hp | hs
  · rw [hp.state] at hstate
    cases hstate
  · exact hs.current

/-- The first request is sent again for a negative acknowledge and for a timeout
and is then acknowledged, the second is accepted meanwhile and waits in the queue. -/
theorem txFsm_discipline_retries :
    let env : Env := ⟨fun _ => 0, 0⟩
    let first : TxRequest := ⟨txSrcFwUser, ⟨⟨0x58, 0xAA, 3⟩, PacketPayload.zero.load [1, 2, 3]⟩, true⟩
    let second : TxRequest := ⟨txSrcFwUser, ⟨⟨0x59, 0xAA, 2⟩, PacketPayload.zero.load [4, 5]⟩, true⟩
    let h : HostCommTxFsm := ⟨.invalid, .invalid, .invalid, timeEventStop, 0, first⟩
    let waiting : List TxEvent :=
      [.request first, .run, .run, .request second, .external .nackReceived, .run] ++
        List.replicate (maxAckTimeoutMs + 1) .tick ++ [.run]
    let s := run (txStep env) (hostCommTxFsmInit h uartInit) waiting
    let t := run (txStep env) (hostCommTxFsmInit h uartInit)
      (waiting ++ [.external .ackReceived, .run, .run, .run])
    ((sentOf s.trace).map (·.packet.header.type) = [0x58, 0x58, 0x58] ∧ timeoutSends s.trace = 1 ∧
      ∃ L, Holds s.queue L ∧ L.length = 1) ∧
    (sentOf t.trace).map (·.packet.header.type) = [0x58, 0x58, 0x58, 0x59] ∧
      (acceptedOf t.trace).map (·.packet.header.type) = [0x58, 0x59] ∧ Holds t.queue [] := by
  intro env first second h waiting s t
  have hfit (last : List TxEvent) (hlast : ∀ r, TxEvent.request r ∉ last) :
      ∀ r, TxEvent.request r ∈ waiting ++ last → Fits r := by
    intro r hr
    have hr : r = first ∨ r = second := by
      simpa [waiting, hlast, List.mem_replicate] using hr
    rcases hr with rfl | rfl <;> decide
  obtain ⟨L, hL⟩ : ∃ L, Holds s.queue L := by
    obtain ⟨⟨-, -, L, hL, -⟩, -⟩ :=
      txFsm_discipline env h uartInit waiting (by simpa using hfit [] (by simp))
    exact ⟨L, hL⟩
  obtain ⟨L', hL'⟩ : ∃ L, Holds t.queue L := by
    obtain ⟨⟨-, -, L, hL, -⟩, -⟩ := txFsm_discipline env h uartInit _
      (hfit [.external .ackReceived, .run, .run, .run] (by simp))
    exact ⟨L, hL⟩
  have hone : s.queue.packetCnt = 1 := by decide +kernel
  have hnone : t.queue.packetCnt = 0 := by decide +kernel
  rw [hL.count] at hone
  rw [hL'.count] at hnone
  have hempty : L' = [] := List.length_eq_zero_iff.mp hnone
  refine ⟨⟨by decide +kernel, by decide +kernel, L, hL, hone⟩, by decide +kernel,
    by decide +kernel, ?_⟩
  rwa [← hempty]

end HostComm.TxDiscipline
