import HostComm.TxDiscipline
import HostComm.TxMoves

namespace HostComm.TxOrder

open Protocol TimeEvents UartDriver ByteRings TxQueue TxSend TxFsm TxDiscipline TxMoves Runs

def handedOf : List TxObs → List TxRequest
  | [] => []
  | .sent .first r :: t => handedOf t ++ [r]
  | _ :: t => handedOf t

/-- The requests are handed over in the order of acceptance, and `L` still
waits in the queue. -/
structure Ordered (s : TxSys) (L : List TxRequest) : Prop where
  holds : Holds s.queue L
  order : ∃ M, acceptedOf s.trace = M ++ L ∧ List.Forall₂ SameRequest M (handedOf s.trace)
  state : s.handle.state = .pollPendingTransfer ∨ s.handle.state = .transmitPacket
  pending : s.handle.state = .pollPendingTransfer → s.handle.internal = .pendingPacket → L ≠ []

theorem ordered_init (h : HostCommTxFsm) (uart : Uart) : Ordered (hostCommTxFsmInit h uart) [] :=
  ⟨holds_init, ⟨[], rfl, .nil⟩, .inl rfl, fun _ he => by cases he⟩

theorem Ordered.same {s s' : TxSys} {L : List TxRequest} (h : Ordered s L)
    (hqueue : s'.queue = s.queue) (hacc : acceptedOf s'.trace = acceptedOf s.trace)
    (hhanded : handedOf s'.trace = handedOf s.trace)
    (hstate : s'.handle.state = .pollPendingTransfer ∨ s'.handle.state = .transmitPacket)
    (hpending : s'.handle.state = .pollPendingTransfer → s'.handle.internal = .pendingPacket → L ≠ []) :
    Ordered s' L :=
  ⟨hqueue ▸ h.holds, by rw [hacc, hhanded]; exact h.order, hstate, hpending⟩

theorem Ordered.sent {s s' : TxSys} {L : List TxRequest} (h : Ordered s L) (env : Env)
    {cause : SendCause} (hcause : cause ≠ .first) (hqueue : s'.queue = s.queue)
    (hacc : acceptedOf s'.trace = acceptedOf s.trace)
    (hhanded : handedOf s'.trace = handedOf s.trace) :
    Ordered (enterSeqTransmitPacket env cause s') L := by
  have hstate : (enterSeqTransmitPacket env cause s').handle.state = .transmitPacket := by
    rw [enterSeq_handle]
  refine h.same hqueue hacc ?_ (.inr hstate) fun hpoll => by rw [hstate] at hpoll; cases hpoll
  rw [sent_trace]
  cases cause with
  | first => exact absurd rfl hcause
  | nack => exact hhanded
  | timeout => exact hhanded

theorem ordered_write {s : TxSys} {L : List TxRequest} (h : Ordered s L) {r : TxRequest}
    (hr : Fits r) : ∃ L', Ordered (writeRequest s r) L' := by
  have hw := holds_write h.holds hr
  split_ifs at hw with hroom
  · obtain ⟨hok, hnext⟩ := hw
    obtain ⟨M, hM, hsame⟩ := h.order
    refine ⟨L ++ [r], ?_⟩
    rw [writeRequest, hok]
    refine ⟨hnext, ⟨M, ?_, hsame⟩, h.state, fun _ _ => by simp⟩
    change acceptedOf s.trace ++ [r] = _
    rw [hM, List.append_assoc]
  · refine ⟨L, ?_⟩
    rw [writeRequest, hw]
    exact h

theorem ordered_first (env : Env) {s : TxSys} {r : TxRequest} {L : List TxRequest}
    (h : Ordered s (r :: L)) :
    Ordered (enterSeqTransmitPacket env .first (exitActionPollPendingTransfers s)) L := by
  obtain ⟨q', hread, hq'⟩ := holds_read h.holds s.handle.request
  obtain ⟨M, hM, hsame⟩ := h.order
  have hr : Fits r := h.holds.fits r List.mem_cons_self
  have hstate : (enterSeqTransmitPacket env .first (exitActionPollPendingTransfers s)).handle.state =
      .transmitPacket := by rw [enterSeq_handle]
  have hexit : exitActionPollPendingTransfers s =
      { s with queue := q'
               handle := { s.handle with request := delivered r s.handle.request }
               trace := .dequeued (delivered r s.handle.request) :: s.trace } := by
    simp only [exitActionPollPendingTransfers, hread]
  refine ⟨?_, ⟨M ++ [r], ?_, ?_⟩, .inr hstate, fun hpoll => by rw [hstate] at hpoll; cases hpoll⟩
  · rw [hexit]
    exact hq'
  · rw [hexit, List.append_assoc]
    exact hM
  · rw [hexit]
    exact List.rel_append hsame (.cons (delivered_same hr _) .nil)

theorem ordered_run (env : Env) {s : TxSys} {L : List TxRequest} (h : Ordered s L) :
    ∃ L', Ordered (hostCommTxFsmRun env s) L' := by
  cases moves_run env s with
  | poll state next pending =>
      refine ⟨L, ?_⟩
      rw [next]
      refine h.same rfl rfl rfl h.state fun hpoll hraised => ?_
      rcases pending with hsame | ⟨-, hcnt⟩
      · exact h.pending hpoll (hsame.symm.trans hraised)
      · rintro rfl
        exact hcnt h.holds.count
  | first state pending next =>
      obtain ⟨r, L', rfl⟩ := List.exists_cons_of_ne_nil (h.pending state pending)
      rw [next]
      exact ⟨L', ordered_first env h⟩
  | wait state quiet external internal next =>
      rw [next]
      exact ⟨L, h⟩
  | done state ack next =>
      rw [next]
      exact ⟨L, h.same rfl rfl rfl (.inl rfl) fun _ he => by cases he⟩
  | nack state internal raised next =>
      rw [next]
      exact ⟨L, h.sent env (by decide) rfl rfl rfl⟩
  | retry state internal raised left next =>
      rw [next]
      exact ⟨L, h.sent env (by decide) rfl rfl rfl⟩
  | giveUp state internal raised spent next =>
      rw [next]
      exact ⟨L, h.same rfl rfl rfl (.inl rfl) fun _ he => by cases he⟩

theorem ordered_step (env : Env) (s : TxSys) (e : TxEvent) (h : ∃ L, Ordered s L)
    (hfit : ∀ r, e = .request r → Fits r) : ∃ L, Ordered (txStep env s e) L := by
  obtain ⟨L, h⟩ := h
  cases e with
  | request r => exact ordered_write h (hfit r rfl)
  | run => exact ordered_run env h
  | tick => exact ⟨L, h.same rfl rfl rfl h.state h.pending⟩
  | external event => exact ⟨L, h.same rfl rfl rfl h.state h.pending⟩
  | txComplete =>
      obtain ⟨uart, hnext⟩ := txComplete_uart env s
      rw [hnext]
      exact ⟨L, h.same rfl rfl rfl h.state h.pending⟩

theorem ordered_reachable (env : Env) {s : TxSys} (h : ∃ L, Ordered s L) (events : List TxEvent)
    (hfit : ∀ r, TxEvent.request r ∈ events → Fits r) :
    ∃ L, Ordered (run (txStep env) s events) L := by
  refine run_preserves_mem (fun s e he hs => ordered_step env s e hs ?_) h
  rintro r rfl
  exact hfit r he

theorem accepted_run (env : Env) (s : TxSys) :
    acceptedOf (hostCommTxFsmRun env s).trace = acceptedOf s.trace := by
  cases moves_run env s with
  | poll state next pending => rw [next]
  | first state pending next => rw [next]; rfl
  | wait state quiet external internal next => rw [next]
  | done state ack next => rw [next]; rfl
  | nack state internal raised next => rw [next]; rfl
  | retry state internal raised left next => rw [next]; rfl
  | giveUp state internal raised spent next => rw [next]; rfl

theorem accepted_step (env : Env) (s : TxSys) (e : TxEvent) :
    acceptedOf s.trace <+: acceptedOf (txStep env s e).trace := by
  cases e with
  | request r =>
      rw [txStep, writeRequest]
      dsimp only
      split_ifs
      · exact List.prefix_append ..
      · exact List.prefix_rfl
  | run => exact (accepted_run env s) ▸ List.prefix_rfl
  | tick => exact List.prefix_rfl
  | external event => exact List.prefix_rfl
  | txComplete =>
      obtain ⟨uart, hnext⟩ := txComplete_uart env s
      have hsame : acceptedOf (txStep env s .txComplete).trace = acceptedOf s.trace := by rw [hnext]
      exact hsame ▸ List.prefix_rfl

theorem accepted_mono (env : Env) (s : TxSys) (events : List TxEvent) :
    acceptedOf s.trace <+: acceptedOf (run (txStep env) s events).trace :=
  run_preserves (I := fun s' : TxSys => acceptedOf s.trace <+: acceptedOf s'.trace)
    (fun s' e h => h.trans (accepted_step env s' e)) List.prefix_rfl events

def Idle (s : TxSys) : Prop :=
  s.handle.state = .pollPendingTransfer ∧ s.handle.internal ≠ .pendingPacket

def Quiet (events : List TxEvent) : Prop := ∀ r, TxEvent.request r ∉ events

def ackAndRun : List TxEvent := [.external .ackReceived, .run]

theorem quiet_ackAndRun : Quiet ackAndRun := fun r => by simp [ackAndRun]

theorem Quiet.append {es es' : List TxEvent} (h : Quiet es) (h' : Quiet es') : Quiet (es ++ es') := by
  intro r hr
  rcases List.mem_append.mp hr with hr | hr
  · exact h r hr
  · exact h' r hr

theorem idle_acked (env : Env) {s : TxSys} (hs : s.handle.state = .transmitPacket) :
    Idle (run (txStep env) s ackAndRun) ∧ (run (txStep env) s ackAndRun).queue = s.queue := by
  have hdone : run (txStep env) s ackAndRun =
      finish (exitActionTransmitPacket (hostCommTxFsmSetExtEvent s .ackReceived)) := by
    rw [ackAndRun, run_cons, run_cons, run_nil, txStep, txStep, hostCommTxFsmRun]
    have hstate : (hostCommTxFsmSetExtEvent s .ackReceived).handle.state = .transmitPacket := hs
    rw [hstate]
    exact if_pos (.inl rfl)
  rw [hdone]
  exact ⟨⟨rfl, fun h => by cases h⟩, rfl⟩

theorem idle_pending (env : Env) {s : TxSys} (hs : s.handle.state = .pollPendingTransfer)
    (hpend : s.handle.internal = .pendingPacket) (hcnt : 0 < s.queue.packetCnt) :
    Idle (run (txStep env) s (.run :: ackAndRun)) ∧
      (run (txStep env) s (.run :: ackAndRun)).queue.packetCnt + 1 = s.queue.packetCnt := by
  have hfirst : hostCommTxFsmRun env s =
      enterSeqTransmitPacket env .first (exitActionPollPendingTransfers s) := by
    rw [hostCommTxFsmRun, hs]
    exact if_pos hpend
  have hqueue : (hostCommTxFsmRun env s).queue.packetCnt + 1 = s.queue.packetCnt := by
    rw [hfirst]
    change (hostCommTxQueueReadRequest s.queue s.handle.request).2.1.packetCnt + 1 = _
    rw [hostCommTxQueueReadRequest, if_pos hcnt]
    exact Nat.sub_add_cancel hcnt
  have hstate : (hostCommTxFsmRun env s).handle.state = .transmitPacket := by
    rw [hfirst, enterSeq_handle]
  obtain ⟨hidle, hsame⟩ := idle_acked env hstate
  rw [run_cons]
  refine ⟨hidle, ?_⟩
  change (run (txStep env) (hostCommTxFsmRun env s) ackAndRun).queue.packetCnt + 1 = _
  rw [hsame, hqueue]

def serveOne : List TxEvent := .run :: .run :: ackAndRun

theorem quiet_serveOne : Quiet serveOne := fun r => by simp [serveOne, ackAndRun]

theorem idle_served (env : Env) {s : TxSys} (h : Idle s) (hcnt : 0 < s.queue.packetCnt) :
    Idle (run (txStep env) s serveOne) ∧
      (run (txStep env) s serveOne).queue.packetCnt + 1 = s.queue.packetCnt := by
  have hpoll : hostCommTxFsmRun env s =
      { s with handle := { s.handle with internal := .pendingPacket } } := by
    rw [hostCommTxFsmRun, h.1]
    change pollPendingTransfersOnReact env s = _
    rw [pollPendingTransfersOnReact, if_neg h.2, duringActionPollPendingTransfers]
    exact if_pos hcnt.ne'
  rw [serveOne, run_cons, txStep, hpoll]
  exact idle_pending env h.1 rfl hcnt

theorem drained (env : Env) {s : TxSys} (h : Idle s) :
    ∃ es, Quiet es ∧ Idle (run (txStep env) s es) ∧ (run (txStep env) s es).queue.packetCnt = 0 := by
  induction hn : s.queue.packetCnt generalizing s with
  | zero => exact ⟨[], fun r => by simp, h, hn⟩
  | succ n ih =>
      obtain ⟨hidle, hcnt⟩ := idle_served env h (hn ▸ Nat.succ_pos n)
      obtain ⟨es, hquiet, hlast⟩ := ih hidle (by omega)
      exact ⟨serveOne ++ es, quiet_serveOne.append hquiet, by rwa [run_append]⟩

theorem emptied (env : Env) {s : TxSys} {L : List TxRequest} (h : Ordered s L) :
    ∃ es, Quiet es ∧ Idle (run (txStep env) s es) ∧ (run (txStep env) s es).queue.packetCnt = 0 := by
  have hidle : ∃ es, Quiet es ∧ Idle (run (txStep env) s es) := by
    rcases h.state with hpoll | htransmit
    · by_cases hpend : s.handle.internal = .pendingPacket
      · have hcnt : 0 < s.queue.packetCnt := by
          rw [h.holds.count]
          exact List.length_pos_iff.mpr (h.pending hpoll hpend)
        exact ⟨.run :: ackAndRun, fun r => by simp [ackAndRun], (idle_pending env hpoll hpend hcnt).1⟩
      · exact ⟨[], fun r => by simp, hpoll, hpend⟩
    · exact ⟨ackAndRun, quiet_ackAndRun, (idle_acked env htransmit).1⟩
  obtain ⟨es, hquiet, hidle⟩ := hidle
  obtain ⟨es', hquiet', hlast⟩ := drained env hidle
  exact ⟨es ++ es', hquiet.append hquiet', by rwa [run_append]⟩

theorem Ordered.handed_length {s : TxSys} {L : List TxRequest} (h : Ordered s L) :
    (handedOf s.trace).length + s.queue.packetCnt = (acceptedOf s.trace).length := by
  obtain ⟨M, hM, hsame⟩ := h.order
  rw [hM, List.length_append, hsame.length_eq, h.holds.count]

theorem served_next (env : Env) {s : TxSys} (h : Ordered s []) (hidle : Idle s) {r : TxRequest}
    (hr : Fits r) :
    (hostCommTxQueueWriteRequest s.queue r).1 = true ∧
      (acceptedOf s.trace).length <
        (handedOf (run (txStep env) s (.request r :: serveOne)).trace).length := by
  have hroom : 6 + r.packet.header.payloadLen.toNat ≤ txQueueBuffSize - s.queue.cb.contents.length := by
    have hfits : r.packet.header.payloadLen.toNat ≤ 251 := hr
    have hnil : s.queue.cb.contents = [] := h.holds.stored
    rw [hnil, List.length_nil, txQueueBuffSize]
    omega
  obtain ⟨hok, hone, -⟩ := write_accepted hr hroom
  refine ⟨hok, ?_⟩
  have hwrite : writeRequest s r =
      { s with queue := (hostCommTxQueueWriteRequest s.queue r).2
               trace := .accepted r :: s.trace } := by
    rw [writeRequest, hok]
    rfl
  have hcnt : (writeRequest s r).queue.packetCnt = 1 := by
    rw [hwrite]
    exact hone.trans (by rw [h.holds.count, List.length_nil])
  have hnext : Idle (writeRequest s r) := by
    rw [hwrite]
    exact hidle
  obtain ⟨-, hserved⟩ := idle_served env hnext (by omega)
  obtain ⟨L, hL⟩ := ordered_reachable env (ordered_write h hr) serveOne
    fun q hq => absurd hq (quiet_serveOne q)
  have hmono := (accepted_mono env (writeRequest s r) serveOne).length_le
  have hacc : (acceptedOf (writeRequest s r).trace).length = (acceptedOf s.trace).length + 1 := by
    rw [hwrite]
    exact List.length_append
  have hhanded := hL.handed_length
  rw [run_cons, txStep]
  omega

/-- Every request that fits can be enqueued at some time and handed over later. -/
theorem comes_through (env : Env) {s : TxSys} (h : ∃ L, Ordered s L) {r : TxRequest} (hr : Fits r) :
    ∃ es es', Quiet es ∧ Quiet es' ∧
      (hostCommTxQueueWriteRequest (run (txStep env) s es).queue r).1 = true ∧
      (acceptedOf (run (txStep env) s es).trace).length <
        (handedOf (run (txStep env) s (es ++ .request r :: es')).trace).length := by
  obtain ⟨es, hquiet, hidle, hcnt⟩ := emptied env h.choose_spec
  obtain ⟨L, hL⟩ := ordered_reachable env h es fun q hq => absurd hq (hquiet q)
  obtain rfl : L = [] := List.eq_nil_of_length_eq_zero (hL.holds.count ▸ hcnt)
  obtain ⟨hok, hlt⟩ := served_next env hL hidle hr
  exact ⟨es, serveOne, hquiet, quiet_serveOne, hok, by rwa [run_append]⟩

end HostComm.TxOrder
