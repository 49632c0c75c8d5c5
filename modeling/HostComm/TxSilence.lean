import HostComm.TxService

namespace HostComm.TxSilence

open Protocol TimeEvents UartDriver TxQueue TxSend TxFsm TxDiscipline TxMoves TxOrder Runs

def copies (r : TxRequest) : List TxRequest :=
  List.replicate (if r.ackExpected then maxNumOfTransferRetries + 1 else 1) r

/-- Between two requests each one was sent as often as the retries allow. -/
structure Rested (s : TxSys) : Prop where
  state : s.handle.state ≠ .transmitPacket
  retry : s.handle.retryCnt = 0
  sent : sentOf s.trace = (handedOf s.trace).flatMap copies

/-- The last request handed over was sent once more than the retries count. -/
structure Retrying (s : TxSys) : Prop where
  state : s.handle.state = .transmitPacket
  noAck : s.handle.internal = .noAckExpected ↔ s.handle.request.ackExpected = false
  first : s.handle.request.ackExpected = false → s.handle.retryCnt = 0
  retry : s.handle.retryCnt ≤ maxNumOfTransferRetries
  sent : ∃ done, handedOf s.trace = done ++ [s.handle.request] ∧
    sentOf s.trace = done.flatMap copies ++
      List.replicate (s.handle.retryCnt + 1) s.handle.request

structure Silent (s : TxSys) : Prop where
  external : s.handle.external = .invalid
  phase : Rested s ∨ Retrying s

theorem silent_init (h : HostCommTxFsm) (uart : Uart) : Silent (hostCommTxFsmInit h uart) :=
  ⟨rfl, .inl ⟨TxState.noConfusion, rfl, rfl⟩⟩

theorem Silent.same {s s' : TxSys} (h : Silent s) (hexternal : s'.handle.external = .invalid)
    (hstate : s'.handle.state = s.handle.state) (hretry : s'.handle.retryCnt = s.handle.retryCnt)
    (hrequest : s'.handle.request = s.handle.request)
    (hinternal : s.handle.state = .transmitPacket → s'.handle.internal = s.handle.internal)
    (hsent : sentOf s'.trace = sentOf s.trace) (hhanded : handedOf s'.trace = handedOf s.trace) :
    Silent s' := by
  refine ⟨hexternal, ?_⟩
  rcases h.phase with hp | hp
  · exact .inl ⟨hstate ▸ hp.state, hretry.trans hp.retry, by rw [hsent, hhanded, hp.sent]⟩
  · refine .inr ⟨hstate.trans hp.state, ?_, ?_, hretry ▸ hp.retry, ?_⟩
    · rw [hinternal hp.state, hrequest]
      exact hp.noAck
    · rw [hrequest, hretry]
      exact hp.first
    · rw [hhanded, hsent, hrequest, hretry]
      exact hp.sent

theorem silent_send (env : Env) (cause : SendCause) {s : TxSys} {done : List TxRequest}
    (hfirst : s.handle.request.ackExpected = false → s.handle.retryCnt = 0)
    (hretry : s.handle.retryCnt ≤ maxNumOfTransferRetries)
    (hhanded : handedOf (.sent cause s.handle.request :: s.trace) = done ++ [s.handle.request])
    (hsent : sentOf s.trace = done.flatMap copies ++
      List.replicate s.handle.retryCnt s.handle.request) :
    Silent (enterSeqTransmitPacket env cause s) := by
  refine ⟨by rw [enterSeq_handle], .inr ?_⟩
  have htrace := sent_trace env cause s
  have hhandle := enterSeq_handle env cause s
  generalize enterSeqTransmitPacket env cause s = s' at htrace hhandle
  refine ⟨by rw [hhandle], ?_, ?_, ?_, done, ?_, ?_⟩
  · rw [hhandle]
    cases s.handle.request.ackExpected <;> simp
  · rw [hhandle]
    exact hfirst
  · rw [hhandle]
    exact hretry
  · rw [htrace, hhandle]
    exact hhanded
  · rw [htrace, sentOf, hsent, hhandle, List.append_assoc, List.replicate_succ']

theorem silent_finish {s : TxSys}
    (h : sentOf s.trace = (handedOf s.trace).flatMap copies) : Silent (finish s) :=
  ⟨rfl, .inl ⟨TxState.noConfusion, rfl, h⟩⟩

theorem Retrying.spent {s : TxSys} (h : Retrying s)
    (hdone : s.handle.retryCnt + 1 = if s.handle.request.ackExpected then
      maxNumOfTransferRetries + 1 else 1) :
    sentOf s.trace = (handedOf s.trace).flatMap copies := by
  obtain ⟨done, hhanded, hsent⟩ := h.sent
  rw [hhanded, hsent, List.flatMap_append, List.flatMap_singleton, hdone, copies]

theorem counted {n : Nat} (h : n ≤ maxNumOfTransferRetries) : (n + 1) % 256 = n + 1 :=
  Nat.mod_eq_of_lt (Nat.lt_of_le_of_lt (Nat.succ_le_succ h) (by decide))

theorem silent_run (env : Env) {s : TxSys} (h : Silent s) : Silent (hostCommTxFsmRun env s) := by
  cases moves_run env s with
  | poll state next pending =>
      rw [next]
      exact h.same h.external rfl rfl rfl (fun hs => absurd hs state) rfl rfl
  | first state pending next =>
      rcases h.phase with hp | hp
      · rw [next]
        refine silent_send env .first (fun _ => hp.retry) ?_ rfl ?_
        · exact Nat.le_trans (Nat.le_of_eq hp.retry) (Nat.zero_le _)
        · have hcnt : (exitActionPollPendingTransfers s).handle.retryCnt = 0 := hp.retry
          rw [hcnt, List.replicate_zero, List.append_nil]
          exact hp.sent
      · rw [hp.state] at state
        cases state
  | wait state quiet external internal next =>
      rw [next]
      exact h
  | done state ack next =>
      rcases h.phase with hp | hp
      · exact absurd state hp.state
      · have hnone : s.handle.internal = .noAckExpected := by
          rcases ack with hack | hnone
          · rw [h.external] at hack
            cases hack
          · exact hnone
        have hno := hp.noAck.mp hnone
        rw [next]
        refine silent_finish (hp.spent ?_)
        rw [hp.first hno, hno]
        rfl
  | nack state internal raised next =>
      rw [h.external] at raised
      cases raised
  | retry state internal raised left next =>
      rcases h.phase with hp | hp
      · exact absurd state hp.state
      · obtain ⟨done, hhanded, hsent⟩ := hp.sent
        have hcnt : (timedOut s).handle.retryCnt = s.handle.retryCnt + 1 := counted hp.retry
        have hack : (timedOut s).handle.request.ackExpected = false →
            (timedOut s).handle.retryCnt = 0 := fun hno => absurd (hp.noAck.mpr hno) internal
        rw [next]
        refine silent_send env .timeout hack ?_ hhanded ?_
        · rw [hcnt]
          exact left
        · rw [hcnt]
          exact hsent
  | giveUp state internal raised spent next =>
      rcases h.phase with hp | hp
      · exact absurd state hp.state
      · have hack : s.handle.request.ackExpected = true :=
          Bool.eq_true_of_not_eq_false fun hno => internal (hp.noAck.mpr hno)
        have hcnt : s.handle.retryCnt = maxNumOfTransferRetries := Nat.le_antisymm hp.retry spent
        rw [next]
        refine silent_finish (s := timedOut s) (hp.spent ?_)
        rw [hack, hcnt, if_pos rfl]

def Unanswered (events : List TxEvent) : Prop := ∀ event, TxEvent.external event ∉ events

theorem silent_step (env : Env) {s : TxSys} {e : TxEvent} (h : Silent s)
    (he : ∀ event, e ≠ .external event) : Silent (txStep env s e) := by
  cases e with
  | run => exact silent_run env h
  | request r =>
      exact h.same h.external rfl rfl rfl (fun _ => rfl) (writeRequest_keeps sentOf rfl)
        (writeRequest_keeps handedOf rfl)
  | tick => exact h.same h.external rfl rfl rfl (fun _ => rfl) rfl rfl
  | external event => exact absurd rfl (he event)
  | txComplete =>
      obtain ⟨uart, hnext⟩ := txComplete_uart env s
      rw [hnext]
      exact h.same h.external rfl rfl rfl (fun _ => rfl) rfl rfl

theorem silent_reachable (env : Env) {s : TxSys} (h : Silent s) {events : List TxEvent}
    (he : Unanswered events) : Silent (run (txStep env) s events) :=
  run_preserves_mem (I := Silent)
    (fun _ _ hmem hs => silent_step env hs fun event heq => he event (heq ▸ hmem)) h

theorem Silent.sent_prefix {s : TxSys} (h : Silent s) :
    sentOf s.trace <+: (handedOf s.trace).flatMap copies := by
  rcases h.phase with hp | hp
  · exact hp.sent ▸ List.prefix_rfl
  · obtain ⟨done, hhanded, hsent⟩ := hp.sent
    rw [hhanded, hsent, List.flatMap_append, List.flatMap_singleton]
    refine (List.prefix_append_right_inj _).mpr ?_
    have hle : s.handle.retryCnt + 1 ≤
        if s.handle.request.ackExpected then maxNumOfTransferRetries + 1 else 1 := by
      cases hack : s.handle.request.ackExpected with
      | true => exact Nat.succ_le_succ hp.retry
      | false => exact Nat.le_of_eq (congrArg Nat.succ (hp.first hack))
    obtain ⟨left, hleft⟩ := Nat.exists_eq_add_of_le hle
    rw [copies, hleft]
    exact ⟨_, List.replicate_append_replicate⟩

theorem cons_copies (r : TxRequest) : ∃ more, copies r = r :: more := by
  rw [copies]
  split_ifs
  · exact ⟨_, rfl⟩
  · exact ⟨_, rfl⟩

theorem prefix_copies {done handed : List TxRequest} {r : TxRequest} (h : done ++ [r] <+: handed) :
    done.flatMap copies ++ [r] <+: handed.flatMap copies := by
  obtain ⟨rest, rfl⟩ := h
  obtain ⟨more, hmore⟩ := cons_copies r
  refine ⟨more ++ rest.flatMap copies, ?_⟩
  rw [List.flatMap_append, List.flatMap_append, List.flatMap_singleton, hmore, List.append_assoc,
    List.append_assoc, List.singleton_append, List.cons_append]

theorem Silent.prefix_sent {s : TxSys} (h : Silent s) {done : List TxRequest} {r : TxRequest}
    (hhanded : done ++ [r] <+: handedOf s.trace) :
    done.flatMap copies ++ [r] <+: sentOf s.trace := by
  rcases h.phase with hp | hp
  · rw [hp.sent]
    exact prefix_copies hhanded
  · obtain ⟨before, hlast, hsent⟩ := hp.sent
    rw [hlast] at hhanded
    rw [hsent]
    rcases List.prefix_concat_iff.mp hhanded with heq | hearlier
    · obtain ⟨rfl, hr⟩ := List.append_inj' heq rfl
      rw [(List.cons.inj hr).1, List.replicate_succ]
      exact (List.prefix_append_right_inj _).mpr ⟨_, rfl⟩
    · exact (prefix_copies hearlier).trans (List.prefix_append ..)

end HostComm.TxSilence
