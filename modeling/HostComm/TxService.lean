import HostComm.Rounds
import HostComm.TimerDiscipline
import HostComm.TxOrder
import HostComm.TxRetries

namespace HostComm.TxService

open Protocol TimeEvents UartDriver TxQueue TxSend TxFsm TxDiscipline TxMoves TxOrder TxRetries
open TimerDiscipline Runs Rounds

def txCall : TxEvent → Bool
  | .run => true
  | _ => false

/-- Three times the acknowledge timeout and its call, and two more calls. -/
abbrev requestRounds : Nat := (maxNumOfTransferRetries + 1) * (maxAckTimeoutMs + 1) + 2

/-- The rounds up to the next request, `t` ticks after the last transmission. -/
def phase (h : HostCommTxFsm) (t : Nat) : Nat :=
  if h.state = .transmitPacket then
    if h.request.ackExpected then
      maxAckTimeoutMs - t + (maxNumOfTransferRetries - h.retryCnt) * (maxAckTimeoutMs + 1) + 2
    else 2
  else if h.internal = .pendingPacket then 0 else 1

abbrev Clocked : Type := TxSys × Nat

abbrev clockedStep (env : Env) : Clocked → TxEvent → Clocked := timed (txStep env) TxStarted txTick

section request

-- a request by its position among the accepted ones
variable (k : Nat)

structure Kept (x : Clocked) : Prop where
  timer : TxTimer x.1.handle x.2
  discipline : ∃ eps L, Disciplined x.1 eps L
  order : ∃ L, Ordered x.1 L
  accepted : k < (acceptedOf x.1.trace).length

def Waiting (x : Clocked) : Prop := (handedOf x.1.trace).length ≤ k

def Allowed (s : TxSys) (e : TxEvent) : Prop := (∀ r, e = .request r → Fits r) ∧ ¬ NackFound s e

def rank (x : Clocked) : Nat :=
  (k - (handedOf x.1.trace).length) * requestRounds + phase x.1.handle x.2

def Due (x : Clocked) : Prop := ¬ AwaitsAck x.1.handle ∨ maxAckTimeoutMs < x.2

variable {k}

theorem kept_step (env : Env) {x : Clocked} {e : TxEvent} (h : Kept k x) (he : Allowed x.1 e) :
    Kept k (clockedStep env x e) where
  timer := txTimer_step env x e h.timer
  discipline := disciplined_step env x.1 e h.discipline he.1
  order := ordered_step env x.1 e h.order he.1
  accepted := Nat.lt_of_lt_of_le h.accepted (accepted_step env x.1 e).length_le

inductive Passes (x x' : Clocked) (e : TxEvent) : Prop
  | lower (less : rank k x' < rank k x) (call : txTick e = false)
  | still (phases : ∀ t, phase x'.1.handle t = phase x.1.handle t)
      (handed : handedOf x'.1.trace = handedOf x.1.trace)
      (awaits : AwaitsAck x'.1.handle ↔ AwaitsAck x.1.handle)
      (clock : x'.2 = if txTick e then x.2 + 1 else x.2) (quiet : txCall e = true → ¬ Due x)

theorem phase_idle {h : HostCommTxFsm} (hs : h.state = .pollPendingTransfer)
    (hi : h.internal = .invalid) (t : Nat) : phase h t = 1 := by
  simp [phase, hs, hi]

theorem two_le_phase {h : HostCommTxFsm} (hs : h.state = .transmitPacket) (t : Nat) :
    2 ≤ phase h t := by
  rw [phase, if_pos hs]
  split_ifs
  · exact Nat.le_add_left 2 _
  · exact Nat.le_refl 2

theorem clock_send (env : Env) (cause : SendCause) {s s₁ : TxSys} {t : Nat}
    (hrun : hostCommTxFsmRun env s = enterSeqTransmitPacket env cause s₁)
    (hsent : sentOf s₁.trace = sentOf s.trace) :
    clockedStep env (s, t) .run = (enterSeqTransmitPacket env cause s₁, 0) := by
  have hstarted : TxStarted s (hostCommTxFsmRun env s) := by
    rw [hrun]
    exact started_send env cause s₁ s.trace hsent
  have hclock : clockedStep env (s, t) .run =
      (hostCommTxFsmRun env s, if TxStarted s (hostCommTxFsmRun env s) then 0 else t) := rfl
  rw [hclock, if_pos hstarted, hrun]

theorem clock_other (env : Env) {s : TxSys} {t : Nat}
    (hsent : sentOf (hostCommTxFsmRun env s).trace = sentOf s.trace) :
    clockedStep env (s, t) .run = (hostCommTxFsmRun env s, t) := by
  have hclock : clockedStep env (s, t) .run =
      (hostCommTxFsmRun env s, if TxStarted s (hostCommTxFsmRun env s) then 0 else t) := rfl
  rw [hclock, if_neg (not_started hsent)]

theorem run_pending (env : Env) {s : TxSys} (hs : s.handle.state = .pollPendingTransfer)
    (hpend : s.handle.internal = .pendingPacket) :
    hostCommTxFsmRun env s =
      enterSeqTransmitPacket env .first (exitActionPollPendingTransfers s) := by
  rw [hostCommTxFsmRun, hs]
  exact if_pos hpend

theorem run_found (env : Env) {s : TxSys} (hs : s.handle.state = .pollPendingTransfer)
    (hpend : s.handle.internal ≠ .pendingPacket) (hcnt : s.queue.packetCnt ≠ 0) :
    hostCommTxFsmRun env s = { s with handle := { s.handle with internal := .pendingPacket } } := by
  rw [hostCommTxFsmRun, hs]
  change pollPendingTransfersOnReact env s = _
  rw [pollPendingTransfersOnReact, if_neg hpend, duringActionPollPendingTransfers]
  exact if_pos hcnt

theorem passes_poll (env : Env) {s : TxSys} {t : Nat} (h : Kept k (s, t)) {L : List TxRequest}
    (hs : Polling s L) (hx : Waiting k (s, t))
    (hx' : Waiting k (clockedStep env (s, t) .run)) :
    Passes (k := k) (s, t) (clockedStep env (s, t) .run) .run := by
  by_cases hpend : s.handle.internal = .pendingPacket
  · have hrun := run_pending env hs.state hpend
    rw [clock_send env .first hrun rfl] at hx' ⊢
    have hhanded : handedOf (enterSeqTransmitPacket env .first
        (exitActionPollPendingTransfers s)).trace =
          handedOf s.trace ++ [(exitActionPollPendingTransfers s).handle.request] := rfl
    have hphase : phase (enterSeqTransmitPacket env .first
        (exitActionPollPendingTransfers s)).handle 0 < requestRounds := by
      have hretry : (exitActionPollPendingTransfers s).handle.retryCnt = 0 := hs.retry
      rw [enterSeq_handle, hretry]
      simp only [phase, if_true]
      split_ifs
      · decide
      · decide
    refine .lower ?_ rfl
    rw [Waiting, hhanded, List.length_append, List.length_singleton] at hx'
    rw [rank, rank, hhanded, List.length_append, List.length_singleton]
    have hsplit : k - (handedOf s.trace).length = (k - ((handedOf s.trace).length + 1)) + 1 := by
      omega
    rw [hsplit, Nat.add_mul, Nat.one_mul]
    dsimp only
    omega
  · obtain ⟨L', hL⟩ := h.order
    have hcnt : s.queue.packetCnt ≠ 0 := by
      have hlen := hL.handed_length
      have hacc := h.accepted
      rw [Waiting] at hx
      dsimp only at hlen hacc hx
      omega
    have hrun := run_found env hs.state hpend hcnt
    rw [clock_other env (by rw [hrun]), hrun]
    refine .lower ?_ rfl
    have hstate : s.handle.state ≠ .transmitPacket := by simp [hs.state]
    simp only [rank, phase, if_neg hstate, if_neg hpend, if_true]
    omega

theorem passes_transmit (env : Env) {s : TxSys} {t : Nat} (h : Kept k (s, t))
    {eps : List (TxRequest × Nat)} (hs : Sending s eps) (hnack : ¬ NackFound s .run) :
    Passes (k := k) (s, t) (clockedStep env (s, t) .run) .run := by
  have htwo := two_le_phase hs.state t
  have hlower {s' : TxSys} {t' : Nat} (hhanded : handedOf s'.trace = handedOf s.trace)
      (hless : phase s'.handle t' < phase s.handle t) :
      Passes (k := k) (s, t) (s', t') .run := by
    refine .lower ?_ rfl
    rw [rank, rank, hhanded]
    exact Nat.add_lt_add_left hless _
  cases moves_run env s with
  | poll state next pending => exact absurd hs.state state
  | first state pending next =>
      rw [hs.state] at state
      cases state
  | wait state quiet external internal next =>
      have hawaits : AwaitsAck s.handle := ⟨state, hs.expects_ack internal⟩
      rw [clock_other env (by rw [next]), next]
      refine .still (fun _ => rfl) rfl Iff.rfl rfl ?_
      rintro - (hno | hexpired)
      · exact hno hawaits
      · rw [h.timer, if_pos hawaits] at quiet
        exact absurd hexpired (of_decide_eq_false quiet)
  | done state ack next =>
      rw [clock_other env (by rw [next]; rfl), next]
      exact hlower rfl (Nat.lt_of_lt_of_le (by rw [phase_idle rfl rfl]; exact Nat.one_lt_two) htwo)
  | nack state internal raised next => exact absurd ⟨state, internal, raised⟩ hnack
  | retry state internal raised left next =>
      have hack := hs.expects_ack internal
      have hcnt : (timedOut s).handle.retryCnt = s.handle.retryCnt + 1 :=
        Nat.mod_eq_of_lt (Nat.lt_of_le_of_lt (Nat.succ_le_of_lt left) (by decide))
      have hreq : (timedOut s).handle.request = s.handle.request := rfl
      rw [clock_send env .timeout next rfl]
      refine hlower rfl ?_
      rw [enterSeq_handle, hreq, hcnt, phase, phase, if_pos rfl, if_pos hs.state]
      dsimp only
      rw [if_pos hack, if_pos hack]
      have hleft : maxNumOfTransferRetries - s.handle.retryCnt =
          (maxNumOfTransferRetries - (s.handle.retryCnt + 1)) + 1 := by omega
      rw [hleft, Nat.add_mul, Nat.one_mul]
      omega
  | giveUp state internal raised spent next =>
      rw [clock_other env (by rw [next]; rfl), next]
      exact hlower rfl (Nat.lt_of_lt_of_le (by rw [phase_idle rfl rfl]; exact Nat.one_lt_two) htwo)

theorem passes_other (env : Env) {s : TxSys} {t : Nat} {e : TxEvent}
    (hcall : txCall e = false) (hsent : sentOf (txStep env s e).trace = sentOf s.trace)
    (hhanded : handedOf (txStep env s e).trace = handedOf s.trace)
    (hhandle : ∃ ackTimeout external,
      (txStep env s e).handle = { s.handle with ackTimeout, external }) :
    Passes (k := k) (s, t) (clockedStep env (s, t) e) e := by
  obtain ⟨ackTimeout, external, hhandle⟩ := hhandle
  have hclock : clockedStep env (s, t) e = (txStep env s e,
      if TxStarted s (txStep env s e) then 0 else if txTick e then t + 1 else t) := rfl
  rw [hclock, if_neg (not_started hsent)]
  refine .still (fun _ => ?_) hhanded ?_ rfl fun hno => ?_
  · rw [hhandle]
    rfl
  · rw [hhandle]
    exact Iff.rfl
  · rw [hcall] at hno
    cases hno

theorem passes_step (env : Env) {x : Clocked} {e : TxEvent} (h : Kept k x) (he : Allowed x.1 e)
    (hx : Waiting k x) (hx' : Waiting k (clockedStep env x e)) :
    Passes (k := k) x (clockedStep env x e) e := by
  obtain ⟨s, t⟩ := x
  cases e with
  | run =>
      obtain ⟨eps, L, hd⟩ := h.discipline
      rcases hd.phase with hp | hs
      · exact passes_poll env h hp hx hx'
      · exact passes_transmit env h hs he.2
  | request r =>
      exact passes_other env rfl (writeRequest_keeps sentOf rfl) (writeRequest_keeps handedOf rfl)
        ⟨_, _, rfl⟩
  | tick => exact passes_other env rfl rfl rfl ⟨_, _, rfl⟩
  | external event => exact passes_other env rfl rfl rfl ⟨_, _, rfl⟩
  | txComplete =>
      obtain ⟨uart, hnext⟩ := txComplete_uart env s
      exact passes_other env rfl (by rw [hnext]) (by rw [hnext]) ⟨_, _, by rw [hnext]⟩

theorem phase_mono (h : HostCommTxFsm) (t : Nat) : phase h (t + 1) ≤ phase h t := by
  rw [phase, phase]
  split_ifs
  · omega
  · exact Nat.le_refl _
  · exact Nat.le_refl _
  · exact Nat.le_refl _

theorem phase_awaits {h : HostCommTxFsm} (ha : AwaitsAck h) {t : Nat} (ht : t < maxAckTimeoutMs) :
    phase h (t + 1) < phase h t := by
  rw [phase, phase, if_pos ha.1, if_pos ha.1, if_pos ha.2, if_pos ha.2]
  omega

theorem Passes.rank_le {x x' : Clocked} {e : TxEvent} (h : Passes (k := k) x x' e) :
    rank k x' ≤ rank k x := by
  cases h with
  | lower less call => exact Nat.le_of_lt less
  | still phases handed awaits clock quiet =>
      rw [rank, rank, handed, phases, clock]
      refine Nat.add_le_add_left ?_ _
      split_ifs
      · exact phase_mono _ _
      · exact Nat.le_refl _

theorem Passes.tick_lt {x x' : Clocked} {e : TxEvent} (h : Passes (k := k) x x' e)
    (he : txTick e = true) : rank k x' < rank k x ∨ Due x' := by
  cases h with
  | lower less call => exact .inl less
  | still phases handed awaits clock quiet =>
      rw [if_pos he] at clock
      by_cases hlater : Due x'
      · exact .inr hlater
      · rw [Due, not_or, not_not, awaits, clock, Nat.not_lt] at hlater
        refine .inl ?_
        rw [rank, rank, handed, phases, clock]
        exact Nat.add_lt_add_left (phase_awaits hlater.1 hlater.2) _

theorem Passes.still_due {x x' : Clocked} {e : TxEvent} (h : Passes (k := k) x x' e) (hx : Due x) :
    rank k x' < rank k x ∨ Due x' ∧ txCall e = false := by
  cases h with
  | lower less call => exact .inl less
  | still phases handed awaits clock quiet =>
      refine .inr ⟨?_, Bool.eq_false_of_not_eq_true fun hcall => quiet hcall hx⟩
      rw [Due, awaits, clock]
      rcases hx with hno | hexpired
      · exact .inl hno
      · refine .inr (Nat.lt_of_lt_of_le hexpired ?_)
        split_ifs
        · exact Nat.le_succ _
        · exact Nat.le_refl _

variable (k) in
def requestRanking (env : Env) :
    Ranking (clockedStep env) txTick txCall (Kept k) (Waiting k) fun x e => Allowed x.1 e where
  rank := rank k
  due := Due
  keep _ _ h he := kept_step env h he
  falls _ _ h he hx hx' := (passes_step env h he hx hx').rank_le
  ticks _ _ h he hx hx' htick := (passes_step env h he hx hx').tick_lt htick
  waits _ _ h he hx hx' hdue _ := ((passes_step env h he hx hx').still_due hdue).imp_right And.left
  calls _ _ h he hx hx' hdue hcall := by
    rcases (passes_step env h he hx hx').still_due hdue with hless | ⟨-, hno⟩
    · exact hless
    · rw [hcall] at hno
      cases hno

theorem phase_lt (x : Clocked) : phase x.1.handle x.2 < requestRounds := by
  rw [phase]
  split_ifs
  · have hle : maxNumOfTransferRetries - x.1.handle.retryCnt ≤ maxNumOfTransferRetries := Nat.sub_le _ _
    have hmul := Nat.mul_le_mul_right (maxAckTimeoutMs + 1) hle
    simp only [requestRounds, maxNumOfTransferRetries, maxAckTimeoutMs] at hmul ⊢
    omega
  · decide
  · decide
  · decide

end request

theorem trace_run (env : Env) (s : TxSys) : s.trace <:+ (hostCommTxFsmRun env s).trace := by
  have hkeep (h : (hostCommTxFsmRun env s).trace = s.trace) :
      s.trace <:+ (hostCommTxFsmRun env s).trace := h ▸ List.suffix_rfl
  have hone (o : TxObs) : s.trace <:+ o :: s.trace := List.suffix_cons o s.trace
  cases moves_run env s with
  | poll state next pending => exact hkeep (by rw [next])
  | first state pending next =>
      rw [next, sent_trace]
      exact (hone _).trans (List.suffix_cons _ _)
  | wait state quiet external internal next => exact hkeep (by rw [next])
  | done state ack next =>
      rw [next]
      exact hone .done
  | nack state internal raised next =>
      rw [next, sent_trace]
      exact hone _
  | retry state internal raised left next =>
      rw [next, sent_trace]
      exact (hone .ackTimeout).trans (List.suffix_cons _ _)
  | giveUp state internal raised spent next =>
      rw [next]
      exact (hone .ackTimeout).trans (List.suffix_cons _ _)

theorem trace_step (env : Env) (s : TxSys) (e : TxEvent) : s.trace <:+ (txStep env s e).trace := by
  cases e with
  | run => exact trace_run env s
  | request r =>
      rw [txStep, writeRequest]
      dsimp only
      split_ifs
      · exact List.suffix_cons _ _
      · exact List.suffix_rfl
  | tick => exact List.suffix_rfl
  | external event => exact List.suffix_cons _ _
  | txComplete =>
      obtain ⟨uart, hnext⟩ := txComplete_uart env s
      exact hnext ▸ List.suffix_rfl

theorem trace_mono (env : Env) (s : TxSys) (events : List TxEvent) :
    s.trace <:+ (run (txStep env) s events).trace :=
  run_preserves (I := fun s' : TxSys => s.trace <:+ s'.trace)
    (fun s' e h => h.trans (trace_step env s' e)) List.suffix_rfl events

theorem handedOf_append (t u : List TxObs) : handedOf (t ++ u) = handedOf u ++ handedOf t := by
  induction t with
  | nil => exact (List.append_nil _).symm
  | cons o t ih =>
      cases o with
      | sent cause r =>
          cases cause with
          | first => rw [List.cons_append, handedOf, handedOf, ih, List.append_assoc]
          | _ => exact ih
      | _ => exact ih

theorem handed_mono (env : Env) (s : TxSys) (events : List TxEvent) :
    handedOf s.trace <+: handedOf (run (txStep env) s events).trace := by
  obtain ⟨new, hnew⟩ := trace_mono env s events
  rw [← hnew, handedOf_append]
  exact List.prefix_append ..

theorem kept_init (env : Env) (h : HostCommTxFsm) (uart : Uart) {events : List TxEvent}
    (hfit : ∀ r, TxEvent.request r ∈ events → Fits r) {k : Nat}
    (hk : k < (acceptedOf (run (txStep env) (hostCommTxFsmInit h uart) events).trace).length) :
    Kept k (run (clockedStep env) (hostCommTxFsmInit h uart, 0) events) := by
  have hsame : (run (clockedStep env) (hostCommTxFsmInit h uart, 0) events).1 =
      run (txStep env) (hostCommTxFsmInit h uart) events := run_timed ..
  refine ⟨txTimer_reachable env h uart events, ?_, ?_, ?_⟩
  · rw [hsame]
    exact disciplined_reachable env ⟨[], [], disciplined_init h uart⟩ events hfit
  · rw [hsame]
    exact ordered_reachable env ⟨[], ordered_init h uart⟩ events hfit
  · rw [hsame]
    exact hk

theorem along_allowed {env : Env} {s : TxSys} {events : List TxEvent}
    (hfit : ∀ r, TxEvent.request r ∈ events → Fits r)
    (hnack : Along (fun s e => ¬ NackFound s e) (txStep env) s events) :
    Along Allowed (txStep env) s events := by
  induction events generalizing s with
  | nil => trivial
  | cons e events ih =>
      refine ⟨⟨?_, hnack.1⟩, ih (fun r hr => hfit r (List.mem_cons_of_mem e hr)) hnack.2⟩
      rintro r rfl
      exact hfit r List.mem_cons_self

theorem handed_of_rounds (env : Env) {k : Nat} {x : Clocked} (h : Kept k x) {events : List TxEvent}
    (hallowed : Along Allowed (txStep env) x.1 events)
    (hrounds : (k + 1 - (handedOf x.1.trace).length) * requestRounds ≤
      rounds txTick txCall false events) :
    k < (handedOf (run (txStep env) x.1 events).trace).length := by
  by_cases hw : Waiting k x
  · have hrank : rank k x < rounds txTick txCall false events := by
      refine Nat.lt_of_lt_of_le ?_ hrounds
      have hphase := phase_lt x
      have hsplit : k + 1 - (handedOf x.1.trace).length = (k - (handedOf x.1.trace).length) + 1 :=
        Nat.succ_sub hw
      rw [rank, hsplit, Nat.add_mul, Nat.one_mul]
      omega
    obtain ⟨first, e, rest, rfl, -, hout⟩ :=
      (requestRanking k env).leaves h hw (along_timed hallowed) hrank
    have hsame : (run (clockedStep env) x first).1 = run (txStep env) x.1 first := run_timed ..
    have hlt : k < (handedOf (txStep env (run (clockedStep env) x first).1 e).trace).length :=
      Nat.lt_of_not_le hout
    rw [hsame] at hlt
    rw [run_append, run_cons]
    exact Nat.lt_of_lt_of_le hlt (handed_mono env _ rest).length_le
  · exact Nat.lt_of_lt_of_le (Nat.lt_of_not_le hw) (handed_mono env x.1 events).length_le

theorem handed_get {s : TxSys} {L : List TxRequest} (h : Ordered s L) {k : Nat}
    (hk : k < (handedOf s.trace).length) :
    ∃ a r, (acceptedOf s.trace)[k]? = some a ∧ (handedOf s.trace)[k]? = some r ∧
      SameRequest a r := by
  obtain ⟨M, hM, hsame⟩ := h.order
  have hkM : k < M.length := hsame.length_eq ▸ hk
  refine ⟨M[k], (handedOf s.trace)[k], ?_, List.getElem?_eq_getElem hk, hsame.get hkM hk⟩
  rw [hM, List.getElem?_append_left hkM, List.getElem?_eq_getElem hkM]

theorem Kept.served (env : Env) {k : Nat} {x : Clocked} (h : Kept k x) {events : List TxEvent}
    (hfit : ∀ r, TxEvent.request r ∈ events → Fits r)
    (hnack : Along (fun s e => ¬ NackFound s e) (txStep env) x.1 events)
    (hrounds : (k + 1 - (handedOf x.1.trace).length) * requestRounds ≤
      rounds txTick txCall false events) :
    ∃ a r, (acceptedOf x.1.trace)[k]? = some a ∧
      (handedOf (run (txStep env) x.1 events).trace)[k]? = some r ∧ SameRequest a r := by
  have hhanded := handed_of_rounds env h (along_allowed hfit hnack) hrounds
  obtain ⟨L, hL⟩ := ordered_reachable env h.order events hfit
  obtain ⟨a, r, ha, hr, hsame⟩ := handed_get hL hhanded
  refine ⟨a, r, ?_, hr, hsame⟩
  obtain ⟨later, hlater⟩ := accepted_mono env x.1 events
  rwa [← hlater, List.getElem?_append_left h.accepted] at ha

end HostComm.TxService
