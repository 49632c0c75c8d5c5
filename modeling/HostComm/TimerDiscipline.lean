import HostComm.RxMoves
import HostComm.TxDiscipline
import HostComm.TxMoves

namespace HostComm.TimerDiscipline

open Protocol TimeEvents UartDriver TxQueue TxSend TxFsm TxDiscipline RxFsm RxStream RxParser RxMoves
open Runs

/-- A timer that is on exactly when `on` holds, `t` ticks after its start with `timeMs`. -/
structure Ticked (timer : TimeEvent) (on : Prop) (timeMs t : Nat) : Prop where
  active : timer.active = true ↔ on
  stopped : timer.active = false → timer.raised = false ∧ timer.millisCnt = 0
  running : timer.active = true → timer.millisCnt = timeMs - t ∧ (timer.raised = true ↔ timeMs < t)

theorem ticked_of_eq {timer : TimeEvent} {on : Prop} [Decidable on] {timeMs t : Nat}
    (h : timer = if on then elapsed timeMs t else timeEventStop) : Ticked timer on timeMs t := by
  by_cases hon : on
  · rw [if_pos hon] at h
    subst h
    refine ⟨iff_of_true rfl hon, fun hoff => ?_, fun _ => ⟨rfl, decide_eq_true_iff⟩⟩
    cases hoff
  · rw [if_neg hon] at h
    subst h
    refine ⟨iff_of_false Bool.false_ne_true hon, fun _ => ⟨rfl, rfl⟩, fun hactive => ?_⟩
    cases hactive

section receiver

theorem timer_setTimer (h : HostCommRxFsm) (v : RxState) (t : TimeEvent) {w : RxState} (hw : Waits w) :
    timer (setTimer h v t) w = if v = w then t else timer h w := by
  rcases hw with rfl | rfl | rfl
  all_goals cases v <;> rfl

theorem timer_setNextState (h : HostCommRxFsm) (next w : RxState) :
    timer (hostCommRxFsmSetNextState h next) w = timer h w := by
  cases w <;> rfl

theorem timer_goto (h : HostCommRxFsm) (next : RxState) {w : RxState} (hw : Waits w) :
    timer (goto h next) w =
      if next = w then timeEventStart (timeoutMs h next)
      else if h.state = w then timeEventStop else timer h w := by
  rw [goto, timer_setTimer _ _ _ hw, timer_setNextState, timer_setTimer _ _ _ hw]

theorem timeoutMs_goto (h : HostCommRxFsm) (next w : RxState) :
    timeoutMs (goto h next) w = timeoutMs h w := by
  cases w
  case payloadProc => simp [timeoutMs]
  all_goals rfl

theorem edge_ne {before after : RxState} {type : Option UInt8} (h : Edge before type after) :
    after ≠ before := by
  cases h <;> decide

def RxStarted (s s' : RxSys) : Prop := s'.handle.state ≠ s.handle.state

instance (s s' : RxSys) : Decidable (RxStarted s s') := inferInstanceAs (Decidable (¬ _))

def rxTick : RxEvent → Bool
  | .tick => true
  | _ => false

/-- Every timer is off outside its state and `t` ticks old in it. -/
def RxTimers (h : HostCommRxFsm) (t : Nat) : Prop :=
  ∀ w, Waits w → timer h w = if h.state = w then elapsed (timeoutMs h w) t else timeEventStop

theorem rxTimers_stay {h h' : HostCommRxFsm} {t : Nat} (hinv : RxTimers h t)
    (hstate : h'.state = h.state) (htimer : ∀ w, timer h' w = timer h w)
    (hheader : h.state ≠ .headerProc → h'.packet.header = h.packet.header) : RxTimers h' t := by
  intro w hw
  rw [htimer, hinv w hw, hstate]
  split_ifs with heq
  · congr 1
    rcases hw with rfl | rfl | rfl
    · rfl
    · simp only [timeoutMs, hheader (by simp [heq])]
    · rfl
  · rfl

theorem rxTimers_goto {h : HostCommRxFsm} {t : Nat} (hinv : RxTimers h t) (next : RxState) :
    RxTimers (goto h next) 0 := by
  intro w hw
  rw [timer_goto h next hw, state_goto, timeoutMs_goto]
  split_ifs with hnext hstate
  · rw [hnext, start_eq]
  · rfl
  · rw [hinv w hw, if_neg hstate]

theorem rxTimers_update {h h' : HostCommRxFsm} {t : Nat} (hinv : RxTimers h t)
    (hstate : h'.state = h.state) (hpacket : h'.packet = h.packet)
    (htimer : ∀ w, Waits w → timer h' w = timeEventUpdate (timer h w)) : RxTimers h' (t + 1) := by
  intro w hw
  have hms : timeoutMs h' w = timeoutMs h w := by
    cases w
    case payloadProc => simp [timeoutMs, hpacket]
    all_goals rfl
  rw [htimer w hw, hinv w hw, hstate, hms]
  split_ifs
  · exact update_elapsed ..
  · rfl

theorem rxTimers_step (env : Env) (x : RxSys × Nat) (e : RxEvent) (hinv : RxTimers x.1.handle x.2) :
    RxTimers (timed (rxStep env) RxStarted rxTick x e).1.handle
      (timed (rxStep env) RxStarted rxTick x e).2 := by
  obtain ⟨s, t⟩ := x
  cases e with
  | run irqs =>
      simp only [timed, rxTick, Bool.false_eq_true, if_false, RxStarted, rxStep, runCall,
        handle_rxBytes]
      cases moves_run env { s with irqs } with
      | stay handle header quiet held answered =>
          rw [if_neg (by rw [handle]; simp)]
          refine rxTimers_stay hinv (by rw [handle]) (fun w => ?_) header
          rw [handle]
          cases w <;> rfl
      | leave type next edge handle released answered =>
          rw [if_pos (by rw [handle, state_goto]; exact edge_ne edge), handle]
          exact rxTimers_goto hinv next
  | rxByte byte => simpa [timed, rxTick, RxStarted, rxStep, rxByte] using hinv
  | external event =>
      have hstay : RxTimers { s.handle with external := event } t :=
        rxTimers_stay hinv rfl (fun w => by cases w <;> rfl) fun _ => rfl
      simpa [timed, rxTick, RxStarted, rxStep, hostCommRxFsmSetExtEvent] using hstay
  | tick =>
      simp only [timed, rxTick, RxStarted, rxStep, hostCommRxFsmTimeEventUpdate, ne_eq,
        not_true_eq_false, if_false, if_true]
      refine rxTimers_update (h := s.handle) hinv rfl rfl ?_
      intro w hw
      rcases hw with rfl | rfl | rfl
      all_goals rfl

theorem raised_iff {h : HostCommRxFsm} (hw : Waits h.state) :
    Raised h ↔ timeEventIsRaised (timer h h.state) = true := by
  rw [Raised]
  rcases hw with hs | hs | hs
  all_goals simp only [hs, timer]

theorem rx_expired (env : Env) {s : RxSys} {t : Nat} (hinv : RxTimers s.handle t)
    (hw : Waits s.handle.state) (ht : timeoutMs s.handle s.handle.state < t)
    (irqs : List (List UInt8)) : (runCall env s irqs).handle.state ≠ s.handle.state := by
  rw [runCall, handle_rxBytes]
  cases moves_run env { s with irqs } with
  | stay handle header quiet held answered =>
      refine absurd ((raised_iff hw).mpr ?_) quiet
      rw [hinv _ hw, if_pos rfl]
      exact decide_eq_true ht
  | leave type next edge handle released answered =>
      rw [handle, state_goto]
      exact edge_ne edge

theorem rxTimers_init (h : HostCommRxFsm) (queue : HostCommTxQueue) (t : Nat) :
    RxTimers (hostCommRxFsmInit (.start h queue)).handle t := by
  intro w hw
  rcases hw with rfl | rfl | rfl
  all_goals rfl

theorem rxTimers_run (env : Env) (h : HostCommRxFsm) (queue : HostCommTxQueue)
    (events : List RxEvent) :
    let x := run (timed (rxStep env) RxStarted rxTick) (hostCommRxFsmInit (.start h queue), 0) events
    RxTimers x.1.handle x.2 :=
  run_preserves (I := fun x : RxSys × Nat => RxTimers x.1.handle x.2) (rxTimers_step env)
    (rxTimers_init h queue 0) events

end receiver

section transmitter

def TxStarted (s s' : TxSys) : Prop := (sentOf s.trace).length < (sentOf s'.trace).length

instance (s s' : TxSys) : Decidable (TxStarted s s') := inferInstanceAs (Decidable (_ < _))

def txTick : TxEvent → Bool
  | .tick => true
  | _ => false

def AwaitsAck (h : HostCommTxFsm) : Prop :=
  h.state = .transmitPacket ∧ h.request.ackExpected = true

instance (h : HostCommTxFsm) : Decidable (AwaitsAck h) := inferInstanceAs (Decidable (_ ∧ _))

def TxTimer (h : HostCommTxFsm) (t : Nat) : Prop :=
  h.ackTimeout = if AwaitsAck h then elapsed maxAckTimeoutMs t else timeEventStop

theorem txTimer_send (env : Env) (cause : SendCause) (s : TxSys) :
    TxTimer (enterSeqTransmitPacket env cause s).handle 0 := by
  rw [TxTimer, enterSeq_handle]
  simp only [AwaitsAck, true_and, start_eq]

theorem started_send (env : Env) (cause : SendCause) (s : TxSys) (t : List TxObs)
    (h : sentOf s.trace = sentOf t) :
    (sentOf t).length < (sentOf (enterSeqTransmitPacket env cause s).trace).length := by
  rw [sent_trace, sentOf, h, List.length_append]
  exact Nat.lt_succ_self _

theorem txTimer_finish (s : TxSys) (t : Nat) : TxTimer (finish s).handle t := rfl

theorem not_started {s s' : TxSys} (h : sentOf s'.trace = sentOf s.trace) : ¬ TxStarted s s' := by
  rw [TxStarted, h]
  exact Nat.lt_irrefl _

theorem txTimer_run (env : Env) {s : TxSys} {t : Nat} (hinv : TxTimer s.handle t) :
    TxTimer (hostCommTxFsmRun env s).handle
      (if TxStarted s (hostCommTxFsmRun env s) then 0 else t) := by
  have hsend (cause : SendCause) {s₁ : TxSys} (h : sentOf s₁.trace = sentOf s.trace) :
      TxTimer (enterSeqTransmitPacket env cause s₁).handle
        (if TxStarted s (enterSeqTransmitPacket env cause s₁) then 0 else t) := by
    have hstarted : TxStarted s (enterSeqTransmitPacket env cause s₁) :=
      started_send env cause s₁ s.trace h
    rw [if_pos hstarted]
    exact txTimer_send env cause s₁
  cases TxMoves.moves_run env s with
  | poll state next pending =>
      have hnone (h : HostCommTxFsm) (hs : h.state = s.handle.state) : ¬ AwaitsAck h :=
        fun hack => state (hs.symm.trans hack.1)
      rw [if_neg (not_started (by rw [next])), TxTimer, if_neg (hnone _ (by rw [next])), next]
      exact hinv.trans (if_neg (hnone _ rfl))
  | first state pending next =>
      rw [next]
      exact hsend .first rfl
  | wait state quiet external internal next =>
      rw [next, if_neg (not_started rfl)]
      exact hinv
  | done state ack next =>
      rw [next]
      exact txTimer_finish _ _
  | nack state internal raised next =>
      rw [next]
      exact hsend .nack rfl
  | retry state internal raised left next =>
      rw [next]
      exact hsend .timeout rfl
  | giveUp state internal raised spent next =>
      rw [next]
      exact txTimer_finish _ _

theorem tx_expired (env : Env) {s : TxSys} {t : Nat} (hinv : TxTimer s.handle t)
    (hack : AwaitsAck s.handle) (ht : maxAckTimeoutMs < t) :
    (hostCommTxFsmRun env s).handle.state = .pollPendingTransfer ∨
      TxStarted s (hostCommTxFsmRun env s) := by
  cases TxMoves.moves_run env s with
  | poll state next pending => exact absurd hack.1 state
  | first state pending next =>
      rw [hack.1] at state
      cases state
  | wait state quiet external internal next =>
      rw [hinv, if_pos hack] at quiet
      exact absurd ht (of_decide_eq_false quiet)
  | done state ack next =>
      rw [next]
      exact .inl rfl
  | nack state internal raised next =>
      rw [next]
      exact .inr (started_send env .nack _ s.trace rfl)
  | retry state internal raised left next =>
      rw [next]
      exact .inr (started_send env .timeout _ s.trace rfl)
  | giveUp state internal raised spent next =>
      rw [next]
      exact .inl rfl

theorem txTimer_step (env : Env) (x : TxSys × Nat) (e : TxEvent) (hinv : TxTimer x.1.handle x.2) :
    TxTimer (timed (txStep env) TxStarted txTick x e).1.handle
      (timed (txStep env) TxStarted txTick x e).2 := by
  obtain ⟨s, t⟩ := x
  cases e with
  | run => exact txTimer_run env hinv
  | request req =>
      have hkeep : sentOf (writeRequest s req).trace = sentOf s.trace := writeRequest_keeps sentOf rfl
      simp only [timed, txTick, Bool.false_eq_true, if_false, txStep]
      rw [if_neg (not_started hkeep)]
      exact hinv
  | tick =>
      have hkeep : ¬ TxStarted s (hostCommTxFsmTimeEventUpdate s) := not_started rfl
      simp only [timed, txTick, if_true, txStep, if_neg hkeep]
      change timeEventUpdate s.handle.ackTimeout =
        if AwaitsAck s.handle then elapsed maxAckTimeoutMs (t + 1) else timeEventStop
      rw [hinv]
      by_cases hack : AwaitsAck s.handle
      · simp only [if_pos hack, update_elapsed]
      · simp only [if_neg hack, update_stop]
  | external event =>
      have hkeep : ¬ TxStarted s (hostCommTxFsmSetExtEvent s event) := not_started rfl
      simp only [timed, txTick, Bool.false_eq_true, if_false, txStep, if_neg hkeep]
      exact hinv
  | txComplete =>
      obtain ⟨uart, hnext⟩ := txComplete_uart env s
      have hkeep : ¬ TxStarted s { s with uart } := not_started rfl
      simp only [timed, txTick, Bool.false_eq_true, if_false, hnext, if_neg hkeep]
      exact hinv

theorem txTimer_init (h : HostCommTxFsm) (uart : Uart) :
    TxTimer (hostCommTxFsmInit h uart).handle 0 := rfl

theorem txTimer_reachable (env : Env) (h : HostCommTxFsm) (uart : Uart) (events : List TxEvent) :
    let x := run (timed (txStep env) TxStarted txTick) (hostCommTxFsmInit h uart, 0) events
    TxTimer x.1.handle x.2 :=
  run_preserves (I := fun x : TxSys × Nat => TxTimer x.1.handle x.2) (txTimer_step env)
    (txTimer_init h uart) events

end transmitter

/-- Timer discipline of both machines: each timer is on in its state only, is
as old as the ticks since its start, and ends the wait when it has run out. -/
theorem timer_discipline (env : Env) :
    (∀ (h : HostCommRxFsm) (queue : HostCommTxQueue) (events : List RxEvent),
      let x := run (timed (rxStep env) RxStarted rxTick) (hostCommRxFsmInit (.start h queue), 0) events
      let s := run (rxStep env) (hostCommRxFsmInit (.start h queue)) events
      let t := x.2
      x.1 = s ∧
      Ticked s.handle.headerTimeout (s.handle.state = .headerProc) 30 t ∧
      Ticked s.handle.payloadTimeout (s.handle.state = .payloadProc)
        s.handle.packet.header.payloadLen.toNat t ∧
      Ticked s.handle.crcAndPostambleTimeout (s.handle.state = .crcAndPostambleProc) 5 t ∧
      (Waits s.handle.state → timeoutMs s.handle s.handle.state < t →
        ∀ irqs, (runCall env s irqs).handle.state ≠ s.handle.state)) ∧
    ∀ (h : HostCommTxFsm) (uart : Uart) (events : List TxEvent),
      let x := run (timed (txStep env) TxStarted txTick) (hostCommTxFsmInit h uart, 0) events
      let s := run (txStep env) (hostCommTxFsmInit h uart) events
      let t := x.2
      x.1 = s ∧
      Ticked s.handle.ackTimeout (AwaitsAck s.handle) 50 t ∧
      (AwaitsAck s.handle → 50 < t →
        (hostCommTxFsmRun env s).handle.state = .pollPendingTransfer ∨
          TxStarted s (hostCommTxFsmRun env s)) := by
  refine ⟨?_, ?_⟩
  · intro h queue events x s t
    have hx : x.1 = s := run_timed ..
    have hinv : RxTimers s.handle t := hx ▸ rxTimers_run env h queue events
    refine ⟨hx, ticked_of_eq (hinv .headerProc (by decide)), ticked_of_eq (hinv .payloadProc (by decide)),
      ticked_of_eq (hinv .crcAndPostambleProc (by decide)), ?_⟩
    exact fun hw ht => rx_expired env hinv hw ht
  · intro h uart events x s t
    have hx : x.1 = s := run_timed ..
    have hinv : TxTimer s.handle t := hx ▸ txTimer_reachable env h uart events
    exact ⟨hx, ticked_of_eq hinv, tx_expired env hinv⟩

end HostComm.TimerDiscipline
