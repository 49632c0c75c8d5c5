import HostComm.HostSystem
import HostComm.RxPreempted
import HostComm.TxPreempted

namespace HostComm.HostPreempted

open Protocol TimeEvents UartDriver TxQueue TxSend TxFsm RxFsm RxStream RxMoves TimerDiscipline
open HostSystem Preemption Runs

abbrev rxTick : RxSys → RxSys := hostCommRxFsmTimeEventUpdate

abbrev txTick : TxSys → TxSys := hostCommTxFsmTimeEventUpdate

/-- What can happen to both machines when SysTick comes at any statement.
`ticks` are the numbers of its interrupts before the statements of a run call. -/
inductive PreEvent
  | rxRun (irqs : List (List UInt8)) (ticks : List Nat)
  | txRun (ticks : List Nat)
  | sysTick
  | step (event : HostEvent)

def halSystickCallback (s : HostSys) : HostSys := { rx := rxTick s.rx, tx := txTick s.tx }

def preStep (env : Env) (s : HostSys) : PreEvent → HostSys
  | .rxRun irqs ticks =>
      let x := (RxPreempted.hostCommRxFsmRunCode env).onFst.execWith
        (Preemption.ticks (Prod.map rxTick txTick)) ({ s.rx with queue := s.tx.queue, irqs }, s.tx)
        ticks
      let rx := rxBytes { x.1 with irqs := [] } x.1.irqs.flatten
      let issued := rx.responses.drop s.rx.responses.length
      { rx, tx := { x.2 with queue := rx.queue, trace := (writeResponses x.2 issued).trace } }
  | .txRun ticks =>
      let x := (TxPreempted.hostCommTxFsmRunCode env).onFst.execWith
        (Preemption.ticks (Prod.map txTick rxTick)) (s.tx, s.rx) ticks
      { rx := x.2, tx := x.1 }
  | .sysTick => halSystickCallback s
  | .step event => hostStep env s event

def rxSerial (irqs : List (List UInt8)) (a b n : Nat) : List HostEvent :=
  List.replicate a (.rx .tick) ++ .rx (.run irqs) ::
    (List.replicate b (.rx .tick) ++ List.replicate n (.tx .tick))

def txSerial (a b n : Nat) : List HostEvent :=
  List.replicate a (.tx .tick) ++ .tx .run ::
    (List.replicate b (.tx .tick) ++ List.replicate n (.rx .tick))

/-- A run in which the ticks come between the calls, with all other events
where they were. A call may lose ticks only if it leaves a state of the
receiver, or if the transmitter sends or ends a request in it. -/
inductive Serialized (env : Env) : HostSys → List PreEvent → List HostEvent → Prop
  | nil (s : HostSys) : Serialized env s [] []
  | rxRun {s : HostSys} {irqs : List (List UInt8)} {ticks : List Nat} {a b : Nat}
      {events : List PreEvent} {es : List HostEvent} (fits : a + b ≤ ticks.sum)
      (kept : (preStep env s (.rxRun irqs ticks)).rx.handle.state = s.rx.handle.state →
        a + b = ticks.sum)
      (rest : Serialized env (preStep env s (.rxRun irqs ticks)) events es) :
      Serialized env s (.rxRun irqs ticks :: events) (rxSerial irqs a b ticks.sum ++ es)
  | txRun {s : HostSys} {ticks : List Nat} {a b : Nat} {events : List PreEvent} {es : List HostEvent}
      (fits : a + b ≤ ticks.sum)
      (kept : (preStep env s (.txRun ticks)).tx.trace = s.tx.trace → a + b = ticks.sum)
      (rest : Serialized env (preStep env s (.txRun ticks)) events es) :
      Serialized env s (.txRun ticks :: events) (txSerial a b ticks.sum ++ es)
  | sysTick {s : HostSys} {events : List PreEvent} {es : List HostEvent}
      (rest : Serialized env (halSystickCallback s) events es) :
      Serialized env s (.sysTick :: events) (.tx .tick :: .rx .tick :: es)
  | step {s : HostSys} {event : HostEvent} {events : List PreEvent} {es : List HostEvent}
      (rest : Serialized env (hostStep env s event) events es) :
      Serialized env s (.step event :: events) (event :: es)

/-- The receiver's copy of the queue is out of date after a step of the
transmitter, and the next step of the receiver starts with this. -/
def synced (s : HostSys) : HostSys := { s with rx := { s.rx with queue := s.tx.queue } }

theorem hostStep_synced (env : Env) (s : HostSys) (e : HostEvent) :
    synced (hostStep env (synced s) e) = synced (hostStep env s e) := by
  cases e <;> rfl

theorem run_congr (env : Env) {s s' : HostSys} (h : synced s = synced s') (es : List HostEvent) :
    synced (run (hostStep env) s es) = synced (run (hostStep env) s' es) := by
  induction es generalizing s s' with
  | nil => exact h
  | cons e es ih =>
      apply ih
      rw [← hostStep_synced, h, hostStep_synced]

theorem hostStep_rxTick (env : Env) {s : HostSys} (h : s.rx.queue = s.tx.queue) :
    hostStep env s (.rx .tick) = { s with rx := rxTick s.rx } := by
  have hsame : ({ s.rx with queue := s.tx.queue } : RxSys) = s.rx := by rw [← h]
  have hissued : (rxTick s.rx).responses.drop s.rx.responses.length = [] := List.drop_length
  have hqueue : (rxTick s.rx).queue = s.tx.queue := h
  simp only [hostStep, hsame, rxStep, hissued, writeResponses, List.foldl_nil]
  rw [hqueue]

theorem run_rxTicks (env : Env) {s : HostSys} (h : s.rx.queue = s.tx.queue) (k : Nat) :
    run (hostStep env) s (List.replicate k (.rx .tick)) = { s with rx := rxTick^[k] s.rx } := by
  induction k generalizing s with
  | zero => rfl
  | succ k ih =>
      rw [List.replicate_succ, run_cons, hostStep_rxTick env h]
      exact ih h

theorem run_txTicks (env : Env) (s : HostSys) (k : Nat) :
    run (hostStep env) s (List.replicate k (.tx .tick)) = { s with tx := txTick^[k] s.tx } := by
  induction k generalizing s with
  | zero => rfl
  | succ k ih => exact ih { s with tx := txTick s.tx }

def arm (queue : HostCommTxQueue) (irqs : List (List UInt8)) (s : RxSys) : RxSys :=
  { s with queue, irqs }

def flush (s : RxSys) : RxSys := rxBytes { s with irqs := [] } s.irqs.flatten

theorem arm_iterate (queue : HostCommTxQueue) (irqs : List (List UInt8)) (s : RxSys) (k : Nat) :
    arm queue irqs (rxTick^[k] s) = rxTick^[k] (arm queue irqs s) := by
  have hcommute : Function.Commute (arm queue irqs) rxTick := fun _ => rfl
  exact hcommute.iterate_right k s

theorem synced_rxTicks (s : HostSys) (k : Nat) :
    synced { s with rx := rxTick^[k] s.rx } = { s with rx := rxTick^[k] (synced s).rx } := by
  have harm := arm_iterate s.tx.queue s.rx.irqs s.rx k
  have hirqs : (rxTick^[k] s.rx).irqs = s.rx.irqs :=
    iterate_keeps (g := rxTick) (v := RxSys.irqs) (fun _ => rfl) s.rx k
  rw [arm, ← hirqs] at harm
  rw [synced, harm, hirqs]
  rfl

theorem run_rxTicks_synced (env : Env) (s : HostSys) (k : Nat) :
    synced (run (hostStep env) s (List.replicate k (.rx .tick))) =
      synced { s with rx := rxTick^[k] s.rx } := by
  have hstart : synced s = synced (synced s) := rfl
  have hqueue : (synced s).rx.queue = (synced s).tx.queue := rfl
  rw [run_congr env hstart, run_rxTicks env hqueue, synced_rxTicks, synced_rxTicks]
  rfl

theorem flush_iterate (s : RxSys) (k : Nat) : flush (rxTick^[k] s) = rxTick^[k] (flush s) := by
  refine Function.Commute.iterate_right (g := rxTick) (fun s => ?_) k s
  have hcall := RxPreempted.rxBytes_handle { s with irqs := [] } (rxTick s).handle s.irqs.flatten
  refine hcall.trans ?_
  simp only [flush, hostCommRxFsmTimeEventUpdate, handle_rxBytes]

def respond (queue : HostCommTxQueue) (issued : List RxResponse) (s : TxSys) : TxSys :=
  { s with queue, trace := (writeResponses s issued).trace }

theorem writeResponses_tick (s : TxSys) (issued : List RxResponse) :
    writeResponses (txTick s) issued = txTick (writeResponses s issued) := by
  induction issued generalizing s with
  | nil => rfl
  | cons r issued ih => exact ih (writeRequest s r.request)

theorem respond_iterate (queue : HostCommTxQueue) (issued : List RxResponse) (s : TxSys) (k : Nat) :
    respond queue issued (txTick^[k] s) = txTick^[k] (respond queue issued s) := by
  refine Function.Commute.iterate_right (g := txTick) (fun s => ?_) k s
  rw [respond, writeResponses_tick]
  rfl

theorem preStep_rxRun_eq (env : Env) (s : HostSys) (irqs : List (List UInt8)) (ticks : List Nat) :
    let rx := flush ((RxPreempted.hostCommRxFsmRunCode env).execWith (Preemption.ticks rxTick)
      (arm s.tx.queue irqs s.rx) ticks)
    preStep env s (.rxRun irqs ticks) = ⟨rx, respond rx.queue
      (rx.responses.drop s.rx.responses.length) (txTick^[ticks.sum] s.tx)⟩ := by
  intro rx
  rw [preStep, execWith_onFst]
  rfl

theorem hostStep_rxRun_eq (env : Env) (s : HostSys) (irqs : List (List UInt8)) :
    let rx := flush (hostCommRxFsmRun env (arm s.tx.queue irqs s.rx))
    hostStep env s (.rx (.run irqs)) = ⟨rx, respond rx.queue
      (rx.responses.drop s.rx.responses.length) s.tx⟩ := rfl

theorem preStep_undisturbed (env : Env) (s : HostSys) (irqs : List (List UInt8)) :
    preStep env s (.rxRun irqs []) = hostStep env s (.rx (.run irqs)) ∧
      preStep env s (.txRun []) = hostStep env s (.tx .run) := by
  constructor
  · rw [preStep_rxRun_eq, hostStep_rxRun_eq, Code.execWith_nil, RxPreempted.exec_run]
    rfl
  · rw [preStep, execWith_onFst, Code.execWith_nil, TxPreempted.exec_run]
    rfl

theorem rxRun_serial (env : Env) {s : HostSys} (hinv : ∃ t, RxTimers s.rx.handle t)
    (irqs : List (List UInt8)) (ticks : List Nat) :
    ∃ a b, a + b ≤ ticks.sum ∧
      ((preStep env s (.rxRun irqs ticks)).rx.handle.state = s.rx.handle.state →
        a + b = ticks.sum) ∧
      synced (run (hostStep env) s (rxSerial irqs a b ticks.sum)) =
        synced (preStep env s (.rxRun irqs ticks)) := by
  obtain ⟨t, ht⟩ := hinv
  obtain ⟨a, b, hfit, hend, hkept⟩ := RxPreempted.serial_run (s := arm s.tx.queue irqs s.rx) env ht
    ⟨ticks, rfl, rfl⟩
  rw [RxPreempted.exec_run, ← arm_iterate] at hend hkept
  have hresponses (x : RxSys) (k : Nat) : (rxTick^[k] x).responses = x.responses :=
    iterate_keeps (g := rxTick) (v := RxSys.responses) (fun _ => rfl) x k
  have hqueue (x : RxSys) (k : Nat) : (rxTick^[k] x).queue = x.queue :=
    iterate_keeps (g := rxTick) (v := RxSys.queue) (fun _ => rfl) x k
  have hstate (x : RxSys) (k : Nat) : (rxTick^[k] x).handle.state = x.handle.state :=
    iterate_keeps (g := rxTick) (v := fun x => x.handle.state) (fun _ => rfl) x k
  refine ⟨a, b, hfit, fun hsame => hkept ?_, ?_⟩
  · rw [preStep_rxRun_eq, hend, flush_iterate] at hsame
    dsimp only at hsame
    rw [hstate, flush, handle_rxBytes] at hsame
    exact hsame
  · have hsynced : (synced s).rx.queue = (synced s).tx.queue := rfl
    have harm : arm (synced s).tx.queue irqs (rxTick^[a] (synced s).rx) =
        arm s.tx.queue irqs (rxTick^[a] s.rx) := by
      rw [arm_iterate, arm_iterate]
      rfl
    have hstart : synced s = synced (synced s) := rfl
    rw [run_congr env hstart, rxSerial, run_append, run_rxTicks env hsynced, run_cons,
      run_append, hostStep_rxRun_eq, run_rxTicks env rfl, run_txTicks, preStep_rxRun_eq, hend,
      flush_iterate]
    dsimp only
    rw [hresponses, hresponses, hqueue, respond_iterate, harm]
    rfl

theorem txRun_serial (env : Env) (s : HostSys) (ticks : List Nat) :
    ∃ a b, a + b ≤ ticks.sum ∧
      ((preStep env s (.txRun ticks)).tx.trace = s.tx.trace → a + b = ticks.sum) ∧
      synced (run (hostStep env) s (txSerial a b ticks.sum)) =
        synced (preStep env s (.txRun ticks)) := by
  obtain ⟨a, b, hfit, hend, hkept⟩ := TxPreempted.serial_run env (s := s.tx) ⟨ticks, rfl, rfl⟩
  rw [TxPreempted.exec_run] at hend hkept
  have hpre : preStep env s (.txRun ticks) =
      { rx := rxTick^[ticks.sum] s.rx, tx := txTick^[b] (hostCommTxFsmRun env (txTick^[a] s.tx)) } := by
    rw [preStep, execWith_onFst, hend]
  rw [hpre]
  refine ⟨a, b, hfit, fun hsame => hkept ?_, ?_⟩
  · have htrace := iterate_keeps (g := txTick) (v := TxSys.trace) (fun _ => rfl)
      (hostCommTxFsmRun env (txTick^[a] s.tx)) b
    exact htrace.symm.trans hsame
  · rw [txSerial, run_append, run_txTicks, run_cons, run_append, hostStep, run_txTicks,
      run_rxTicks_synced]
    rfl

theorem sysTick_serial (env : Env) (s : HostSys) :
    synced (run (hostStep env) s [.tx .tick, .rx .tick]) = synced (halSystickCallback s) :=
  run_rxTicks_synced env { s with tx := txTick s.tx } 1

theorem timers_step (env : Env) {s : HostSys} (h : ∃ t, RxTimers s.rx.handle t) (e : HostEvent) :
    ∃ t, RxTimers (hostStep env s e).rx.handle t := by
  obtain ⟨t, ht⟩ := h
  cases e with
  | rx event => exact ⟨_, rxTimers_step env ({ s.rx with queue := s.tx.queue }, t) event ht⟩
  | tx event => exact ⟨t, ht⟩

theorem serialized_run (env : Env) {s : HostSys} (h : ∃ t, RxTimers s.rx.handle t)
    (events : List PreEvent) :
    ∃ es, Serialized env s events es ∧
      synced (run (hostStep env) s es) = synced (run (preStep env) s events) := by
  induction events generalizing s with
  | nil => exact ⟨[], .nil s, rfl⟩
  | cons e events ih =>
      -- one event first, then the rest from the state it leads to
      have hjoin {front : List HostEvent}
          (hfront : synced (run (hostStep env) s front) = synced (preStep env s e)) :
          ∃ es, Serialized env (preStep env s e) events es ∧
            synced (run (hostStep env) s (front ++ es)) =
              synced (run (preStep env) (preStep env s e) events) := by
        have hhandle := congrArg (fun s : HostSys => s.rx.handle) hfront
        have htimers : ∃ t, RxTimers (preStep env s e).rx.handle t := by
          rw [← show _ = (preStep env s e).rx.handle from hhandle]
          exact run_preserves (I := fun s : HostSys => ∃ t, RxTimers s.rx.handle t)
            (fun _ e h => timers_step env h e) h front
        obtain ⟨es, hserial, hrun⟩ := ih htimers
        refine ⟨es, hserial, ?_⟩
        rw [run_append, run_congr env hfront, hrun]
      cases e with
      | rxRun irqs ticks =>
          obtain ⟨a, b, hfit, hkept, hfront⟩ := rxRun_serial env h irqs ticks
          obtain ⟨es, hserial, hrun⟩ := hjoin hfront
          exact ⟨_, .rxRun hfit hkept hserial, hrun⟩
      | txRun ticks =>
          obtain ⟨a, b, hfit, hkept, hfront⟩ := txRun_serial env s ticks
          obtain ⟨es, hserial, hrun⟩ := hjoin hfront
          exact ⟨_, .txRun hfit hkept hserial, hrun⟩
      | sysTick =>
          obtain ⟨es, hserial, hrun⟩ := hjoin (sysTick_serial env s)
          exact ⟨_, .sysTick hserial, hrun⟩
      | step event =>
          have hfront : synced (run (hostStep env) s [event]) =
              synced (preStep env s (.step event)) := rfl
          obtain ⟨es, hserial, hrun⟩ := hjoin hfront
          exact ⟨_, .step hserial, hrun⟩

/-- In every run of both machines SysTick may interrupt the run calls at any
statement: the calls end in the states in which they end when the interrupts
come between them, in the same order with all other events. The check value of
a long packet reads the timer of the transmitter among the bytes behind the
packet, which are to keep their values. -/
theorem ticks_serialized (env : Env) (rx : HostCommRxFsm) (tx : HostCommTxFsm) (uart : Uart)
    (events : List PreEvent) :
    let s := hostInit rx tx uart
    ∃ es, Serialized env s events es ∧
      synced (run (hostStep env) s es) = synced (run (preStep env) s events) :=
  serialized_run env ⟨0, rxTimers_init rx _ 0⟩ events

end HostComm.HostPreempted
