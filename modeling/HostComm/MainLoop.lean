import HostComm.HostSystem
import HostComm.TxDbgMsg

namespace HostComm.MainLoop

open Protocol TimeEvents UartDriver TxQueue TxSend TxFsm RxFsm TxDbgMsg HostSystem Runs

abbrev heartbeatPeriodMs : Nat := 200

/-- The statements of `main` after the peripherals are set up, the two of
`tx_comm_test_0` among them. The last three are the endless loop. -/
inductive MainPc
  | txInit
  | rxInit
  | message1
  | message2
  | rxRun
  | txRun
  | heartbeat
  deriving DecidableEq, Repr

/-- The program with its millisecond counter and its light. No function reads
`toggles`. -/
structure MainSys where
  host : HostSys
  pc : MainPc
  uwTick : UInt32
  lastTick : UInt32
  led : Bool
  toggles : Nat

def latin (text : List Char) : List UInt8 := text.map fun c => UInt8.ofNat c.toNat

def debugMessage1 : List UInt8 := latin "This is a debug message #1, ACK expected\r\n".toList

def debugMessage2 : List UInt8 := latin "This is a debug message #2, no ACK expected\r\n".toList

/-- The handles have static storage, so they start out as zeros. -/
def rxStatic : HostCommRxFsm :=
  ⟨.invalid, .invalid, .invalid, timeEventStop, timeEventStop, timeEventStop, ⟨⟨0, 0, 0⟩, .zero⟩⟩

def txStatic : HostCommTxFsm :=
  ⟨.invalid, .invalid, .invalid, timeEventStop, 0, ⟨0, ⟨⟨0, 0, 0⟩, .zero⟩, false⟩⟩

def powerOn : MainSys where
  host :=
    { rx := .start rxStatic hostCommTxQueueInit
      tx := { handle := txStatic, queue := hostCommTxQueueInit, uart := uartInit, trace := [] } }
  pc := .txInit
  uwTick := 0
  lastTick := 0
  led := false
  toggles := 0

/-- The queue that the transmitter empties is the one the receiver writes. -/
def initTx (s : HostSys) : HostSys :=
  let tx := hostCommTxFsmInit s.tx.handle s.tx.uart
  { rx := { s.rx with queue := tx.queue }, tx := { tx with trace := s.tx.trace } }

def initRx (s : HostSys) : HostSys := { s with rx := hostCommRxFsmInit { s.rx with queue := s.tx.queue } }

def writeDbgMsg (local_ : TxRequest) (dbgMsg : List UInt8) (ackExpected : Bool) (s : HostSys) : HostSys :=
  let r := hostCommTxFsmWriteDbgMsg s.tx.queue local_ dbgMsg ackExpected
  let request := dbgRequest local_ dbgMsg ackExpected
  { s with tx := { s.tx with
      queue := r.2, trace := if r.1 then .accepted request :: s.tx.trace else s.tx.trace } }

def heartbeatHandler (s : MainSys) : MainSys :=
  if heartbeatPeriodMs < (s.uwTick - s.lastTick).toNat then
    { s with lastTick := s.uwTick, led := !s.led, toggles := s.toggles + 1 }
  else s

/-- Interrupts come between the statements of `main`, and received bytes also
between the ring operations of a statement. -/
inductive MainEvent
  | call (irqs : List (List UInt8))
  | sysTick
  | rxByte (byte : UInt8)
  | txComplete
  deriving DecidableEq

section

variable (env : Env) (local_ : MainPc → TxRequest)

/-- The next statement of `main`. Only the receiver has ring operations, before
which the bytes of `irqs` arrive; `local_` is what the automatic request of a
statement holds before its first store. -/
def mainCall (s : MainSys) (irqs : List (List UInt8)) : MainSys :=
  match s.pc with
  | .txInit => { s with host := initTx s.host, pc := .rxInit }
  | .rxInit => { s with host := initRx s.host, pc := .message1 }
  | .message1 =>
      { s with host := writeDbgMsg (local_ s.pc) debugMessage1 true s.host, pc := .message2 }
  | .message2 =>
      { s with host := writeDbgMsg (local_ s.pc) debugMessage2 false s.host, pc := .rxRun }
  | .rxRun => { s with host := hostStep env s.host (.rx (.run irqs)), pc := .txRun }
  | .txRun => { s with host := hostStep env s.host (.tx .run), pc := .heartbeat }
  | .heartbeat => { heartbeatHandler s with pc := .rxRun }

/-- The handler updates the transmitter first and counts the millisecond last. -/
def sysTickHandler (s : MainSys) : MainSys :=
  { s with host := run (hostStep env) s.host [.tx .tick, .rx .tick], uwTick := s.uwTick + 1 }

def mainStep (s : MainSys) : MainEvent → MainSys
  | .call irqs => mainCall env local_ s irqs
  | .sysTick => sysTickHandler env s
  | .rxByte byte => { s with host := hostStep env s.host (.rx (.rxByte byte)) }
  | .txComplete => { s with host := hostStep env s.host (.tx .txComplete) }

def message1 : TxRequest := dbgRequest (local_ .message1) debugMessage1 true

def message2 : TxRequest := dbgRequest (local_ .message2) debugMessage2 false

def seenByHost (s : MainSys) : MainEvent → List HostEvent
  | .call irqs =>
      match s.pc with
      | .message1 => [.tx (.request (message1 local_))]
      | .message2 => [.tx (.request (message2 local_))]
      | .rxRun => [.rx (.run irqs)]
      | .txRun => [.tx .run]
      | _ => []
  | .sysTick => [.tx .tick, .rx .tick]
  | .rxByte byte => [.rx (.rxByte byte)]
  | .txComplete => [.tx .txComplete]

def seenInMain : MainSys → List MainEvent → List HostEvent
  | _, [] => []
  | s, e :: events => seenByHost local_ s e ++ seenInMain (mainStep env local_ s e) events

/-- The machines as the initialisations still to come leave them. -/
def booted (s : MainSys) : HostSys :=
  match s.pc with
  | .txInit => initRx (initTx s.host)
  | .rxInit => initRx s.host
  | _ => s.host

theorem writeDbgMsg_step (r : TxRequest) {dbgMsg : List UInt8} (hpos : 0 < dbgMsg.length)
    (hshort : dbgMsg.length < 256) (ackExpected : Bool) (s : HostSys) :
    writeDbgMsg r dbgMsg ackExpected s =
      hostStep env s (.tx (.request (dbgRequest r dbgMsg ackExpected))) := by
  have hmod : dbgMsg.length % 65536 = dbgMsg.length := Nat.mod_eq_of_lt (by omega)
  rw [writeDbgMsg, writeDbgMsg_eq, hmod, if_pos ⟨hpos, hshort⟩]
  rfl

theorem message1_step (s : HostSys) :
    writeDbgMsg (local_ .message1) debugMessage1 true s =
      hostStep env s (.tx (.request (message1 local_))) :=
  writeDbgMsg_step env _ (by decide) (by decide) true s

theorem message2_step (s : HostSys) :
    writeDbgMsg (local_ .message2) debugMessage2 false s =
      hostStep env s (.tx (.request (message2 local_))) :=
  writeDbgMsg_step env _ (by decide) (by decide) false s

inductive IrqEvent : HostEvent → Prop
  | txTick : IrqEvent (.tx .tick)
  | rxTick : IrqEvent (.rx .tick)
  | rxByte (byte : UInt8) : IrqEvent (.rx (.rxByte byte))
  | txComplete : IrqEvent (.tx .txComplete)

theorem initRx_irq (s : HostSys) {e : HostEvent} (h : IrqEvent e) :
    initRx (hostStep env s e) = hostStep env (initRx s) e := by
  cases h with
  | txTick => rfl
  | rxTick => rfl
  | rxByte byte => rfl
  | txComplete =>
      by_cases hbusy : s.tx.uart.huart.txIt
      · simp [hostStep, txStep, initRx, hbusy]
      · simp [hostStep, txStep, initRx, hbusy]

theorem unanswered (s : HostSys) {event : RxEvent}
    (h : (rxStep env { s.rx with queue := s.tx.queue } event).responses = s.rx.responses) :
    hostStep env s (.rx event) =
      { rx := rxStep env { s.rx with queue := s.tx.queue } event
        tx := { s.tx with queue := (rxStep env { s.rx with queue := s.tx.queue } event).queue } } := by
  simp only [hostStep, h, List.drop_length]
  rfl

theorem initTx_irq (s : HostSys) {e : HostEvent} (h : IrqEvent e) :
    initTx (hostStep env s e) = hostStep env (initTx s) e := by
  cases h with
  | txTick => rfl
  | rxTick =>
      rw [unanswered env s rfl, unanswered env (initTx s) rfl]
      rfl
  | rxByte byte =>
      rw [unanswered env s rfl, unanswered env (initTx s) rfl]
      rfl
  | txComplete =>
      by_cases hbusy : s.tx.uart.huart.txIt
      · simp [hostStep, txStep, initTx, hbusy, hostCommTxFsmInit, enterSeqPollPendingTransfers]
      · simp [hostStep, txStep, initTx, hbusy, hostCommTxFsmInit, enterSeqPollPendingTransfers]

theorem booted_irq (s : MainSys) {e : HostEvent} (h : IrqEvent e) :
    booted { s with host := hostStep env s.host e } = hostStep env (booted s) e := by
  cases hpc : s.pc with
  | txInit =>
      simp only [booted, hpc]
      rw [initTx_irq env s.host h, initRx_irq env (initTx s.host) h]
  | rxInit =>
      simp only [booted, hpc]
      exact initRx_irq env s.host h
  | _ => simp only [booted, hpc]

theorem booted_step (s : MainSys) (e : MainEvent) :
    booted (mainStep env local_ s e) = run (hostStep env) (booted s) (seenByHost local_ s e) := by
  cases e with
  | call irqs =>
      cases hpc : s.pc with
      | txInit => simp only [mainStep, mainCall, seenByHost, booted, hpc, run_nil]
      | rxInit => simp only [mainStep, mainCall, seenByHost, booted, hpc, run_nil]
      | message1 =>
          simp only [mainStep, mainCall, seenByHost, booted, hpc, run_cons, run_nil]
          exact message1_step env local_ s.host
      | message2 =>
          simp only [mainStep, mainCall, seenByHost, booted, hpc, run_cons, run_nil]
          exact message2_step env local_ s.host
      | rxRun => simp only [mainStep, mainCall, seenByHost, booted, hpc, run_cons, run_nil]
      | txRun => simp only [mainStep, mainCall, seenByHost, booted, hpc, run_cons, run_nil]
      | heartbeat =>
          simp only [mainStep, mainCall, seenByHost, booted, hpc, run_nil, heartbeatHandler]
          split_ifs <;> rfl
  | sysTick =>
      have hrx := booted_irq env { s with host := hostStep env s.host (.tx .tick) } .rxTick
      rw [booted_irq env s .txTick] at hrx
      exact hrx
  | rxByte byte => exact booted_irq env s (.rxByte byte)
  | txComplete => exact booted_irq env s .txComplete

theorem booted_run (s : MainSys) (events : List MainEvent) :
    booted (run (mainStep env local_) s events) =
      run (hostStep env) (booted s) (seenInMain env local_ s events) := by
  induction events generalizing s with
  | nil => rfl
  | cons e events ih => rw [run_cons, ih, booted_step, seenInMain, run_append]

def sinceToggle (s : MainSys) : Nat := (s.uwTick - s.lastTick).toNat

def Due (s : MainSys) : Prop := heartbeatPeriodMs < sinceToggle s

instance (s : MainSys) : Decidable (Due s) := inferInstanceAs (Decidable (_ < _))

def isTick (e : MainEvent) : Bool := e = .sysTick

inductive Beats (s s' : MainSys) : Bool → Prop
  | rest (led : s'.led = s.led) (toggles : s'.toggles = s.toggles)
      (since : sinceToggle s' = sinceToggle s) : Beats s s' false
  | toggle (due : Due s) (led : s'.led = !s.led) (toggles : s'.toggles = s.toggles + 1)
      (since : sinceToggle s' = 0) : Beats s s' false
  | tick (led : s'.led = s.led) (toggles : s'.toggles = s.toggles)
      (since : sinceToggle s' = (sinceToggle s + 1) % 2 ^ 32) : Beats s s' true

theorem sinceToggle_tick (s : MainSys) :
    sinceToggle (sysTickHandler env s) = (sinceToggle s + 1) % 2 ^ 32 := by
  have hsub : s.uwTick + 1 - s.lastTick = s.uwTick - s.lastTick + 1 := by grind
  rw [sinceToggle, sysTickHandler, hsub, UInt32.toNat_add]
  rfl

theorem beats_heartbeat (s : MainSys) (pc : MainPc) :
    Beats s { heartbeatHandler s with pc } false := by
  rw [heartbeatHandler]
  split_ifs with hdue
  · exact .toggle hdue rfl rfl (by simp [sinceToggle])
  · exact .rest rfl rfl rfl

theorem beats_step (s : MainSys) (e : MainEvent) : Beats s (mainStep env local_ s e) (isTick e) := by
  cases e with
  | call irqs =>
      cases hpc : s.pc with
      | heartbeat =>
          simp only [mainStep, mainCall, hpc]
          exact beats_heartbeat s .rxRun
      | _ =>
          simp only [mainStep, mainCall, hpc]
          exact .rest rfl rfl rfl
  | sysTick => exact .tick rfl rfl (sinceToggle_tick env s)
  | rxByte byte => exact .rest rfl rfl rfl
  | txComplete => exact .rest rfl rfl rfl

/-- The time that the toggles so far stand for, and the time since the last one. -/
def beaten (s : MainSys) : Nat := s.toggles * (heartbeatPeriodMs + 1) + sinceToggle s

theorem Beats.beaten_le {s s' : MainSys} {tick : Bool} (h : Beats s s' tick) :
    beaten s' ≤ beaten s + tick.toNat := by
  cases h with
  | rest led toggles since => simp [beaten, toggles, since]
  | toggle due led toggles since =>
      rw [Due] at due
      rw [beaten, beaten, toggles, since, Nat.succ_mul]
      exact Nat.add_le_add_left due _
  | tick led toggles since =>
      rw [beaten, beaten, toggles, since]
      exact Nat.add_le_add_left (Nat.mod_le _ _) _

/-- The handler is called in time: no tick comes while it is due. -/
def InTime (s : MainSys) (e : MainEvent) : Prop := isTick e = true → ¬ Due s

instance (s : MainSys) (e : MainEvent) : Decidable (InTime s e) := inferInstanceAs (Decidable (_ → _))

theorem Beats.beaten_eq {s s' : MainSys} {tick : Bool} (h : Beats s s' tick)
    (htime : tick = true → ¬ Due s) (hs : sinceToggle s ≤ heartbeatPeriodMs + 1) :
    beaten s' = beaten s + tick.toNat ∧ sinceToggle s' ≤ heartbeatPeriodMs + 1 := by
  cases h with
  | rest led toggles since =>
      rw [beaten, toggles, since]
      exact ⟨rfl, hs⟩
  | toggle due led toggles since =>
      have hsince : sinceToggle s = heartbeatPeriodMs + 1 := Nat.le_antisymm hs due
      rw [beaten, beaten, toggles, since, hsince, Nat.succ_mul]
      exact ⟨rfl, Nat.zero_le _⟩
  | tick led toggles since =>
      have hwait : sinceToggle s ≤ 200 := Nat.le_of_not_lt (htime rfl)
      have hmod : (sinceToggle s + 1) % 2 ^ 32 = sinceToggle s + 1 := Nat.mod_eq_of_lt (by omega)
      rw [beaten, beaten, toggles, since, hmod]
      exact ⟨rfl, Nat.succ_le_succ hwait⟩

theorem Beats.parity {s s' : MainSys} {tick : Bool} (h : Beats s s' tick)
    (hs : s.led = decide (s.toggles % 2 = 1)) : s'.led = decide (s'.toggles % 2 = 1) := by
  cases h with
  | rest led toggles since => rw [led, toggles, hs]
  | toggle due led toggles since =>
      rw [led, toggles, hs]
      rcases Nat.mod_two_eq_zero_or_one s.toggles with hmod | hmod
      · simp [Nat.add_mod, hmod]
      · simp [Nat.add_mod, hmod]
  | tick led toggles since => rw [led, toggles, hs]

theorem beaten_run_le (s : MainSys) (events : List MainEvent) :
    beaten (run (mainStep env local_) s events) ≤ beaten s + events.countP isTick := by
  induction events generalizing s with
  | nil => exact Nat.le_refl _
  | cons e events ih =>
      have hstep := (beats_step env local_ s e).beaten_le
      have hrest := ih (mainStep env local_ s e)
      rw [run_cons, List.countP_cons]
      cases htick : isTick e with
      | false => simpa [htick] using hrest.trans (Nat.add_le_add_right hstep _)
      | true =>
          rw [htick] at hstep
          simp only [Bool.toNat_true] at hstep
          simp only [if_true]
          omega

theorem beaten_run_eq {s : MainSys} {events : List MainEvent}
    (hrun : Along InTime (mainStep env local_) s events)
    (hs : sinceToggle s ≤ heartbeatPeriodMs + 1) :
    beaten (run (mainStep env local_) s events) = beaten s + events.countP isTick ∧
      sinceToggle (run (mainStep env local_) s events) ≤ heartbeatPeriodMs + 1 := by
  induction events generalizing s with
  | nil => exact ⟨rfl, hs⟩
  | cons e events ih =>
      obtain ⟨hstep, hnext⟩ := (beats_step env local_ s e).beaten_eq hrun.1 hs
      obtain ⟨hrest, hlast⟩ := ih hrun.2 hnext
      refine ⟨?_, hlast⟩
      rw [run_cons, hrest, hstep, List.countP_cons]
      cases isTick e with
      | false => rfl
      | true => exact Nat.add_right_comm ..

/-- The light toggles at most every 201 milliseconds, and exactly then when
the handler is called in time, also after the counters have wrapped around. -/
theorem heartbeat_period (events : List MainEvent) :
    let s := run (mainStep env local_) powerOn events
    let millis := events.countP isTick
    s.led = decide (s.toggles % 2 = 1) ∧
    s.toggles * (heartbeatPeriodMs + 1) ≤ millis ∧
    (Along InTime (mainStep env local_) powerOn events → ¬ Due s →
      s.toggles = millis / (heartbeatPeriodMs + 1)) := by
  intro s millis
  have hstart : beaten powerOn = 0 := rfl
  refine ⟨?_, ?_, fun hrun hdue => ?_⟩
  · exact run_preserves (I := fun s : MainSys => s.led = decide (s.toggles % 2 = 1))
      (fun s e => (beats_step env local_ s e).parity) rfl events
  · have hle := beaten_run_le env local_ powerOn events
    rw [hstart, Nat.zero_add] at hle
    exact (Nat.le_add_right ..).trans hle
  · obtain ⟨heq, -⟩ := beaten_run_eq env local_ hrun (Nat.zero_le _)
    have hsince : sinceToggle s ≤ 200 := Nat.le_of_not_lt hdue
    have hmillis : s.toggles * 201 + sinceToggle s = millis := heq.trans (Nat.zero_add _)
    change s.toggles = millis / 201
    omega

end

def bootCalls : List MainEvent := List.replicate 4 (.call [])

/-- One toggle, with the two messages still in the queue. -/
theorem heartbeat_period_first :
    let step := mainStep ⟨fun _ => 0, 0⟩ fun _ => txStatic.request
    let events := bootCalls ++ List.replicate 201 .sysTick ++ List.replicate 3 (.call [])
    (run step powerOn events).toggles = events.countP isTick / (heartbeatPeriodMs + 1) := by
  intro step events
  have hperiod := heartbeat_period ⟨fun _ => 0, 0⟩ (fun _ => txStatic.request) events
  exact hperiod.2.2 (by decide +kernel) (by decide +kernel)

end HostComm.MainLoop
