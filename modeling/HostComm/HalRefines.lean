import HostComm.HalWire
import HostComm.TxConservation

namespace HostComm.HalRefines

open CircularBuffer ByteRings HalUart HalWire Runs
open UartDriver (HalStatus HalUartState UartHandle Uart rxArrival)
open UartSteps (MainPc UartSys UartEvent uartStep uartStart)
open TxConservation

/-- The receive interrupts are on or off together, on exactly during a
reception, and no old error is on record then. -/
structure RxBits (h : HalHandle) : Prop where
  peie : h.cr1.peie = h.cr1.rxneie
  eie : h.eie = h.cr1.rxneie
  on : h.cr1.rxneie = true ↔ h.rxState = .busyRx
  clear : h.cr1.rxneie = true → h.errorCode = .none

def disarmed (h : HalHandle) (code : ErrorCode) : HalHandle :=
  { uartEndRxTransfer h with errorCode := code }

inductive ArmedIrq (junk : UInt8) (u : Driver) (f : StatusFlags) (dr : UInt8) (u' : Driver) : Prop
  | stored (full : f.rxne = true) (free : u.huart.lock = false)
      (result : u' = { u with rx := rxArrival u.rx dr })
  | locked (full : f.rxne = true) (held : u.huart.lock = true) (code : ErrorCode)
      (result : u' = { u with rx := rxArrival u.rx dr, huart := disarmed u.huart code })
  | overrun (empty : f.rxne = false) (flagged : f.ore = true) (code : ErrorCode)
      (result : u' = u.set (disarmed u.huart code))
  | noise (empty : f.rxne = false) (errors : f.errors = true) (unflagged : f.ore = false) (result : u' = u)
  | transmit (empty : f.rxne = false) (clean : f.errors = false) (result : u' = transmitIrq junk u f)

theorem receive_spec {u : Driver} (h : RxBits u.huart) (hon : u.huart.cr1.rxneie = true)
    (code : ErrorCode) (dr : UInt8) :
    uartReceiveIt (u.set { u.huart with errorCode := code }) dr =
      if u.huart.lock then { u with rx := rxArrival u.rx dr, huart := disarmed u.huart code }
      else { u with rx := rxArrival u.rx dr } := by
  obtain ⟨rx, tx, huart, handed, accepted, chunks, wire, lost⟩ := u
  obtain ⟨gState, rxState, lock, txFrom, txBuf, txSent, txXferCount, errorCode, cr1, eie⟩ := huart
  obtain ⟨txeie, tcie, rxneie, peie⟩ := cr1
  obtain ⟨hpeie, heie, hstate, hclear⟩ := h
  simp only at hpeie heie hstate hclear hon
  subst hpeie heie hon
  obtain rfl := hstate.mp rfl
  obtain rfl := hclear rfl
  cases lock
  · simp [uartReceiveIt, halUartRxCpltCallback, halUartReceiveIt, uartStartReceiveIt, Driver.set,
      HalHandle.takeLock, HalHandle.releaseLock]
  · simp [uartReceiveIt, halUartRxCpltCallback, halUartReceiveIt, Driver.set, disarmed,
      uartEndRxTransfer]

theorem set_same {u : Driver} {code : ErrorCode} (h : u.huart.errorCode = code) :
    u.set { u.huart with errorCode := code } = u := by
  subst h
  rfl

theorem errorIrq_empty {u : Driver} {f : StatusFlags} (h : RxBits u.huart)
    (hon : u.huart.cr1.rxneie = true) (hempty : f.rxne = false) (dr : UInt8) :
    if f.ore then ∃ code, errorIrq u f dr = u.set (disarmed u.huart code)
      else errorIrq u f dr = u := by
  have hclear := h.clear hon
  have hore : (collectErrors u.huart f).ore = f.ore := by
    simp [collectErrors, hclear, ErrorCode.none, hon]
  rw [errorIrq]
  by_cases hcode : collectErrors u.huart f = .none
  · have hno : f.ore = false := by rw [← hore, hcode]; rfl
    simp only [if_pos hcode, hno, Bool.false_eq_true, if_false]
    rw [hcode]
    exact set_same hclear
  · simp only [if_neg hcode, hempty, Bool.false_and, Bool.false_eq_true, if_false]
    cases hover : f.ore with
    | true =>
        rw [hover] at hore
        simp only [if_true]
        refine ⟨collectErrors u.huart f, ?_⟩
        simp [Driver.set, disarmed, uartEndRxTransfer, hore]
    | false =>
        rw [hover] at hore
        simp only [Bool.false_eq_true, if_false]
        have hsame := set_same hclear
        simpa [Driver.set, hore] using hsame

theorem errorIrq_full {u : Driver} {f : StatusFlags} (h : RxBits u.huart)
    (hon : u.huart.cr1.rxneie = true) (hfull : f.rxne = true) (herrors : f.errors = true)
    (dr : UInt8) :
    if u.huart.lock then ∃ code, errorIrq u f dr =
        { u with rx := rxArrival u.rx dr, huart := disarmed u.huart code }
      else errorIrq u f dr = { u with rx := rxArrival u.rx dr } := by
  have hclear := h.clear hon
  have hcode : collectErrors u.huart f ≠ .none := by
    intro hnone
    have hpeie := h.peie.trans hon
    have heie := h.eie.trans hon
    simp only [collectErrors, hclear, ErrorCode.none, hon, hpeie, heie, Bool.false_or, Bool.and_true,
      Bool.or_self, ErrorCode.mk.injEq] at hnone
    simp [StatusFlags.errors, hnone] at herrors
  have hspec := receive_spec h hon (collectErrors u.huart f) dr
  rw [errorIrq]
  simp only [if_neg hcode, hfull, hon, Bool.and_self, if_true, hspec]
  cases hlock : u.huart.lock with
  | true =>
      simp only [if_true]
      split_ifs
      · exact ⟨_, rfl⟩
      · exact ⟨_, rfl⟩
  | false =>
      have hnone : u.huart.errorCode.ore = false := by rw [hclear]; rfl
      simp only [Bool.false_eq_true, if_false, hnone]
      exact set_same (u := { u with rx := rxArrival u.rx dr }) hclear

theorem armed_irq (junk : UInt8) {u : Driver} (h : RxBits u.huart)
    (hon : u.huart.cr1.rxneie = true) (f : StatusFlags) (dr : UInt8) :
    ArmedIrq junk u f dr (halUartIrqHandler junk u f dr) := by
  have heie := h.eie.trans hon
  rw [halUartIrqHandler]
  cases hfull : f.rxne with
  | true =>
      have hstored (herrors : f.errors = true) : ArmedIrq junk u f dr (errorIrq u f dr) := by
        have hfull' := errorIrq_full h hon hfull herrors dr
        cases hlock : u.huart.lock with
        | true =>
            rw [hlock, if_pos rfl] at hfull'
            obtain ⟨code, hresult⟩ := hfull'
            exact .locked hfull hlock code hresult
        | false =>
            rw [hlock, if_neg Bool.false_ne_true] at hfull'
            exact .stored hfull hlock hfull'
      cases herrors : f.errors with
      | true =>
          simp only [hon, heie, Bool.not_true, Bool.false_and, Bool.true_and, Bool.true_or,
            Bool.false_eq_true, if_false, if_true]
          exact hstored herrors
      | false =>
          have hspec := receive_spec h hon .none dr
          rw [set_same (h.clear hon)] at hspec
          simp only [hon, Bool.not_false, Bool.true_and, if_true]
          cases hlock : u.huart.lock with
          | true =>
              rw [hlock, if_pos rfl] at hspec
              exact .locked hfull hlock _ hspec
          | false =>
              rw [hlock, if_neg Bool.false_ne_true] at hspec
              exact .stored hfull hlock hspec
  | false =>
      cases herrors : f.errors with
      | true =>
          have hempty := errorIrq_empty h hon hfull dr
          simp only [heie, Bool.not_true, Bool.false_and, Bool.true_and, Bool.true_or,
            Bool.false_eq_true, if_false, if_true]
          cases hover : f.ore with
          | true =>
              rw [hover, if_pos rfl] at hempty
              obtain ⟨code, hresult⟩ := hempty
              exact .overrun hfull hover code hresult
          | false =>
              rw [hover, if_neg Bool.false_ne_true] at hempty
              exact .noise hfull herrors hover hempty
      | false =>
          simp only [Bool.false_and, Bool.and_false, Bool.false_eq_true, if_false]
          exact .transmit hfull herrors rfl

/-- A transfer runs while one of the two transmit interrupts is on. -/
def absHandle (h : HalHandle) : UartHandle :=
  { gState := h.gState, rxState := h.rxState, lock := h.lock, txBuf := h.txBuf
    txIt := h.cr1.txeie || h.cr1.tcie, rxIt := h.cr1.rxneie }

def absUart (u : Driver) : Uart :=
  { rx := u.rx, tx := u.tx, huart := absHandle u.huart, handed := u.handed, accepted := u.accepted
    chunks := u.chunks }

/-- The load and the store of the control register are one step there, and the
return is none. -/
def absPc : HalPc → MainPc
  | .idle => .idle
  | .test => .test
  | .pop => .pop
  | .checkState byte => .checkState byte
  | .checkLock byte => .checkLock byte
  | .takeLock byte => .takeLock byte
  | .fillTx byte => .fillTx byte
  | .setBusyTx byte => .setBusyTx byte
  | .releaseLock byte => .releaseLock byte
  | .loadCr1 byte => .enableTxIt byte
  | .storeCr1 byte _ => .enableTxIt byte
  | .leave => .idle

def absSys (m : HalSys) : UartSys := ⟨absUart m.uart, absPc m.pc⟩

theorem abs_call (m : HalSys) (data : List UInt8) :
    absSys (callTransmit m data) = UartSteps.callTransmit (absSys m) data := by
  simp only [callTransmit, UartSteps.callTransmit]
  change _ = if (m.uart.tx.write data).1 = .ok then _ else _
  split_ifs
  · rfl
  · rfl

def mainSeen : HalPc → List UartEvent
  | .loadCr1 _ => []
  | .leave => []
  | _ => [.main]

theorem abs_main (junk : UInt8) {m : HalSys}
    (hsnap : ∀ byte cr1, m.pc = .storeCr1 byte cr1 → cr1.rxneie = m.uart.huart.cr1.rxneie) :
    absSys (mainStep junk m) = run (uartStep junk) (absSys m) (mainSeen m.pc) := by
  obtain ⟨u, pc⟩ := m
  cases pc with
  | storeCr1 byte cr1 =>
      have hrx : cr1.rxneie = u.huart.cr1.rxneie := hsnap byte cr1 rfl
      change _ = run (uartStep junk) (absSys ⟨u, .storeCr1 byte cr1⟩) [.main]
      simp [mainStep, uartStep, UartSteps.mainStep, absSys, absPc, absUart, absHandle,
        Driver.set, UartHandle.enableTxIt, hrx]
  | test =>
      change _ = run (uartStep junk) (absSys ⟨u, .test⟩) [.main]
      simp only [mainStep, run_cons, run_nil, uartStep, UartSteps.mainStep, absSys, absPc, absUart,
        absHandle]
      split_ifs
      · rfl
      · rfl
  | checkState byte =>
      change _ = run (uartStep junk) (absSys ⟨u, .checkState byte⟩) [.main]
      simp only [mainStep, run_cons, run_nil, uartStep, UartSteps.mainStep, absSys, absPc, absUart,
        absHandle]
      split_ifs
      · rfl
      · rfl
  | checkLock byte =>
      change _ = run (uartStep junk) (absSys ⟨u, .checkLock byte⟩) [.main]
      simp only [mainStep, run_cons, run_nil, uartStep, UartSteps.mainStep, absSys, absPc, absUart,
        absHandle]
      split_ifs
      · rfl
      · rfl
  | _ => rfl

theorem abs_sent (junk : UInt8) {u : Driver} (hon : u.huart.cr1.txeie = true) :
    absUart (uartTransmitIt junk u) = absUart u := by
  rw [uartTransmitIt]
  dsimp only
  split_ifs
  · simp [absUart, absHandle, hon]
  · rfl
  · rfl

theorem abs_transmitIt (h : HalHandle) (source : TxSource) (chunk : List UInt8) :
    UartDriver.halUartTransmitIt (absHandle h) chunk =
      ((halUartTransmitIt h source chunk).1, absHandle (halUartTransmitIt h source chunk).2) := by
  rw [halUartTransmitIt, UartDriver.halUartTransmitIt]
  change (if h.gState = .ready then if chunk.length = 0 then _ else if h.lock then _ else _ else _) = _
  split_ifs
  · rfl
  · rfl
  · rfl
  · rfl

theorem abs_startTx (u : Driver) (chunk : List UInt8) :
    absUart (startTx u chunk) = UartDriver.startTx (absUart u) chunk := by
  have hsame := abs_transmitIt u.huart .dataChunk chunk
  simp only [startTx, UartDriver.startTx, absUart, hsame]

theorem abs_txCplt (u : Driver) :
    absUart (halUartTxCpltCallback u) = UartDriver.halUartTxCpltCallback (absUart u) := by
  have hlen : (absUart u).tx.dataLen = u.tx.dataLen := rfl
  simp only [halUartTxCpltCallback, UartDriver.halUartTxCpltCallback, hlen]
  split_ifs
  · exact abs_startTx ..
  · exact abs_startTx ..
  · rfl

theorem abs_ended {u : Driver} (hoff : u.huart.cr1.txeie = false) :
    absUart (uartEndTransmitIt u) = UartDriver.uartEndTransmitIt (absUart u) := by
  rw [uartEndTransmitIt, UartDriver.uartEndTransmitIt, abs_txCplt]
  simp [absUart, absHandle, Driver.set, hoff]

/-- A byte that is stored is received, whatever happens to the next reception. -/
theorem abs_stored {u : Driver} (h : RxBits u.huart) (hon : u.huart.cr1.rxneie = true)
    (hfree : u.huart.lock = false) (dr : UInt8) :
    absUart { u with rx := rxArrival u.rx dr } = UartDriver.uartReceiveIt (absUart u) dr := by
  have hbusy := h.on.mp hon
  simp [absUart, absHandle, UartDriver.uartReceiveIt, UartDriver.halUartRxCpltCallback,
    UartDriver.halUartReceiveIt, hbusy, hon, hfree, UartHandle.takeLock, UartHandle.startReceive,
    UartHandle.releaseLock]

theorem abs_locked {u : Driver} (h : RxBits u.huart) (hon : u.huart.cr1.rxneie = true)
    (hheld : u.huart.lock = true) (code : ErrorCode) (dr : UInt8) :
    absUart { u with rx := rxArrival u.rx dr, huart := disarmed u.huart code } =
      UartDriver.uartReceiveIt (absUart u) dr := by
  have hbusy := h.on.mp hon
  simp [absUart, absHandle, UartDriver.uartReceiveIt, UartDriver.halUartRxCpltCallback,
    UartDriver.halUartReceiveIt, hbusy, hheld, disarmed, uartEndRxTransfer]

def txSeen (u : Driver) (f : StatusFlags) : List UartEvent :=
  if f.txe && u.huart.cr1.txeie then [] else if f.tc && u.huart.cr1.tcie then [.txComplete] else []

def stepSeen (m : HalSys) : HalEvent → List UartEvent
  | .call data => if m.pc = .idle then [.call data] else []
  | .main => mainSeen m.pc
  | .irq f dr =>
      if m.uart.huart.cr1.rxneie then
        if f.rxne then [.rxByte dr] else if f.errors then [] else txSeen m.uart f
      else txSeen m.uart f

def seen (junk : UInt8) : HalSys → List HalEvent → List UartEvent
  | _, [] => []
  | m, e :: events => stepSeen m e ++ seen junk (halStep junk m e) events

/-- An overrun that is flagged when the byte in front of it has been taken. -/
def Overruns (m : HalSys) : HalEvent → Prop
  | .irq f _ => f.ore = true ∧ f.rxne = false ∧ m.uart.huart.cr1.rxneie = true
  | _ => False

instance (m : HalSys) : ∀ e, Decidable (Overruns m e)
  | .irq _ _ => inferInstanceAs (Decidable (_ ∧ _ ∧ _))
  | .call _ => isFalse id
  | .main => isFalse id

structure Tracked (m : HalSys) : Prop where
  wire : OnWire (txSide m.uart) m.pc
  bits : RxBits m.uart.huart
  snapshot : ∀ byte cr1, m.pc = .storeCr1 byte cr1 →
    cr1.rxneie = m.uart.huart.cr1.rxneie ∧ cr1.peie = m.uart.huart.cr1.peie

theorem rxBits_congr {u u' : Driver} (h : RxBits u.huart) (hside : rxSide u' = rxSide u)
    (hcode : u.huart.errorCode = .none → u'.huart.errorCode = .none) : RxBits u'.huart := by
  have hstate : u'.huart.rxState = u.huart.rxState := congrArg RxSide.rxState hside
  have hrxneie : u'.huart.cr1.rxneie = u.huart.cr1.rxneie := congrArg RxSide.rxneie hside
  have hpeie : u'.huart.cr1.peie = u.huart.cr1.peie := congrArg RxSide.peie hside
  have heie : u'.huart.eie = u.huart.eie := congrArg RxSide.eie hside
  constructor
  · rw [hpeie, hrxneie]
    exact h.peie
  · rw [heie, hrxneie]
    exact h.eie
  · rw [hrxneie, hstate]
    exact h.on
  · rw [hrxneie]
    exact fun hon => hcode (h.clear hon)

theorem rxBits_disarmed (h : HalHandle) (code : ErrorCode) : RxBits (disarmed h code) :=
  ⟨rfl, rfl, by simp [disarmed, uartEndRxTransfer], fun hon => by simp [disarmed, uartEndRxTransfer] at hon⟩

theorem errorCode_transmitIrq (junk : UInt8) (u : Driver) (f : StatusFlags)
    (h : u.huart.errorCode = .none) : (transmitIrq junk u f).huart.errorCode = .none := by
  have hstart (v : Driver) (chunk : List UInt8) (hv : v.huart.errorCode = .none) :
      (startTx v chunk).huart.errorCode = .none := by
    simp only [startTx, halUartTransmitIt]
    split_ifs
    all_goals first | exact hv | rfl
  rw [transmitIrq]
  split_ifs
  · rw [uartTransmitIt]
    dsimp only
    split_ifs
    all_goals exact h
  · simp only [uartEndTransmitIt, halUartTxCpltCallback]
    split_ifs
    · exact hstart _ _ h
    · exact hstart _ _ h
    · exact h
  · exact h

theorem rxBits_main (junk : UInt8) {m : HalSys} (h : Tracked m) :
    RxBits (mainStep junk m).uart.huart := by
  obtain ⟨-, hbits, hsnap⟩ := h
  obtain ⟨u, pc⟩ := m
  rw [mainStep]
  cases pc with
  | fillTx byte => exact ⟨hbits.peie, hbits.eie, hbits.on, fun _ => rfl⟩
  | storeCr1 byte cr1 =>
      obtain ⟨hrxneie, hpeie⟩ := hsnap byte cr1 rfl
      have hside : rxSide (u.set { u.huart with cr1 := { cr1 with txeie := true } }) = rxSide u := by
        simp only [rxSide, Driver.set]
        rw [hrxneie, hpeie]
      exact rxBits_congr hbits hside id
  | test =>
      dsimp only
      split_ifs
      · exact hbits
      · exact hbits
  | checkState byte =>
      dsimp only
      split_ifs
      · exact hbits
      · exact hbits
  | checkLock byte =>
      dsimp only
      split_ifs
      · exact hbits
      · exact hbits
  | _ => exact ⟨hbits.peie, hbits.eie, hbits.on, hbits.clear⟩

theorem irq_off (junk : UInt8) {u : Driver} (h : RxBits u.huart)
    (hoff : u.huart.cr1.rxneie = false) (f : StatusFlags) (dr : UInt8) :
    halUartIrqHandler junk u f dr = transmitIrq junk u f := by
  have hpeie := h.peie.trans hoff
  have heie := h.eie.trans hoff
  simp [halUartIrqHandler, hoff, hpeie, heie]

theorem tracked_transmit (junk : UInt8) {m : HalSys} (h : Tracked m) (f : StatusFlags) :
    Tracked { m with uart := transmitIrq junk m.uart f } := by
  obtain ⟨hwire, hbits, hsnap⟩ := h
  have hside := rxSide_transmitIrq junk m.uart f
  refine ⟨onWire_transmit junk hwire f, rxBits_congr hbits hside (errorCode_transmitIrq junk _ f), ?_⟩
  intro byte cr1 hpc
  obtain ⟨hrxneie, hpeie⟩ := hsnap byte cr1 hpc
  exact ⟨hrxneie.trans (congrArg RxSide.rxneie hside).symm, hpeie.trans (congrArg RxSide.peie hside).symm⟩

theorem tracked_irq (junk : UInt8) {m : HalSys} (h : Tracked m) (f : StatusFlags) (dr : UInt8)
    (hfine : ¬ Overruns m (.irq f dr)) :
    Tracked { m with uart := halUartIrqHandler junk m.uart f dr } := by
  have hwire := onWire_irq junk h.wire f dr
  cases hon : m.uart.huart.cr1.rxneie with
  | false =>
      rw [irq_off junk h.bits hon]
      exact tracked_transmit junk h f
  | true =>
      cases armed_irq junk h.bits hon f dr with
      | stored full free result =>
          rw [result] at hwire ⊢
          exact ⟨hwire, h.bits, h.snapshot⟩
      | locked full held code result =>
          rw [result] at hwire ⊢
          refine ⟨hwire, rxBits_disarmed _ _, fun byte cr1 hpc => ?_⟩
          -- the main loop has given the lock back before it loads the register
          have hphase := h.wire.phase
          rw [hpc] at hphase
          have hfree : m.uart.huart.lock = false := hphase.1
          rw [hfree] at held
          cases held
      | overrun empty flagged code result => exact absurd ⟨flagged, empty, hon⟩ hfine
      | noise empty errors unflagged result =>
          rw [result]
          exact h
      | transmit empty clean result =>
          rw [result]
          exact tracked_transmit junk h f

theorem tracked_step (junk : UInt8) (m : HalSys) (e : HalEvent) (h : Tracked m)
    (hfine : ¬ Overruns m e) : Tracked (halStep junk m e) := by
  have hwire := onWire_step junk m e h.wire
  cases e with
  | call data =>
      rw [halStep] at hwire ⊢
      split_ifs at hwire ⊢ with hpc
      · have hsame : (callTransmit m data).uart.huart = m.uart.huart := by
          rw [callTransmit]
          dsimp only
          split_ifs
          · rfl
          · rfl
        refine ⟨hwire, hsame ▸ h.bits, fun byte cr1 hnext => ?_⟩
        simp only [callTransmit] at hnext
        split_ifs at hnext
      · exact h
  | main =>
      refine ⟨hwire, rxBits_main junk h, fun byte cr1 hnext => ?_⟩
      obtain ⟨u, pc⟩ := m
      simp only [halStep, mainStep] at hnext ⊢
      cases pc with
      | loadCr1 byte =>
          cases hnext
          exact ⟨rfl, rfl⟩
      | test => split_ifs at hnext
      | checkState byte => split_ifs at hnext
      | checkLock byte => split_ifs at hnext
      | _ => cases hnext
  | irq f dr => exact tracked_irq junk h f dr hfine

theorem tracked_start : Tracked halStart :=
  ⟨onWire_start, ⟨rfl, rfl, iff_of_true rfl rfl, fun _ => rfl⟩, fun _ _ h => by cases h⟩

theorem txSeen_complete {u : Driver} {f : StatusFlags} {e : UartEvent} (he : e ∈ txSeen u f) :
    e = .txComplete := by
  rw [txSeen] at he
  split_ifs at he
  · cases he
  · exact List.mem_singleton.mp he
  · cases he

theorem abs_transmitIrq (junk : UInt8) {m : HalSys} (h : OnWire (txSide m.uart) m.pc)
    (f : StatusFlags) : absSys { m with uart := transmitIrq junk m.uart f } =
      run (uartStep junk) (absSys m) (txSeen m.uart f) := by
  rw [transmitIrq, txSeen]
  split_ifs with htxe htc
  · simp only [Bool.and_eq_true] at htxe
    simp only [absSys, abs_sent junk htxe.2, run_nil]
  · simp only [Bool.and_eq_true] at htc
    have hending := ending_of_on (served_of_on h.phase (.inr htc.2)).1 htc.2
    have hit : (absSys m).uart.huart.txIt = true := by
      simp [absSys, absUart, absHandle, htc.2]
    simp only [run_cons, run_nil, uartStep, if_pos hit]
    simp only [absSys, abs_ended hending.off]
  · rfl

theorem abs_step (junk : UInt8) {m : HalSys} (h : Tracked m) (e : HalEvent)
    (hfine : ¬ Overruns m e) :
    absSys (halStep junk m e) = run (uartStep junk) (absSys m) (stepSeen m e) := by
  cases e with
  | call data =>
      simp only [halStep, stepSeen]
      by_cases hpc : m.pc = .idle
      · have habs : (absSys m).pc = .idle := by simp [absSys, absPc, hpc]
        rw [if_pos hpc, if_pos hpc, run_cons, run_nil, uartStep, if_pos habs, abs_call]
      · rw [if_neg hpc, if_neg hpc, run_nil]
  | main => exact abs_main junk fun byte cr1 hpc => (h.snapshot byte cr1 hpc).1
  | irq f dr =>
      rw [halStep, stepSeen]
      cases hon : m.uart.huart.cr1.rxneie with
      | false =>
          rw [irq_off junk h.bits hon, if_neg Bool.false_ne_true]
          exact abs_transmitIrq junk h.wire f
      | true =>
          have hit : (absSys m).uart.huart.rxIt = true := hon
          rw [if_pos rfl]
          cases armed_irq junk h.bits hon f dr with
          | stored full free result =>
              simp only [result, full, if_true, run_cons, run_nil, uartStep, hit]
              simp only [absSys, abs_stored h.bits hon free dr]
          | locked full held code result =>
              simp only [result, full, if_true, run_cons, run_nil, uartStep, hit]
              simp only [absSys, abs_locked h.bits hon held code dr]
          | overrun empty flagged code result => exact absurd ⟨flagged, empty, hon⟩ hfine
          | noise empty errors unflagged result =>
              simp only [result, empty, errors, Bool.false_eq_true, if_false, if_true, run_nil]
          | transmit empty clean result =>
              simp only [result, empty, clean, Bool.false_eq_true, if_false]
              exact abs_transmitIrq junk h.wire f

theorem abs_run (junk : UInt8) {m : HalSys} (h : Tracked m) {events : List HalEvent}
    (hfine : Along (fun m e => ¬ Overruns m e) (halStep junk) m events) :
    Tracked (run (halStep junk) m events) ∧ absSys (run (halStep junk) m events) =
      run (uartStep junk) (absSys m) (seen junk m events) := by
  induction events generalizing m with
  | nil => exact ⟨h, rfl⟩
  | cons e events ih =>
      obtain ⟨htracked, hrest⟩ := ih (tracked_step junk m e h hfine.1) hfine.2
      refine ⟨htracked, ?_⟩
      rw [run_cons, hrest, seen, run_append, abs_step junk h e hfine.1]

/-- Without overruns the registers and their handler do what the driver's
model does, one of its events at most for each interrupt. -/
theorem hal_refines (junk : UInt8) (events : List HalEvent)
    (hfine : Along (fun m e => ¬ Overruns m e) (halStep junk) halStart events) :
    absSys (run (halStep junk) halStart events) =
      run (uartStep junk) uartStart (seen junk halStart events) :=
  (abs_run junk tracked_start hfine).2

/-- A framing error and an overrun, each with the byte it comes with. -/
theorem hal_refines_errors :
    let frame : StatusFlags := ⟨false, true, false, false, true, false, false⟩
    let lost : StatusFlags := ⟨false, false, false, true, true, false, false⟩
    let events : List HalEvent := [.irq frame 1, .call [7], .main, .irq lost 2]
    absSys (run (halStep 0) halStart events) =
      run (uartStep 0) uartStart [.rxByte 1, .call [7], .main, .rxByte 2] := by
  intro frame lost events
  have hfine : Along (fun m e => ¬ Overruns m e) (halStep 0) halStart events := by decide +kernel
  exact hal_refines 0 events hfine

def txView (u : Uart) : ByteRing UartDriver.txDataBuffSize × List UInt8 × List (List UInt8) ×
    HalUartState × Bool × Bool :=
  (u.tx, u.accepted, u.chunks, u.huart.gState, u.huart.txIt, u.huart.lock)

theorem conserving_congr {u u' : Uart} {pc : MainPc} (h : Conserving ⟨u, pc⟩)
    (hview : txView u' = txView u) : Conserving ⟨u', pc⟩ := by
  simp only [txView, Prod.mk.injEq] at hview
  obtain ⟨htx, haccepted, hchunks, hstate, hit, hlock⟩ := hview
  obtain ⟨hstream, hsizes, hfacts⟩ := h
  constructor
  · simpa only [htx, haccepted, hchunks] using hstream
  · simpa only [hchunks] using hsizes
  · cases pc
    all_goals simpa only [PcFacts, Settled, htx, hstate, hit, hlock] using hfacts

theorem txView_abs {u u' : Driver} (h : txSide u' = txSide u) :
    txView (absUart u') = txView (absUart u) := by
  have htxe : u'.huart.cr1.txeie = u.huart.cr1.txeie := congrArg TxSide.txeie h
  have htc : u'.huart.cr1.tcie = u.huart.cr1.tcie := congrArg TxSide.tcie h
  simp only [txView, absUart, absHandle, htxe, htc, Prod.mk.injEq, true_and]
  exact ⟨congrArg TxSide.tx h, congrArg TxSide.accepted h, congrArg TxSide.chunks h,
    congrArg TxSide.gState h, congrArg TxSide.lock h⟩

def Pops (m : HalSys) : HalEvent → Prop
  | .main => PopsByte (absSys m) .main
  | _ => True

instance (m : HalSys) : ∀ e, Decidable (Pops m e)
  | .main => inferInstanceAs (Decidable (PopsByte (absSys m) .main))
  | .call _ => isTrue trivial
  | .irq _ _ => isTrue trivial

theorem conserving_hal (junk : UInt8) {m : HalSys} (hwire : OnWire (txSide m.uart) m.pc)
    (h : Conserving (absSys m)) (e : HalEvent) (hgood : Pops m e) :
    Conserving (absSys (halStep junk m e)) := by
  cases e with
  | call data =>
      rw [halStep]
      split_ifs with hpc
      · rw [abs_call]
        exact conserving_call h (by simp [absSys, absPc, hpc]) data
      · exact h
  | main =>
      have hmain := conserving_main junk h hgood
      by_cases hstore : ∃ byte cr1, m.pc = .storeCr1 byte cr1
      · obtain ⟨byte, cr1, hpc⟩ := hstore
        obtain ⟨u, pc⟩ := m
        subst hpc
        exact conserving_congr hmain rfl
      · rw [halStep, abs_main junk fun byte cr1 hpc => absurd ⟨byte, cr1, hpc⟩ hstore]
        cases hpc : m.pc with
        | loadCr1 byte => exact h
        | leave => exact h
        | _ => exact hmain
  | irq f dr =>
      have hsame {u' : Driver} (hside : txSide u' = txSide m.uart) :
          Conserving (absSys { m with uart := u' }) := conserving_congr h (txView_abs hside)
      rw [halStep]
      cases irq_cases junk m.uart f dr with
      | received on result =>
          rw [result]
          exact hsame (txSide_receive ..)
      | error on result =>
          rw [result]
          exact hsame (txSide_error ..)
      | transmit result =>
          rw [result, abs_transmitIrq junk hwire]
          refine run_preserves_mem (I := Conserving) (fun m e he hm => ?_) h
          rw [txSeen_complete he]
          exact conserving_step junk m .txComplete hm trivial

/-- When the main loop returns from `uart_transmit_it`, the handler has read the
local variable. -/
def Fetched (m : HalSys) : HalEvent → Prop
  | .main => m.pc = .leave → m.uart.huart.txFrom = .localByte → m.uart.huart.cr1.txeie = false
  | _ => True

instance (m : HalSys) : ∀ e, Decidable (Fetched m e)
  | .main => inferInstanceAs (Decidable (_ → _ → _))
  | .call _ => isTrue trivial
  | .irq _ _ => isTrue trivial

/-- No byte has been read from a variable that was gone, and none will be next. -/
structure Kept (t : TxSide) : Prop where
  kept : t.lost = false
  fresh : t.txFrom = .gone → t.txeie = false

theorem kept_startTx {u : Driver} (h : Kept (txSide u)) (chunk : List UInt8) :
    Kept (txSide (startTx u chunk)) := by
  have hcases : (halUartTransmitIt u.huart .dataChunk chunk).2 = u.huart ∨
      (halUartTransmitIt u.huart .dataChunk chunk).2.txFrom = .dataChunk := by
    rw [halUartTransmitIt]
    split_ifs
    · exact .inl rfl
    · exact .inl rfl
    · exact .inr rfl
    · exact .inl rfl
  refine ⟨h.kept, fun hgone => ?_⟩
  simp only [txSide, startTx] at hgone ⊢
  rcases hcases with hsame | hchunk
  · rw [hsame] at hgone ⊢
    exact h.fresh hgone
  · rw [hchunk] at hgone
    cases hgone

theorem kept_transmit (junk : UInt8) {u : Driver} (h : Kept (txSide u)) (f : StatusFlags) :
    Kept (txSide (transmitIrq junk u f)) := by
  obtain ⟨hkept, hfresh⟩ := h
  rw [transmitIrq]
  split_ifs with htxe htc
  · simp only [Bool.and_eq_true] at htxe
    have hnot : ¬ u.huart.txFrom = .gone := fun hgone =>
      absurd (htxe.2.symm.trans (hfresh hgone)) (by decide)
    have hlost : (u.lost || decide (u.huart.txFrom = .gone)) = false := by
      rw [decide_eq_false hnot, Bool.or_false]
      exact hkept
    rw [uartTransmitIt]
    dsimp only
    split_ifs
    · exact ⟨hlost, fun hgone => absurd hgone hnot⟩
    · exact ⟨hlost, fun hgone => absurd hgone hnot⟩
    · exact ⟨hkept, hfresh⟩
  · simp only [uartEndTransmitIt, halUartTxCpltCallback]
    split_ifs
    · refine kept_startTx ?_ _
      exact ⟨hkept, hfresh⟩
    · refine kept_startTx ?_ _
      exact ⟨hkept, hfresh⟩
    · exact ⟨hkept, hfresh⟩
  · exact ⟨hkept, hfresh⟩

theorem kept_main (junk : UInt8) {m : HalSys} (hwire : OnWire (txSide m.uart) m.pc)
    (h : Kept (txSide m.uart)) (hfetched : Fetched m .main) :
    Kept (txSide (mainStep junk m).uart) := by
  have hphase := hwire.phase
  obtain ⟨hkept, hfresh⟩ := h
  obtain ⟨u, pc⟩ := m
  rw [mainStep]
  cases pc with
  | test =>
      dsimp only
      split_ifs
      · exact ⟨hkept, hfresh⟩
      · exact ⟨hkept, hfresh⟩
  | checkState byte =>
      dsimp only
      split_ifs
      · exact ⟨hkept, hfresh⟩
      · exact ⟨hkept, hfresh⟩
  | checkLock byte =>
      dsimp only
      split_ifs
      · exact ⟨hkept, hfresh⟩
      · exact ⟨hkept, hfresh⟩
  | fillTx byte => exact ⟨hkept, fun hgone => by cases hgone⟩
  | storeCr1 byte cr1 =>
      refine ⟨hkept, fun hgone => ?_⟩
      have hlocal := hphase.2.1.source
      exact absurd (hlocal.symm.trans hgone) (by decide)
  | leave =>
      refine ⟨hkept, fun hgone => ?_⟩
      cases hsource : u.huart.txFrom with
      | dataChunk =>
          have hnot : u.huart.txFrom.afterReturn = .gone := hgone
          rw [hsource] at hnot
          cases hnot
      | localByte => exact hfetched rfl hsource
      | gone => exact hfresh hsource
  | _ => exact ⟨hkept, hfresh⟩

theorem kept_step (junk : UInt8) {m : HalSys} (hwire : OnWire (txSide m.uart) m.pc)
    (h : Kept (txSide m.uart)) (e : HalEvent) (hfetched : Fetched m e) :
    Kept (txSide (halStep junk m e).uart) := by
  cases e with
  | call data =>
      rw [halStep, callTransmit]
      dsimp only
      split_ifs
      all_goals exact ⟨h.kept, h.fresh⟩
  | main => exact kept_main junk hwire h hfetched
  | irq f dr =>
      rw [halStep]
      cases irq_cases junk m.uart f dr with
      | received on result =>
          rw [result, txSide_receive]
          exact h
      | error on result =>
          rw [result, txSide_error]
          exact h
      | transmit result =>
          rw [result]
          exact kept_transmit junk h f

def txeFlag : StatusFlags := ⟨false, false, false, false, false, true, false⟩

def tcFlag : StatusFlags := ⟨false, false, false, false, false, false, true⟩

end HostComm.HalRefines
