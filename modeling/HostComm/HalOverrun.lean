import HostComm.HalRefines

namespace HostComm.HalOverrun

open ByteRings HalUart HalWire HalRefines Runs

def Armed (m : HalSys) : Prop := m.uart.huart.rxState = .busyRx

/-- An interrupt that ends the reception for good: its byte finds the lock
taken, or it brings an overrun and no byte. -/
def Disarms (m : HalSys) : HalEvent → Prop
  | .irq f _ => m.uart.huart.cr1.rxneie = true ∧
      (f.rxne = true ∧ m.uart.huart.lock = true ∨ f.rxne = false ∧ f.ore = true)
  | _ => False

instance (m : HalSys) : ∀ e, Decidable (Disarms m e)
  | .irq f _ => inferInstanceAs (Decidable (_ ∧ (f.rxne = true ∧ _ ∨ f.rxne = false ∧ _)))
  | .call _ => isFalse id
  | .main => isFalse id

theorem rxSide_call (m : HalSys) (data : List UInt8) :
    rxSide (callTransmit m data).uart = rxSide m.uart := by
  rw [callTransmit]
  dsimp only
  split_ifs
  · rfl
  · rfl

theorem callTransmit_pc (m : HalSys) (data : List UInt8) (byte : UInt8) (cr1 : Cr1) :
    (callTransmit m data).pc ≠ .storeCr1 byte cr1 := by
  simp only [callTransmit]
  split_ifs
  · exact HalPc.noConfusion
  · exact HalPc.noConfusion

theorem ring_main (junk : UInt8) (m : HalSys) : (mainStep junk m).uart.rx = m.uart.rx ∧
    (mainStep junk m).uart.huart.rxState = m.uart.huart.rxState := by
  rw [mainStep]
  split
  all_goals first
    | exact ⟨rfl, rfl⟩
    | split_ifs
      · exact ⟨rfl, rfl⟩
      · exact ⟨rfl, rfl⟩

theorem not_overruns {m : HalSys} {e : HalEvent} (h : ¬ Disarms m e) : ¬ Overruns m e := by
  cases e with
  | call data => exact id
  | main => exact id
  | irq f dr => exact fun ⟨hover, hempty, hon⟩ => h ⟨hon, .inr ⟨hempty, hover⟩⟩

theorem armed_step (junk : UInt8) {m : HalSys} (h : Tracked m) (harmed : Armed m) (e : HalEvent)
    (hfine : ¬ Disarms m e) : Armed (halStep junk m e) := by
  cases e with
  | call data =>
      rw [halStep]
      split_ifs
      · exact (congrArg RxSide.rxState (rxSide_call m data)).trans harmed
      · exact harmed
  | main => exact (ring_main junk m).2.trans harmed
  | irq f dr =>
      have hon := h.bits.on.mpr harmed
      rw [halStep, Armed]
      cases armed_irq junk h.bits hon f dr with
      | stored full free result =>
          rw [result]
          exact harmed
      | locked full held code result => exact absurd ⟨hon, .inl ⟨full, held⟩⟩ hfine
      | overrun empty flagged code result => exact absurd ⟨hon, .inr ⟨empty, flagged⟩⟩ hfine
      | noise empty errors unflagged result =>
          rw [result]
          exact harmed
      | transmit empty clean result =>
          rw [result]
          exact (congrArg RxSide.rxState (rxSide_transmitIrq junk m.uart f)).trans harmed

theorem ore_errors {f : StatusFlags} (h : f.ore = true) : f.errors = true := by
  simp [StatusFlags.errors, h]

theorem disarm_irq (junk : UInt8) {m : HalSys} (h : Tracked m) {f : StatusFlags} {dr : UInt8}
    (hbad : Disarms m (.irq f dr)) : ∃ code, (halUartIrqHandler junk m.uart f dr).huart =
      disarmed m.uart.huart code := by
  obtain ⟨hon, hkind⟩ := hbad
  cases armed_irq junk h.bits hon f dr with
  | stored full free result =>
      rcases hkind with ⟨-, hheld⟩ | ⟨hempty, -⟩
      · exact absurd (free.symm.trans hheld) Bool.false_ne_true
      · exact absurd (hempty.symm.trans full) Bool.false_ne_true
  | locked full held code result => exact ⟨code, congrArg Driver.huart result⟩
  | overrun empty flagged code result => exact ⟨code, congrArg Driver.huart result⟩
  | noise empty errors unflagged result =>
      rcases hkind with ⟨hfull, -⟩ | ⟨-, hover⟩
      · exact absurd (empty.symm.trans hfull) Bool.false_ne_true
      · exact absurd (unflagged.symm.trans hover) Bool.false_ne_true
  | transmit empty clean result =>
      rcases hkind with ⟨hfull, -⟩ | ⟨-, hover⟩
      · exact absurd (empty.symm.trans hfull) Bool.false_ne_true
      · exact absurd (clean.symm.trans (ore_errors hover)) Bool.false_ne_true

/-- Nothing in the program starts a reception that has been given up. -/
def Frozen (ring : ByteRing UartDriver.rxDataBuffSize) (m : HalSys) : Prop :=
  m.uart.rx = ring ∧ m.uart.huart.rxState = .ready

theorem receive_ready {u : Driver} (h : u.huart.rxState = .ready) (dr : UInt8) :
    uartReceiveIt u dr = u := by
  have hne : ¬ u.huart.rxState = .busyRx := by simp [h]
  rw [uartReceiveIt, if_neg hne]

theorem frozen_error {u : Driver} (h : u.huart.rxState = .ready) (f : StatusFlags) (dr : UInt8) :
    (errorIrq u f dr).rx = u.rx ∧ (errorIrq u f dr).huart.rxState = .ready := by
  have hkeep := receive_ready (u := u.set { u.huart with errorCode := collectErrors u.huart f }) h dr
  rw [errorIrq]
  simp only [hkeep, ite_self]
  split_ifs
  · exact ⟨rfl, h⟩
  · exact ⟨rfl, rfl⟩
  · exact ⟨rfl, h⟩

theorem frozen_step (junk : UInt8) {ring : ByteRing UartDriver.rxDataBuffSize} (m : HalSys)
    (e : HalEvent) (h : Frozen ring m) : Frozen ring (halStep junk m e) := by
  obtain ⟨hring, hready⟩ := h
  cases e with
  | call data =>
      rw [halStep]
      split_ifs
      · have hside := rxSide_call m data
        exact ⟨(congrArg RxSide.rx hside).trans hring, (congrArg RxSide.rxState hside).trans hready⟩
      · exact ⟨hring, hready⟩
  | main =>
      obtain ⟨hsame, hstate⟩ := ring_main junk m
      exact ⟨hsame.trans hring, hstate.trans hready⟩
  | irq f dr =>
      rw [halStep]
      cases irq_cases junk m.uart f dr with
      | received on result =>
          rw [result, receive_ready hready]
          exact ⟨hring, hready⟩
      | error on result =>
          obtain ⟨hsame, hstate⟩ := frozen_error hready f dr
          rw [result]
          exact ⟨hsame.trans hring, hstate⟩
      | transmit result =>
          have hside := rxSide_transmitIrq junk m.uart f
          rw [result]
          exact ⟨(congrArg RxSide.rx hside).trans hring, (congrArg RxSide.rxState hside).trans hready⟩

/-- Reception goes on exactly until the first interrupt that disarms the
receiver; from then on the interrupts store nothing more in the receive ring. -/
theorem reception_lasts (junk : UInt8) (events : List HalEvent) :
    let m := run (halStep junk) halStart events
    (Armed m ↔ Along (fun m e => ¬ Disarms m e) (halStep junk) halStart events) ∧
      ∀ before e after, events = before ++ e :: after →
        Along (fun m e => ¬ Disarms m e) (halStep junk) halStart before →
        Disarms (run (halStep junk) halStart before) e →
        m.uart.rx = (run (halStep junk) halStart (before ++ [e])).uart.rx := by
  intro m
  have hkeep (m : HalSys) (e : HalEvent) (h : Tracked m ∧ Armed m) (hfine : ¬ Disarms m e) :
      Tracked (halStep junk m e) ∧ Armed (halStep junk m e) :=
    ⟨tracked_step junk m e h.1 (not_overruns hfine), armed_step junk h.1 h.2 e hfine⟩
  have hbreak (m : HalSys) (e : HalEvent) (h : Tracked m ∧ Armed m) (hbad : ¬ ¬ Disarms m e) :
      (halStep junk m e).uart.huart.rxState = .ready := by
    cases e with
    | call data => exact absurd id hbad
    | main => exact absurd id hbad
    | irq f dr =>
        obtain ⟨code, hresult⟩ := disarm_irq junk h.1 (not_not.mp hbad)
        exact congrArg HalHandle.rxState hresult
  have hstay (m : HalSys) (e : HalEvent) (h : m.uart.huart.rxState = .ready) :
      (halStep junk m e).uart.huart.rxState = .ready := (frozen_step junk m e ⟨rfl, h⟩).2
  have hsplit := run_splits (A := fun _ _ => True) (P := fun m e => ¬ Disarms m e)
    (G := fun m => Tracked m ∧ Armed m) (B := fun m : HalSys => m.uart.huart.rxState = .ready)
    (fun m e h _ => hkeep m e h) (fun m e h _ => hbreak m e h) (fun m e h _ => hstay m e h)
    ⟨tracked_start, rfl⟩ (along_true (halStep junk) halStart events)
  constructor
  · constructor
    · intro harmed
      rcases hsplit with ⟨hall, -⟩ | ⟨-, hready⟩
      · exact hall
      · exact absurd (hready.symm.trans harmed) (by decide)
    · intro hall
      rcases hsplit with ⟨-, -, harmed⟩ | ⟨hnot, -⟩
      · exact harmed
      · exact absurd hall hnot
  · rintro before e after rfl hbefore hbad
    have hgood := run_invariant (I := fun m => Tracked m ∧ Armed m) hkeep ⟨tracked_start, rfl⟩ hbefore
    have hready := hbreak _ e hgood (not_not.mpr hbad)
    obtain ⟨ring, hring⟩ : ∃ ring, ring = (run (halStep junk) halStart (before ++ [e])).uart.rx :=
      ⟨_, rfl⟩
    have hfrozen : Frozen ring (run (halStep junk) halStart (before ++ [e])) := by
      refine ⟨hring.symm, ?_⟩
      rw [run_append]
      exact hready
    have hend := run_preserves (I := Frozen ring) (frozen_step junk) hfrozen after
    rw [← run_append, List.append_assoc, List.singleton_append] at hend
    exact hend.1.trans hring

/-- An overrun without a byte, and two bytes that nobody reads. -/
theorem reception_lasts_overrun :
    let lost : StatusFlags := ⟨false, false, false, true, false, false, false⟩
    let byte : StatusFlags := ⟨false, false, false, false, true, false, false⟩
    (run (halStep 0) halStart ([.irq byte 1] ++ .irq lost 0 :: [.irq byte 2, .irq byte 3])).uart.rx =
      (run (halStep 0) halStart ([.irq byte 1] ++ [.irq lost 0])).uart.rx := by
  intro lost byte
  exact (reception_lasts 0 _).2 [.irq byte 1] (.irq lost 0) [.irq byte 2, .irq byte 3] rfl
    (by decide +kernel) (by decide +kernel)

theorem irq_stuck (junk : UInt8) {u : Driver} (hon : u.huart.cr1.rxneie = true)
    (hready : u.huart.rxState = .ready) {f : StatusFlags} (hfull : f.rxne = true)
    (hclean : f.errors = false) (dr : UInt8) : halUartIrqHandler junk u f dr = u := by
  simp only [halUartIrqHandler, hclean, hfull, hon, Bool.not_false, Bool.and_self, if_true]
  exact receive_ready hready dr

theorem irq_unstuck (junk : UInt8) {u : Driver} (hon : u.huart.cr1.rxneie = true)
    (hready : u.huart.rxState = .ready) {f : StatusFlags} (hover : f.ore = true) (dr : UInt8) :
    (halUartIrqHandler junk u f dr).huart.cr1.rxneie = false := by
  have hcode : (collectErrors u.huart f).ore = true := by simp [collectErrors, hover, hon]
  have hne : collectErrors u.huart f ≠ .none := fun hnone => by simp [hnone, ErrorCode.none] at hcode
  have hkeep := receive_ready (u := u.set { u.huart with errorCode := collectErrors u.huart f })
    hready dr
  simp only [halUartIrqHandler, ore_errors hover, hon, Bool.not_true, Bool.false_and, Bool.true_and,
    Bool.true_or, Bool.or_true, Bool.false_eq_true, if_false, if_true]
  rw [errorIrq]
  simp only [if_neg hne, hkeep, ite_self]
  simp only [Driver.set, hcode, if_true]
  rfl

structure Off (m : HalSys) : Prop where
  state : m.uart.huart.rxState = .ready
  bits : m.uart.huart.cr1.rxneie = false ∧ m.uart.huart.cr1.peie = false ∧ m.uart.huart.eie = false
  copy : ∀ byte cr1, m.pc = .storeCr1 byte cr1 → cr1.rxneie = false ∧ cr1.peie = false

theorem off_side {u u' : Driver} {pc : HalPc} (h : Off ⟨u, pc⟩) (hside : rxSide u' = rxSide u) :
    Off ⟨u', pc⟩ := by
  obtain ⟨hready, ⟨hrxneie, hpeie, heie⟩, hcopy⟩ := h
  refine ⟨(congrArg RxSide.rxState hside).trans hready, ⟨?_, ?_, ?_⟩, hcopy⟩
  · exact (congrArg RxSide.rxneie hside).trans hrxneie
  · exact (congrArg RxSide.peie hside).trans hpeie
  · exact (congrArg RxSide.eie hside).trans heie

theorem off_main (junk : UInt8) {m : HalSys} (h : Off m) : Off (mainStep junk m) := by
  obtain ⟨hready, hbits, hcopy⟩ := h
  have hnone {u : Driver} {pc : HalPc} (hu : rxSide u = rxSide m.uart)
      (hpc : ∀ byte cr1, pc ≠ .storeCr1 byte cr1) : Off ⟨u, pc⟩ :=
    off_side (u := m.uart) ⟨hready, hbits, fun byte cr1 hp => absurd hp (hpc byte cr1)⟩ hu
  rw [mainStep]
  cases hpc : m.pc with
  | idle => exact ⟨hready, hbits, hcopy⟩
  | loadCr1 byte =>
      refine ⟨hready, hbits, fun byte cr1 hp => ?_⟩
      cases hp
      exact ⟨hbits.1, hbits.2.1⟩
  | storeCr1 byte cr1 =>
      obtain ⟨hrxneie, hpeie⟩ := hcopy byte cr1 hpc
      exact ⟨hready, ⟨hrxneie, hpeie, hbits.2.2⟩, fun _ _ hp => by cases hp⟩
  | test =>
      dsimp only
      split_ifs
      · exact hnone rfl fun _ _ hp => by cases hp
      · exact hnone rfl fun _ _ hp => by cases hp
  | checkState byte =>
      dsimp only
      split_ifs
      · exact hnone rfl fun _ _ hp => by cases hp
      · exact hnone rfl fun _ _ hp => by cases hp
  | checkLock byte =>
      dsimp only
      split_ifs
      · exact hnone rfl fun _ _ hp => by cases hp
      · exact hnone rfl fun _ _ hp => by cases hp
  | _ => exact hnone rfl fun _ _ hp => by cases hp

theorem off_step (junk : UInt8) (m : HalSys) (e : HalEvent) (h : Off m) : Off (halStep junk m e) := by
  cases e with
  | call data =>
      rw [halStep]
      split_ifs
      · exact off_side (u := m.uart)
          ⟨h.state, h.bits, fun byte cr1 hp => absurd hp (callTransmit_pc m data byte cr1)⟩
          (rxSide_call m data)
      · exact h
  | main => exact off_main junk h
  | irq f dr =>
      have hhandler : halUartIrqHandler junk m.uart f dr = transmitIrq junk m.uart f := by
        obtain ⟨hrxneie, hpeie, heie⟩ := h.bits
        simp [halUartIrqHandler, hrxneie, hpeie, heie]
      rw [halStep, hhandler]
      exact off_side h (rxSide_transmitIrq junk m.uart f)

/-- The receive interrupt is on, also in a copy that the main loop holds of the
register, but no reception waits for a byte. -/
structure Stuck (ring : ByteRing UartDriver.rxDataBuffSize) (m : HalSys) : Prop where
  frozen : Frozen ring m
  on : m.uart.huart.cr1.rxneie = true
  copy : ∀ byte cr1, m.pc = .storeCr1 byte cr1 → cr1.rxneie = true

theorem stuck_main (junk : UInt8) {ring : ByteRing UartDriver.rxDataBuffSize} {m : HalSys}
    (h : Stuck ring m) : Stuck ring (mainStep junk m) := by
  have hfrozen := frozen_step junk m .main h.frozen
  rw [halStep] at hfrozen
  obtain ⟨-, hon, hcopy⟩ := h
  refine ⟨hfrozen, ?_, ?_⟩
  · rw [mainStep]
    cases hpc : m.pc with
    | storeCr1 byte cr1 => exact hcopy byte cr1 hpc
    | _ =>
        dsimp only
        first
          | exact hon
          | split_ifs
            · exact hon
            · exact hon
  · intro byte cr1 hnext
    rw [mainStep] at hnext
    cases hpc : m.pc with
    | loadCr1 byte' =>
        rw [hpc] at hnext
        cases hnext
        exact hon
    | idle =>
        rw [hpc] at hnext
        exact hcopy byte cr1 hnext
    | _ =>
        rw [hpc] at hnext
        dsimp only at hnext
        first
          | cases hnext
          | split_ifs at hnext

theorem stuck_irq (junk : UInt8) {u : Driver} (hon : u.huart.cr1.rxneie = true)
    (hready : u.huart.rxState = .ready) {f : StatusFlags} (hclean : f.errors = false) (dr : UInt8) :
    rxSide (halUartIrqHandler junk u f dr) = rxSide u := by
  cases hfull : f.rxne with
  | true => rw [irq_stuck junk hon hready hfull hclean]
  | false =>
      have hserves : halUartIrqHandler junk u f dr = transmitIrq junk u f := by
        simp [halUartIrqHandler, hfull, hclean]
      rw [hserves, rxSide_transmitIrq]

def ErrorFree : HalEvent → Prop
  | .irq f _ => f.errors = false
  | _ => True

instance : ∀ e, Decidable (ErrorFree e)
  | .irq f _ => inferInstanceAs (Decidable (f.errors = false))
  | .call _ => isTrue trivial
  | .main => isTrue trivial

theorem stuck_step (junk : UInt8) {ring : ByteRing UartDriver.rxDataBuffSize} {m : HalSys}
    {e : HalEvent} (hclean : ErrorFree e) (h : Stuck ring m) : Stuck ring (halStep junk m e) := by
  have hfrozen := frozen_step junk m e h.frozen
  cases e with
  | call data =>
      refine ⟨hfrozen, ?_, ?_⟩
      · rw [halStep]
        split_ifs
        · exact (congrArg RxSide.rxneie (rxSide_call m data)).trans h.on
        · exact h.on
      · intro byte cr1 hnext
        rw [halStep] at hnext
        split_ifs at hnext
        · exact absurd hnext (callTransmit_pc m data byte cr1)
        · exact h.copy byte cr1 hnext
  | main => exact stuck_main junk h
  | irq f dr =>
      have hside := stuck_irq junk h.on h.frozen.2 (f := f) hclean dr
      exact ⟨hfrozen, (congrArg RxSide.rxneie hside).trans h.on, h.copy⟩

theorem stuck_bytes (junk : UInt8) {ring : ByteRing UartDriver.rxDataBuffSize} {m : HalSys}
    (h : Stuck ring m) {irqs : List (StatusFlags × UInt8)}
    (hirqs : ∀ p ∈ irqs, p.1.rxne = true ∧ p.1.errors = false) :
    run (halStep junk) m (irqs.map fun p => .irq p.1 p.2) = m := by
  induction irqs with
  | nil => rfl
  | cons p irqs ih =>
      obtain ⟨⟨hfull, hclean⟩, hrest⟩ := List.forall_mem_cons.mp hirqs
      have hsame : halStep junk m (.irq p.1 p.2) = m := by
        rw [halStep, irq_stuck junk h.on h.frozen.2 hfull hclean]
      rw [List.map_cons, run_cons, hsame]
      exact ih hrest

/-- What is left of a reception that was given up. Between the load and the
store that enable the transmit interrupt it leaves the receive interrupt on:
whatever the main loop and the handler do, the handler then neither reads a byte
nor serves the transmit interrupt while a byte waits, up to the next overrun.
Anywhere else the interrupt is off for good. -/
theorem disarmed_aftermath (junk : UInt8) (before : List HalEvent) (f : StatusFlags) (dr : UInt8)
    (hbefore : Along (fun m e => ¬ Disarms m e) (halStep junk) halStart before) :
    let m := run (halStep junk) halStart before
    Disarms m (.irq f dr) →
      ((∀ byte cr1, m.pc ≠ .storeCr1 byte cr1) → ∀ after,
        (run (halStep junk) m (.irq f dr :: after)).uart.huart.cr1.rxneie = false) ∧
      (∀ byte cr1, m.pc = .storeCr1 byte cr1 →
        let stuck := run (halStep junk) m [.irq f dr, .main]
        stuck.uart.huart.cr1.rxneie = true ∧ stuck.uart.huart.cr1.txeie = true ∧
          ∀ after : List HalEvent, (∀ e ∈ after, ErrorFree e) →
            let later := run (halStep junk) stuck after
            later.uart.huart.cr1.rxneie = true ∧ later.uart.rx = stuck.uart.rx ∧
              (∀ irqs : List (StatusFlags × UInt8),
                (∀ p ∈ irqs, p.1.rxne = true ∧ p.1.errors = false) →
                  run (halStep junk) later (irqs.map fun p => .irq p.1 p.2) = later) ∧
              ∀ f' dr', f'.ore = true →
                (halStep junk later (.irq f' dr')).uart.huart.cr1.rxneie = false) := by
  intro m hbad
  obtain ⟨htracked, -⟩ : Tracked m ∧ Armed m :=
    run_invariant (I := fun m => Tracked m ∧ Armed m)
      (fun m e h hfine => ⟨tracked_step junk m e h.1 (not_overruns hfine),
        armed_step junk h.1 h.2 e hfine⟩) ⟨tracked_start, rfl⟩ hbefore
  obtain ⟨code, hresult⟩ := disarm_irq junk htracked hbad
  constructor
  · intro hpc after
    have hoff : Off (halStep junk m (.irq f dr)) :=
      ⟨congrArg HalHandle.rxState hresult,
        ⟨congrArg (fun h => h.cr1.rxneie) hresult, congrArg (fun h => h.cr1.peie) hresult,
          congrArg HalHandle.eie hresult⟩,
        fun byte cr1 hp => absurd hp (hpc byte cr1)⟩
    exact (run_preserves (off_step junk) hoff after).bits.1
  · intro byte cr1 hpc stuck
    have hmain : stuck = mainStep junk (halStep junk m (.irq f dr)) := rfl
    have hon : stuck.uart.huart.cr1 = { cr1 with txeie := true } := by
      rw [hmain, mainStep]
      simp only [halStep, hpc]
      rfl
    have hrxneie : stuck.uart.huart.cr1.rxneie = true := by
      rw [hon]
      exact (htracked.snapshot byte cr1 hpc).1.trans hbad.1
    have hstuck : Stuck stuck.uart.rx stuck := by
      refine ⟨⟨rfl, (ring_main junk _).2.trans (congrArg HalHandle.rxState hresult)⟩, hrxneie, ?_⟩
      intro byte' cr1' hnext
      rw [hmain, mainStep] at hnext
      simp only [halStep, hpc] at hnext
      cases hnext
    refine ⟨hrxneie, by rw [hon], ?_⟩
    intro after hafter later
    have hlater : Stuck stuck.uart.rx later :=
      run_preserves_mem (I := Stuck stuck.uart.rx)
        (fun _ e he hs => stuck_step junk (hafter e he) hs) hstuck
    exact ⟨hlater.on, hlater.frozen.1, fun irqs hirqs => stuck_bytes junk hlater hirqs,
      fun f' dr' hover => irq_unstuck junk hlater.on hlater.frozen.2 hover dr'⟩

/-- The overrun comes when the register has been loaded for the byte 7. The byte
goes out, the next one is not sent while a received byte waits. -/
theorem disarmed_aftermath_loaded :
    let lost : StatusFlags := ⟨false, false, false, true, false, false, false⟩
    let byte : StatusFlags := ⟨false, false, false, false, true, true, false⟩
    let m := run (halStep 0) halStart ([.call [7]] ++ List.replicate 9 .main)
    let stuck := run (halStep 0) m [.irq lost 0, .main]
    let later := run (halStep 0) stuck [.irq txeFlag 0, .main, .irq byte 1, .call [8], .main, .main]
    later.uart.wire = [7] ∧ later.uart.tx.contents = [8] ∧
      run (halStep 0) later [.irq byte 2, .irq byte 3] = later := by
  intro lost byte m stuck later
  have hafter := disarmed_aftermath 0 ([.call [7]] ++ List.replicate 9 .main) lost 0
    (by decide +kernel) (by decide +kernel)
  have hstuck := (hafter.2 7 ⟨false, false, true, true⟩ (by decide +kernel)).2.2
    [.irq txeFlag 0, .main, .irq byte 1, .call [8], .main, .main] (by decide)
  exact ⟨by decide +kernel, by decide +kernel, hstuck.2.2.1 [(byte, 2), (byte, 3)] (by decide)⟩

end HostComm.HalOverrun
