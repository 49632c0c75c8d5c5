import HostComm.RxSettle

namespace HostComm.RxSessions

open Protocol TimeEvents UartDriver ByteRings TxQueue TxSend RxFsm RxStream RxParser RxMoves
open RxChunk RxResync RxFrames RxProgress RxDeadline RxSettle Runs

def phase (c : RxCore) : Nat :=
  match c.state with
  | .preambleProc => if c.internal = .preambleOk then 1 else 0
  | .headerProc => if c.internal = .headerOk then 6 else if c.internal = .headerError then 1 else 0
  | .payloadProc => if c.internal = .payloadOk then 4 else 5
  | .crcAndPostambleProc =>
      if c.internal = .crcAndPostambleOk then 2
      else if c.internal = .crcError ∨ c.internal = .postambleError then 1 else 3
  | .packetReady => 1
  | _ => 0

def effort (c : RxCore) (stored : Nat) : Nat := 2 * stored + phase c

theorem phase_react {c c' : RxCore} {out : List RxOutcome} (h : react c = some (c', out)) :
    phase c' < phase c := by
  unfold react at h
  split at h
  all_goals cases h
  case h_1 hs hi => simp [phase, hs, hi]
  case h_2 hs hi =>
    split_ifs
    · simp [phase, hs, hi]
    · simp [phase, hs, hi]
  case h_3 hs hi => simp [phase, hs, hi]
  case h_4 hs hi => simp [phase, hs, hi]
  case h_5 hs hi => simp [phase, hs, hi]
  case h_6 hs hi => simp [phase, hs, hi]
  case h_7 hs hi => simp [phase, hs, hi]
  case h_8 hs => simp [phase, hs]

theorem phase_during (env : Env) {c : RxCore} {t : List UInt8}
    (ha : c.state ≠ .invalid ∧ c.state ≠ .last) (hreact : react c = none)
    (hneed : need c ≤ t.length) :
    phase (during env c t).1 < 2 * (during env c t).2.length + phase c := by
  cases hs : c.state with
  | preambleProc =>
      simp only [need, hs] at hneed
      have htook : 0 < (scan protocolPreamble t).length :=
        scan_length_pos _ (Nat.lt_of_lt_of_le (by decide) hneed)
      have hnext : phase (during env c t).1 ≤ 1 := by
        simp only [during, hs, phase]
        split_ifs
        all_goals decide
      have hbytes : (during env c t).2 = scan protocolPreamble t := by simp only [during, hs]
      rw [hbytes]
      omega
  | headerProc =>
      simp only [need, hs] at hneed
      have hbytes : (during env c t).2.length = 4 := by
        simp only [during, hs, List.length_take]
        exact Nat.min_eq_left hneed
      have hnext : phase (during env c t).1 ≤ 6 := by
        simp only [during, hs, phase]
        split_ifs
        all_goals decide
      rw [hbytes]
      omega
  | payloadProc =>
      have hi := (react_payload hs).mp hreact
      have hnow : phase c = 5 := by simp only [phase, hs, if_neg hi]
      have hnext : phase (during env c t).1 = 4 := by simp only [during, hs, phase, if_true]
      omega
  | crcAndPostambleProc =>
      obtain ⟨hok, hcrc, hpost⟩ := (react_crc hs).mp hreact
      have hnow : phase c = 3 := by
        simp only [phase, hs, if_neg hok, if_neg (not_or.mpr ⟨hcrc, hpost⟩)]
      have hnext : phase (during env c t).1 ≤ 2 := by
        by_cases hvalue : rxCrc env c.packet = LittleEndian.word32 (t.take 4)
        · simp [during, hs, phase, hvalue]
        · simp [during, hs, phase, hvalue]
      omega
  | packetReady => exact absurd hs (ne_ready_of_react hreact)
  | invalid => exact absurd hs ha.1
  | last => exact absurd hs ha.2

theorem effort_advance (env : Env) {c c' : RxCore} {w t : List UInt8} {out : List RxOutcome}
    (ha : c.state ≠ .invalid ∧ c.state ≠ .last) (h : advance env c (w ++ t) = some (c', w, out)) :
    effort c' t.length < effort c (w ++ t).length := by
  rw [effort, effort, List.length_append]
  rw [advance] at h
  split at h
  · next hreact =>
      cases h
      have hless := phase_react hreact
      simpa using hless
  · next hreact =>
      split_ifs at h with hneed
      have hless := phase_during env ha hreact hneed
      rw [Option.some.injEq, Prod.mk.injEq, Prod.mk.injEq] at h
      rw [h.1, h.2.1] at hless
      omega

/-- What keeps a machine going: the stored bytes are few enough for their
number to be seen. -/
structure Going (s : RxSys) : Prop where
  active : hostCommRxFsmIsActive s.handle = true
  seen : s.rx.contents.length ≤ 255

def effortOf (s : RxSys) : Nat := effort (coreOf s.handle) s.rx.contents.length

/-- The calls that a machine which has got a batch can need. -/
abbrev batchCalls : Nat := 2 * 255 + 7

theorem phase_le (c : RxCore) : phase c ≤ 6 := by
  cases hs : c.state
  all_goals simp only [phase, hs]
  case preambleProc => split_ifs <;> decide
  case headerProc => split_ifs <;> decide
  case payloadProc => split_ifs <;> decide
  case crcAndPostambleProc => split_ifs <;> decide
  all_goals decide

theorem effort_lt {s : RxSys} (h : Going s) : effortOf s < batchCalls :=
  Nat.lt_succ_of_le (Nat.add_le_add (Nat.mul_le_mul_left 2 h.seen) (phase_le _))

structure Eases (env : Env) (s s' : RxSys) (call : Bool) : Prop where
  going : Going s'
  settled : Settled env s → Settled env s'
  falls : ¬ Settled env s → effortOf s' + (if call then 1 else 0) ≤ effortOf s

theorem eases_call (env : Env) {s : RxSys} {irqs : List (List UInt8)} (h : Going s)
    (hquiet : ¬ Raised s.handle) (hpaused : Paused s (.run irqs)) :
    Eases env s (runCall env s irqs) true := by
  obtain ⟨harr, htaken⟩ := hpaused
  have hnone : irqs.flatten = [] := (List.append_eq_nil_iff.mp harr).1
  have hgoing : Going (runCall env s irqs) :=
    ⟨active_run env h.active irqs, (contents_silent env hnone).trans h.seen⟩
  have hran := ran_runCall env (overflows_silent env hnone (s := s))
  rw [getRxDataLen_silent hnone, Nat.mod_eq_of_lt (Nat.lt_succ_of_le h.seen)] at hran
  cases hran with
  | stay flow core waits responses =>
      have hsame : s.rx.contents = (runCall env s irqs).rx.contents := flow_silent env hnone flow
      have hsettled : Settled env s := by
        rcases waits with ⟨hready, hno⟩ | ⟨hreact, hwait⟩
        · exact absurd (htaken rfl hready) hno
        · rw [Settled, advance]
          simp only [hreact, if_neg (Nat.not_le_of_lt hwait)]
      refine ⟨hgoing, fun _ => ?_, fun hno => absurd hsettled hno⟩
      rwa [Settled, core, ← hsame]
  | advance w out flow next enough ready responses =>
      have hless := effort_advance env (active_ne h.active) next
      rw [← flow_silent env hnone flow] at hless next
      refine ⟨hgoing, fun hsettled => ?_, fun _ => hless⟩
      rw [Settled, next] at hsettled
      cases hsettled
  | timeout raised consumed core responses => exact absurd raised hquiet

theorem eases_step (env : Env) {s : RxSys} {e : RxEvent} (h : Going s) (hquiet : Quiet s e)
    (hpaused : Paused s e) : Eases env s (rxStep env s e) (rxCall e) := by
  cases e with
  | run irqs => exact eases_call env h hquiet hpaused
  | rxByte byte => exact absurd hpaused.1 (List.cons_ne_nil _ _)
  | tick => exact ⟨⟨h.active, h.seen⟩, id, fun _ => Nat.le_refl _⟩
  | external event => exact ⟨⟨h.active, h.seen⟩, id, fun _ => Nat.le_refl _⟩

theorem pause_eases (env : Env) {s : RxSys} {events : List RxEvent} (h : Going s)
    (hquiet : Along Quiet (rxStep env) s events) (hpaused : Along Paused (rxStep env) s events)
    (hn : Settled env s ∨ effortOf s < events.countP rxCall) :
    Settled env (run (rxStep env) s events) := by
  induction events generalizing s with
  | nil => exact hn.resolve_right (Nat.not_lt_zero _)
  | cons e events ih =>
      have hone := eases_step env h hquiet.1 hpaused.1
      refine ih hone.going hquiet.2 hpaused.2 ?_
      by_cases hsettled : Settled env s
      · exact .inl (hone.settled hsettled)
      · have hless := hn.resolve_left hsettled
        have hfalls := hone.falls hsettled
        rw [List.countP_cons] at hless
        exact .inr (by omega)

theorem room_step (env : Env) {s : RxSys} {e : RxEvent} (hquiet : Quiet s e)
    (hroom : s.rx.contents.length + (arrivals [e]).length ≤ rxDataBuffSize) :
    Undisturbed env s e ∧
      (rxStep env s e).rx.contents.length ≤ s.rx.contents.length + (arrivals [e]).length := by
  cases e with
  | run irqs =>
      have harr : arrivals [.run irqs] = irqs.flatten := List.append_nil _
      rw [harr] at hroom ⊢
      have ho := room_runCall env hroom
      have hflow {w : List UInt8} (hw : Flow s w (runCall env s irqs)) :
          (runCall env s irqs).rx.contents.length ≤ s.rx.contents.length + irqs.flatten.length := by
        obtain ⟨new, hnew, hf⟩ := hw.flow
        have hsame : irqs.flatten = new :=
          List.append_cancel_left ((arrived_runCall env s irqs).symm.trans hnew)
        have hlen := congrArg List.length (hf ho)
        rw [List.length_append, List.length_append, ← hsame] at hlen
        exact (Nat.le_add_left _ _).trans_eq hlen.symm
      refine ⟨⟨ho, hquiet⟩, ?_⟩
      cases ran_runCall env ho with
      | stay flow core waits responses => exact hflow flow
      | advance w out flow next enough ready responses => exact hflow flow
      | timeout raised consumed core responses => exact absurd raised hquiet
  | rxByte byte =>
      have ho : (rxByte s byte).overflows = s.overflows := room_rxBytes [byte] s hroom
      refine ⟨⟨ho, trivial⟩, ?_⟩
      change (rxByte s byte).rx.contents.length ≤ _
      rw [contents_rxByte ho, List.length_append]
      exact Nat.le_refl _
  | tick => exact ⟨⟨rfl, trivial⟩, Nat.le_add_right _ _⟩
  | external event => exact ⟨⟨rfl, trivial⟩, Nat.le_add_right _ _⟩

theorem room_run (env : Env) {s : RxSys} {events : List RxEvent}
    (hquiet : Along Quiet (rxStep env) s events)
    (hroom : s.rx.contents.length + (arrivals events).length ≤ rxDataBuffSize) :
    Along (Undisturbed env) (rxStep env) s events ∧
      (run (rxStep env) s events).rx.contents.length ≤
        s.rx.contents.length + (arrivals events).length := by
  induction events generalizing s with
  | nil => exact ⟨trivial, Nat.le_refl _⟩
  | cons e events ih =>
      rw [arrivals_cons, List.length_append] at hroom ⊢
      obtain ⟨hone, hlen⟩ := room_step env hquiet.1 (by omega)
      obtain ⟨hrest, hend⟩ := ih hquiet.2 (by omega)
      exact ⟨⟨hone, hrest⟩, by rw [run_cons]; omega⟩

theorem arrivals_append (before after : List RxEvent) :
    arrivals (before ++ after) = arrivals before ++ arrivals after := by
  induction before with
  | nil => rfl
  | cons e before ih =>
      rw [List.cons_append, arrivals_cons, ih, arrivals_cons e before, List.append_assoc]

/-- Some pieces of a stream with the arrivals, calls and ticks among which they
come. The length check can count their bytes. -/
structure Batch where
  pieces : List Piece
  schedule : List RxEvent
  complete : arrivals schedule = pieces.flatMap Piece.bytes
  short : (arrivals schedule).length ≤ 255

def batchStep (env : Env) (s : RxSys) (b : Batch) : RxSys := run (rxStep env) s b.schedule

/-- No call of the schedule finds an expired timer, and the host waits until the
machine has settled before it sends more. -/
def AwaitsRest (env : Env) (s : RxSys) (b : Batch) : Prop :=
  Along Quiet (rxStep env) s b.schedule ∧ Settled env (batchStep env s b)

instance (env : Env) (s : RxSys) (b : Batch) : Decidable (AwaitsRest env s b) :=
  inferInstanceAs (Decidable (_ ∧ _))

theorem run_batches (env : Env) (s : RxSys) (batches : List Batch) :
    run (batchStep env) s batches = run (rxStep env) s (batches.flatMap Batch.schedule) := by
  induction batches generalizing s with
  | nil => rfl
  | cons b batches ih => rw [run_cons, ih, List.flatMap_cons, run_append, batchStep]

theorem arrivals_batches (batches : List Batch) :
    arrivals (batches.flatMap Batch.schedule) =
      (batches.flatMap Batch.pieces).flatMap Piece.bytes := by
  induction batches with
  | nil => rfl
  | cons b batches ih =>
      rw [List.flatMap_cons, arrivals_append, b.complete, ih, List.flatMap_cons, List.flatMap_append]

section sessions

variable (env : Env) (h : HostCommRxFsm) (q : HostCommTxQueue) (batches : List Batch)
variable (hrest : Along (AwaitsRest env) (batchStep env) (hostCommRxFsmInit (.start h q)) batches)

include hrest

theorem sessions_rest :
    let s := run (batchStep env) (hostCommRxFsmInit (.start h q)) batches
    Along (Undisturbed env) (rxStep env) (hostCommRxFsmInit (.start h q))
        (batches.flatMap Batch.schedule) ∧
      outcomes s = expected env .zero (batches.flatMap Batch.pieces) ∧ s.rx.contents = [] ∧
        s.handle.state = .preambleProc := by
  induction batches using List.reverseRecOn with
  | nil => exact ⟨trivial, rfl, contents_start h q, rfl⟩
  | append_singleton batches b ih =>
      obtain ⟨hbefore, ⟨hquiet, hsettled⟩, -⟩ := along_append.mp hrest
      obtain ⟨hu, -, hempty, -⟩ := ih hbefore
      have hroom : (run (batchStep env) (hostCommRxFsmInit (.start h q)) batches).rx.contents.length +
          (arrivals b.schedule).length ≤ rxDataBuffSize := by
        rw [hempty, List.length_nil, Nat.zero_add]
        exact b.short.trans (by decide)
      have hflat : (batches ++ [b]).flatMap Batch.schedule =
          batches.flatMap Batch.schedule ++ b.schedule := by
        rw [List.flatMap_append, List.flatMap_singleton]
      have hall : Along (Undisturbed env) (rxStep env) (hostCommRxFsmInit (.start h q))
          ((batches ++ [b]).flatMap Batch.schedule) := by
        rw [hflat, along_append]
        refine ⟨hu, ?_⟩
        rw [← run_batches]
        exact (room_run env hquiet hroom).1
      have hnil : ([] : List UInt8).length < 4 := by decide
      have hend := settled_at_end env h q ((batches ++ [b]).flatMap Batch.pieces) hnil hall
        (by rw [arrivals_batches, List.append_nil]) (by
          rw [← run_batches, run_append]
          exact hsettled)
      rw [← run_batches] at hend
      exact ⟨hall, hend.1, hend.2.1, hend.2.2.1⟩

end sessions

/-- Batches that the length check can count come through whole, in whatever
schedule their bytes arrive and the machine is called: every frame and every
refused header gets its outcome. That the machine settles after a batch is a
matter of enough calls. As in `frames_received` the bytes behind the packet keep
their values. -/
theorem sessions_received (env : Env) (h : HostCommRxFsm) (q : HostCommTxQueue)
    (batches : List Batch)
    (hrest : Along (AwaitsRest env) (batchStep env) (hostCommRxFsmInit (.start h q)) batches) :
    let s := run (batchStep env) (hostCommRxFsmInit (.start h q)) batches
    outcomes s = expected env .zero (batches.flatMap Batch.pieces) ∧ s.rx.contents = [] ∧
      ∀ events pause, (arrivals events).length ≤ 255 →
        Along Quiet (rxStep env) s (events ++ pause) →
        Along Paused (rxStep env) (run (rxStep env) s events) pause →
        batchCalls ≤ pause.countP rxCall → Settled env (run (rxStep env) s (events ++ pause)) := by
  intro s
  obtain ⟨-, hout, hempty, hstate⟩ := sessions_rest env h q batches hrest
  refine ⟨hout, hempty, fun events pause hshort hquiet hpaused hcalls => ?_⟩
  obtain ⟨hevents, hpause⟩ := along_append.mp hquiet
  have hroom : s.rx.contents.length + (arrivals events).length ≤ rxDataBuffSize := by
    rw [hempty, List.length_nil, Nat.zero_add]
    exact hshort.trans (by decide)
  have hseen := (room_run env hevents hroom).2
  rw [hempty, List.length_nil, Nat.zero_add] at hseen
  have hactive : hostCommRxFsmIsActive (run (rxStep env) s events).handle = true := by
    refine run_preserves (I := fun s : RxSys => hostCommRxFsmIsActive s.handle = true)
      (fun _ e h => active_step env h e) ?_ events
    rw [hostCommRxFsmIsActive, hstate]
    rfl
  have hgoing : Going (run (rxStep env) s events) := ⟨hactive, hseen.trans hshort⟩
  rw [run_append]
  exact pause_eases env hgoing hpause hpaused (.inr ((effort_lt hgoing).trans_le hcalls))

def service : List RxEvent := [.external .packetProccessed, .run []]

def drain (n : Nat) : List RxEvent := (List.replicate n service).flatten

/-- A frame whose bytes come one by one, then a refused header and a frame at
once with a tick between the calls. -/
theorem sessions_received_two :
    let env : Env := ⟨fun _ => 0, 0⟩
    let h : HostCommRxFsm := ⟨.invalid, .invalid, .invalid, timeEventStop, timeEventStop,
      timeEventStop, ⟨⟨0, 0, 0⟩, .zero⟩⟩
    let frame : Frame := ⟨[], ⟨⟨1, hostToTargetDir, 0⟩, .zero⟩, 0xBB01, [0, 0, 0, 0], blocks_nil _,
      by decide, rfl⟩
    let bad : BadHeader := ⟨[], ⟨1, targetToHostDir, 0⟩, blocks_nil _, fun _ => rfl⟩
    let slow : Batch := ⟨[.frame frame], (Frame.bytes frame).map (fun b => .run [[b]]) ++ drain 3,
      by decide +kernel, by decide +kernel⟩
    let fast : Batch := ⟨[.badHeader bad, .frame frame],
      (BadHeader.bytes bad ++ Frame.bytes frame).map .rxByte ++ drain 3 ++ .tick :: drain 9,
      by decide +kernel, by decide +kernel⟩
    let s := run (batchStep env) (hostCommRxFsmInit (.start h hostCommTxQueueInit)) [slow, fast]
    outcomes s = expected env .zero [.frame frame, .badHeader bad, .frame frame] ∧
      s.rx.contents = [] := by
  intro env h frame bad slow fast
  obtain ⟨hout, hempty, -⟩ :=
    sessions_received env h hostCommTxQueueInit [slow, fast] (by decide +kernel)
  exact ⟨hout, hempty⟩

end HostComm.RxSessions
