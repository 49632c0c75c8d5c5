import HostComm.Rounds
import HostComm.RxHeader
import HostComm.RxResponses
import HostComm.TimerDiscipline

namespace HostComm.RxDeadline

open Protocol TimeEvents UartDriver TxQueue TxSend TxFsm RxFsm RxStream RxParser RxMoves RxHeader
open RxResponses TimerDiscipline Runs Rounds

def rxCall : RxEvent → Bool
  | .run _ => true
  | _ => false

/-- The longest time that the states behind a waiting state can take. -/
def later : RxState → Nat
  | .headerProc => maxPayloadSize + 1 + postambleBytesTimeoutMs
  | .payloadProc => 1 + postambleBytesTimeoutMs
  | _ => 0

/-- The rounds that are left for the frame, `t` ticks after the last transition. -/
def patience (h : HostCommRxFsm) (t : Nat) : Nat := timeoutMs h h.state - t + later h.state

abbrev Clocked : Type := RxSys × Nat

abbrev clockedStep (env : Env) : Clocked → RxEvent → Clocked := timed (rxStep env) RxStarted rxTick

structure Kept (x : Clocked) : Prop where
  timers : RxTimers x.1.handle x.2
  carried : Carried x.1.handle

def InFrame (x : Clocked) : Prop := Waits x.1.handle.state

def Expired (x : Clocked) : Prop := timeoutMs x.1.handle x.1.handle.state < x.2

theorem kept_step (env : Env) {x : Clocked} (h : Kept x) (e : RxEvent) :
    Kept (clockedStep env x e) :=
  ⟨rxTimers_step env x e h.timers, carried_step env x.1 e h.carried⟩

theorem timeoutMs_stay {h h' : HostCommRxFsm} (hstate : h'.state = h.state)
    (hheader : h.state ≠ .headerProc → h'.packet.header = h.packet.header) :
    timeoutMs h' h'.state = timeoutMs h h.state := by
  rw [hstate]
  cases hs : h.state with
  | payloadProc => simp only [timeoutMs, hheader (by simp [hs])]
  | _ => rfl

inductive Passes (x x' : Clocked) (e : RxEvent) : Prop
  | waits (timeout : timeoutMs x'.1.handle x'.1.handle.state = timeoutMs x.1.handle x.1.handle.state)
      (state : x'.1.handle.state = x.1.handle.state) (clock : x'.2 = if rxTick e then x.2 + 1 else x.2)
      (quiet : rxCall e = true → ¬ Expired x)
  | moves (less : patience x'.1.handle x'.2 < patience x.1.handle x.2)
      (call : rxTick e = false)

theorem patience_edge {h h' : HostCommRxFsm} {t : Nat} {type : Option UInt8}
    (hedge : Edge h.state type h'.state) (hw : Waits h.state) (hw' : Waits h'.state)
    (hc : Carried h') : patience h' 0 < patience h t := by
  have hlen (hs : h'.state = .payloadProc) : h'.packet.header.payloadLen.toNat < maxPayloadSize :=
    payloadLen_lt hc (.inl hs)
  rw [patience, patience]
  generalize hb : h.state = before, ha : h'.state = after at hedge hw hw'
  cases hedge with
  | found => simp [Waits] at hw
  | withPayload =>
      have hlt := hlen ha
      simp only [timeoutMs, later, maxPayloadSize, postambleBytesTimeoutMs, headerBytesTimeoutMs] at hlt ⊢
      omega
  | noPayload =>
      simp only [timeoutMs, later, maxPayloadSize, postambleBytesTimeoutMs, headerBytesTimeoutMs]
      omega
  | stored =>
      simp only [timeoutMs, later, postambleBytesTimeoutMs]
      omega
  | _ => simp [Waits] at hw'

theorem passes_run (env : Env) {s : RxSys} {t : Nat} (h : Kept (s, t)) (hw : Waits s.handle.state)
    (irqs : List (List UInt8)) (hw' : Waits (runCall env s irqs).handle.state) :
    Passes (s, t) (clockedStep env (s, t) (.run irqs)) (.run irqs) := by
  have hc : Carried (runCall env s irqs).handle := carried_step env s (.run irqs) h.carried
  have hclock : (clockedStep env (s, t) (.run irqs)).2 =
      if RxStarted s (runCall env s irqs) then 0 else t := rfl
  have hhandle : (runCall env s irqs).handle = (hostCommRxFsmRun env { s with irqs }).handle := by
    rw [runCall, handle_rxBytes]
  rw [hhandle] at hc hw'
  cases moves_run env { s with irqs } with
  | stay handle header quiet held answered =>
      have hstate : (runCall env s irqs).handle.state = s.handle.state := by rw [hhandle, handle]
      have hheader : s.handle.state ≠ .headerProc →
          (runCall env s irqs).handle.packet.header = s.handle.packet.header := by
        rw [hhandle]
        exact header
      refine .waits (timeoutMs_stay hstate hheader) hstate ?_ fun _ hexpired => quiet ?_
      · have hsame : ¬ RxStarted s (runCall env s irqs) := not_not_intro hstate
        rw [hclock, if_neg hsame]
        rfl
      · rw [raised_iff hw, h.timers _ hw, if_pos rfl]
        exact decide_eq_true hexpired
  | leave type next edge handle released answered =>
      have hnext : (runCall env s irqs).handle.state = next := by rw [hhandle, handle, state_goto]
      have hstarted : RxStarted s (runCall env s irqs) := by
        rw [RxStarted, hnext]
        exact edge_ne edge
      refine .moves ?_ rfl
      rw [hclock, if_pos hstarted]
      have hedge : Edge s.handle.state type (runCall env s irqs).handle.state := by
        rw [hnext]
        exact edge
      exact patience_edge hedge hw (hhandle ▸ hw') (hhandle ▸ hc)

theorem passes_step (env : Env) {x : Clocked} (h : Kept x) (hx : InFrame x) (e : RxEvent)
    (hx' : InFrame (clockedStep env x e)) : Passes x (clockedStep env x e) e := by
  obtain ⟨s, t⟩ := x
  cases e with
  | run irqs => exact passes_run env h hx irqs hx'
  | rxByte byte => exact .waits rfl rfl (if_neg (not_not_intro rfl)) fun hcall => by cases hcall
  | tick => exact .waits rfl rfl (if_neg (not_not_intro rfl)) fun hcall => by cases hcall
  | external event => exact .waits rfl rfl (if_neg (not_not_intro rfl)) fun hcall => by cases hcall

theorem Passes.patience_le {x x' : Clocked} {e : RxEvent} (h : Passes x x' e) :
    patience x'.1.handle x'.2 ≤ patience x.1.handle x.2 := by
  cases h with
  | waits timeout state clock quiet =>
      rw [patience, patience, timeout, state, clock]
      split_ifs
      · omega
      · exact Nat.le_refl _
  | moves less call => exact Nat.le_of_lt less

theorem Passes.tick_lt {x x' : Clocked} {e : RxEvent} (h : Passes x x' e) (he : rxTick e = true) :
    patience x'.1.handle x'.2 < patience x.1.handle x.2 ∨ Expired x' := by
  cases h with
  | waits timeout state clock quiet =>
      rw [Expired, patience, patience, timeout, state, clock, if_pos he]
      omega
  | moves less call =>
      rw [he] at call
      cases call

theorem Passes.still {x x' : Clocked} {e : RxEvent} (h : Passes x x' e) (hx : Expired x) :
    patience x'.1.handle x'.2 < patience x.1.handle x.2 ∨ Expired x' ∧ rxCall e = false := by
  cases h with
  | waits timeout state clock quiet =>
      refine .inr ⟨?_, Bool.eq_false_of_not_eq_true fun hcall => quiet hcall hx⟩
      rw [Expired] at hx ⊢
      rw [timeout, clock]
      split_ifs
      · omega
      · exact hx
  | moves less call => exact .inl less

def frameRanking (env : Env) :
    Ranking (clockedStep env) rxTick rxCall Kept InFrame fun _ _ => True where
  rank x := patience x.1.handle x.2
  due := Expired
  keep _ e h _ := kept_step env h e
  falls _ e h _ hx hx' := (passes_step env h hx e hx').patience_le
  ticks _ e h _ hx hx' he := (passes_step env h hx e hx').tick_lt he
  waits _ e h _ hx hx' hdue _ := ((passes_step env h hx e hx').still hdue).imp_right And.left
  calls _ e h _ hx hx' hdue he := by
    rcases (passes_step env h hx e hx').still hdue with hless | ⟨-, hno⟩
    · exact hless
    · rw [he] at hno
      cases hno

/-- From the entry of the header state to the last timeout. -/
abbrev frameRounds : Nat := headerBytesTimeoutMs + (maxPayloadSize + 1 + postambleBytesTimeoutMs)

theorem patience_le {h : HostCommRxFsm} (hw : Waits h.state) (hc : Carried h) (t : Nat) :
    patience h t ≤ frameRounds := by
  rw [patience]
  rcases hw with hs | hs | hs
  · simp only [timeoutMs, later, hs, frameRounds]
    omega
  · have hlt := payloadLen_lt hc (.inl hs)
    simp only [timeoutMs, later, hs, frameRounds]
    omega
  · simp only [timeoutMs, later, hs, frameRounds]
    omega

theorem answer_inside (env : Env) {s : RxSys} {e : RxEvent}
    (hw : Waits (rxStep env s e).handle.state) : (rxStep env s e).responses = s.responses := by
  have henter : ¬ Enters s.handle (rxStep env s e).handle := by
    rintro ⟨-, hready⟩
    simp [Waits, hready] at hw
  have hreturn : ¬ Returns s.handle (rxStep env s e).handle := by
    rintro ⟨-, hpreamble⟩
    simp [Waits, hpreamble] at hw
  rw [answer_step, answer, if_neg henter, if_neg hreturn, List.append_nil]

theorem edge_outside {before next : RxState} {type : Option UInt8} (h : Edge before type next)
    (hout : ¬ Waits next) : next = .packetReady ∨ next = .preambleProc := by
  cases h with
  | accept => exact .inl rfl
  | found => exact absurd (.inl rfl) hout
  | withPayload => exact absurd (.inr (.inl rfl)) hout
  | noPayload => exact absurd (.inr (.inr rfl)) hout
  | stored => exact absurd (.inr (.inr rfl)) hout
  | _ => exact .inr rfl

theorem states_outside (env : Env) {s : RxSys} {e : RxEvent} (hw : Waits s.handle.state)
    (hout : ¬ Waits (rxStep env s e).handle.state) :
    (rxStep env s e).handle.state = .packetReady ∨ (rxStep env s e).handle.state = .preambleProc := by
  cases e with
  | run irqs =>
      rw [rxStep, runCall, handle_rxBytes] at hout ⊢
      change Waits ({ s with irqs } : RxSys).handle.state at hw
      cases moves_run env { s with irqs } with
      | stay handle header quiet held answered =>
          rw [handle] at hout
          exact absurd hw hout
      | leave type next edge handle released answered =>
          rw [handle, state_goto] at hout ⊢
          exact edge_outside edge hout
  | rxByte byte => exact absurd hw hout
  | tick => exact absurd hw hout
  | external event => exact absurd hw hout

/-- The answer to a frame, and the state it goes with. -/
def Answers (s s' : RxSys) : Prop :=
  s'.handle.state = .packetReady ∧
      s'.responses = s.responses ++ [⟨noPayloadRequest targetToHostResAck false, s.handle.packet⟩] ∨
    s'.handle.state = .preambleProc ∧
      s'.responses = s.responses ++ [⟨noPayloadRequest targetToHostResNack false, s.handle.packet⟩]

theorem answer_outside (env : Env) {s : RxSys} {e : RxEvent} (hw : Waits s.handle.state)
    (hout : ¬ Waits (rxStep env s e).handle.state) : Answers s (rxStep env s e) := by
  have hne : s.handle.state ≠ .packetReady := fun hready => by simp [Waits, hready] at hw
  rcases states_outside env hw hout with hready | hpreamble
  · refine .inl ⟨hready, ?_⟩
    rw [answer_step, answer, if_pos ⟨hne, hready⟩]
  · have henter : ¬ Enters s.handle (rxStep env s e).handle := by
      rintro ⟨-, hready⟩
      rw [hpreamble] at hready
      cases hready
    refine .inr ⟨hpreamble, ?_⟩
    rw [answer_step, answer, if_neg henter, if_pos ⟨hw, hpreamble⟩]

theorem run_clocked (env : Env) (x : Clocked) (events : List RxEvent) :
    (run (clockedStep env) x events).1 = run (rxStep env) x.1 events := run_timed ..

theorem responses_inside (env : Env) (s : RxSys) {events : List RxEvent}
    (h : Throughout (fun s => Waits s.handle.state) (rxStep env) s events) :
    (run (rxStep env) s events).responses = s.responses := by
  induction events generalizing s with
  | nil => rfl
  | cons e events ih =>
      obtain ⟨-, hnext, htail⟩ := Throughout.head h
      rw [run_cons, ih (rxStep env s e) htail, answer_inside env hnext]

/-- A frame whose preamble was found is answered, once and in bounded time,
whatever arrives or does not arrive. -/
theorem frame_answered (env : Env) (h : HostCommRxFsm) (queue : HostCommTxQueue)
    (before events : List RxEvent) :
    let s := run (rxStep env) (hostCommRxFsmInit (.start h queue)) before
    Waits s.handle.state → frameRounds < rounds rxTick rxCall false events →
      ∃ first e rest, events = first ++ e :: rest ∧
        (run (rxStep env) s first).responses = s.responses ∧
        Answers (run (rxStep env) s first) (run (rxStep env) s (first ++ [e])) := by
  intro s hw hrounds
  obtain ⟨x, hx⟩ : ∃ x, x = run (clockedStep env) (hostCommRxFsmInit (.start h queue), 0) before :=
    ⟨_, rfl⟩
  have hsame : x.1 = s := by rw [hx, run_clocked]
  have hkept : Kept x := by
    rw [hx]
    exact run_preserves (I := Kept) (fun _ e hk => kept_step env hk e)
      ⟨rxTimers_init h queue 0, carried_init _⟩ before
  have hin : InFrame x := by rwa [InFrame, hsame]
  have hrank : (frameRanking env).rank x < rounds rxTick rxCall false events :=
    Nat.lt_of_le_of_lt (patience_le hin hkept.carried x.2) hrounds
  obtain ⟨first, e, rest, rfl, hall, hexit⟩ :=
    (frameRanking env).leaves hkept hin (along_true _ _ _) hrank
  have hclock (es : List RxEvent) :
      (run (clockedStep env) x es).1 = run (rxStep env) s es := by rw [run_clocked, hsame]
  have hthrough : Throughout (fun s => Waits s.handle.state) (rxStep env) s first :=
    fun es hes => hclock es ▸ hall es hes
  have hlast : Waits (run (rxStep env) s first).handle.state := hthrough first List.prefix_rfl
  have hout : ¬ Waits (rxStep env (run (rxStep env) s first) e).handle.state := by
    have hnext : ¬ Waits (rxStep env (run (clockedStep env) x first).1 e).handle.state := hexit
    rwa [hclock] at hnext
  refine ⟨first, e, rest, rfl, responses_inside env s hthrough, ?_⟩
  rw [run_append]
  exact answer_outside env hlast hout

theorem frame_answered_preamble :
    let env : Env := ⟨fun _ => 0, 0⟩
    let h : HostCommRxFsm := ⟨.invalid, .invalid, .invalid, timeEventStop, timeEventStop,
      timeEventStop, ⟨⟨0, 0, 0⟩, .zero⟩⟩
    let preamble : List RxEvent := protocolPreamble.map .rxByte ++ [.run [], .run []]
    let silence : List RxEvent := (List.replicate (frameRounds + 1) [.tick, .run []]).flatten
    let s := run (rxStep env) (hostCommRxFsmInit (.start h hostCommTxQueueInit)) preamble
    ∃ first e rest, silence = first ++ e :: rest ∧
      (run (rxStep env) s first).responses = s.responses ∧
      Answers (run (rxStep env) s first) (run (rxStep env) s (first ++ [e])) := by
  intro env h preamble silence s
  exact frame_answered env h hostCommTxQueueInit preamble silence (by decide +kernel)
    (by decide +kernel)

end HostComm.RxDeadline
