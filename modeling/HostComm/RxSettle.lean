import HostComm.RxDeadline
import HostComm.RxFrames
import HostComm.RxProgress

namespace HostComm.RxSettle

open Protocol TimeEvents UartDriver ByteRings TxQueue TxSend TxFsm RxFsm RxStream RxParser RxMoves
open RxHeader RxTimeouts RxChunk RxResponses RxResync RxProgress RxDeadline
open TimerDiscipline Runs Rounds

/-- The machine waits for a preamble and does not see the bytes of one. -/
structure AtRest (s : RxSys) : Prop where
  state : s.handle.state = .preambleProc
  internal : s.handle.internal = .invalid
  seen : s.rx.contents.length % 256 < preambleSizeBytes

/-- Nothing arrives, and the application takes a received packet before the
next call. -/
def Paused (s : RxSys) (e : RxEvent) : Prop :=
  arrivals [e] = [] ∧
    (rxCall e = true → s.handle.state = .packetReady → s.handle.external = .packetProccessed)

instance (s : RxSys) (e : RxEvent) : Decidable (Paused s e) := inferInstanceAs (Decidable (_ ∧ _))

def Tidy (h : HostCommRxFsm) : Prop :=
  h.state = .preambleProc → h.internal = .invalid ∨ h.internal = .preambleOk

theorem internal_setTimer (h : HostCommRxFsm) (state : RxState) (t : TimeEvent) :
    (setTimer h state t).internal = h.internal := by
  cases state <;> rfl

theorem internal_goto (h : HostCommRxFsm) (next : RxState) : (goto h next).internal = .invalid := by
  simp [goto, hostCommRxFsmSetNextState, internal_setTimer]

theorem tidy_preamble (env : Env) {s : RxSys} (hs : s.handle.state = .preambleProc)
    (h : Tidy s.handle) : Tidy (preambleProcOnReact env s).handle := by
  intro hnext
  rw [preambleProcOnReact] at hnext ⊢
  split_ifs at hnext ⊢
  · cases hnext
  · have hkeep := handle_readPreamble protocolPreamble env.junk (getRxDataLen s).2
    rw [duringActionPreambleProc]
    dsimp only
    split_ifs
    · exact .inr rfl
    · rw [hkeep, handle_getRxDataLen]
      exact h hs
    · rw [handle_getRxDataLen]
      exact h hs

theorem tidy_run (env : Env) {s : RxSys} (h : Tidy s.handle) (irqs : List (List UInt8)) :
    Tidy (runCall env s irqs).handle := by
  rw [runCall, handle_rxBytes]
  by_cases hs : s.handle.state = .preambleProc
  · have hrun : hostCommRxFsmRun env { s with irqs } = preambleProcOnReact env { s with irqs } := by
      simp only [hostCommRxFsmRun, hs]
    rw [hrun]
    exact tidy_preamble env (s := { s with irqs }) hs h
  · cases moves_run env { s with irqs } with
    | stay handle header quiet held answered =>
        intro hnext
        rw [handle] at hnext
        exact absurd hnext hs
    | leave type next edge handle released answered =>
        rw [handle]
        exact fun _ => .inl (internal_goto _ next)

theorem tidy_step (env : Env) {s : RxSys} (h : Tidy s.handle) (e : RxEvent) :
    Tidy (rxStep env s e).handle := by
  cases e with
  | run irqs => exact tidy_run env h irqs
  | rxByte byte => exact h
  | tick => exact h
  | external event => exact h

theorem active_edge {before next : RxState} {type : Option UInt8} (h : Edge before type next) :
    RxState.invalid.ctorIdx < next.ctorIdx ∧ next.ctorIdx < RxState.last.ctorIdx := by
  cases h with
  | found => decide
  | withPayload => decide
  | noPayload => decide
  | stored => decide
  | accept => decide
  | rejectHeader => decide
  | rejectPayload => decide
  | rejectCrc => decide
  | release => decide

theorem active_run (env : Env) {s : RxSys} (h : hostCommRxFsmIsActive s.handle = true)
    (irqs : List (List UInt8)) : hostCommRxFsmIsActive (runCall env s irqs).handle = true := by
  rw [runCall, handle_rxBytes]
  cases moves_run env { s with irqs } with
  | stay handle header quiet held answered =>
      rw [handle]
      exact h
  | leave type next edge handle released answered =>
      obtain ⟨hlow, hhigh⟩ := active_edge edge
      rw [handle, hostCommRxFsmIsActive, state_goto, decide_eq_true hlow, decide_eq_true hhigh,
        Bool.and_self]

theorem active_step (env : Env) {s : RxSys} (h : hostCommRxFsmIsActive s.handle = true)
    (e : RxEvent) : hostCommRxFsmIsActive (rxStep env s e).handle = true := by
  cases e with
  | run irqs => exact active_run env h irqs
  | rxByte byte => exact h
  | tick => exact h
  | external event => exact h

theorem active_ne {h : HostCommRxFsm} (ha : hostCommRxFsmIsActive h = true) :
    h.state ≠ .invalid ∧ h.state ≠ .last := by
  constructor
  · intro hs
    rw [hostCommRxFsmIsActive, hs] at ha
    cases ha
  · intro hs
    rw [hostCommRxFsmIsActive, hs] at ha
    cases ha

theorem waits_of_raised {h : HostCommRxFsm} (hr : Raised h) : Waits h.state := by
  rw [Raised] at hr
  cases hs : h.state with
  | headerProc => exact .inl rfl
  | payloadProc => exact .inr (.inl rfl)
  | crcAndPostambleProc => exact .inr (.inr rfl)
  | _ =>
      rw [hs] at hr
      exact absurd hr not_false

theorem irqs_clearRxData (s : RxSys) : (clearRxData s).irqs = s.irqs.tail := irqs_interrupts s

theorem ring_timeout (env : Env) {s : RxSys} (h : Raised s.handle) :
    (hostCommRxFsmRun env s).rx.contents = [] ∧ (hostCommRxFsmRun env s).irqs = s.irqs.tail ∨
      (hostCommRxFsmRun env s).rx = s.rx ∧ (hostCommRxFsmRun env s).irqs = s.irqs := by
  have hw := waits_of_raised h
  rw [Raised] at h
  rcases hw with hs | hs | hs
  · simp only [hs] at h
    simp only [hostCommRxFsmRun, hs, headerProcOnReact, h, true_or, if_true]
    by_cases hok : s.handle.internal = .headerOk
    · rw [if_pos hok]
      refine .inr ?_
      split_ifs
      all_goals exact ⟨rfl, rfl⟩
    · rw [if_neg hok]
      exact .inl ⟨contents_clearRxData s, irqs_clearRxData s⟩
  · simp only [hs] at h
    simp only [hostCommRxFsmRun, hs, payloadProcOnReact, h, if_true]
    split_ifs
    · exact .inr ⟨rfl, rfl⟩
    · exact .inl ⟨contents_clearRxData _, irqs_clearRxData _⟩
  · simp only [hs] at h
    simp only [hostCommRxFsmRun, hs, crcAndPostambleProcOnReact, h, true_or, if_true]
    refine .inr ?_
    split_ifs
    · exact ⟨rfl, rfl⟩
    · rename_i hraised
      cases hraised
    · exact ⟨rfl, rfl⟩

theorem tail_silent {irqs : List (List UInt8)} (h : irqs.flatten = []) : irqs.tail.flatten = [] := by
  cases irqs with
  | nil => rfl
  | cons batch irqs => exact (List.append_eq_nil_iff.mp h).2

section silence

variable (env : Env) {s : RxSys} {irqs : List (List UInt8)} (h : irqs.flatten = [])

include h

theorem overflows_silent : (runCall env s irqs).overflows = s.overflows := by
  refine room_runCall env ?_
  rw [h]
  exact s.rx.contents_le

theorem flow_silent {w : List UInt8} (hw : Flow s w (runCall env s irqs)) :
    s.rx.contents = w ++ (runCall env s irqs).rx.contents := by
  obtain ⟨new, hnew, hf⟩ := hw.flow
  rw [arrived_runCall, h] at hnew
  have hnone : new = [] := (List.append_cancel_left hnew).symm
  have heq := hf (overflows_silent env h)
  rwa [hnone, List.append_nil] at heq

theorem contents_silent : (runCall env s irqs).rx.contents.length ≤ s.rx.contents.length := by
  have hflow {w : List UInt8} (hw : Flow s w (runCall env s irqs)) :
      (runCall env s irqs).rx.contents.length ≤ s.rx.contents.length := by
    rw [flow_silent env h hw, List.length_append]
    exact Nat.le_add_left ..
  cases ran_runCall env (overflows_silent env h) with
  | stay flow core waits responses => exact hflow flow
  | advance w out flow next enough ready responses => exact hflow flow
  | timeout raised consumed core responses =>
      have hring := ring_timeout env (s := { s with irqs }) raised
      rw [runCall]
      rcases hring with ⟨hempty, hirqs⟩ | ⟨hsame, hirqs⟩
      · rw [hirqs, tail_silent h, rxBytes, List.foldl_nil]
        exact (congrArg List.length hempty).trans_le (Nat.zero_le _)
      · rw [hirqs, h, rxBytes, List.foldl_nil]
        exact Nat.le_of_eq (congrArg (fun r => r.contents.length) hsame)

end silence

abbrev attempt : Nat := frameRounds + 4

/-- A preamble of four bytes pays for the rounds of its frame. -/
abbrev byteRounds : Nat := attempt / 4

/-- The rounds that are left, apart from those that stored bytes pay for. -/
def remaining (h : HostCommRxFsm) (t : Nat) : Nat :=
  match h.state with
  | .preambleProc => if h.internal = .preambleOk then frameRounds + 3 else 0
  | .packetReady => 1
  | _ => patience h t + 2

def rank (x : Clocked) : Nat := x.1.rx.contents.length * byteRounds + remaining x.1.handle x.2

def Due (x : Clocked) : Prop := ¬ Waits x.1.handle.state ∨ Expired x

structure Steady (x : Clocked) : Prop where
  kept : Kept x
  active : hostCommRxFsmIsActive x.1.handle = true
  tidy : Tidy x.1.handle

theorem steady_step (env : Env) {x : Clocked} (h : Steady x) (e : RxEvent) :
    Steady (clockedStep env x e) :=
  ⟨kept_step env h.kept e, active_step env h.active e, tidy_step env h.tidy e⟩

structure Nears (x x' : Clocked) (e : RxEvent) : Prop where
  falls : rank x' ≤ rank x
  ticks : rxTick e = true → rank x' < rank x ∨ Due x'
  still : Due x → rank x' < rank x ∨ Due x' ∧ rxCall e = false

theorem nears_of_lt {x x' : Clocked} {e : RxEvent} (h : rank x' < rank x) : Nears x x' e :=
  ⟨Nat.le_of_lt h, fun _ => .inl h, fun _ => .inl h⟩

theorem remaining_waits {h : HostCommRxFsm} (hw : Waits h.state) (t : Nat) :
    remaining h t = patience h t + 2 := by
  rcases hw with hs | hs | hs
  all_goals simp only [remaining, hs]

theorem nears_inside (env : Env) {x : Clocked} (h : Steady x) (hx : InFrame x) (e : RxEvent)
    (hx' : InFrame (clockedStep env x e))
    (hring : (clockedStep env x e).1.rx.contents.length ≤ x.1.rx.contents.length) :
    Nears x (clockedStep env x e) e := by
  have hpasses := passes_step env h.kept hx e hx'
  have hbytes := Nat.mul_le_mul_right byteRounds hring
  have hlt (hless : patience (clockedStep env x e).1.handle (clockedStep env x e).2 <
      patience x.1.handle x.2) : rank (clockedStep env x e) < rank x := by
    rw [rank, rank, remaining_waits hx, remaining_waits hx']
    omega
  refine ⟨?_, fun he => ?_, fun hdue => ?_⟩
  · have hle := hpasses.patience_le
    rw [rank, rank, remaining_waits hx, remaining_waits hx']
    omega
  · exact (hpasses.tick_lt he).imp hlt .inr
  · rcases hdue with hout | hexpired
    · exact absurd hx hout
    · exact (hpasses.still hexpired).imp hlt fun hwait => ⟨.inr hwait.1, hwait.2⟩

theorem nears_other {x x' : Clocked} {e : RxEvent} (hx : ¬ InFrame x)
    (hstate : x'.1.handle.state = x.1.handle.state)
    (hinternal : x'.1.handle.internal = x.1.handle.internal) (hring : x'.1.rx = x.1.rx)
    (hcall : rxCall e = false) (hactive : hostCommRxFsmIsActive x.1.handle = true) :
    Nears x x' e := by
  have hdue : Due x' := by
    refine .inl fun hw => hx ?_
    rw [InFrame, ← hstate]
    exact hw
  have hsame : remaining x'.1.handle x'.2 = remaining x.1.handle x.2 := by
    rw [remaining, remaining, hstate, hinternal]
    cases hs : x.1.handle.state with
    | headerProc => exact absurd (.inl hs) hx
    | payloadProc => exact absurd (.inr (.inl hs)) hx
    | crcAndPostambleProc => exact absurd (.inr (.inr hs)) hx
    | invalid => exact absurd hs (active_ne hactive).1
    | last => exact absurd hs (active_ne hactive).2
    | _ => rfl
  refine ⟨?_, fun _ => .inr hdue, fun _ => .inr ⟨hdue, hcall⟩⟩
  rw [rank, rank, hsame, hring]

theorem internal_entered (env : Env) {s : RxSys} {irqs : List (List UInt8)}
    (h : (runCall env s irqs).handle.state ≠ s.handle.state) :
    (runCall env s irqs).handle.internal = .invalid := by
  rw [runCall, handle_rxBytes] at h ⊢
  cases moves_run env { s with irqs } with
  | stay handle header quiet held answered =>
      rw [handle] at h
      exact absurd rfl h
  | leave type next edge handle released answered => rw [handle, internal_goto]

theorem remaining_preamble {h : HostCommRxFsm} (hs : h.state = .preambleProc)
    (hi : h.internal = .invalid) (t : Nat) : remaining h t = 0 := by
  simp [remaining, hs, hi]

theorem nears_left (env : Env) {s : RxSys} {t : Nat} (hx : Waits s.handle.state)
    {irqs : List (List UInt8)} (harr : irqs.flatten = [])
    (hx' : ¬ Waits (runCall env s irqs).handle.state) :
    Nears (s, t) (clockedStep env (s, t) (.run irqs)) (.run irqs) := by
  have hring := Nat.mul_le_mul_right byteRounds (contents_silent env harr (s := s))
  have hless (t' : Nat) : remaining (runCall env s irqs).handle t' < remaining s.handle t := by
    rw [remaining_waits hx]
    have hstate : (runCall env s irqs).handle.state = .packetReady ∨
        (runCall env s irqs).handle.state = .preambleProc := states_outside env (e := .run irqs) hx hx'
    rcases hstate with hready | hpreamble
    · have hone : remaining (runCall env s irqs).handle t' = 1 := by simp only [remaining, hready]
      omega
    · have hne : (runCall env s irqs).handle.state ≠ s.handle.state := by
        intro heq
        rw [heq] at hx'
        exact hx' hx
      rw [remaining_preamble hpreamble (internal_entered env hne)]
      omega
  refine nears_of_lt ?_
  rw [rank, rank]
  exact Nat.add_lt_add_of_le_of_lt hring (hless _)

theorem nears_released (env : Env) {s : RxSys} {t : Nat} (hs : s.handle.state = .packetReady)
    (hext : s.handle.external = .packetProccessed) {irqs : List (List UInt8)}
    (harr : irqs.flatten = []) :
    Nears (s, t) (clockedStep env (s, t) (.run irqs)) (.run irqs) := by
  have hring := Nat.mul_le_mul_right byteRounds (contents_silent env harr (s := s))
  have hnext : (runCall env s irqs).handle.state = .preambleProc := by
    rw [runCall, handle_rxBytes]
    simp only [hostCommRxFsmRun, hs, packetReadyOnReact, hext, if_true]
    rfl
  have hne : (runCall env s irqs).handle.state ≠ s.handle.state := by
    rw [hnext, hs]
    decide
  have hone : remaining s.handle t = 1 := by simp only [remaining, hs]
  refine nears_of_lt ?_
  rw [rank, rank]
  refine Nat.add_lt_add_of_le_of_lt hring ?_
  rw [hone]
  exact Nat.lt_of_le_of_lt (Nat.le_of_eq (remaining_preamble hnext (internal_entered env hne) _))
    Nat.one_pos

theorem nears_found (env : Env) {s : RxSys} {t : Nat} (h : Steady (s, t))
    (hs : s.handle.state = .preambleProc) (hi : s.handle.internal = .preambleOk)
    {irqs : List (List UInt8)} (harr : irqs.flatten = []) :
    Nears (s, t) (clockedStep env (s, t) (.run irqs)) (.run irqs) := by
  have hring := Nat.mul_le_mul_right byteRounds (contents_silent env harr (s := s))
  have hnext : (runCall env s irqs).handle.state = .headerProc := by
    rw [runCall, handle_rxBytes]
    simp only [hostCommRxFsmRun, hs, preambleProcOnReact, hi, if_true]
    rfl
  have hkept := (steady_step env h (.run irqs)).kept
  have hle := patience_le (.inl hnext) hkept.carried
    (clockedStep env (s, t) (.run irqs)).2
  have hnow : remaining s.handle t = frameRounds + 3 := by simp only [remaining, hs, hi, if_true]
  refine nears_of_lt ?_
  rw [rank, rank]
  refine Nat.add_lt_add_of_le_of_lt hring ?_
  rw [hnow]
  refine Nat.lt_of_le_of_lt (Nat.le_of_eq (remaining_waits (.inl hnext) _)) ?_
  exact Nat.add_lt_add_of_le_of_lt hle (by decide)

theorem getRxDataLen_silent {s : RxSys} {irqs : List (List UInt8)} (harr : irqs.flatten = []) :
    (getRxDataLen { s with irqs }).1 = s.rx.contents.length % 256 := by
  rw [getRxDataLen, interrupts_eq]
  cases irqs with
  | nil => exact uartGetRxDataLen_eq s.rx
  | cons batch irqs =>
      have hbatch : batch = [] := (List.append_eq_nil_iff.mp harr).1
      rw [hbatch]
      exact uartGetRxDataLen_eq s.rx

theorem nears_searched (env : Env) {s : RxSys} {t : Nat} (hs : s.handle.state = .preambleProc)
    (hi : s.handle.internal = .invalid) (hseen : 4 ≤ s.rx.contents.length % 256)
    {irqs : List (List UInt8)} (harr : irqs.flatten = []) :
    Nears (s, t) (clockedStep env (s, t) (.run irqs)) (.run irqs) := by
  have hreact : react (coreOf s.handle) = none := (react_preamble (c := coreOf s.handle) hs).mpr (by
    simp [coreOf, hi])
  have hneed : need (coreOf s.handle) = 4 := by simp only [need, coreOf, hs]
  have hran := ran_runCall env (overflows_silent env harr (s := s))
  rw [getRxDataLen_silent harr] at hran
  refine nears_of_lt ?_
  rw [rank, rank]
  cases hran with
  | stay flow core waits responses =>
      rcases waits with ⟨hready, -⟩ | ⟨-, hfew⟩
      · rw [hs] at hready
        cases hready
      · rw [hneed] at hfew
        exact absurd hseen (Nat.not_le_of_lt hfew)
  | advance w out flow next enough ready responses =>
      have hring := flow_silent env harr flow
      rw [← hring, RxParser.advance] at next
      simp only [hreact, hneed] at next
      split_ifs at next with hlen
      rw [Option.some.injEq, Prod.mk.injEq, Prod.mk.injEq] at next
      obtain ⟨hcore, hw, -⟩ := next
      simp only [during, coreOf, hs] at hcore hw
      obtain ⟨hstate, hinternal, -⟩ := RxCore.mk.inj hcore
      have hbytes := congrArg List.length hring
      rw [List.length_append] at hbytes
      have htook : 0 < w.length := by
        rw [← hw]
        exact scan_length_pos _ (Nat.lt_of_lt_of_le (by decide) hlen)
      change (runCall env s irqs).rx.contents.length * byteRounds +
        remaining (runCall env s irqs).handle _ < _ + remaining s.handle t
      rw [remaining_preamble hs hi, hbytes, Nat.add_mul]
      rw [hw] at hinternal
      by_cases hfound : w = protocolPreamble
      · rw [if_pos hfound] at hinternal
        have hnext (t' : Nat) : remaining (runCall env s irqs).handle t' = frameRounds + 3 := by
          simp only [remaining, ← hstate, ← hinternal, if_true]
        rw [hnext, hfound, preamble_length]
        simp only [byteRounds, attempt, frameRounds, headerBytesTimeoutMs, postambleBytesTimeoutMs,
          maxPayloadSize]
        omega
      · rw [if_neg hfound] at hinternal
        rw [remaining_preamble hstate.symm (hinternal.symm.trans hi)]
        have hpos := Nat.mul_pos htook (show 0 < byteRounds by decide)
        omega
  | timeout raised consumed core responses => simp [Raised, hs] at raised

theorem nears_call (env : Env) {s : RxSys} {t : Nat} (h : Steady (s, t)) {irqs : List (List UInt8)}
    (hpaused : Paused s (.run irqs)) (hrest : ¬ AtRest s) :
    Nears (s, t) (clockedStep env (s, t) (.run irqs)) (.run irqs) := by
  obtain ⟨harrivals, htaken⟩ := hpaused
  have harr : irqs.flatten = [] := (List.append_eq_nil_iff.mp harrivals).1
  by_cases hx : Waits s.handle.state
  · by_cases hx' : Waits (runCall env s irqs).handle.state
    · exact nears_inside env h hx _ hx' (contents_silent env harr)
    · exact nears_left env hx harr hx'
  cases hs : s.handle.state with
  | preambleProc =>
      rcases h.tidy hs with hi | hi
      · have hseen : 4 ≤ s.rx.contents.length % 256 := by
          by_contra hno
          exact hrest ⟨hs, hi, Nat.lt_of_not_le hno⟩
        exact nears_searched env hs hi hseen harr
      · exact nears_found env h hs hi harr
  | packetReady => exact nears_released env hs (htaken rfl hs) harr
  | headerProc => exact absurd (.inl hs) hx
  | payloadProc => exact absurd (.inr (.inl hs)) hx
  | crcAndPostambleProc => exact absurd (.inr (.inr hs)) hx
  | invalid => exact absurd hs (active_ne h.active).1
  | last => exact absurd hs (active_ne h.active).2

theorem nears_step (env : Env) {x : Clocked} (h : Steady x) (e : RxEvent) (hpaused : Paused x.1 e)
    (hrest : ¬ AtRest x.1) : Nears x (clockedStep env x e) e := by
  obtain ⟨s, t⟩ := x
  cases e with
  | run irqs => exact nears_call env h hpaused hrest
  | rxByte byte => exact absurd hpaused.1 (List.cons_ne_nil _ _)
  | tick =>
      by_cases hx : InFrame (s, t)
      · exact nears_inside env h hx .tick hx (Nat.le_refl _)
      · exact nears_other hx rfl rfl rfl rfl h.active
  | external event =>
      by_cases hx : InFrame (s, t)
      · exact nears_inside env h hx (.external event) hx (Nat.le_refl _)
      · exact nears_other hx rfl rfl rfl rfl h.active

def settleRanking (env : Env) :
    Ranking (clockedStep env) rxTick rxCall Steady (fun x => ¬ AtRest x.1) fun x e => Paused x.1 e where
  rank := rank
  due := Due
  keep _ e h _ := steady_step env h e
  falls _ e h hp hx _ := (nears_step env h e hp hx).falls
  ticks _ e h hp hx _ he := (nears_step env h e hp hx).ticks he
  waits _ e h hp hx _ hdue _ := ((nears_step env h e hp hx).still hdue).imp_right And.left
  calls _ e h hp hx _ hdue he := by
    rcases (nears_step env h e hp hx).still hdue with hless | ⟨-, hno⟩
    · exact hless
    · rw [he] at hno
      cases hno

theorem run_at_rest (env : Env) {s : RxSys} (h : AtRest s) {irqs : List (List UInt8)}
    (harr : irqs.flatten = []) : coreOf (runCall env s irqs).handle = coreOf s.handle ∧
      (runCall env s irqs).rx.contents = s.rx.contents := by
  obtain ⟨hs, hi, hseen⟩ := h
  have hran := ran_runCall env (overflows_silent env harr (s := s))
  rw [getRxDataLen_silent harr] at hran
  cases hran with
  | stay flow core waits responses => exact ⟨core, (flow_silent env harr flow).symm⟩
  | advance w out flow next enough ready responses =>
      have hreact : react (coreOf s.handle) = none :=
        (react_preamble (c := coreOf s.handle) hs).mpr (by simp [coreOf, hi])
      have hneed : need (coreOf s.handle) = 4 := by simp only [need, coreOf, hs]
      have hfour := enough hreact
      rw [hneed] at hfour
      exact absurd hseen (Nat.not_lt_of_le hfour)
  | timeout raised consumed core responses => simp [Raised, hs] at raised

theorem rest_step (env : Env) {s : RxSys} (h : AtRest s) (e : RxEvent) (hpaused : Paused s e) :
    AtRest (rxStep env s e) := by
  cases e with
  | run irqs =>
      obtain ⟨hcore, hring⟩ := run_at_rest env h (List.append_eq_nil_iff.mp hpaused.1).1
      obtain ⟨hstate, hinternal, -⟩ := RxCore.mk.inj hcore
      exact ⟨hstate.trans h.state, hinternal.trans h.internal, by rw [rxStep, hring]; exact h.seen⟩
  | rxByte byte => exact absurd hpaused.1 (List.cons_ne_nil _ _)
  | tick => exact ⟨h.state, h.internal, h.seen⟩
  | external event => exact ⟨h.state, h.internal, h.seen⟩

theorem ring_step (env : Env) {s : RxSys} (e : RxEvent) (hpaused : Paused s e) :
    (rxStep env s e).rx.contents.length ≤ s.rx.contents.length := by
  cases e with
  | run irqs => exact contents_silent env (List.append_eq_nil_iff.mp hpaused.1).1
  | rxByte byte => exact absurd hpaused.1 (List.cons_ne_nil _ _)
  | tick => exact Nat.le_refl _
  | external event => exact Nat.le_refl _

theorem rank_lt {x : Clocked} (h : Kept x) :
    rank x < x.1.rx.contents.length * byteRounds + attempt := by
  refine Nat.add_lt_add_left ?_ _
  have hwaits (hw : Waits x.1.handle.state) : remaining x.1.handle x.2 < attempt := by
    have hle := patience_le hw h.carried x.2
    rw [remaining_waits hw]
    exact Nat.add_lt_add_of_le_of_lt hle (by decide)
  cases hs : x.1.handle.state with
  | headerProc => exact hwaits (.inl hs)
  | payloadProc => exact hwaits (.inr (.inl hs))
  | crcAndPostambleProc => exact hwaits (.inr (.inr hs))
  | preambleProc =>
      simp only [remaining, hs]
      split_ifs
      · exact Nat.lt_succ_self _
      · decide
  | packetReady =>
      simp only [remaining, hs]
      decide
  | invalid =>
      simp only [remaining, patience, timeoutMs, later, hs, Nat.zero_sub]
      decide
  | last =>
      simp only [remaining, patience, timeoutMs, later, hs, Nat.zero_sub]
      decide

theorem steady_init (env : Env) (h : HostCommRxFsm) (queue : HostCommTxQueue)
    (before : List RxEvent) :
    Steady (run (clockedStep env) (hostCommRxFsmInit (.start h queue), 0) before) :=
  run_preserves (I := Steady) (fun _ e hsteady => steady_step env hsteady e)
    ⟨⟨rxTimers_init h queue 0, carried_init _⟩, rfl, fun _ => .inl rfl⟩ before

/-- A receiver that is left alone comes to rest, from whatever state it is in
and whatever it has stored. -/
theorem pause_settles (env : Env) (h : HostCommRxFsm) (queue : HostCommTxQueue)
    (before pause : List RxEvent) :
    let s := run (rxStep env) (hostCommRxFsmInit (.start h queue)) before
    Along Paused (rxStep env) s pause →
      s.rx.contents.length * byteRounds + attempt ≤ rounds rxTick rxCall false pause →
      AtRest (run (rxStep env) s pause) ∧
        (run (rxStep env) s pause).rx.contents.length ≤ s.rx.contents.length := by
  intro s hpause hrounds
  have hrestful {s : RxSys} {events : List RxEvent} (hrest : AtRest s)
      (hquiet : Along Paused (rxStep env) s events) : AtRest (run (rxStep env) s events) :=
    run_invariant (I := AtRest) (fun _ e hr hp => rest_step env hr e hp) hrest hquiet
  have hring : (run (rxStep env) s pause).rx.contents.length ≤ s.rx.contents.length :=
    run_invariant (I := fun s' => s'.rx.contents.length ≤ s.rx.contents.length)
      (fun _ e hle hp => (ring_step env e hp).trans hle) (Nat.le_refl _) hpause
  refine ⟨?_, hring⟩
  by_cases hrest : AtRest s
  · exact hrestful hrest hpause
  have hsteady := steady_init env h queue before
  have hsame := run_clocked env (hostCommRxFsmInit (.start h queue), 0) before
  generalize run (clockedStep env) (hostCommRxFsmInit (.start h queue), 0) before = x at hsteady hsame
  replace hsame : x.1 = s := hsame
  have halong : Along (fun x e => Paused x.1 e) (clockedStep env) x pause := by
    rw [← hsame] at hpause
    exact along_timed hpause
  have hrank : rank x < rounds rxTick rxCall false pause :=
    Nat.lt_of_lt_of_le (rank_lt hsteady.kept) (hsame ▸ hrounds)
  obtain ⟨first, e, rest, rfl, -, hexit⟩ :=
    (settleRanking env).leaves hsteady (hsame ▸ hrest) halong hrank
  have hreached : AtRest (run (rxStep env) s (first ++ [e])) := by
    have hfirst := not_not.mp hexit
    rw [run_append, ← hsame, ← run_clocked]
    exact hfirst
  rw [List.append_cons] at hpause ⊢
  rw [run_append]
  exact hrestful hreached (along_append.mp hpause).2

theorem pause_settles_header :
    let env : Env := ⟨fun _ => 0, 0⟩
    let h : HostCommRxFsm := ⟨.invalid, .invalid, .invalid, timeEventStop, timeEventStop,
      timeEventStop, ⟨⟨0, 0, 0⟩, .zero⟩⟩
    let before : List RxEvent := (protocolPreamble ++ [1, 0xBB]).map .rxByte ++ [.run [], .run []]
    let pause : List RxEvent := (List.replicate 500 [.tick, .run []]).flatten
    let s := run (rxStep env) (hostCommRxFsmInit (.start h hostCommTxQueueInit)) before
    AtRest (run (rxStep env) s pause) ∧
      (run (rxStep env) s pause).rx.contents.length ≤ s.rx.contents.length := by
  intro env h before pause s
  exact pause_settles env h hostCommTxQueueInit before pause (by decide +kernel) (by decide +kernel)

end HostComm.RxSettle
