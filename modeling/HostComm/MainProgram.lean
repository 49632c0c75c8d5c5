import HostComm.AckService
import HostComm.MainLoop
import HostComm.TxSilence

namespace HostComm.MainProgram

open Protocol UartDriver TxQueue TxSend TxFsm TxDiscipline RxFsm RxMoves RxResponses TxOrder TxDbgMsg
open HostSystem MainLoop TxSilence TxRetries TxService AckService Runs Rounds

/-- Nobody in the program sets an external event. -/
def RaisesNone : HostEvent → Prop
  | .rx (.external _) => False
  | .tx (.external _) => False
  | _ => True

section

variable (env : Env) (local_ : MainPc → TxRequest)

theorem seen_raisesNone (s : MainSys) (e : MainEvent) :
    ∀ event ∈ seenByHost local_ s e, RaisesNone event := by
  cases e with
  | call irqs => cases hpc : s.pc <;> simp [seenByHost, hpc, RaisesNone]
  | sysTick => simp [seenByHost, RaisesNone]
  | rxByte byte => simp [seenByHost, RaisesNone]
  | txComplete => simp [seenByHost, RaisesNone]

theorem forall_seenInMain {P : HostEvent → Prop}
    (h : ∀ s e, ∀ event ∈ seenByHost local_ s e, P event) (s : MainSys) (events : List MainEvent) :
    ∀ event ∈ seenInMain env local_ s events, P event := by
  induction events generalizing s with
  | nil => simp [seenInMain]
  | cons e events ih =>
      intro event hevent
      rcases List.mem_append.mp hevent with hevent | hevent
      · exact h s e event hevent
      · exact ih (mainStep env local_ s e) event hevent

/-- An initialised receiver that nobody releases: one acknowledge for the
packet it holds, none before. -/
structure Once (s : HostSys) : Prop where
  external : s.rx.handle.external ≠ .packetProccessed
  answered : s.rx.responses.countP ackResponse = if s.rx.handle.state = .packetReady then 1 else 0

theorem once_init (rx : HostCommRxFsm) (tx : HostCommTxFsm) (uart : Uart) :
    Once (hostInit rx tx uart) := ⟨RxExternal.noConfusion, rfl⟩

theorem held_host {s : HostSys} (h : Once s) (hs : s.rx.handle.state = .packetReady) (e : HostEvent) :
    (hostStep env s e).rx.handle.state = .packetReady ∧
      (hostStep env s e).rx.responses = s.rx.responses ∧ Untouched s.rx (hostStep env s e).rx := by
  cases e with
  | tx event => exact ⟨hs, rfl, .refl s.rx⟩
  | rx event =>
      obtain ⟨huntouched, hleave⟩ := held_step env (s := { s.rx with queue := s.tx.queue }) hs event
      have hstate : (hostStep env s (.rx event)).rx.handle.state = .packetReady := by
        by_contra hno
        exact h.external (hleave hno).1
      have hanswer : (hostStep env s (.rx event)).rx.responses =
          s.rx.responses ++ answer s.rx.handle (hostStep env s (.rx event)).rx.handle :=
        answer_step env { s.rx with queue := s.tx.queue } event
      rw [answer_same (hstate.trans hs.symm), List.append_nil] at hanswer
      exact ⟨hstate, hanswer, huntouched.packet, huntouched.reads, huntouched.ring⟩

theorem once_step {s : HostSys} {e : HostEvent} (h : Once s) (he : RaisesNone e) :
    Once (hostStep env s e) := by
  cases e with
  | tx event => exact ⟨h.external, h.answered⟩
  | rx event =>
      have hne : event ≠ .external .packetProccessed := by
        rintro rfl
        exact he
      refine ⟨external_step env { s.rx with queue := s.tx.queue } event hne h.external, ?_⟩
      by_cases hs : s.rx.handle.state = .packetReady
      · obtain ⟨hstate, hresp, -⟩ := held_host env h hs (.rx event)
        rw [hresp, hstate, h.answered, hs]
      · have hack := ack_step env { s.rx with queue := s.tx.queue } event
        have henter : Enters s.rx.handle (hostStep env s (.rx event)).rx.handle ↔
            (hostStep env s (.rx event)).rx.handle.state = .packetReady := and_iff_right hs
        refine hack.trans ?_
        rw [h.answered, if_neg hs, Nat.zero_add]
        exact if_congr henter rfl rfl

theorem once_run {s : HostSys} (h : Once s) {events : List HostEvent}
    (he : ∀ e ∈ events, RaisesNone e) : Once (run (hostStep env) s events) :=
  run_preserves_mem (fun _ e hmem hs => once_step env hs (he e hmem)) h

/-- From `ready` on the receiver keeps its packet and answers no more. -/
structure Deaf (ready s : HostSys) : Prop where
  once : Once s
  state : s.rx.handle.state = .packetReady
  responses : s.rx.responses = ready.rx.responses
  untouched : Untouched ready.rx s.rx

theorem deaf_run {s : HostSys} (h : Once s) (hs : s.rx.handle.state = .packetReady)
    {events : List HostEvent} (he : ∀ e ∈ events, RaisesNone e) :
    Deaf s (run (hostStep env) s events) := by
  refine run_preserves_mem (I := Deaf s) (fun s' e hmem hdeaf => ?_) ⟨h, hs, rfl, .refl s.rx⟩
  obtain ⟨hstate, hresponses, huntouched⟩ := held_host env hdeaf.once hdeaf.state e
  exact ⟨once_step env hdeaf.once (he e hmem), hstate, hresponses.trans hdeaf.responses,
    hdeaf.untouched.trans huntouched⟩

def Unbooted (s : MainSys) : Prop :=
  s.pc = .txInit ∨ s.pc = .rxInit → s.host.rx.handle.state = .invalid

theorem unbooted_step (s : MainSys) (e : MainEvent) (h : Unbooted s) :
    Unbooted (mainStep env local_ s e) := by
  intro hpc
  cases e with
  | call irqs =>
      cases hs : s.pc with
      | txInit =>
          have hstate := h (.inl hs)
          simp only [mainStep, mainCall, hs]
          exact hstate
      | _ => simp [mainStep, mainCall, hs] at hpc
  | sysTick => exact h hpc
  | rxByte byte => exact h hpc
  | txComplete => exact h hpc

theorem booted_responses (s : MainSys) : (booted s).rx.responses = s.host.rx.responses := by
  cases hpc : s.pc <;> simp only [booted, hpc] <;> rfl

theorem booted_trace (s : MainSys) : (booted s).tx.trace = s.host.tx.trace := by
  cases hpc : s.pc <;> simp only [booted, hpc] <;> rfl

theorem booted_ready {s : MainSys} (h : Unbooted s) :
    (booted s).rx.handle.state = .packetReady ↔ s.host.rx.handle.state = .packetReady := by
  cases hpc : s.pc with
  | txInit =>
      rw [h (.inl hpc)]
      simp only [booted, hpc]
      exact iff_of_false RxState.noConfusion RxState.noConfusion
  | rxInit =>
      rw [h (.inr hpc)]
      simp only [booted, hpc]
      exact iff_of_false RxState.noConfusion RxState.noConfusion
  | _ => simp only [booted, hpc]

theorem booted_holding {s : MainSys} (h : Unbooted s) (hs : s.host.rx.handle.state = .packetReady) :
    booted s = s.host := by
  cases hpc : s.pc with
  | txInit => exact absurd ((h (.inl hpc)).symm.trans hs) RxState.noConfusion
  | rxInit => exact absurd ((h (.inr hpc)).symm.trans hs) RxState.noConfusion
  | _ => simp only [booted, hpc]

theorem booted_reachable (events : List MainEvent) :
    booted (run (mainStep env local_) powerOn events) =
      run (hostStep env) (hostInit rxStatic txStatic uartInit) (seenInMain env local_ powerOn events) :=
  booted_run env local_ powerOn events

/-- The program acknowledges one frame. It keeps that packet for ever, and
whatever arrives afterwards stays in the ring unread and unanswered. -/
theorem one_frame_received (events later : List MainEvent) :
    let s := run (mainStep env local_) powerOn events
    let s' := run (mainStep env local_) s later
    s.host.rx.responses.countP ackResponse =
        (if s.host.rx.handle.state = .packetReady then 1 else 0) ∧
    (s.host.rx.handle.state = .packetReady →
      s'.host.rx.handle.state = .packetReady ∧ s'.host.rx.responses = s.host.rx.responses ∧
        Untouched s.host.rx s'.host.rx) := by
  intro s s'
  have hquiet (s : MainSys) (events : List MainEvent) := forall_seenInMain env local_
    (fun s e => seen_raisesNone local_ s e) s events
  have hunbooted : Unbooted s :=
    run_preserves (unbooted_step env local_) (fun _ => rfl) events
  have honce : Once (booted s) := by
    rw [booted_reachable]
    exact once_run env (once_init ..) (hquiet powerOn events)
  refine ⟨?_, fun hs => ?_⟩
  · have hcount := honce.answered
    rw [booted_responses] at hcount
    rw [hcount]
    exact if_congr (booted_ready hunbooted) rfl rfl
  · have hlater : Unbooted s' := run_preserves (unbooted_step env local_) hunbooted later
    have hdeaf := deaf_run env honce ((booted_ready hunbooted).mpr hs) (hquiet s later)
    rw [← booted_run] at hdeaf
    have hstate : s'.host.rx.handle.state = .packetReady := (booted_ready hlater).mp hdeaf.state
    have huntouched := hdeaf.untouched
    rw [booted_holding hlater hstate, booted_holding hunbooted hs] at huntouched
    refine ⟨hstate, ?_, huntouched⟩
    rw [← booted_responses, ← booted_responses s]
    exact hdeaf.responses

theorem message1_fits : Fits (message1 local_) := by
  change (UInt16.ofNat debugMessage1.length).toNat ≤ 251
  decide

theorem message2_fits : Fits (message2 local_) := by
  change (UInt16.ofNat debugMessage2.length).toNat ≤ 251
  decide

theorem seen_appFits (s : MainSys) (events : List MainEvent) :
    AppFits (seenInMain env local_ s events) := by
  intro r hr
  refine forall_seenInMain env local_ (P := fun e => ∀ r, e = .tx (.request r) → Fits r)
    (fun s e event hevent r hr => ?_) s events _ hr r rfl
  subst hr
  cases e with
  | call irqs =>
      cases hpc : s.pc with
      | message1 =>
          simp only [seenByHost, hpc, List.mem_singleton, HostEvent.tx.injEq, TxEvent.request.injEq] at hevent
          exact hevent ▸ message1_fits local_
      | message2 =>
          simp only [seenByHost, hpc, List.mem_singleton, HostEvent.tx.injEq, TxEvent.request.injEq] at hevent
          exact hevent ▸ message2_fits local_
      | _ => simp [seenByHost, hpc] at hevent
  | sysTick => simp [seenByHost] at hevent
  | rxByte byte => simp [seenByHost] at hevent
  | txComplete => simp [seenByHost] at hevent

theorem silent_host {s : HostSys} (h : Silent s.tx) {e : HostEvent} (he : RaisesNone e) :
    Silent (hostStep env s e).tx := by
  rw [tx_step]
  refine silent_reachable env h fun event hevent => ?_
  cases e with
  | rx rxEvent =>
      obtain ⟨r, hr⟩ := seen_rx env s rxEvent _ hevent
      cases hr
  | tx txEvent =>
      rw [← List.mem_singleton.mp hevent] at he
      exact he

theorem quiet_along {s : HostSys} (h : Silent s.tx) {events : List HostEvent}
    (he : ∀ e ∈ events, RaisesNone e) :
    Along (fun s e => ¬ HostNack s e) (hostStep env) s events := by
  induction events generalizing s with
  | nil => trivial
  | cons e events ih =>
      obtain ⟨hhead, htail⟩ := List.forall_mem_cons.mp he
      refine ⟨?_, ih (silent_host env h hhead) htail⟩
      cases e with
      | rx event => exact id
      | tx event =>
          intro hnack
          cases event with
          | run =>
              have hexternal := hnack.2.2
              rw [h.external] at hexternal
              cases hexternal
          | _ => exact hnack

theorem accepted_responses (s : TxSys) (responses : List RxResponse) :
    ∃ more, more.Sublist (responses.map RxResponse.request) ∧
      acceptedOf (writeResponses s responses).trace = acceptedOf s.trace ++ more := by
  induction responses generalizing s with
  | nil => exact ⟨[], .slnil, (List.append_nil _).symm⟩
  | cons r responses ih =>
      obtain ⟨more, hsub, haccepted⟩ := ih (writeRequest s r.request)
      have hwrite : acceptedOf (writeRequest s r.request).trace = acceptedOf s.trace ∨
          acceptedOf (writeRequest s r.request).trace = acceptedOf s.trace ++ [r.request] := by
        rw [writeRequest]
        dsimp only
        split_ifs
        · exact .inr rfl
        · exact .inl rfl
      rcases hwrite with hsame | hgrown
      · exact ⟨more, hsub.cons _, haccepted.trans (by rw [hsame])⟩
      · refine ⟨r.request :: more, hsub.cons_cons _, haccepted.trans ?_⟩
        rw [hgrown, List.append_assoc, List.singleton_append]

/-- The two messages come first, and behind them only what the receiver answers. -/
def Replies (s : HostSys) : Prop :=
  ∃ rest, rest.Sublist (s.rx.responses.map RxResponse.request) ∧
    acceptedOf s.tx.trace = message1 local_ :: message2 local_ :: rest

theorem replies_rx {s : HostSys} (h : Replies local_ s) (event : RxEvent) :
    Replies local_ (hostStep env s (.rx event)) := by
  obtain ⟨rest, hsub, haccepted⟩ := h
  have hanswer : (hostStep env s (.rx event)).rx.responses =
      s.rx.responses ++ answer s.rx.handle (hostStep env s (.rx event)).rx.handle :=
    answer_step env { s.rx with queue := s.tx.queue } event
  obtain ⟨more, hmore, hnext⟩ := accepted_responses s.tx
    ((hostStep env s (.rx event)).rx.responses.drop s.rx.responses.length)
  rw [hanswer, List.drop_left] at hmore
  refine ⟨rest ++ more, ?_, hnext.trans ?_⟩
  · rw [hanswer, List.map_append]
    exact hsub.append hmore
  · rw [haccepted]
    rfl

theorem replies_tx {s : HostSys} (h : Replies local_ s) {event : TxEvent}
    (he : acceptedOf (txStep env s.tx event).trace = acceptedOf s.tx.trace) :
    Replies local_ (hostStep env s (.tx event)) := by
  obtain ⟨rest, hsub, haccepted⟩ := h
  exact ⟨rest, hsub, he.trans haccepted⟩

theorem accepted_complete (s : TxSys) :
    acceptedOf (txStep env s .txComplete).trace = acceptedOf s.trace := by
  obtain ⟨uart, hnext⟩ := txComplete_uart env s
  rw [hnext]

theorem replies_irq {s : HostSys} (h : Replies local_ s) {e : HostEvent} (he : IrqEvent e) :
    Replies local_ (hostStep env s e) := by
  cases he with
  | txTick => exact replies_tx env local_ h rfl
  | rxTick => exact replies_rx env local_ h .tick
  | rxByte byte => exact replies_rx env local_ h (.rxByte byte)
  | txComplete => exact replies_tx env local_ h (accepted_complete env s.tx)

theorem irq_keeps (s : HostSys) {e : HostEvent} (h : IrqEvent e) :
    (hostStep env s e).tx.queue = s.tx.queue ∧ (hostStep env s e).tx.trace = s.tx.trace := by
  cases h with
  | txTick => exact ⟨rfl, rfl⟩
  | rxTick =>
      rw [unanswered env s rfl]
      exact ⟨rfl, rfl⟩
  | rxByte byte =>
      rw [unanswered env s rfl]
      exact ⟨rfl, rfl⟩
  | txComplete =>
      obtain ⟨uart, hnext⟩ := txComplete_uart env s.tx
      rw [hostStep, hnext]
      exact ⟨rfl, rfl⟩

/-- The start of the program writes its two messages to the empty queue. -/
def Greeted (s : MainSys) : Prop :=
  match s.pc with
  | .txInit => s.host.tx.trace = []
  | .rxInit | .message1 => Holds s.host.tx.queue [] ∧ s.host.tx.trace = []
  | .message2 =>
      Holds s.host.tx.queue [message1 local_] ∧ acceptedOf s.host.tx.trace = [message1 local_]
  | _ => Replies local_ s.host

theorem greeted_irq {s : MainSys} (h : Greeted local_ s) {e : HostEvent} (he : IrqEvent e) :
    Greeted local_ { s with host := hostStep env s.host e } := by
  obtain ⟨hqueue, htrace⟩ := irq_keeps env s.host he
  cases hpc : s.pc with
  | txInit =>
      simp only [Greeted, hpc] at h ⊢
      rw [htrace, h]
  | rxInit | message1 | message2 =>
      simp only [Greeted, hpc] at h ⊢
      rw [hqueue, htrace]
      exact h
  | _ =>
      simp only [Greeted, hpc] at h ⊢
      exact replies_irq env local_ h he

theorem accepted_message {s : TxSys} {L : List TxRequest} (h : Holds s.queue L) {r : TxRequest}
    (hr : Fits r)
    (hroom : 6 + r.packet.header.payloadLen.toNat ≤ txQueueBuffSize - s.queue.cb.contents.length) :
    Holds (writeRequest s r).queue (L ++ [r]) ∧
      acceptedOf (writeRequest s r).trace = acceptedOf s.trace ++ [r] := by
  have hwrite := holds_write h hr
  rw [if_pos hroom] at hwrite
  rw [writeRequest, hwrite.1]
  exact ⟨hwrite.2, rfl⟩

theorem message1_len : (message1 local_).packet.header.payloadLen.toNat = 42 := by
  change (UInt16.ofNat debugMessage1.length).toNat = 42
  decide

theorem message2_len : (message2 local_).packet.header.payloadLen.toNat = 45 := by
  change (UInt16.ofNat debugMessage2.length).toNat = 45
  decide

theorem message1_stored : (encode (message1 local_)).length = 48 := by
  have hbody := body_length_of_fits (message1_fits local_)
  rw [message1_len] at hbody
  simp [encode, hbody]

theorem greeted_call {s : MainSys} (h : Greeted local_ s) (irqs : List (List UInt8)) :
    Greeted local_ (mainCall env local_ s irqs) := by
  cases hpc : s.pc with
  | txInit =>
      simp only [Greeted, hpc] at h
      simp only [Greeted, mainCall, hpc, initTx]
      exact ⟨holds_init, h⟩
  | rxInit =>
      simp only [Greeted, hpc] at h
      simp only [Greeted, mainCall, hpc, initRx]
      exact h
  | message1 =>
      simp only [Greeted, hpc] at h
      obtain ⟨hqueue, htrace⟩ := h
      obtain ⟨hnext, haccepted⟩ := accepted_message hqueue (message1_fits local_)
        (by rw [hqueue.stored, message1_len]; decide)
      simp only [Greeted, mainCall, hpc, message1_step env]
      refine ⟨hnext, haccepted.trans ?_⟩
      rw [htrace]
      rfl
  | message2 =>
      simp only [Greeted, hpc] at h
      obtain ⟨hqueue, htrace⟩ := h
      obtain ⟨-, haccepted⟩ := accepted_message hqueue (message2_fits local_)
        (by rw [hqueue.stored, message2_len, List.flatMap_singleton, message1_stored]; decide)
      simp only [Greeted, mainCall, hpc, message2_step env]
      refine ⟨[], List.nil_sublist _, haccepted.trans ?_⟩
      rw [htrace]
      rfl
  | rxRun =>
      simp only [Greeted, hpc] at h
      simp only [Greeted, mainCall, hpc]
      exact replies_rx env local_ h (.run irqs)
  | txRun =>
      simp only [Greeted, hpc] at h
      simp only [Greeted, mainCall, hpc]
      exact replies_tx env local_ h (accepted_run env s.host.tx)
  | heartbeat =>
      simp only [Greeted, hpc] at h
      simp only [Greeted, mainCall, hpc, heartbeatHandler]
      split_ifs
      · exact h
      · exact h

theorem greeted_step (s : MainSys) (e : MainEvent) (h : Greeted local_ s) :
    Greeted local_ (mainStep env local_ s e) := by
  cases e with
  | call irqs => exact greeted_call env local_ h irqs
  | sysTick => exact greeted_irq env local_ (greeted_irq env local_ h .txTick) .rxTick
  | rxByte byte => exact greeted_irq env local_ h (.rxByte byte)
  | txComplete => exact greeted_irq env local_ h .txComplete

theorem Greeted.accepted {s : MainSys} (h : Greeted local_ s) :
    ∃ rest, rest.Sublist (s.host.rx.responses.map RxResponse.request) ∧
      acceptedOf s.host.tx.trace <+: message1 local_ :: message2 local_ :: rest := by
  cases hpc : s.pc with
  | txInit =>
      simp only [Greeted, hpc] at h
      exact ⟨[], List.nil_sublist _, by rw [h]; exact List.nil_prefix⟩
  | rxInit | message1 =>
      simp only [Greeted, hpc] at h
      exact ⟨[], List.nil_sublist _, by rw [h.2]; exact List.nil_prefix⟩
  | message2 =>
      simp only [Greeted, hpc] at h
      exact ⟨[], List.nil_sublist _, by rw [h.2]; exact ⟨_, rfl⟩⟩
  | _ =>
      simp only [Greeted, hpc] at h
      obtain ⟨rest, hsub, haccepted⟩ := h
      exact ⟨rest, hsub, haccepted ▸ List.prefix_rfl⟩

theorem greeted_reachable (events : List MainEvent) :
    Greeted local_ (run (mainStep env local_) powerOn events) := by
  have hstart : Greeted local_ powerOn := by simp only [Greeted, powerOn]
  exact run_preserves (greeted_step env local_) hstart events

theorem silent_main (events : List MainEvent) :
    Silent (booted (run (mainStep env local_) powerOn events)).tx := by
  rw [booted_reachable]
  exact run_preserves_mem (I := fun s : HostSys => Silent s.tx)
    (fun _ e hmem hs => silent_host env hs
      (forall_seenInMain env local_ (fun s e => seen_raisesNone local_ s e) powerOn events e hmem))
    (silent_init txStatic uartInit)

theorem ordered_main (events : List MainEvent) :
    ∃ L, Ordered (booted (run (mainStep env local_) powerOn events)).tx L := by
  rw [booted_reachable]
  exact ordered_host env ⟨[], ordered_init txStatic uartInit⟩ (seen_appFits env local_ powerOn events)

theorem copies_length (r : TxRequest) : (copies r).length = if r.ackExpected then 3 else 1 := by
  rw [copies, List.length_replicate]

theorem same_copies {a r : TxRequest} (h : SameRequest a r) :
    (copies r).length = (copies a).length := by
  rw [copies_length, copies_length, h.ackExpected]

theorem copies_flatMap_length {M handed : List TxRequest} (h : List.Forall₂ SameRequest M handed) :
    (handed.flatMap copies).length = (M.flatMap copies).length := by
  induction h with
  | nil => rfl
  | cons hsame _ ih =>
      rw [List.flatMap_cons, List.flatMap_cons, List.length_append, List.length_append, ih,
        same_copies hsame]

theorem responses_once {rest : List TxRequest} (h : ∀ r ∈ rest, r.ackExpected = false) :
    (rest.flatMap copies).length = rest.length := by
  induction rest with
  | nil => rfl
  | cons r rest ih =>
      obtain ⟨hr, hrest⟩ := List.forall_mem_cons.mp h
      rw [List.flatMap_cons, List.length_append, ih hrest, copies_length, hr, List.length_cons,
        Nat.add_comm]
      rfl

theorem responses_bare (events : List MainEvent) :
    ∀ r ∈ (run (mainStep env local_) powerOn events).host.rx.responses,
      r.request.ackExpected = false := by
  rw [← booted_responses, booted_reachable]
  intro r hr
  refine (run_preserves (I := fun s : HostSys => ∀ r ∈ s.rx.responses,
    r.request.packet.header.payloadLen = 0 ∧ r.request.ackExpected = false)
    (fun s e h => ?_) (by intro r hr; cases hr) _ r hr).2
  cases e with
  | rx event => exact bare_step env { s.rx with queue := s.tx.queue } event h
  | tx event => exact h

/-- The program sends its first message up to three times, its second one once
and each response that found room once, in this order. -/
theorem main_sends (events : List MainEvent) :
    let s := run (mainStep env local_) powerOn events
    let t := s.host.tx.trace
    (∃ rest M, rest.Sublist (s.host.rx.responses.map RxResponse.request) ∧
      M <+: message1 local_ :: message2 local_ :: rest ∧
      List.Forall₂ SameRequest M (handedOf t) ∧ sentOf t <+: (handedOf t).flatMap copies) ∧
    (sentOf t).length ≤ s.host.rx.responses.length + 4 := by
  intro s t
  have hsilent := silent_main env local_ events
  obtain ⟨L, hL⟩ := ordered_main env local_ events
  obtain ⟨rest, hsub, haccepted⟩ := (greeted_reachable env local_ events).accepted
  obtain ⟨M, hM, hsame⟩ := hL.order
  have hsent := hsilent.sent_prefix
  rw [booted_trace] at hM hsame hsent
  have hprefix : M <+: message1 local_ :: message2 local_ :: rest :=
    (hM ▸ List.prefix_append M L).trans haccepted
  refine ⟨⟨rest, M, hsub, hprefix, hsame, hsent⟩, ?_⟩
  have hbare : ∀ r ∈ rest, r.ackExpected = false := by
    intro r hr
    obtain ⟨response, hmem, rfl⟩ := List.mem_map.mp (hsub.subset hr)
    exact responses_bare env local_ events response hmem
  calc (sentOf t).length
      ≤ ((handedOf t).flatMap copies).length := hsent.length_le
    _ = (M.flatMap copies).length := copies_flatMap_length hsame
    _ ≤ ((message1 local_ :: message2 local_ :: rest).flatMap copies).length := by
        obtain ⟨more, hmore⟩ := hprefix
        rw [← hmore, List.flatMap_append, List.length_append]
        exact Nat.le_add_right ..
    _ = rest.length + 4 := by
        rw [List.flatMap_cons, List.flatMap_cons, List.length_append, List.length_append,
          responses_once hbare, copies_length, copies_length]
        change 3 + (1 + rest.length) = rest.length + 4
        omega
    _ ≤ s.host.rx.responses.length + 4 := by
        have hlen := hsub.length_le
        rw [List.length_map] at hlen
        exact Nat.add_le_add_right hlen 4

def Looping (s : MainSys) : Prop := s.pc = .rxRun ∨ s.pc = .txRun ∨ s.pc = .heartbeat

instance (s : MainSys) : Decidable (Looping s) := inferInstanceAs (Decidable (_ ∨ _))

theorem Looping.booted {s : MainSys} (h : Looping s) : MainLoop.booted s = s.host := by
  rcases h with hpc | hpc | hpc
  all_goals simp only [MainLoop.booted, hpc]

theorem Looping.replies {s : MainSys} (h : Looping s) (hs : Greeted local_ s) :
    Replies local_ s.host := by
  rcases h with hpc | hpc | hpc
  all_goals
    simp only [Greeted, hpc] at hs
    exact hs

theorem first_two {handed : List TxRequest} {r₁ r₂ : TxRequest} (h₁ : handed[0]? = some r₁)
    (h₂ : handed[1]? = some r₂) : [r₁] ++ [r₂] <+: handed := by
  rcases handed with _ | ⟨a, _ | ⟨b, handed⟩⟩
  · cases h₁
  · cases h₂
  · cases h₁
    cases h₂
    exact ⟨handed, rfl⟩

/-- Both messages go out within two times the rounds of a request, whatever the
host does. -/
theorem messages_sent (events later : List MainEvent) :
    let s := run (mainStep env local_) powerOn events
    let s' := run (mainStep env local_) s later
    Looping s →
      2 * requestRounds ≤ rounds hostTick hostCall false (seenInMain env local_ s later) →
      ∃ r₁ r₂, SameRequest (message1 local_) r₁ ∧ SameRequest (message2 local_) r₂ ∧
        [r₁, r₁, r₁, r₂] <+: sentOf s'.host.tx.trace := by
  intro s s' hloop hrounds
  obtain ⟨rest, -, haccepted⟩ := hloop.replies local_ (greeted_reachable env local_ events)
  have hhost : s.host = run (hostStep env) (hostInit rxStatic txStatic uartInit)
      (seenInMain env local_ powerOn events) := by
    rw [← booted_reachable]
    exact hloop.booted.symm
  have hnack : Along (fun s e => ¬ HostNack s e) (hostStep env) s.host (seenInMain env local_ s later) := by
    have hsilent := silent_main env local_ events
    rw [hloop.booted] at hsilent
    exact quiet_along env hsilent (forall_seenInMain env local_
      (fun s e => seen_raisesNone local_ s e) s later)
  have hfit : AppFits (seenInMain env local_ powerOn events ++ seenInMain env local_ s later) := by
    intro r hr
    rcases List.mem_append.mp hr with hr | hr
    · exact seen_appFits env local_ powerOn events r hr
    · exact seen_appFits env local_ s later r hr
  have hlater : (booted s').tx.trace = (run (hostStep env) s.host (seenInMain env local_ s later)).tx.trace := by
    rw [booted_run, hloop.booted]
  have hserved {k : Nat} (hk : k < 2) :
      ∃ a r, (message1 local_ :: message2 local_ :: rest)[k]? = some a ∧
        (handedOf (booted s').tx.trace)[k]? = some r ∧ SameRequest a r := by
    have hlen : k < (acceptedOf s.host.tx.trace).length := by
      rw [haccepted]
      exact Nat.lt_of_lt_of_le hk (Nat.le_add_left ..)
    have hbudget : (k + 1 - (handedOf s.host.tx.trace).length) * requestRounds ≤ 2 * requestRounds :=
      Nat.mul_le_mul_right _ (by omega)
    have hserved := host_served env rxStatic txStatic uartInit hfit (k := k)
    rw [← hhost] at hserved
    rw [hlater, ← haccepted]
    exact hserved hlen hnack (hbudget.trans hrounds)
  obtain ⟨a₁, r₁, ha₁, hr₁, hsame₁⟩ := hserved (k := 0) (by decide)
  obtain ⟨a₂, r₂, ha₂, hr₂, hsame₂⟩ := hserved (k := 1) (by decide)
  cases ha₁
  cases ha₂
  have hsilent' : Silent (booted s').tx := by
    have hsilent := silent_main env local_ (events ++ later)
    rw [run_append] at hsilent
    exact hsilent
  have hcopies : copies r₁ = [r₁, r₁, r₁] := by
    rw [copies, ← hsame₁.ackExpected]
    rfl
  have hhanded : [r₁] ++ [r₂] <+: handedOf (booted s').tx.trace := first_two hr₁ hr₂
  have hprefix := hsilent'.prefix_sent hhanded
  rw [List.flatMap_singleton, hcopies, booted_trace] at hprefix
  exact ⟨r₁, r₂, hsame₁, hsame₂, hprefix⟩

end

def frameBytes : List MainEvent :=
  (protocolPreamble ++ [1, 0xBB, 0, 0, 1, 0xBB, 0, 0] ++ protocolPostamble).map .rxByte

/-- The second frame is not read. -/
theorem one_frame_received_twice :
    let step := mainStep ⟨fun _ => 0, 0⟩ fun _ => txStatic.request
    let s := run step powerOn (bootCalls ++ frameBytes ++ List.replicate 18 (.call []))
    let s' := run step s (frameBytes ++ List.replicate 18 (.call []))
    s'.host.rx.handle.state = .packetReady ∧ s'.host.rx.responses = s.host.rx.responses ∧
      Untouched s.host.rx s'.host.rx := by
  have hreceived := one_frame_received ⟨fun _ => 0, 0⟩ (fun _ => txStatic.request)
    (bootCalls ++ frameBytes ++ List.replicate 18 (.call []))
    (frameBytes ++ List.replicate 18 (.call []))
  exact hreceived.2 (by decide +kernel)

def passes (n : Nat) : List MainEvent :=
  (List.replicate n [.sysTick, .call [], .call [], .call []]).flatten

theorem messages_sent_alone :
    let local_ : MainPc → TxRequest := fun _ => txStatic.request
    let s := run (mainStep ⟨fun _ => 0, 0⟩ local_) powerOn bootCalls
    let s' := run (mainStep ⟨fun _ => 0, 0⟩ local_) s (passes (2 * requestRounds))
    ∃ r₁ r₂, SameRequest (message1 local_) r₁ ∧ SameRequest (message2 local_) r₂ ∧
      [r₁, r₁, r₁, r₂] <+: sentOf s'.host.tx.trace := by
  have hsent := messages_sent ⟨fun _ => 0, 0⟩ (fun _ => txStatic.request) bootCalls
    (passes (2 * requestRounds))
  exact hsent (by decide +kernel) (by decide +kernel)

end HostComm.MainProgram
