import HostComm.RxMoves
import HostComm.Runs

namespace HostComm.RxResponses

open Protocol TimeEvents UartDriver ByteRings TxQueue TxSend TxFsm RxFsm RxStream RxParser RxMoves Runs

def ackResponse (r : RxResponse) : Bool := r.request.packet.header.type = targetToHostResAck

def nackResponse (r : RxResponse) : Bool := r.request.packet.header.type = targetToHostResNack

/-- A step into the state of a received packet. -/
def Enters (h h' : HostCommRxFsm) : Prop := h.state ≠ .packetReady ∧ h'.state = .packetReady

def Returns (h h' : HostCommRxFsm) : Prop :=
  (h.state = .headerProc ∨ h.state = .payloadProc ∨ h.state = .crcAndPostambleProc) ∧
    h'.state = .preambleProc

instance (h h' : HostCommRxFsm) : Decidable (Enters h h') := inferInstanceAs (Decidable (_ ∧ _))

instance (h h' : HostCommRxFsm) : Decidable (Returns h h') := inferInstanceAs (Decidable (_ ∧ _))

def answer (h h' : HostCommRxFsm) : List RxResponse :=
  if Enters h h' then [⟨noPayloadRequest targetToHostResAck false, h.packet⟩]
  else if Returns h h' then [⟨noPayloadRequest targetToHostResNack false, h.packet⟩]
  else []

theorem answer_same {h h' : HostCommRxFsm} (hs : h'.state = h.state) : answer h h' = [] := by
  have henter : ¬ Enters h h' := fun he => he.1 (hs.symm.trans he.2)
  have hreturn : ¬ Returns h h' := by
    rintro ⟨hwait, hnext⟩
    rw [hs] at hnext
    simp [hnext] at hwait
  rw [answer, if_neg henter, if_neg hreturn]

theorem answer_edge {h h' : HostCommRxFsm} {type : Option UInt8} (hedge : Edge h.state type h'.state) :
    answer h h' = (type.map fun type => RxResponse.mk (noPayloadRequest type false) h.packet).toList := by
  generalize hs : h.state = before, hs' : h'.state = after at hedge
  cases hedge
  all_goals simp [answer, Enters, Returns, hs, hs']

theorem answer_moves {s s' : RxSys} (h : Moves s s') :
    s'.responses = s.responses ++ answer s.handle s'.handle := by
  cases h with
  | stay handle header quiet held answered =>
      rw [answered.responses, answer_same (by rw [handle])]
      rfl
  | leave type next edge handle released answered =>
      have hnext : s'.handle.state = next := by rw [handle, state_goto]
      rw [answered.responses, answer_edge (hnext ▸ edge)]

theorem responses_same {s s' : RxSys} (hstate : s'.handle.state = s.handle.state)
    (hresp : s'.responses = s.responses) :
    s'.responses = s.responses ++ answer s.handle s'.handle := by
  rw [answer_same hstate, List.append_nil, hresp]

theorem answer_step (env : Env) (s : RxSys) (e : RxEvent) :
    (rxStep env s e).responses = s.responses ++ answer s.handle (rxStep env s e).handle := by
  cases e with
  | run irqs =>
      have h := answer_moves (moves_run env { s with irqs })
      rw [rxStep, runCall, responses_rxBytes, handle_rxBytes]
      exact h
  | rxByte byte => exact responses_same rfl rfl
  | tick => exact responses_same rfl rfl
  | external event => exact responses_same rfl rfl

def writeAll (q : HostCommTxQueue) (responses : List RxResponse) : HostCommTxQueue :=
  responses.foldl (fun q r => (hostCommTxQueueWriteRequest q r.request).2) q

theorem writeAll_same (q : HostCommTxQueue) {h h' : HostCommRxFsm} (hs : h'.state = h.state) :
    writeAll q (answer h h') = q := by
  rw [answer_same hs]
  rfl

theorem queue_moves {s s' : RxSys} (h : Moves s s') :
    s'.queue = writeAll s.queue (answer s.handle s'.handle) := by
  cases h with
  | stay handle header quiet held answered =>
      rw [answered.queue, writeAll_same _ (by rw [handle])]
  | leave type next edge handle released answered =>
      have hnext : s'.handle.state = next := by rw [handle, state_goto]
      rw [answered.queue, answer_edge (hnext ▸ edge)]
      cases type with
      | none => rfl
      | some type => rfl

theorem queue_step (env : Env) (s : RxSys) (e : RxEvent) :
    (rxStep env s e).queue = writeAll s.queue (answer s.handle (rxStep env s e).handle) := by
  cases e with
  | run irqs =>
      have h := queue_moves (moves_run env { s with irqs })
      rw [rxStep, runCall, queue_rxBytes, handle_rxBytes]
      exact h
  | rxByte byte => exact (writeAll_same s.queue rfl).symm
  | tick => exact (writeAll_same s.queue rfl).symm
  | external event => exact (writeAll_same s.queue rfl).symm

theorem ack_step (env : Env) (s : RxSys) (e : RxEvent) :
    (rxStep env s e).responses.countP ackResponse =
      s.responses.countP ackResponse + if Enters s.handle (rxStep env s e).handle then 1 else 0 := by
  rw [answer_step, List.countP_append, answer]
  split_ifs <;> rfl

theorem nack_step (env : Env) (s : RxSys) (e : RxEvent) :
    (rxStep env s e).responses.countP nackResponse =
      s.responses.countP nackResponse + if Returns s.handle (rxStep env s e).handle then 1 else 0 := by
  rw [answer_step, List.countP_append, answer]
  split_ifs with henter hreturn
  · have h := henter.2.symm.trans hreturn.2
    cases h
  · rfl
  · rfl
  · rfl

theorem bare_step (env : Env) (s : RxSys) (e : RxEvent)
    (h : ∀ r ∈ s.responses, r.request.packet.header.payloadLen = 0 ∧ r.request.ackExpected = false) :
    ∀ r ∈ (rxStep env s e).responses,
      r.request.packet.header.payloadLen = 0 ∧ r.request.ackExpected = false := by
  intro r hr
  rw [answer_step, List.mem_append] at hr
  rcases hr with hr | hr
  · exact h r hr
  · rw [answer] at hr
    split_ifs at hr
    · rw [List.mem_singleton.mp hr]
      exact ⟨rfl, rfl⟩
    · rw [List.mem_singleton.mp hr]
      exact ⟨rfl, rfl⟩
    · cases hr

/-- From `s` to `s'` the machine left the packet and the ring alone: it read
nothing, and the ring changed by the bytes that arrived only. -/
structure Untouched (s s' : RxSys) : Prop where
  packet : s'.handle.packet = s.handle.packet
  reads : s'.reads = s.reads
  ring : ∃ bytes, s'.arrived = s.arrived ++ bytes ∧ s'.rx = bytes.foldl rxArrival s.rx

theorem Untouched.refl (s : RxSys) : Untouched s s :=
  ⟨rfl, rfl, [], (List.append_nil _).symm, rfl⟩

theorem Untouched.trans {s₁ s₂ s₃ : RxSys} (h : Untouched s₁ s₂) (k : Untouched s₂ s₃) :
    Untouched s₁ s₃ := by
  obtain ⟨b₁, harr₁, hrx₁⟩ := h.ring
  obtain ⟨b₂, harr₂, hrx₂⟩ := k.ring
  refine ⟨k.packet.trans h.packet, k.reads.trans h.reads, b₁ ++ b₂, ?_, ?_⟩
  · rw [harr₂, harr₁, List.append_assoc]
  · rw [hrx₂, hrx₁, List.foldl_append]

theorem untouched_rxBytes (s : RxSys) (bytes : List UInt8) : Untouched s (rxBytes s bytes) :=
  ⟨by rw [handle_rxBytes], reads_rxBytes .., bytes, arrived_rxBytes .., rx_rxBytes bytes s⟩

theorem held_step (env : Env) {s : RxSys} (hs : s.handle.state = .packetReady) (e : RxEvent) :
    Untouched s (rxStep env s e) ∧
      ((rxStep env s e).handle.state ≠ .packetReady →
        s.handle.external = .packetProccessed ∧ (∃ irqs, e = .run irqs) ∧
          (rxStep env s e).handle.state = .preambleProc) := by
  cases e with
  | run irqs =>
      rw [rxStep, runCall, handle_rxBytes]
      cases moves_run env { s with irqs } with
      | stay handle header quiet held answered =>
          obtain ⟨-, hsame⟩ := held hs
          rw [hsame]
          refine ⟨Untouched.trans ?_ (untouched_rxBytes _ _), fun hne => absurd hs hne⟩
          exact ⟨rfl, rfl, [], (List.append_nil _).symm, rfl⟩
      | leave type next edge handle released answered =>
          obtain ⟨hext, hrx, hirqs, hreads, harrived⟩ := released hs
          have hnext : next = .preambleProc := by
            simp only [hs] at edge
            cases edge
            rfl
          refine ⟨?_, fun _ => ⟨hext, ⟨irqs, rfl⟩, by simp [handle, hnext]⟩⟩
          refine Untouched.trans ?_ (untouched_rxBytes _ _)
          exact ⟨by simp [handle], hreads, [], by simpa using harrived, hrx⟩
  | rxByte byte =>
      exact ⟨untouched_rxBytes s [byte], fun hne => absurd hs hne⟩
  | tick => exact ⟨⟨rfl, rfl, [], (List.append_nil _).symm, rfl⟩, fun hne => absurd hs hne⟩
  | external event => exact ⟨⟨rfl, rfl, [], (List.append_nil _).symm, rfl⟩, fun hne => absurd hs hne⟩

def Holding (s : RxSys) : Prop := s.handle.state = .packetReady

theorem untouched_run (env : Env) (s : RxSys) (events : List RxEvent)
    (h : Throughout Holding (rxStep env) s events) : Untouched s (run (rxStep env) s events) := by
  induction events using List.reverseRecOn with
  | nil => exact .refl s
  | append_singleton events e ih =>
      have hbefore : Untouched s (run (rxStep env) s events) :=
        ih fun m hm => h m (hm.trans (List.prefix_append ..))
      rw [run_append]
      exact hbefore.trans (held_step env (h events (List.prefix_append ..)) e).1

theorem external_step (env : Env) (s : RxSys) (e : RxEvent)
    (he : e ≠ .external .packetProccessed) (hs : s.handle.external ≠ .packetProccessed) :
    (rxStep env s e).handle.external ≠ .packetProccessed := by
  cases e with
  | run irqs =>
      rw [rxStep, runCall, handle_rxBytes]
      cases moves_run env { s with irqs } with
      | stay handle header quiet held answered =>
          rw [handle]
          exact hs
      | leave type next edge handle released answered =>
          rw [handle, external_goto]
          decide
  | rxByte byte => exact hs
  | tick => exact hs
  | external event => exact fun h => he (congrArg RxEvent.external h)

theorem external_run (env : Env) {s : RxSys} (hs : s.handle.external ≠ .packetProccessed)
    {events : List RxEvent}
    (h : (run (rxStep env) s events).handle.external = .packetProccessed) :
    RxEvent.external .packetProccessed ∈ events := by
  by_contra hno
  refine run_invariant (P := fun _ e => e ≠ .external .packetProccessed)
    (I := fun s => s.handle.external ≠ .packetProccessed)
    (fun s e hs he => external_step env s e he hs) hs ?_ h
  apply along_of_mem
  rintro _ e he rfl
  exact hno he

theorem enters_external (env : Env) {s : RxSys} {e : RxEvent}
    (h : Enters s.handle (rxStep env s e).handle) :
    (rxStep env s e).handle.external = .invalid := by
  obtain ⟨hbefore, hafter⟩ := h
  cases e with
  | run irqs =>
      rw [rxStep, runCall, handle_rxBytes] at hafter ⊢
      cases moves_run env { s with irqs } with
      | stay handle header quiet held answered =>
          rw [handle] at hafter
          exact absurd hafter hbefore
      | leave type next edge handle released answered => rw [handle, external_goto]
  | rxByte byte => exact absurd hafter hbefore
  | tick => exact absurd hafter hbefore
  | external event => exact absurd hafter hbefore

def Kept (env : Env) (ready : RxSys) (events : List RxEvent) : Prop :=
  Throughout (fun s => Holding s ∧ Untouched ready s) (rxStep env) ready events

theorem kept_of_holding (env : Env) {ready : RxSys} {events : List RxEvent}
    (h : Throughout Holding (rxStep env) ready events) : Kept env ready events :=
  fun m hm => ⟨h m hm, untouched_run env ready m fun m' hm' => h m' (hm'.trans hm)⟩

theorem release_split (env : Env) {s : RxSys} (hs : Holding s)
    (hext : s.handle.external ≠ .packetProccessed) {events : List RxEvent}
    (hleft : ¬ Kept env s events) :
    ∃ before idle irqs after,
      events = before ++ .external .packetProccessed :: idle ++ .run irqs :: after ∧
      Kept env s (before ++ .external .packetProccessed :: idle) ∧
      let released := run (rxStep env) s (before ++ .external .packetProccessed :: idle ++ [.run irqs])
      released.handle.state = .preambleProc ∧ Untouched s released := by
  rcases throughout_or_exit hs events with hall | ⟨held, e, after, rfl, hheld, hexit⟩
  · exact absurd (kept_of_holding env hall) hleft
  have hready : Holding (run (rxStep env) s held) := hheld held List.prefix_rfl
  obtain ⟨huntouched, hleave⟩ := held_step env hready e
  obtain ⟨hprocessed, ⟨irqs, rfl⟩, hpreamble⟩ := hleave hexit
  obtain ⟨before, idle, rfl⟩ := List.append_of_mem (external_run env hext hprocessed)
  refine ⟨before, idle, irqs, after, rfl, kept_of_holding env hheld, ?_, ?_⟩
  · rw [run_append]
    exact hpreamble
  · rw [run_append]
    exact (untouched_run env s _ hheld).trans huntouched

/-- One response for each frame, and one frame at a time. What a step issues is
what its queue takes in. -/
theorem rxFsm_responses (env : Env) (h : HostCommRxFsm) (queue : HostCommTxQueue)
    (events : List RxEvent) :
    let start := hostCommRxFsmInit (.start h queue)
    let s := run (rxStep env) start events
    let steps := trail (rxStep env) start events
    s.responses.countP ackResponse = steps.countP (fun p => Enters p.1.handle p.2.handle) ∧
    s.responses.countP nackResponse = steps.countP (fun p => Returns p.1.handle p.2.handle) ∧
    (∀ p ∈ steps, p.2.responses = p.1.responses ++ answer p.1.handle p.2.handle ∧
      p.2.queue = writeAll p.1.queue (answer p.1.handle p.2.handle)) ∧
    (∀ r ∈ s.responses, r.request.packet.header.payloadLen = 0 ∧ r.request.ackExpected = false) ∧
    (∀ before e held, before ++ e :: held <+: events →
      let ready := run (rxStep env) start (before ++ [e])
      Enters (run (rxStep env) start before).handle ready.handle →
      Kept env ready held ∨ ∃ raised idle irqs after,
        held = raised ++ .external .packetProccessed :: idle ++ .run irqs :: after ∧
        Kept env ready (raised ++ .external .packetProccessed :: idle) ∧
        let released := run (rxStep env) ready
          (raised ++ .external .packetProccessed :: idle ++ [.run irqs])
        released.handle.state = .preambleProc ∧ Untouched ready released) ∧
    (∀ before e held e', before ++ e :: held ++ [e'] <+: events →
      let ready := run (rxStep env) start (before ++ [e])
      Enters (run (rxStep env) start before).handle ready.handle →
      Enters (run (rxStep env) ready held).handle (run (rxStep env) ready (held ++ [e'])).handle →
      ∃ raised rest, held = raised ++ .external .packetProccessed :: rest ∧ Kept env ready raised) := by
  intro start s steps
  have hreset {before : List RxEvent} {e : RxEvent}
      (henter : Enters (run (rxStep env) start before).handle
        (run (rxStep env) start (before ++ [e])).handle) :
      (run (rxStep env) start (before ++ [e])).handle.external ≠ .packetProccessed := by
    rw [run_append] at henter ⊢
    have hinvalid := enters_external env henter
    rw [run_cons, run_nil, hinvalid]
    decide
  have hissued (s : RxSys) (e : RxEvent) :
      (rxStep env s e).responses = s.responses ++ answer s.handle (rxStep env s e).handle ∧
        (rxStep env s e).queue = writeAll s.queue (answer s.handle (rxStep env s e).handle) :=
    ⟨answer_step env s e, queue_step env s e⟩
  refine ⟨?_, ?_, trail_forall hissued start events, ?_, ?_, ?_⟩
  · have h := count_run (f := fun s => s.responses.countP ackResponse)
      (P := fun p => Enters p.1.handle p.2.handle)
      (fun s e => by simpa using ack_step env s e) start events
    rw [h]
    exact Nat.zero_add _
  · have h := count_run (f := fun s => s.responses.countP nackResponse)
      (P := fun p => Returns p.1.handle p.2.handle)
      (fun s e => by simpa using nack_step env s e) start events
    rw [h]
    exact Nat.zero_add _
  · refine run_preserves (I := fun s : RxSys => ∀ r ∈ s.responses,
      r.request.packet.header.payloadLen = 0 ∧ r.request.ackExpected = false) (bare_step env) ?_ events
    intro r hr
    cases hr
  · intro before e held _ ready henter
    by_cases hkept : Kept env ready held
    · exact .inl hkept
    · exact .inr (release_split env henter.2 (hreset henter) hkept)
  · intro before e held e' _ ready henter hagain
    have hleft : ¬ Kept env ready held := fun hkept => hagain.1 (hkept held List.prefix_rfl).1
    obtain ⟨raised, idle, irqs, after, rfl, hkept, -⟩ := release_split env henter.2 (hreset henter) hleft
    refine ⟨raised, idle ++ .run irqs :: after, by simp, fun m hm => hkept m ?_⟩
    exact hm.trans (List.prefix_append ..)

end HostComm.RxResponses
