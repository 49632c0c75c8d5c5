import HostComm.RxParser

namespace HostComm.RxChunk

open Protocol TimeEvents UartDriver ByteRings TxQueue TxSend RxFsm RxStream RxParser Runs

/-- Where a receiver stands on a stream: its state, the number of bytes it has
taken and its outcomes so far. -/
structure Position where
  core : RxCore
  taken : Nat
  outcomes : List RxOutcome

def positionOf (s : RxSys) : Position := ⟨coreOf s.handle, s.consumed.length, outcomes s⟩

/-- One step of the receiver on a stream that is there as a whole. -/
def Next (env : Env) (stream : List UInt8) (a b : Position) : Prop :=
  ∃ w out, advance env a.core (stream.drop a.taken) = some (b.core, w, out) ∧
    b.taken = a.taken + w.length ∧ b.outcomes = a.outcomes ++ out

theorem next_rightUnique (env : Env) (stream : List UInt8) :
    Relator.RightUnique (Next env stream) := by
  rintro a ⟨c, n, o⟩ ⟨d, m, p⟩ ⟨v, out, hv, hn, ho⟩ ⟨w, out', hw, hm, hp⟩
  rw [hv] at hw
  cases hw
  rw [Position.mk.injEq]
  exact ⟨rfl, hn.trans hm.symm, ho.trans hp.symm⟩

theorem next_grows (env : Env) (stream : List UInt8) (a b : Position) (h : Next env stream a b) :
    a.outcomes <+: b.outcomes := by
  obtain ⟨w, out, -, -, ho⟩ := h
  exact ⟨out, ho.symm⟩

def Quiet (s : RxSys) : RxEvent → Prop
  | .run _ => ¬ Raised s.handle
  | _ => True

instance (s : RxSys) : ∀ e, Decidable (Quiet s e)
  | .run _ => inferInstanceAs (Decidable (¬ _))
  | .rxByte _ => isTrue trivial
  | .tick => isTrue trivial
  | .external _ => isTrue trivial

def Undisturbed (env : Env) (s : RxSys) (e : RxEvent) : Prop :=
  (rxStep env s e).overflows = s.overflows ∧ Quiet s e

instance (env : Env) (s : RxSys) (e : RxEvent) : Decidable (Undisturbed env s e) :=
  inferInstanceAs (Decidable (_ ∧ _))

def arrivals : List RxEvent → List UInt8
  | [] => []
  | .run irqs :: events => irqs.flatten ++ arrivals events
  | .rxByte byte :: events => byte :: arrivals events
  | _ :: events => arrivals events

def Intact (s : RxSys) : Prop := s.arrived = s.consumed ++ s.rx.contents

theorem chunk_step (env : Env) {s : RxSys} {e : RxEvent} (h : Intact s) (hu : Undisturbed env s e)
    {stream : List UInt8} (hstream : (rxStep env s e).arrived <+: stream) :
    Intact (rxStep env s e) ∧
      Relation.ReflTransGen (Next env stream) (positionOf s) (positionOf (rxStep env s e)) := by
  obtain ⟨ho, hquiet⟩ := hu
  cases e with
  | tick => exact ⟨h, .refl⟩
  | external event => exact ⟨h, .refl⟩
  | rxByte byte =>
      refine ⟨?_, .refl⟩
      have hc : (rxByte s byte).rx.contents = s.rx.contents ++ [byte] := contents_rxByte ho
      change s.arrived ++ [byte] = s.consumed ++ (rxByte s byte).rx.contents
      rw [hc, h, List.append_assoc]
  | run irqs =>
      rw [rxStep] at ho hstream ⊢
      have hintact {w : List UInt8} (hw : Flow s w (runCall env s irqs)) :
          Intact (runCall env s irqs) := by
        obtain ⟨new, hnew, hflow⟩ := hw.flow
        rw [Intact, hnew, h, List.append_assoc, hflow ho, hw.consumed, List.append_assoc]
      cases ran_runCall env ho with
      | stay flow core waits responses =>
          refine ⟨hintact flow, ?_⟩
          have hsame : positionOf (runCall env s irqs) = positionOf s := by
            rw [positionOf, core, flow.consumed, List.append_nil, outcomes, responses]
            rfl
          rw [hsame]
      | advance w out flow next enough ready responses =>
          have hall := hintact flow
          refine ⟨hall, .single ⟨w, out, ?_, ?_, responses⟩⟩
          · obtain ⟨rest, hrest⟩ := hstream
            rw [← hrest, hall, flow.consumed, List.append_assoc, List.append_assoc]
            change advance env _ (List.drop s.consumed.length _) = _
            rw [List.drop_left, ← List.append_assoc]
            exact advance_append env next rest
          · change List.length _ = _
            rw [flow.consumed, List.length_append]
            rfl
      | timeout raised consumed core responses => exact absurd raised hquiet

theorem arrived_step (env : Env) (s : RxSys) (e : RxEvent) :
    (rxStep env s e).arrived = s.arrived ++ arrivals [e] := by
  cases e with
  | run irqs => exact (arrived_runCall env s irqs).trans (by simp [arrivals])
  | rxByte byte => rfl
  | tick => exact (List.append_nil _).symm
  | external event => exact (List.append_nil _).symm

theorem arrivals_cons (e : RxEvent) (events : List RxEvent) :
    arrivals (e :: events) = arrivals [e] ++ arrivals events := by
  cases e <;> simp [arrivals]

theorem chunk_run (env : Env) {stream : List UInt8} {s : RxSys} {events : List RxEvent}
    (h : Intact s) (hu : Along (Undisturbed env) (rxStep env) s events)
    (hstream : s.arrived ++ arrivals events <+: stream) :
    Relation.ReflTransGen (Next env stream) (positionOf s)
      (positionOf (run (rxStep env) s events)) := by
  induction events generalizing s with
  | nil => exact .refl
  | cons e events ih =>
      rw [arrivals_cons, ← List.append_assoc, ← arrived_step env s e] at hstream
      obtain ⟨hone, hrest⟩ := hu
      obtain ⟨hnext, hreach⟩ := chunk_step env h hone ((List.prefix_append _ _).trans hstream)
      exact hreach.trans (ih hnext hrest hstream)

/-- Two undisturbed schedules of one stream have outcomes of which one is a
prefix of the other. That the external event comes in the ready state only is
not needed: every transition drops an earlier one. -/
theorem rxFsm_chunking (env : Env) (h : HostCommRxFsm) (q : HostCommTxQueue) (stream : List UInt8)
    (events events' : List RxEvent) (hs : arrivals events <+: stream)
    (hs' : arrivals events' <+: stream)
    (hu : Along (Undisturbed env) (rxStep env) (hostCommRxFsmInit (.start h q)) events)
    (hu' : Along (Undisturbed env) (rxStep env) (hostCommRxFsmInit (.start h q)) events') :
    let s := run (rxStep env) (hostCommRxFsmInit (.start h q)) events
    let s' := run (rxStep env) (hostCommRxFsmInit (.start h q)) events'
    outcomes s <+: outcomes s' ∨ outcomes s' <+: outcomes s := by
  intro s s'
  have hintact : Intact (hostCommRxFsmInit (.start h q)) := (contents_start h q).symm
  exact comparable_of_reaches (next_rightUnique env stream) (next_grows env stream)
    (chunk_run env hintact hu hs) (chunk_run env hintact hu' hs')

theorem rxFsm_chunking_empty_frame :
    let env : Env := ⟨fun _ => 0, 0⟩
    let h : HostCommRxFsm := ⟨.invalid, .invalid, .invalid, timeEventStop, timeEventStop,
      timeEventStop, ⟨⟨0, 0, 0⟩, .zero⟩⟩
    let stream := protocolPreamble ++ [1, 0xBB, 0, 0, 1, 0xBB, 0, 0] ++ protocolPostamble
    let s := run (rxStep env) (hostCommRxFsmInit (.start h hostCommTxQueueInit))
      (stream.map .rxByte ++ List.replicate 6 (.run []))
    let s' := run (rxStep env) (hostCommRxFsmInit (.start h hostCommTxQueueInit))
      (stream.flatMap fun b => [.run [[b]]])
    outcomes s <+: outcomes s' ∨ outcomes s' <+: outcomes s := by
  intro env h stream s s'
  have hu : Along (Undisturbed env) (rxStep env) (hostCommRxFsmInit (.start h hostCommTxQueueInit))
      (stream.map .rxByte ++ List.replicate 6 (.run [])) := by decide +kernel
  have hu' : Along (Undisturbed env) (rxStep env) (hostCommRxFsmInit (.start h hostCommTxQueueInit))
      (stream.flatMap fun b => [.run [[b]]]) := by decide +kernel
  exact rxFsm_chunking env h hostCommTxQueueInit stream _ _ (by decide +kernel) (by decide +kernel)
    hu hu'

end HostComm.RxChunk
