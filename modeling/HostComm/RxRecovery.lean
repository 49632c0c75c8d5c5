import HostComm.RxSessions

namespace HostComm.RxRecovery

open Protocol TimeEvents UartDriver ByteRings TxQueue TxSend RxFsm RxStream RxParser RxMoves RxChunk
open RxResync RxFrames RxSessions RxDeadline RxSettle TimerDiscipline Runs Rounds

section stranger

variable {bits : List UInt8} {b : UInt8} (hb : b ∉ bits)

include hb

theorem mismatch_of_stranger {left : List UInt8} (h : left.length < bits.length) :
    ∃ w, Mismatch bits w ∧ (left ++ [b] = w ∨ ∃ left', left ++ [b] = w ++ (left' ++ [b]) ∧
      left'.length < left.length) := by
  induction bits generalizing left with
  | nil => exact absurd h (Nat.not_lt_zero _)
  | cons bit bits ih =>
      obtain ⟨hne, hrest⟩ := List.ne_and_not_mem_of_not_mem_cons hb
      cases left with
      | nil => exact ⟨[b], ⟨[], bit, bits, b, rfl, hne, rfl⟩, .inl rfl⟩
      | cons c left =>
          by_cases hc : c = bit
          · subst hc
            obtain ⟨w, hw, hsplit⟩ := ih hrest (Nat.lt_of_succ_lt_succ h)
            refine ⟨c :: w, hw.cons c, ?_⟩
            rcases hsplit with heq | ⟨left', heq, hless⟩
            · exact .inl (congrArg (c :: ·) heq)
            · exact .inr ⟨left', congrArg (c :: ·) heq, Nat.lt_succ_of_lt hless⟩
          · exact ⟨[c], ⟨[], bit, bits, c, rfl, hc, rfl⟩, .inr ⟨left, rfl, Nat.lt_succ_self _⟩⟩

theorem blocks_of_stranger {left : List UInt8} (h : left.length < bits.length) :
    Blocks bits (left ++ [b]) := by
  induction hn : left.length using Nat.strong_induction_on generalizing left with
  | _ n ih =>
      obtain ⟨w, hw, hsplit⟩ := mismatch_of_stranger hb h
      rcases hsplit with heq | ⟨left', heq, hless⟩
      · rw [heq, ← List.append_nil w]
        exact (blocks_append hw []).mpr (blocks_nil bits)
      · rw [heq, blocks_append hw]
        exact ih left'.length (hn ▸ hless) (hless.trans h) rfl

end stranger

/-- What is still to be read of the stream: the bytes in the ring, then those
that are to come. -/
def Ahead (stream : List UInt8) (s : RxSys) (future : List UInt8) : Prop :=
  stream.drop s.consumed.length = s.rx.contents ++ future

theorem ahead_flow {stream future arriving w : List UInt8} {s s' : RxSys}
    (h : Ahead stream s (arriving ++ future)) (hw : Flow s w s')
    (harrived : s'.arrived = s.arrived ++ arriving) (ho : s'.overflows = s.overflows) :
    Ahead stream s' future := by
  obtain ⟨new, hnew, hflow⟩ := hw.flow
  have heq : new = arriving := List.append_cancel_left (hnew.symm.trans harrived)
  rw [Ahead, hw.consumed, List.length_append, ← List.drop_drop, h, ← List.append_assoc, ← heq,
    hflow ho, List.append_assoc, List.drop_left]

theorem ahead_step (env : Env) {s : RxSys} {e : RxEvent} (hu : Undisturbed env s e)
    {stream future : List UInt8} (h : Ahead stream s (arrivals [e] ++ future)) :
    Ahead stream (rxStep env s e) future ∧
      Relation.ReflTransGen (Next env stream) (positionOf s) (positionOf (rxStep env s e)) := by
  obtain ⟨ho, hquiet⟩ := hu
  cases e with
  | tick => exact ⟨h, .refl⟩
  | external event => exact ⟨h, .refl⟩
  | rxByte byte =>
      refine ⟨?_, .refl⟩
      have hc : (rxByte s byte).rx.contents = s.rx.contents ++ [byte] := contents_rxByte ho
      change stream.drop s.consumed.length = (rxByte s byte).rx.contents ++ future
      rw [hc, h, List.append_assoc]
      rfl
  | run irqs =>
      rw [rxStep] at ho ⊢
      have harrived := arrived_step env s (.run irqs)
      have hahead {w : List UInt8} (hw : Flow s w (runCall env s irqs)) :
          Ahead stream (runCall env s irqs) future := ahead_flow h hw harrived ho
      cases ran_runCall env ho with
      | stay flow core waits responses =>
          refine ⟨hahead flow, ?_⟩
          have hsame : positionOf (runCall env s irqs) = positionOf s := by
            rw [positionOf, core, flow.consumed, List.append_nil, outcomes, responses]
            rfl
          rw [hsame]
      | advance w out flow next enough ready responses =>
          have hnext := hahead flow
          refine ⟨hnext, .single ⟨w, out, ?_, ?_, responses⟩⟩
          · obtain ⟨new, hnew, hflow⟩ := flow.flow
            have heq : new = arrivals [.run irqs] := List.append_cancel_left (hnew.symm.trans harrived)
            change advance env _ (stream.drop s.consumed.length) = _
            rw [h, ← List.append_assoc, ← heq, hflow ho]
            exact advance_append env next future
          · change List.length _ = _
            rw [flow.consumed, List.length_append]
            rfl
      | timeout raised consumed core responses => exact absurd raised hquiet

theorem ahead_run (env : Env) {stream : List UInt8} {s : RxSys} {events : List RxEvent}
    {future : List UInt8} (hu : Along (Undisturbed env) (rxStep env) s events)
    (h : Ahead stream s (arrivals events ++ future)) :
    Ahead stream (run (rxStep env) s events) future ∧
      Relation.ReflTransGen (Next env stream) (positionOf s)
        (positionOf (run (rxStep env) s events)) := by
  induction events generalizing s with
  | nil => exact ⟨h, .refl⟩
  | cons e events ih =>
      rw [arrivals_cons, List.append_assoc] at h
      obtain ⟨hone, hrest⟩ := hu
      obtain ⟨hnext, hreach⟩ := ahead_step env hone h
      obtain ⟨hend, hall⟩ := ih hrest hnext
      exact ⟨hend, hreach.trans hall⟩

theorem four_le_piece (x : Piece) : 4 ≤ x.bytes.length := by
  have hfour := preamble_length
  cases x with
  | frame f =>
      simp only [Piece.bytes, Frame.bytes, List.length_append, hfour]
      omega
  | badHeader b =>
      simp only [Piece.bytes, BadHeader.bytes, List.length_append, hfour]
      omega

section recovery

variable (env : Env) {calm : RxSys} (hrest : AtRest calm) (hfew : calm.rx.contents.length < 4)
variable {b : UInt8} (hb : b ∉ protocolPreamble) (x : Piece) (pieces : List Piece)
variable {rest : List UInt8} (hend : rest.length < 4) {events : List RxEvent}
variable (hu : Along (Undisturbed env) (rxStep env) calm events)

include hrest hfew hb in
theorem feeds_from_rest (rest : List UInt8) :
    ∃ pk, Feeds env (coreOf calm.handle)
      (calm.rx.contents ++ b :: ((x :: pieces).flatMap Piece.bytes ++ rest))
      (expected env calm.handle.packet.payload (x :: pieces)) ⟨.preambleProc, .invalid, pk⟩ rest := by
  have hcore : coreOf calm.handle = ⟨.preambleProc, .invalid, calm.handle.packet⟩ := by
    rw [coreOf, hrest.state, hrest.internal]
  have hblocks : Blocks protocolPreamble (calm.rx.contents ++ [b]) :=
    blocks_of_stranger hb (preamble_length ▸ hfew)
  obtain ⟨pk, hpieces⟩ := feeds_pieces env calm.handle.packet rest (x :: pieces)
  have hlong : 4 ≤ ((x :: pieces).flatMap Piece.bytes ++ rest).length := by
    have hfour := four_le_piece x
    rw [List.flatMap_cons, List.length_append, List.length_append]
    omega
  have hnoise := feeds_noise env (c := ⟨.preambleProc, .invalid, calm.handle.packet⟩) _ rfl (by simp)
    hblocks hlong
  refine ⟨pk, ?_⟩
  rw [hcore, List.append_cons]
  exact hnoise.trans hpieces

include hrest hfew hb hend hu

theorem walk_from_rest
    (hs : arrivals events <+: b :: ((x :: pieces).flatMap Piece.bytes ++ rest)) :
    let s' := run (rxStep env) calm events
    let stream := calm.consumed ++ (calm.rx.contents ++ b :: ((x :: pieces).flatMap Piece.bytes ++ rest))
    ∃ pk taken future, arrivals events ++ future = b :: ((x :: pieces).flatMap Piece.bytes ++ rest) ∧
      Ahead stream s' future ∧ stream.drop taken = rest ∧
      Relation.ReflTransGen (Next env stream) (positionOf s')
        ⟨⟨.preambleProc, .invalid, pk⟩, taken,
          outcomes calm ++ expected env calm.handle.packet.payload (x :: pieces)⟩ := by
  intro s' stream
  obtain ⟨future, hfuture⟩ := hs
  have hstart : stream.drop calm.consumed.length =
      calm.rx.contents ++ b :: ((x :: pieces).flatMap Piece.bytes ++ rest) := List.drop_left
  have hbefore : Ahead stream calm (arrivals events ++ future) := by rw [Ahead, hstart, hfuture]
  obtain ⟨hahead, hreach⟩ := ahead_run env hu hbefore
  obtain ⟨pk, hfeeds⟩ := feeds_from_rest env hrest hfew hb x pieces rest
  obtain ⟨taken, hleft, hwalk⟩ := next_of_feeds hfeeds hstart (outcomes calm)
  refine ⟨pk, taken, future, hfuture, hahead, hleft, ?_⟩
  have hstop (y : Position) : ¬ Next env stream ⟨⟨.preambleProc, .invalid, pk⟩, taken,
      outcomes calm ++ expected env calm.handle.packet.payload (x :: pieces)⟩ y := by
    rintro ⟨w, out, hnext, -⟩
    rw [hleft, advance] at hnext
    have hshort : ¬ need ⟨.preambleProc, .invalid, pk⟩ ≤ rest.length := Nat.not_le_of_lt hend
    simp [react, if_neg hshort] at hnext
  exact reaches_end (next_rightUnique env stream) hstop hwalk hreach

end recovery

def silence (n : Nat) : List RxEvent := (List.replicate n [.tick, .run []]).flatten

end HostComm.RxRecovery
