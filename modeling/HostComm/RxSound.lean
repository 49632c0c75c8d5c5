import HostComm.RxParser

namespace HostComm.RxSound

open Protocol LittleEndian TimeEvents UartDriver ByteRings TxQueue TxSend RxFsm RxStream RxParser Runs

def headerPart (p : PacketData) : List UInt8 := protocolPreamble ++ p.header.bytes

def bodyPart (p : PacketData) : List UInt8 := headerPart p ++ p.body

def frame (env : Env) (p : PacketData) : List UInt8 :=
  bodyPart p ++ (bytes32 (rxCrc env p) ++ protocolPostamble)

/-- What the consumed bytes end with in each state. -/
def Parsed (env : Env) (c : RxCore) (taken : List UInt8) : Prop :=
  match c.state with
  | .preambleProc => c.internal = .preambleOk → protocolPreamble <:+ taken
  | .headerProc =>
      (c.internal = .headerOk →
        protocolCheckValidHeader c.packet = true ∧ headerPart c.packet <:+ taken) ∧
      (react c = none → protocolPreamble <:+ taken)
  | .payloadProc =>
      protocolCheckValidHeader c.packet = true ∧
      (c.internal = .payloadOk → bodyPart c.packet <:+ taken) ∧
      (react c = none → headerPart c.packet <:+ taken)
  | .crcAndPostambleProc =>
      protocolCheckValidHeader c.packet = true ∧
      (c.internal = .crcAndPostambleOk → frame env c.packet <:+ taken) ∧
      (react c = none → bodyPart c.packet <:+ taken)
  | .packetReady => protocolCheckValidHeader c.packet = true ∧ frame env c.packet <:+ taken
  | _ => True

def PostambleFollows (env : Env) (c : RxCore) (t : List UInt8) : Prop :=
  c.state = .crcAndPostambleProc → react c = none → 8 ≤ t.length →
    word32 (t.take 4) = rxCrc env c.packet → (t.drop 4).take 4 = protocolPostamble

instance (env : Env) (c : RxCore) (t : List UInt8) : Decidable (PostambleFollows env c t) :=
  inferInstanceAs (Decidable (_ → _ → _ → _ → _))

theorem suffix_append_right {a t : List UInt8} (h : a <:+ t) (w : List UInt8) :
    a ++ w <:+ t ++ w := by
  obtain ⟨before, hb⟩ := h
  exact ⟨before, by rw [← List.append_assoc, hb]⟩

theorem bodyPart_of_empty {p : PacketData} (h : ¬ 0 < p.header.payloadLen.toNat) :
    bodyPart p = headerPart p := by
  rw [bodyPart, PacketData.body, Nat.eq_zero_of_not_pos h, List.take_zero, List.append_nil]

theorem parsed_react (env : Env) {c c' : RxCore} {out : List RxOutcome} {taken : List UInt8}
    (h : Parsed env c taken) (hreact : react c = some (c', out)) : Parsed env c' taken := by
  unfold react at hreact
  split at hreact
  all_goals cases hreact
  case h_1 hs hi =>
    simp only [Parsed, hs] at h ⊢
    exact ⟨by simp, fun _ => h hi⟩
  case h_2 hs hi =>
    simp only [Parsed, hs] at h
    obtain ⟨hv, hpart⟩ := h.1 hi
    by_cases hlen : 0 < c.packet.header.payloadLen.toNat
    · simp only [if_pos hlen, Parsed]
      exact ⟨hv, by simp, fun _ => hpart⟩
    · simp only [if_neg hlen, Parsed]
      exact ⟨hv, by simp, fun _ => (bodyPart_of_empty hlen).symm ▸ hpart⟩
  case h_4 hs hi =>
    simp only [Parsed, hs] at h ⊢
    exact ⟨h.1, by simp, fun _ => h.2.1 hi⟩
  case h_5 hs hi =>
    simp only [Parsed, hs] at h ⊢
    exact ⟨h.1, h.2.1 hi⟩
  all_goals
    intro he
    cases he

theorem parsed_during (env : Env) {c : RxCore} {t taken : List UInt8} (h : Parsed env c taken)
    (hreact : react c = none) (hneed : need c ≤ t.length) (hpost : PostambleFollows env c t) :
    Parsed env (during env c t).1 (taken ++ (during env c t).2) := by
  cases hs : c.state with
  | preambleProc =>
      have hno : c.internal ≠ .preambleOk := by
        intro hi
        simp [react, hs, hi] at hreact
      simp only [during, hs, Parsed]
      split_ifs with hscan
      · intro _
        rw [hscan]
        exact List.suffix_append ..
      · exact fun he => absurd he hno
  | headerProc =>
      simp only [Parsed, hs] at h
      simp only [need, hs] at hneed
      have hsize : (t.take 4).length = 4 := by rw [List.length_take, Nat.min_eq_left hneed]
      simp only [during, hs, Parsed]
      split_ifs with hvalid
      · refine ⟨fun _ => ⟨hvalid, ?_⟩, fun he => by cases he⟩
        rw [headerPart, PacketHeader.bytes_ofBytes hsize]
        exact suffix_append_right (h.2 hreact) _
      · exact ⟨False.elim, fun he => by cases he⟩
  | payloadProc =>
      simp only [Parsed, hs] at h
      simp only [need, hs] at hneed
      have hlt : c.packet.header.payloadLen.toNat < 256 := valid_len h.1
      rw [Nat.mod_eq_of_lt hlt] at hneed
      have hsize : (t.take c.packet.header.payloadLen.toNat).length =
          c.packet.header.payloadLen.toNat := by rw [List.length_take, Nat.min_eq_left hneed]
      simp only [during, hs, Parsed, Nat.mod_eq_of_lt hlt]
      refine ⟨(valid_header rfl).trans h.1, fun _ => ?_, fun he => by cases he⟩
      have hbody := c.packet.payload.take_load (hsize.trans_le hlt.le)
      rw [hsize] at hbody
      rw [bodyPart, PacketData.body, hbody]
      exact suffix_append_right (h.2.2 hreact) _
  | crcAndPostambleProc =>
      simp only [Parsed, hs] at h
      have hneed8 : 8 ≤ t.length := by simpa only [need, hs] using hneed
      simp only [during, hs, Parsed]
      split_ifs with hcrc
      · refine ⟨h.1, fun _ => ?_, fun he => by cases he⟩
        have hcrcBytes : bytes32 (rxCrc env c.packet) = t.take 4 := by
          rw [hcrc, bytes32_word32]
          rw [List.length_take]
          exact Nat.min_eq_left (Nat.le_trans (by decide) hneed8)
        have htail : bytes32 (rxCrc env c.packet) ++ protocolPostamble = t.take 8 := by
          rw [hcrcBytes, ← hpost hs hreact hneed8 hcrc.symm, ← List.take_add]
        rw [frame, htail]
        exact suffix_append_right (h.2.2 hreact) _
      · exact ⟨h.1, False.elim, fun he => by cases he⟩
  | packetReady =>
      simp [react, hs] at hreact
  | _ => simp only [during, hs, Parsed]

theorem parsed_advance (env : Env) {c c' : RxCore} {t w taken : List UInt8} {out : List RxOutcome}
    (h : Parsed env c taken) (hnext : advance env c t = some (c', w, out))
    (hpost : PostambleFollows env c t) : Parsed env c' (taken ++ w) := by
  rw [advance] at hnext
  split at hnext
  · next hreact =>
      cases hnext
      rw [List.append_nil]
      exact parsed_react env h hreact
  · next hreact =>
      split_ifs at hnext with hneed
      cases hnext
      exact parsed_during env h hreact hneed hpost

/-- The bytes that arrive in a run call fit the ring, and where the call gets to
the check no wrong postamble follows a right check value. Of the other steps
nothing is asked. -/
def GoodStep (env : Env) (s : RxSys) : RxEvent → Prop
  | .run irqs => s.rx.contents.length + irqs.flatten.length ≤ rxDataBuffSize ∧
      (¬ Raised s.handle → crcSizeBytes + postambleSizeBytes ≤ (getRxDataLen { s with irqs }).1 →
        PostambleFollows env (coreOf s.handle) (s.rx.contents ++ irqs.flatten))
  | _ => True

instance (env : Env) (s : RxSys) : ∀ e, Decidable (GoodStep env s e)
  | .run _ => inferInstanceAs (Decidable (_ ∧ (_ → _ → _)))
  | .rxByte _ => isTrue trivial
  | .tick => isTrue trivial
  | .external _ => isTrue trivial

theorem core_raised (env : Env) {s : RxSys} (hs : s.handle.state = .crcAndPostambleProc)
    (hreact : react (coreOf s.handle) = none) (hraised : Raised s.handle)
    (irqs : List (List UInt8)) :
    coreOf (runCall env s irqs).handle = ⟨.preambleProc, .invalid, s.handle.packet⟩ := by
  have hok : s.handle.internal ≠ .crcAndPostambleOk :=
    ((react_crc (c := coreOf s.handle) hs).mp hreact).1
  have htimer : timeEventIsRaised s.handle.crcAndPostambleTimeout = true := by
    rwa [Raised, hs] at hraised
  rw [runCall, handle_rxBytes]
  simp only [hostCommRxFsmRun, hs, crcAndPostambleProcOnReact]
  rw [if_neg hok, if_pos (.inl htimer)]
  simp [coreOf, exitActionCrcAndPostambleProc, enterSeqPreambleProc, sendResponse,
    hostCommRxFsmSetNextState, isRaised_stop]

theorem parsed_step (env : Env) (s : RxSys) (e : RxEvent)
    (h : Parsed env (coreOf s.handle) s.consumed) (hgood : GoodStep env s e) :
    Parsed env (coreOf (rxStep env s e).handle) (rxStep env s e).consumed := by
  cases e with
  | rxByte byte => exact h
  | tick => exact h
  | external event => exact h
  | run irqs =>
      obtain ⟨hroom, hpost⟩ := hgood
      have ho := room_runCall env hroom
      rw [rxStep]
      by_cases hleft : s.handle.state = .crcAndPostambleProc ∧ react (coreOf s.handle) = none ∧
          Raised s.handle
      · obtain ⟨hs, hreact, hraised⟩ := hleft
        rw [core_raised env hs hreact hraised]
        intro he
        cases he
      cases ran_runCall env ho with
      | stay flow core waits responses =>
          rw [core, flow.consumed, List.append_nil]
          exact h
      | advance w out flow next enough ready responses =>
          obtain ⟨new, hnew, hflow⟩ := flow.flow
          rw [arrived_runCall] at hnew
          rw [← hflow ho, ← List.append_cancel_left hnew] at next
          rw [flow.consumed]
          refine parsed_advance env h next fun hs hreact => ?_
          have hneed : need (coreOf s.handle) = 8 := by simp only [need, hs]
          exact hpost (fun hraised => hleft ⟨hs, hreact, hraised⟩)
            (hneed.symm.trans_le (enough hreact)) hs hreact
      | timeout raised consumed core responses =>
          rw [core]
          intro he
          cases he

/-- Every packet that is ready was received in a whole and correct frame. -/
theorem rxFsm_sound (env : Env) (s₀ : RxSys) (events : List RxEvent)
    (hgood : Along (GoodStep env) (rxStep env) (hostCommRxFsmInit s₀) events) :
    let s := run (rxStep env) (hostCommRxFsmInit s₀) events
    s.handle.state = .packetReady →
      protocolCheckValidHeader s.handle.packet = true ∧ frame env s.handle.packet <:+ s.consumed := by
  intro s hready
  have h : Parsed env (coreOf s.handle) s.consumed :=
    run_invariant (fun s e h hg => parsed_step env s e h hg)
      (show Parsed env (coreOf (hostCommRxFsmInit s₀).handle) _ from fun he => by cases he) hgood
  simpa only [Parsed, coreOf, hready] using h

def idle : RxSys :=
  .start ⟨.invalid, .invalid, .invalid, timeEventStop, timeEventStop, timeEventStop,
    ⟨⟨0, 0, 0⟩, .zero⟩⟩ hostCommTxQueueInit

def emptyFrameRun (tail : List UInt8) : List RxEvent :=
  (protocolPreamble ++ [1, 0xBB, 0, 0, 1, 0xBB, 0, 0] ++ tail).map .rxByte ++
    List.replicate 6 (.run [])

theorem rxFsm_sound_empty_frame :
    let s := run (rxStep ⟨fun _ => 0, 0⟩) (hostCommRxFsmInit idle) (emptyFrameRun protocolPostamble)
    s.handle.state = .packetReady ∧ frame ⟨fun _ => 0, 0⟩ s.handle.packet <:+ s.consumed := by
  have hgood : Along (GoodStep ⟨fun _ => 0, 0⟩) (rxStep ⟨fun _ => 0, 0⟩) (hostCommRxFsmInit idle)
      (emptyFrameRun protocolPostamble) := by decide +kernel
  have hready : (run (rxStep ⟨fun _ => 0, 0⟩) (hostCommRxFsmInit idle)
      (emptyFrameRun protocolPostamble)).handle.state = .packetReady := by decide +kernel
  exact ⟨hready, (rxFsm_sound ⟨fun _ => 0, 0⟩ idle (emptyFrameRun protocolPostamble) hgood
    hready).2⟩

/-- Four zeros in the place of the postamble are accepted. -/
theorem wrong_postamble_accepted :
    let s := run (rxStep ⟨fun _ => 0, 0⟩) (hostCommRxFsmInit idle) (emptyFrameRun [0, 0, 0, 0])
    s.handle.state = .packetReady ∧ ¬ frame ⟨fun _ => 0, 0⟩ s.handle.packet <:+ s.consumed := by
  decide +kernel

end HostComm.RxSound
