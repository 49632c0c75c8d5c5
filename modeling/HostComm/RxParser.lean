import HostComm.RxStream

namespace HostComm.RxParser

open Protocol LittleEndian TimeEvents UartDriver ByteRings TxSend TxFsm RxFsm RxStream

/-- What decides the next step of the receiver, apart from timers and bytes. -/
structure RxCore where
  state : RxState
  internal : RxInternal
  packet : PacketData

def coreOf (h : HostCommRxFsm) : RxCore := ⟨h.state, h.internal, h.packet⟩

inductive RxOutcome
  | nack
  | ack (header : PacketHeader) (body : List UInt8)
  deriving DecidableEq

def outcomeOf (r : RxResponse) : RxOutcome :=
  if r.request.packet.header.type = targetToHostResAck then .ack r.packet.header r.packet.body
  else .nack

def outcomes (s : RxSys) : List RxOutcome := s.responses.map outcomeOf

def need (c : RxCore) : Nat :=
  match c.state with
  | .preambleProc => 4
  | .headerProc => 4
  | .payloadProc => c.packet.header.payloadLen.toNat % 256
  | .crcAndPostambleProc => 8
  | _ => 0

def during (env : Env) (c : RxCore) (t : List UInt8) : RxCore × List UInt8 :=
  match c.state with
  | .preambleProc =>
      let w := scan protocolPreamble t
      ({ c with internal := if w = protocolPreamble then .preambleOk else c.internal }, w)
  | .headerProc =>
      let packet := { c.packet with header := .ofBytes (t.take 4) }
      (⟨c.state, if protocolCheckValidHeader packet then .headerOk else .headerError, packet⟩,
        t.take 4)
  | .payloadProc =>
      let w := t.take (c.packet.header.payloadLen.toNat % 256)
      (⟨c.state, .payloadOk, { c.packet with payload := c.packet.payload.load w }⟩, w)
  | .crcAndPostambleProc =>
      ({ c with internal :=
          if rxCrc env c.packet = word32 (t.take 4) then .crcAndPostambleOk else .crcError },
        t.take 8)
  | _ => (c, [])

def react (c : RxCore) : Option (RxCore × List RxOutcome) :=
  match c.state, c.internal with
  | .preambleProc, .preambleOk => some (⟨.headerProc, .invalid, c.packet⟩, [])
  | .headerProc, .headerOk =>
      some (⟨if 0 < c.packet.header.payloadLen.toNat then .payloadProc else .crcAndPostambleProc,
        .invalid, c.packet⟩, [])
  | .headerProc, .headerError => some (⟨.preambleProc, .invalid, c.packet⟩, [.nack])
  | .payloadProc, .payloadOk => some (⟨.crcAndPostambleProc, .invalid, c.packet⟩, [])
  | .crcAndPostambleProc, .crcAndPostambleOk =>
      some (⟨.packetReady, .invalid, c.packet⟩, [.ack c.packet.header c.packet.body])
  | .crcAndPostambleProc, .crcError => some (⟨.preambleProc, .invalid, c.packet⟩, [.nack])
  | .crcAndPostambleProc, .postambleError => some (⟨.preambleProc, .invalid, c.packet⟩, [.nack])
  | .packetReady, _ => some (⟨.preambleProc, .invalid, c.packet⟩, [])
  | _, _ => none

/-- The next step of the receiver on a stream of bytes. It exists when an
event is pending or the bytes are there. -/
def advance (env : Env) (c : RxCore) (t : List UInt8) :
    Option (RxCore × List UInt8 × List RxOutcome) :=
  match react c with
  | some (c', out) => some (c', [], out)
  | none =>
      if need c ≤ t.length then some ((during env c t).1, (during env c t).2, []) else none

theorem during_append (env : Env) {c : RxCore} {t : List UInt8} (h : need c ≤ t.length)
    (u : List UInt8) : during env c (t ++ u) = during env c t := by
  cases hs : c.state with
  | preambleProc =>
      simp only [need, hs] at h
      simp only [during, hs, scan_append protocolPreamble t u h]
  | headerProc =>
      simp only [need, hs] at h
      simp only [during, hs, List.take_append_of_le_length h]
  | payloadProc =>
      simp only [need, hs] at h
      simp only [during, hs, List.take_append_of_le_length h]
  | crcAndPostambleProc =>
      simp only [need, hs] at h
      have h4 : 4 ≤ t.length := Nat.le_trans (by decide) h
      simp only [during, hs, List.take_append_of_le_length h, List.take_append_of_le_length h4]
  | _ => simp only [during, hs]

theorem advance_append (env : Env) {c : RxCore} {t : List UInt8}
    {r : RxCore × List UInt8 × List RxOutcome} (h : advance env c t = some r) (u : List UInt8) :
    advance env c (t ++ u) = some r := by
  rw [advance] at h ⊢
  split at h
  · exact h
  · split_ifs at h with hneed
    rw [during_append env hneed, List.length_append, if_pos (Nat.le_add_right_of_le hneed)]
    exact h

def Raised (h : HostCommRxFsm) : Prop :=
  match h.state with
  | .headerProc => timeEventIsRaised h.headerTimeout = true
  | .payloadProc => timeEventIsRaised h.payloadTimeout = true
  | .crcAndPostambleProc => timeEventIsRaised h.crcAndPostambleTimeout = true
  | _ => False

instance (h : HostCommRxFsm) : Decidable (Raised h) := by
  unfold Raised
  split <;> infer_instance

/-- What one run call can do, when the ring does not overflow in it and its
length check sees `len`. -/
inductive Ran (env : Env) (len : Nat) (s s' : RxSys) : Prop
  | stay (flow : Flow s [] s') (core : coreOf s'.handle = coreOf s.handle)
      (waits : s.handle.state = .packetReady ∧ s.handle.external ≠ .packetProccessed ∨
        react (coreOf s.handle) = none ∧ len < need (coreOf s.handle))
      (responses : s'.responses = s.responses)
  | advance (w : List UInt8) (out : List RxOutcome) (flow : Flow s w s')
      (next : RxParser.advance env (coreOf s.handle) (w ++ s'.rx.contents) =
        some (coreOf s'.handle, w, out))
      (enough : react (coreOf s.handle) = none → need (coreOf s.handle) ≤ len)
      (ready : s.handle.state = .packetReady → s.handle.external = .packetProccessed)
      (responses : outcomes s' = outcomes s ++ out)
  | timeout (raised : Raised s.handle) (consumed : s'.consumed = s.consumed)
      (core : coreOf s'.handle = ⟨.preambleProc, .invalid, s.handle.packet⟩)
      (responses : outcomes s' = outcomes s ++ [.nack])

section pending

variable {c : RxCore}

theorem react_preamble (hs : c.state = .preambleProc) :
    react c = none ↔ c.internal ≠ .preambleOk := by
  cases hi : c.internal
  all_goals simp [react, hs, hi]

theorem react_header (hs : c.state = .headerProc) :
    react c = none ↔ c.internal ≠ .headerOk ∧ c.internal ≠ .headerError := by
  cases hi : c.internal
  all_goals simp [react, hs, hi]

theorem react_payload (hs : c.state = .payloadProc) :
    react c = none ↔ c.internal ≠ .payloadOk := by
  cases hi : c.internal
  all_goals simp [react, hs, hi]

theorem react_crc (hs : c.state = .crcAndPostambleProc) : react c = none ↔
    c.internal ≠ .crcAndPostambleOk ∧ c.internal ≠ .crcError ∧ c.internal ≠ .postambleError := by
  cases hi : c.internal
  all_goals simp [react, hs, hi]

end pending

theorem ne_ready_of_react {c : RxCore} (h : react c = none) : c.state ≠ .packetReady := by
  intro hs
  simp [react, hs] at h

theorem ran_during (env : Env) (len : Nat) {s g s' : RxSys} {w : List UInt8} (hg : Took s [] g)
    (hw : Took g w s') (ho : s'.overflows = s.overflows) (hreact : react (coreOf s.handle) = none)
    (hlen : need (coreOf s.handle) ≤ len)
    (hneed : need (coreOf s.handle) ≤ g.rx.contents.length)
    (hduring : during env (coreOf s.handle) g.rx.contents = (coreOf s'.handle, w))
    (hresp : s'.responses = s.responses) : Ran env len s s' := by
  refine .advance w [] (hg.trans hw).toFlow ?_ (fun _ => hlen)
    (fun h => absurd h (ne_ready_of_react hreact)) (by simp [outcomes, hresp])
  obtain ⟨new, -, hflow⟩ := hw.flow
  have h₁ := hg.mono
  have h₂ := hw.mono
  have hstream := hflow (by omega)
  rw [RxParser.advance, hreact, ← hstream, during_append env hneed, hduring]
  simp only
  rw [if_pos (by rw [List.length_append]; exact Nat.le_add_right_of_le hneed)]

theorem ran_react (env : Env) (len : Nat) {s s' : RxSys} {out : List RxOutcome}
    (htook : Took s [] s')
    (hreact : react (coreOf s.handle) = some (coreOf s'.handle, out))
    (hready : s.handle.state = .packetReady → s.handle.external = .packetProccessed)
    (hresp : outcomes s' = outcomes s ++ out) : Ran env len s s' :=
  .advance [] out htook.toFlow (by rw [RxParser.advance, hreact])
    (fun h => by rw [hreact] at h; cases h) hready hresp

theorem ran_wait (env : Env) {s : RxSys} (hreact : react (coreOf s.handle) = none)
    (hshort : (getRxDataLen s).1 < need (coreOf s.handle)) :
    Ran env (getRxDataLen s).1 s (getRxDataLen s).2 :=
  .stay (took_getRxDataLen s).toFlow (by rw [handle_getRxDataLen]) (.inr ⟨hreact, hshort⟩)
    (responses_getRxDataLen s)

theorem ran_duringPreamble (env : Env) {s : RxSys} (hs : s.handle.state = .preambleProc)
    (hreact : react (coreOf s.handle) = none)
    (ho : (duringActionPreambleProc env s).overflows = s.overflows) :
    Ran env (getRxDataLen s).1 s (duringActionPreambleProc env s) := by
  have hg := took_getRxDataLen s
  rw [duringActionPreambleProc] at ho ⊢
  by_cases hguard : preambleSizeBytes ≤ (getRxDataLen s).1
  · simp only [if_pos hguard] at ho ⊢
    obtain ⟨w, hw⟩ := took_readPreamble protocolPreamble env.junk (getRxDataLen s).2
    have hscan := readPreamble_scan protocolPreamble env.junk (getRxDataLen s).2
    have hhandle := handle_readPreamble protocolPreamble env.junk (getRxDataLen s).2
    have hresp := responses_readPreamble protocolPreamble env.junk (getRxDataLen s).2
    generalize readPreamble env.junk (getRxDataLen s).2 protocolPreamble = r at *
    have hsame : (if r.1 then r.2.setInternal .preambleOk else r.2).overflows = r.2.overflows := by
      split_ifs <;> rfl
    have hmono := hg.mono
    have hmono' := hw.mono
    obtain ⟨htook, hiff⟩ := hscan (by omega) (le_of_getRxDataLen hguard)
    refine ran_during env (getRxDataLen s).1 hg
      (w := scan protocolPreamble (getRxDataLen s).2.rx.contents) ?_ ho
      hreact (by simpa only [need, coreOf, hs] using hguard) ?_ ?_ ?_
    · split_ifs
      · exact htook.update ..
      · exact htook
    · simpa only [need, coreOf, hs] using le_of_getRxDataLen hguard
    · simp only [during, coreOf, hs, ← hiff, Prod.mk.injEq, and_true]
      split_ifs
      · simp [RxSys.setInternal, hhandle, hs]
      · simp [hhandle, hs]
    · split_ifs
      · exact hresp.trans (responses_getRxDataLen s)
      · exact hresp.trans (responses_getRxDataLen s)
  · simp only [if_neg hguard]
    exact ran_wait env hreact (by simpa only [need, coreOf, hs] using Nat.lt_of_not_le hguard)

theorem ran_preamble (env : Env) {s : RxSys} (hs : s.handle.state = .preambleProc)
    (ho : (preambleProcOnReact env s).overflows = s.overflows) :
    Ran env (getRxDataLen s).1 s (preambleProcOnReact env s) := by
  rw [preambleProcOnReact] at ho ⊢
  split_ifs at ho ⊢ with hok
  · refine ran_react env _ ((Took.refl s).update ..) ?_ ?_ (List.append_nil _).symm
    · simp [react, coreOf, hs, hok, enterSeqHeaderProc, hostCommRxFsmSetNextState]
    · rw [hs]
      intro h
      cases h
  · exact ran_duringPreamble env hs ((react_preamble (c := coreOf s.handle) hs).mpr hok) ho

theorem setInternal_ite (s : RxSys) (p : Prop) [Decidable p] (a b : RxInternal) :
    (if p then s.setInternal a else s.setInternal b) = s.setInternal (if p then a else b) := by
  split_ifs <;> rfl

theorem overflows_setInternal (s : RxSys) (e : RxInternal) :
    (s.setInternal e).overflows = s.overflows := rfl

theorem responses_setInternal (s : RxSys) (e : RxInternal) :
    (s.setInternal e).responses = s.responses := rfl

theorem internal_setInternal (s : RxSys) (e : RxInternal) :
    (s.setInternal e).handle.internal = e := rfl

/-- The event of a postamble that differs does not survive. -/
theorem crc_event (s : RxSys) (p q : Prop) [Decidable p] [Decidable q] :
    (if ¬ p then s.setInternal .crcError
      else (if q then s.setInternal .postambleError else s).setInternal .crcAndPostambleOk) =
      s.setInternal (if p then .crcAndPostambleOk else .crcError) := by
  by_cases hp : p
  · by_cases hq : q
    · simp [hp, hq, RxSys.setInternal]
    · simp [hp, hq]
  · simp [hp]

theorem outcomes_sendNack (s : RxSys) :
    outcomes (sendResponse s targetToHostResNack) = outcomes s ++ [.nack] := by
  have hne : targetToHostResNack ≠ targetToHostResAck := by decide
  simp [outcomes, sendResponse, outcomeOf, noPayloadRequest, hne]

theorem outcomes_sendAck (s : RxSys) : outcomes (sendResponse s targetToHostResAck) =
    outcomes s ++ [.ack s.handle.packet.header s.handle.packet.body] := by
  simp [outcomes, sendResponse, outcomeOf, noPayloadRequest]

theorem ran_duringHeader (env : Env) {s : RxSys} (hs : s.handle.state = .headerProc)
    (hreact : react (coreOf s.handle) = none)
    (ho : (duringActionHeaderProc s).overflows = s.overflows) :
    Ran env (getRxDataLen s).1 s (duringActionHeaderProc s) := by
  have hg := took_getRxDataLen s
  rw [duringActionHeaderProc] at ho ⊢
  by_cases hguard : headerSizeBytes ≤ (getRxDataLen s).1
  · simp only [if_pos hguard, setInternal_ite] at ho ⊢
    have hlen := le_of_getRxDataLen hguard
    have hw := took_readRxData (getRxDataLen s).2 headerSizeBytes
    have hbytes := readRxData_bytes (getRxDataLen s).2 headerSizeBytes
    have hhandle := handle_readRxData (getRxDataLen s).2 headerSizeBytes
    have hresp := responses_readRxData (getRxDataLen s).2 headerSizeBytes
    generalize readRxData (getRxDataLen s).2 headerSizeBytes = r at *
    have hmono := hg.mono
    have hmono' := hw.mono
    change r.2.overflows = s.overflows at ho
    have hr : r.1 = (getRxDataLen s).2.rx.contents.take 4 := hbytes (by omega) hlen
    have hsize : r.1.length = 4 := by
      rw [hr, List.length_take]
      exact Nat.min_eq_left hlen
    rw [handle_getRxDataLen] at hhandle
    refine ran_during env (getRxDataLen s).1 hg (hw.update ..) ho hreact ?_ ?_ ?_
      (hresp.trans (responses_getRxDataLen s))
    · simpa only [need, coreOf, hs] using hguard
    · simpa only [need, coreOf, hs] using hlen
    · simp only [during, coreOf, hs, ← hr, loadHeader, RxSys.setInternal, hhandle,
        PacketHeader.load_eq _ hsize]
  · simp only [if_neg hguard]
    exact ran_wait env hreact (by simpa only [need, coreOf, hs] using Nat.lt_of_not_le hguard)

theorem ran_header (env : Env) {s : RxSys} (hs : s.handle.state = .headerProc)
    (ho : (headerProcOnReact s).overflows = s.overflows) : Ran env (getRxDataLen s).1 s (headerProcOnReact s) := by
  have hready : s.handle.state ≠ .packetReady := by
    rw [hs]
    decide
  rw [headerProcOnReact] at ho ⊢
  by_cases hok : s.handle.internal = .headerOk
  · rw [if_pos hok]
    refine @ran_react env _ s _ [] ?_ ?_ (fun h => absurd h hready) ?_
    · dsimp only
      split_ifs
      · exact (Took.refl s).update ..
      · exact (Took.refl s).update ..
    · dsimp only
      split_ifs with hlen
      all_goals
        simp only [exitActionHeaderProc] at hlen
        simp [react, coreOf, hs, hok, enterSeqPayloadProc, enterSeqCrcAndPostambleProc,
          exitActionHeaderProc, hostCommRxFsmSetNextState, hlen]
    · dsimp only
      split_ifs
      · exact (List.append_nil _).symm
      · exact (List.append_nil _).symm
  rw [if_neg hok] at ho ⊢
  by_cases hraised : timeEventIsRaised s.handle.headerTimeout = true
  · rw [if_pos (.inl hraised)]
    simp only [if_pos hraised]
    refine .timeout (by rwa [Raised, hs]) (consumed_clearRxData s) ?_ ?_
    · simp [coreOf, enterSeqPreambleProc, exitActionHeaderProc, sendResponse,
        hostCommRxFsmSetNextState]
    · refine (outcomes_sendNack (clearRxData s)).trans ?_
      rw [outcomes, responses_clearRxData, outcomes]
  by_cases herror : s.handle.internal = .headerError
  · rw [if_pos (.inr herror)]
    simp only [if_neg hraised]
    refine ran_react env _ ((Took.refl s).update ..) ?_ (fun h => absurd h hready)
      (outcomes_sendNack s)
    simp [react, coreOf, hs, herror, enterSeqPreambleProc, exitActionHeaderProc, sendResponse,
      hostCommRxFsmSetNextState]
  rw [if_neg (not_or.mpr ⟨hraised, herror⟩)] at ho ⊢
  exact ran_duringHeader env hs ((react_header (c := coreOf s.handle) hs).mpr ⟨hok, herror⟩) ho

theorem ran_duringPayload (env : Env) {s : RxSys} (hs : s.handle.state = .payloadProc)
    (hreact : react (coreOf s.handle) = none)
    (ho : (duringActionPayloadProc s).overflows = s.overflows) :
    Ran env (getRxDataLen s).1 s (duringActionPayloadProc s) := by
  have hg := took_getRxDataLen s
  rw [duringActionPayloadProc] at ho ⊢
  by_cases hguard : s.handle.packet.header.payloadLen.toNat % 256 ≤ (getRxDataLen s).1
  · simp only [if_pos hguard] at ho ⊢
    have hlen := le_of_getRxDataLen hguard
    obtain ⟨t, ht⟩ : ∃ t, t = (getRxDataLen s).2.setInternal .payloadOk := ⟨_, rfl⟩
    rw [← ht] at ho ⊢
    have hhandle : t.handle = { s.handle with internal := .payloadOk } := by
      rw [ht, RxSys.setInternal, handle_getRxDataLen]
    have hgt : Took s [] t := ht ▸ hg.update ..
    have hlen' : t.handle.packet.header.payloadLen.toNat % 256 ≤ t.rx.contents.length := by
      rw [hhandle, ht]
      exact hlen
    have hw := took_readRxData t t.handle.packet.header.payloadLen.toNat
    have hbytes := readRxData_bytes t t.handle.packet.header.payloadLen.toNat
    have hkeep := handle_readRxData t t.handle.packet.header.payloadLen.toNat
    have hresp := responses_readRxData t t.handle.packet.header.payloadLen.toNat
    generalize readRxData t t.handle.packet.header.payloadLen.toNat = r at *
    have hmono := hgt.mono
    have hmono' := hw.mono
    change r.2.overflows = s.overflows at ho
    have hr := hbytes (by omega) hlen'
    refine ran_during env (getRxDataLen s).1 hgt (hw.update ..) ho hreact ?_ ?_ ?_ ?_
    · simpa only [need, coreOf, hs] using hguard
    · simpa only [need, coreOf, hs, hhandle] using hlen'
    · rw [hhandle] at hr hkeep
      simp only [during, coreOf, hs, ← hr, loadPayload, hkeep]
    · refine hresp.trans ?_
      rw [ht]
      exact responses_getRxDataLen s
  · simp only [if_neg hguard]
    exact ran_wait env hreact (by simpa only [need, coreOf, hs] using Nat.lt_of_not_le hguard)

theorem ran_payload (env : Env) {s : RxSys} (hs : s.handle.state = .payloadProc)
    (ho : (payloadProcOnReact s).overflows = s.overflows) : Ran env (getRxDataLen s).1 s (payloadProcOnReact s) := by
  have hready : s.handle.state ≠ .packetReady := by
    rw [hs]
    decide
  rw [payloadProcOnReact] at ho ⊢
  by_cases hok : s.handle.internal = .payloadOk
  · rw [if_pos hok]
    refine ran_react env _ ((Took.refl s).update ..) ?_ (fun h => absurd h hready)
      (List.append_nil _).symm
    simp [react, coreOf, hs, hok, enterSeqCrcAndPostambleProc, exitActionPayloadProc,
      hostCommRxFsmSetNextState]
  rw [if_neg hok] at ho ⊢
  by_cases hraised : timeEventIsRaised s.handle.payloadTimeout = true
  · simp only [if_pos hraised]
    refine .timeout (by rwa [Raised, hs]) (consumed_clearRxData _) ?_ ?_
    · simp [coreOf, enterSeqPreambleProc, exitActionPayloadProc, sendResponse,
        hostCommRxFsmSetNextState]
    · refine (outcomes_sendNack (clearRxData (exitActionPayloadProc s))).trans ?_
      rw [outcomes, responses_clearRxData]
      rfl
  rw [if_neg hraised] at ho ⊢
  exact ran_duringPayload env hs ((react_payload (c := coreOf s.handle) hs).mpr hok) ho

theorem readWord_of_length {junk : UInt8} {bytes : List UInt8} (h : bytes.length = 4) :
    readWord junk bytes = word32 bytes := by
  rw [readWord, h]
  simp

theorem read_twice {s : RxSys} {j k : Nat} (hj : j < 256) (hk : k < 256)
    (hlen : j + k ≤ s.rx.contents.length)
    (ho : (readRxData (readRxData s j).2 k).2.overflows = s.overflows) :
    (readRxData s j).1 = s.rx.contents.take j ∧
      (readRxData (readRxData s j).2 k).1 = (s.rx.contents.drop j).take k := by
  have hmono := (took_readRxData s j).mono
  have hmono' := (took_readRxData (readRxData s j).2 k).mono
  have hfirst : (readRxData s j).2.overflows = s.overflows := by omega
  have hread : (readRxData s j).1 = s.rx.contents.take j := by
    rw [readRxData_bytes s j hfirst (by rw [Nat.mod_eq_of_lt hj]; omega), Nat.mod_eq_of_lt hj]
  refine ⟨hread, ?_⟩
  obtain ⟨new, -, hflow⟩ := (took_readRxData s j).flow
  have hrest : (readRxData s j).2.rx.contents = s.rx.contents.drop j ++ new := by
    have hstream := hflow hfirst
    rw [hread, ← List.take_append_drop j s.rx.contents, List.append_assoc,
      List.take_append_drop] at hstream
    exact (List.append_cancel_left hstream).symm
  have hdrop : k ≤ (s.rx.contents.drop j).length := by
    rw [List.length_drop]
    omega
  rw [readRxData_bytes (readRxData s j).2 k (ho.trans hfirst.symm) (by
    rw [Nat.mod_eq_of_lt hk, hrest, List.length_append]
    exact Nat.le_add_right_of_le hdrop), Nat.mod_eq_of_lt hk, hrest,
    List.take_append_of_le_length hdrop]

theorem ran_duringCrc (env : Env) {s : RxSys} (hs : s.handle.state = .crcAndPostambleProc)
    (hreact : react (coreOf s.handle) = none)
    (ho : (duringActionCrcAndPostambleProc env s).overflows = s.overflows) :
    Ran env (getRxDataLen s).1 s (duringActionCrcAndPostambleProc env s) := by
  have hneed : need (coreOf s.handle) = 8 := by simp only [need, coreOf, hs]
  have hg := took_getRxDataLen s
  rw [duringActionCrcAndPostambleProc] at ho ⊢
  by_cases hguard : crcSizeBytes + postambleSizeBytes ≤ (getRxDataLen s).1
  · simp only [if_pos hguard] at ho ⊢
    have hlen : 4 + 4 ≤ (getRxDataLen s).2.rx.contents.length := le_of_getRxDataLen hguard
    have htwice := read_twice (s := (getRxDataLen s).2) (j := crcSizeBytes) (k := postambleSizeBytes)
      (by decide) (by decide) hlen
    have hc := took_readRxData (getRxDataLen s).2 crcSizeBytes
    have hp := took_readRxData (readRxData (getRxDataLen s).2 crcSizeBytes).2 postambleSizeBytes
    have hhandle : (readRxData (readRxData (getRxDataLen s).2 crcSizeBytes).2
        postambleSizeBytes).2.handle = s.handle := by simp
    have hresp : (readRxData (readRxData (getRxDataLen s).2 crcSizeBytes).2
        postambleSizeBytes).2.responses = s.responses := by simp
    generalize readRxData (getRxDataLen s).2 crcSizeBytes = c at *
    generalize readRxData c.2 postambleSizeBytes = p at *
    rw [crc_event, overflows_setInternal] at ho
    rw [crc_event]
    have hmono := hg.mono
    have hmono' := (hc.trans hp).mono
    obtain ⟨hfirst, hsecond⟩ := htwice (by omega)
    have hsize : c.1.length = 4 := by
      rw [hfirst, List.length_take]
      exact Nat.min_eq_left (Nat.le_trans (Nat.le_add_right 4 4) hlen)
    have hword : readWord env.junk c.1 = word32 ((getRxDataLen s).2.rx.contents.take 4) := by
      rw [readWord_of_length hsize, hfirst]
    have htaken : c.1 ++ p.1 = (getRxDataLen s).2.rx.contents.take 8 := by
      rw [hfirst, hsecond]
      exact List.take_add.symm
    have htook : Took (getRxDataLen s).2 (c.1 ++ p.1) p.2 := hc.trans hp
    refine ran_during env (getRxDataLen s).1 hg (htook.update ..) ?_ hreact ?_ ?_ ?_ ?_
    · rw [overflows_setInternal, ho]
    · rw [hneed]
      exact hguard
    · rw [hneed]
      exact hlen
    · simp only [during, coreOf, hs, RxSys.setInternal, hhandle, hword, htaken]
    · rw [responses_setInternal, hresp]
  · simp only [if_neg hguard]
    exact ran_wait env hreact (hneed.symm ▸ Nat.lt_of_not_le hguard)

theorem ran_crc (env : Env) {s : RxSys} (hs : s.handle.state = .crcAndPostambleProc)
    (ho : (crcAndPostambleProcOnReact env s).overflows = s.overflows) :
    Ran env (getRxDataLen s).1 s (crcAndPostambleProcOnReact env s) := by
  have hready : s.handle.state ≠ .packetReady := by
    rw [hs]
    decide
  rw [crcAndPostambleProcOnReact] at ho ⊢
  by_cases hok : s.handle.internal = .crcAndPostambleOk
  · rw [if_pos hok]
    refine ran_react env _ ((Took.refl s).update ..) ?_ (fun h => absurd h hready)
      (outcomes_sendAck (exitActionCrcAndPostambleProc s))
    simp [react, coreOf, hs, hok, enterSeqPacketReady, exitActionCrcAndPostambleProc, sendResponse,
      hostCommRxFsmSetNextState]
  rw [if_neg hok] at ho ⊢
  -- the timer is stopped before it is looked at, so the ring is not cleared
  have hstopped : ¬ timeEventIsRaised
      (exitActionCrcAndPostambleProc s).handle.crcAndPostambleTimeout = true := by
    rw [exitActionCrcAndPostambleProc, isRaised_stop]
    decide
  by_cases hraised : timeEventIsRaised s.handle.crcAndPostambleTimeout = true
  · rw [if_pos (.inl hraised)]
    simp only [if_neg hstopped]
    refine .timeout (by rwa [Raised, hs]) rfl ?_ (outcomes_sendNack (exitActionCrcAndPostambleProc s))
    simp [coreOf, enterSeqPreambleProc, exitActionCrcAndPostambleProc, sendResponse,
      hostCommRxFsmSetNextState]
  by_cases herror : s.handle.internal = .crcError ∨ s.handle.internal = .postambleError
  · rw [if_pos (.inr herror)]
    simp only [if_neg hstopped]
    refine ran_react env _ ((Took.refl s).update ..) ?_ (fun h => absurd h hready)
      (outcomes_sendNack (exitActionCrcAndPostambleProc s))
    rcases herror with herror | herror
    all_goals simp [react, coreOf, hs, herror, enterSeqPreambleProc, exitActionCrcAndPostambleProc,
      sendResponse, hostCommRxFsmSetNextState]
  rw [if_neg (not_or.mpr ⟨hraised, herror⟩)] at ho ⊢
  exact ran_duringCrc env hs ((react_crc (c := coreOf s.handle) hs).mpr ⟨hok, not_or.mp herror⟩) ho

theorem ran_packetReady (env : Env) {s : RxSys} (hs : s.handle.state = .packetReady) :
    Ran env (getRxDataLen s).1 s (packetReadyOnReact s) := by
  rw [packetReadyOnReact]
  split_ifs with hext
  · refine ran_react env _ ((Took.refl s).update ..) ?_ (fun _ => hext) (List.append_nil _).symm
    simp [react, coreOf, hs, enterSeqPreambleProc, hostCommRxFsmSetNextState]
  · exact .stay (Took.refl s).toFlow rfl (.inl ⟨hs, hext⟩) rfl

theorem ran_run (env : Env) {s : RxSys} (ho : (hostCommRxFsmRun env s).overflows = s.overflows) :
    Ran env (getRxDataLen s).1 s (hostCommRxFsmRun env s) := by
  rw [hostCommRxFsmRun] at ho ⊢
  cases hs : s.handle.state with
  | preambleProc =>
      simp only [hs] at ho
      exact ran_preamble env hs ho
  | headerProc =>
      simp only [hs] at ho
      exact ran_header env hs ho
  | payloadProc =>
      simp only [hs] at ho
      exact ran_payload env hs ho
  | crcAndPostambleProc =>
      simp only [hs] at ho
      exact ran_crc env hs ho
  | packetReady => exact ran_packetReady env hs
  | _ =>
      refine .advance [] [] (Took.refl s).toFlow ?_ (by simp [need, coreOf, hs]) (by simp [hs])
        (List.append_nil _).symm
      simp [RxParser.advance, react, need, during, coreOf, hs]

theorem received_preamble (env : Env) (s : RxSys) : Received s (preambleProcOnReact env s) := by
  rw [preambleProcOnReact]
  split_ifs
  · exact (Received.refl s).update ..
  · have hg := (took_getRxDataLen s).toReceived
    obtain ⟨w, hw⟩ := took_readPreamble protocolPreamble env.junk (getRxDataLen s).2
    rw [duringActionPreambleProc]
    split_ifs
    · dsimp only
      split_ifs
      · exact (hg.trans hw.toReceived).update ..
      · exact hg.trans hw.toReceived
    · exact hg

theorem received_header (s : RxSys) : Received s (headerProcOnReact s) := by
  have hg := (took_getRxDataLen s).toReceived
  have hr := (took_readRxData (getRxDataLen s).2 headerSizeBytes).toReceived
  simp only [headerProcOnReact, duringActionHeaderProc, setInternal_ite]
  split_ifs
  · exact (Received.refl s).update ..
  · exact (Received.refl s).update ..
  · exact (received_clearRxData s).update ..
  · exact (Received.refl s).update ..
  · exact (hg.trans hr).update ..
  · exact (hg.trans hr).update ..
  · exact hg

theorem received_payload (s : RxSys) : Received s (payloadProcOnReact s) := by
  rw [payloadProcOnReact]
  split_ifs
  · exact (Received.refl s).update ..
  · exact (((Received.refl s).update ..).trans (received_clearRxData (exitActionPayloadProc s))).update ..
  · have hg := (took_getRxDataLen s).toReceived
    rw [duringActionPayloadProc]
    split_ifs
    · have hr := took_readRxData ((getRxDataLen s).2.setInternal .payloadOk)
        ((getRxDataLen s).2.setInternal .payloadOk).handle.packet.header.payloadLen.toNat
      exact ((hg.update ..).trans hr.toReceived).update ..
    · exact hg

theorem received_crc (env : Env) (s : RxSys) : Received s (crcAndPostambleProcOnReact env s) := by
  rw [crcAndPostambleProcOnReact]
  split_ifs
  · exact (Received.refl s).update ..
  · exact (Received.refl s).update ..
  · have hg := (took_getRxDataLen s).toReceived
    have hc := took_readRxData (getRxDataLen s).2 crcSizeBytes
    have hp := took_readRxData (readRxData (getRxDataLen s).2 crcSizeBytes).2 postambleSizeBytes
    rw [duringActionCrcAndPostambleProc]
    split_ifs
    · dsimp only
      rw [crc_event]
      exact ((hg.trans hc.toReceived).trans hp.toReceived).update ..
    · exact hg

theorem received_run (env : Env) (s : RxSys) : Received s (hostCommRxFsmRun env s) := by
  rw [hostCommRxFsmRun]
  split
  · exact received_preamble env s
  · exact received_header s
  · exact received_payload s
  · exact received_crc env s
  · rw [packetReadyOnReact]
    split_ifs
    · exact (Received.refl s).update ..
    · exact .refl s
  · exact .refl s

theorem overflows_runCall (env : Env) (s : RxSys) (irqs : List (List UInt8)) :
    s.overflows ≤ (hostCommRxFsmRun env { s with irqs }).overflows ∧
      (hostCommRxFsmRun env { s with irqs }).overflows ≤ (runCall env s irqs).overflows :=
  ⟨(received_run env { s with irqs }).mono,
    overflows_rxBytes _ { hostCommRxFsmRun env { s with irqs } with irqs := [] }⟩

theorem room_runCall (env : Env) {s : RxSys} {irqs : List (List UInt8)}
    (h : s.rx.contents.length + irqs.flatten.length ≤ rxDataBuffSize) :
    (runCall env s irqs).overflows = s.overflows := by
  obtain ⟨ho, hroom⟩ := (received_run env { s with irqs }).room h
  exact (room_rxBytes _ { hostCommRxFsmRun env { s with irqs } with irqs := [] } hroom).trans ho

theorem arrived_runCall (env : Env) (s : RxSys) (irqs : List (List UInt8)) :
    (runCall env s irqs).arrived = s.arrived ++ irqs.flatten :=
  (arrived_rxBytes ..).trans (received_run env { s with irqs }).pending

theorem ran_append (env : Env) {len : Nat} {s s' s'' : RxSys} (bytes : List UInt8)
    (h : Ran env len s s') (ho : s''.overflows = s.overflows → s'.overflows = s.overflows)
    (hhandle : s''.handle = s'.handle) (hresp : s''.responses = s'.responses)
    (hconsumed : s''.consumed = s'.consumed) (harrived : s''.arrived = s'.arrived ++ bytes)
    (hcontents : s''.rx.contents = s'.rx.contents ++ bytes) : Ran env len s s'' := by
  have hflow {w : List UInt8} (hw : Flow s w s') : Flow s w s'' := by
    obtain ⟨new, hnew, hf⟩ := hw.flow
    refine ⟨hconsumed.trans hw.consumed, new ++ bytes, ?_, fun h => ?_⟩
    · rw [harrived, hnew, List.append_assoc]
    · rw [hcontents, ← List.append_assoc, hf (ho h), List.append_assoc]
  have hout : outcomes s'' = outcomes s' := by rw [outcomes, hresp, outcomes]
  cases h with
  | stay flow core waits responses =>
      exact .stay (hflow flow) (hhandle ▸ core) waits (hresp.trans responses)
  | advance w out flow next enough ready responses =>
      refine .advance w out (hflow flow) ?_ enough ready (hout.trans responses)
      rw [hcontents, ← List.append_assoc, hhandle]
      exact advance_append env next bytes
  | timeout raised consumed core responses =>
      exact .timeout raised (hconsumed.trans consumed) (hhandle ▸ core) (hout.trans responses)

theorem ran_runCall (env : Env) {s : RxSys} {irqs : List (List UInt8)}
    (ho : (runCall env s irqs).overflows = s.overflows) :
    Ran env (getRxDataLen { s with irqs }).1 s (runCall env s irqs) := by
  obtain ⟨h₁, h₂⟩ := overflows_runCall env s irqs
  have hrun : (hostCommRxFsmRun env { s with irqs }).overflows = s.overflows := by omega
  have hs : Ran env (getRxDataLen { s with irqs }).1 s (hostCommRxFsmRun env { s with irqs }) := by
    cases ran_run env (s := { s with irqs }) hrun with
    | stay flow core waits responses => exact .stay ⟨flow.consumed, flow.flow⟩ core waits responses
    | advance w out flow next enough ready responses =>
        exact .advance w out ⟨flow.consumed, flow.flow⟩ next enough ready responses
    | timeout raised consumed core responses => exact .timeout raised consumed core responses
  refine ran_append env _ hs (fun _ => hrun) (handle_rxBytes ..) (responses_rxBytes ..)
    (consumed_rxBytes ..) (arrived_rxBytes ..) (contents_rxBytes _ _ ?_)
  exact ho.trans hrun.symm

end HostComm.RxParser
