import HostComm.RxMoves

namespace HostComm.RxHeader

open Protocol TimeEvents TxSend RxFsm RxStream RxParser RxMoves Runs

/-- The machine has looked at the header and still relies on it. -/
def HeaderChecked (h : HostCommRxFsm) : Prop :=
  h.state = .payloadProc ∨ h.state = .crcAndPostambleProc ∨ h.state = .packetReady ∨
    h.state = .headerProc ∧ h.internal = .headerOk

structure Carried (h : HostCommRxFsm) : Prop where
  valid : HeaderChecked h → protocolCheckValidHeader h.packet = true
  nonempty : h.state = .payloadProc → 0 < h.packet.header.payloadLen.toNat

theorem carried_of_unchecked {h : HostCommRxFsm} (hs : ¬ HeaderChecked h) : Carried h :=
  ⟨fun hc => absurd hc hs, fun hp => absurd (.inl hp) hs⟩

theorem carried_preamble {h : HostCommRxFsm} (hs : h.state = .preambleProc) : Carried h :=
  carried_of_unchecked (by simp [HeaderChecked, hs])

theorem payloadLen_lt {h : HostCommRxFsm} (hc : Carried h) (hs : HeaderChecked h) :
    h.packet.header.payloadLen.toNat < maxPayloadSize := valid_len (hc.valid hs)

theorem payloadLen_mod {h : HostCommRxFsm} (hc : Carried h) (hs : h.state = .payloadProc) :
    h.packet.header.payloadLen.toNat % 256 = h.packet.header.payloadLen.toNat :=
  Nat.mod_eq_of_lt (payloadLen_lt hc (.inl hs))

theorem carried_header {s : RxSys} (h : Carried s.handle) (hs : s.handle.state = .headerProc) :
    Carried (headerProcOnReact s).handle := by
  rw [headerProcOnReact]
  by_cases hok : s.handle.internal = .headerOk
  · rw [if_pos hok]
    have hvalid : protocolCheckValidHeader s.handle.packet = true :=
      h.valid (.inr (.inr (.inr ⟨hs, hok⟩)))
    dsimp only
    split_ifs with hlen
    · exact ⟨fun _ => hvalid, fun _ => hlen⟩
    · exact ⟨fun _ => hvalid, fun hp => by cases hp⟩
  rw [if_neg hok]
  split_ifs
  · exact carried_preamble rfl
  · exact carried_preamble rfl
  · rw [duringActionHeaderProc]
    split_ifs
    · -- the event is raised on the answer of the check itself
      dsimp only
      split_ifs with hvalid
      · refine ⟨fun _ => hvalid, fun hp => ?_⟩
        simp [RxSys.setInternal, loadHeader, hs] at hp
      · apply carried_of_unchecked
        simp [HeaderChecked, RxSys.setInternal, loadHeader, hs]
    · rwa [handle_getRxDataLen]

theorem carried_keep {h h' : HostCommRxFsm} (hc : Carried h)
    (hheader : h'.packet.header = h.packet.header)
    (hchecked : HeaderChecked h' → HeaderChecked h)
    (hpayload : h'.state = .payloadProc → h.state = .payloadProc) : Carried h' where
  valid := by
    intro hc'
    rw [valid_header hheader]
    exact hc.valid (hchecked hc')
  nonempty := by
    intro hp
    rw [hheader]
    exact hc.nonempty (hpayload hp)

theorem carried_run (env : Env) {s : RxSys} (h : Carried s.handle) :
    Carried (hostCommRxFsmRun env s).handle := by
  by_cases hs : s.handle.state = .headerProc
  · rw [hostCommRxFsmRun, hs]
    exact carried_header h hs
  · have hmove := moves_run env s
    generalize hostCommRxFsmRun env s = s' at hmove
    cases hmove with
    | stay handle header quiet held answered =>
        have hstate : s'.handle.state = s.handle.state := by rw [handle]
        refine carried_keep h (header hs) (fun hc => ?_) (hstate ▸ id)
        simpa [HeaderChecked, hstate, hs] using hc
    | leave type next edge handle released answered =>
        generalize hst : s.handle.state = state at edge hs
        rw [handle]
        cases edge with
        | stored => exact carried_keep h (by simp) (fun _ => .inl hst) (by simp)
        | accept => exact carried_keep h (by simp) (fun _ => .inr (.inl hst)) (by simp)
        | found => exact carried_of_unchecked (by simp [HeaderChecked, goto, setTimer, hostCommRxFsmSetNextState])
        | withPayload => exact absurd rfl hs
        | noPayload => exact absurd rfl hs
        | _ => exact carried_preamble (state_goto ..)

theorem carried_step (env : Env) (s : RxSys) (e : RxEvent) (h : Carried s.handle) :
    Carried (rxStep env s e).handle := by
  cases e with
  | run irqs =>
      rw [rxStep, runCall, handle_rxBytes]
      exact carried_run env (s := { s with irqs }) h
  | rxByte byte => exact h
  | tick => exact ⟨h.valid, h.nonempty⟩
  | external event => exact ⟨h.valid, h.nonempty⟩

theorem carried_init (s₀ : RxSys) : Carried (hostCommRxFsmInit s₀).handle := carried_preamble rfl

end HostComm.RxHeader
