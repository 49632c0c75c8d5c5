import HostComm.RxParser
import Mathlib.Logic.Function.Iterate

namespace HostComm.RxAtomic

open Protocol TimeEvents UartDriver ByteRings TxSend TxFsm RxFsm RxStream RxParser

/-- One run call between two arrivals, on the core of the machine and the
stored bytes. The length check sees the length modulo 256. -/
def atomicStep (env : Env) (x : RxCore × List UInt8) : RxCore × List UInt8 :=
  if x.1.state = .packetReady then x
  else
    match react x.1 with
    | some (c', _) => (c', x.2)
    | none =>
        if need x.1 ≤ x.2.length % 256 then
          ((during env x.1 x.2).1, x.2.drop (during env x.1 x.2).2.length)
        else x

theorem atomicStep_ready (env : Env) {c : RxCore} (h : c.state = .packetReady) (t : List UInt8) :
    atomicStep env (c, t) = (c, t) := if_pos h

theorem atomicStep_react (env : Env) {c c' : RxCore} {out : List RxOutcome}
    (h : c.state ≠ .packetReady) (hreact : react c = some (c', out)) (t : List UInt8) :
    atomicStep env (c, t) = (c', t) := by
  rw [atomicStep, if_neg h]
  simp only [hreact]

theorem atomicStep_during (env : Env) {c : RxCore} {t : List UInt8} (hreact : react c = none)
    (hneed : need c ≤ t.length % 256) :
    atomicStep env (c, t) = ((during env c t).1, t.drop (during env c t).2.length) := by
  rw [atomicStep, if_neg (ne_ready_of_react hreact)]
  simp only [hreact, if_pos hneed]

theorem atomicStep_wait (env : Env) {c : RxCore} {t : List UInt8} (hreact : react c = none)
    (hwait : t.length % 256 < need c) : atomicStep env (c, t) = (c, t) := by
  rw [atomicStep, if_neg (ne_ready_of_react hreact)]
  simp only [hreact, if_neg (Nat.not_le_of_lt hwait)]

structure Calm (h : HostCommRxFsm) : Prop where
  quiet : ¬ Raised h
  ready : h.state = .packetReady → h.external ≠ .packetProccessed

theorem calm_next {h : HostCommRxFsm} (hs : ¬ Raised h) (hx : h.external = .invalid) : Calm h :=
  ⟨hs, fun _ => by
    rw [hx]
    decide⟩

theorem calm_setInternal {s : RxSys} (h : Calm s.handle) (e : RxInternal) :
    Calm (s.setInternal e).handle := ⟨h.quiet, h.ready⟩

theorem calm_preamble (env : Env) {s : RxSys} (h : Calm s.handle) :
    Calm (preambleProcOnReact env s).handle := by
  rw [preambleProcOnReact]
  split_ifs
  · exact calm_next (by simp [Raised, enterSeqHeaderProc, hostCommRxFsmSetNextState]) rfl
  · have hread : Calm (readPreamble env.junk (getRxDataLen s).2 protocolPreamble).2.handle := by
      rwa [handle_readPreamble, handle_getRxDataLen]
    rw [duringActionPreambleProc]
    split_ifs
    · dsimp only
      split_ifs
      · exact calm_setInternal hread _
      · exact hread
    · rwa [handle_getRxDataLen]

theorem calm_header {s : RxSys} (h : Calm s.handle) : Calm (headerProcOnReact s).handle := by
  have hread : Calm (readRxData (getRxDataLen s).2 headerSizeBytes).2.handle := by
    rwa [handle_readRxData, handle_getRxDataLen]
  have hload : Calm (loadHeader (readRxData (getRxDataLen s).2 headerSizeBytes).2
      (readRxData (getRxDataLen s).2 headerSizeBytes).1).handle := ⟨hread.quiet, hread.ready⟩
  simp only [headerProcOnReact, duringActionHeaderProc]
  split_ifs
  · exact calm_next (by simp [Raised, enterSeqPayloadProc, hostCommRxFsmSetNextState]) rfl
  · exact calm_next (by simp [Raised, enterSeqCrcAndPostambleProc, hostCommRxFsmSetNextState]) rfl
  · exact calm_next (by simp [Raised, enterSeqPreambleProc, hostCommRxFsmSetNextState]) rfl
  · exact calm_next (by simp [Raised, enterSeqPreambleProc, hostCommRxFsmSetNextState]) rfl
  · exact calm_setInternal hload _
  · exact calm_setInternal hload _
  · rwa [handle_getRxDataLen]

theorem calm_payload {s : RxSys} (h : Calm s.handle) : Calm (payloadProcOnReact s).handle := by
  rw [payloadProcOnReact]
  split_ifs
  · exact calm_next (by simp [Raised, enterSeqCrcAndPostambleProc, hostCommRxFsmSetNextState]) rfl
  · exact calm_next (by simp [Raised, enterSeqPreambleProc, hostCommRxFsmSetNextState]) rfl
  · rw [duringActionPayloadProc]
    split_ifs
    · have hset : Calm ((getRxDataLen s).2.setInternal .payloadOk).handle :=
        calm_setInternal (by rwa [handle_getRxDataLen]) _
      have hread : Calm (readRxData ((getRxDataLen s).2.setInternal .payloadOk)
          ((getRxDataLen s).2.setInternal .payloadOk).handle.packet.header.payloadLen.toNat).2.handle := by
        rwa [handle_readRxData]
      exact ⟨hread.quiet, hread.ready⟩
    · rwa [handle_getRxDataLen]

theorem calm_duringCrc (env : Env) {s : RxSys} (h : Calm s.handle) :
    Calm (duringActionCrcAndPostambleProc env s).handle := by
  have hread : Calm (readRxData (readRxData (getRxDataLen s).2 crcSizeBytes).2
      postambleSizeBytes).2.handle := by
    rwa [handle_readRxData, handle_readRxData, handle_getRxDataLen]
  rw [duringActionCrcAndPostambleProc]
  by_cases hguard : crcSizeBytes + postambleSizeBytes ≤ (getRxDataLen s).1
  · simp only [if_pos hguard]
    rw [crc_event]
    exact calm_setInternal hread _
  · rw [if_neg hguard]
    rwa [handle_getRxDataLen]

theorem calm_crc (env : Env) {s : RxSys} (h : Calm s.handle) :
    Calm (crcAndPostambleProcOnReact env s).handle := by
  rw [crcAndPostambleProcOnReact]
  split_ifs
  · exact calm_next (by simp [Raised, enterSeqPacketReady, hostCommRxFsmSetNextState]) rfl
  · exact calm_next (by simp [Raised, enterSeqPreambleProc, hostCommRxFsmSetNextState]) rfl
  · exact calm_duringCrc env h

theorem calm_run (env : Env) {s : RxSys} (h : Calm s.handle) :
    Calm (hostCommRxFsmRun env s).handle := by
  rw [hostCommRxFsmRun]
  split
  · exact calm_preamble env h
  · exact calm_header h
  · exact calm_payload h
  · exact calm_crc env h
  · rw [packetReadyOnReact]
    split_ifs
    · exact calm_next (by simp [Raised, enterSeqPreambleProc, hostCommRxFsmSetNextState]) rfl
    · exact h
  · exact h

theorem runCall_atomic (env : Env) {s : RxSys} (h : Calm s.handle) :
    Calm (runCall env s []).handle ∧
      (coreOf (runCall env s []).handle, (runCall env s []).rx.contents) =
        atomicStep env (coreOf s.handle, s.rx.contents) := by
  refine ⟨?_, ?_⟩
  · rw [runCall, handle_rxBytes]
    exact calm_run env (s := { s with irqs := [] }) h
  · have ho : (runCall env s []).overflows = s.overflows := room_runCall env s.rx.contents_le
    have hlen : (getRxDataLen { s with irqs := [] }).1 = s.rx.contents.length % 256 :=
      uartGetRxDataLen_eq s.rx
    have hflow {w : List UInt8} (hw : Flow s w (runCall env s [])) :
        s.rx.contents = w ++ (runCall env s []).rx.contents := by
      obtain ⟨new, hnew, hf⟩ := hw.flow
      have hnone : new = [] := by
        rw [arrived_runCall] at hnew
        exact (List.append_cancel_left hnew).symm
      have heq := hf ho
      rwa [hnone, List.append_nil] at heq
    have hran := ran_runCall env ho
    rw [hlen] at hran
    cases hran with
    | stay flow core waits responses =>
        have hsame := hflow flow
        rw [List.nil_append] at hsame
        rw [core, ← hsame]
        rcases waits with ⟨hready, -⟩ | ⟨hreact, hwait⟩
        · exact (atomicStep_ready env hready _).symm
        · exact (atomicStep_wait env hreact hwait).symm
    | advance w out flow next enough ready responses =>
        have hsame := hflow flow
        have hready : (coreOf s.handle).state ≠ .packetReady := fun hs => h.ready hs (ready hs)
        rw [← hsame, advance] at next
        split at next
        · next c' out' hreact =>
            cases next
            rw [atomicStep_react env hready hreact, hsame, List.nil_append]
        · next hreact =>
            have hneed := enough hreact
            rw [if_pos (hneed.trans (Nat.mod_le _ _)), Option.some.injEq, Prod.mk.injEq,
              Prod.mk.injEq] at next
            obtain ⟨hcore, htaken, -⟩ := next
            rw [atomicStep_during env hreact hneed, hcore, htaken, hsame, List.drop_left]
    | timeout raised consumed core responses => exact absurd raised h.quiet

theorem iterate_atomic (env : Env) {s : RxSys} (h : Calm s.handle) (k : Nat) :
    Calm ((fun s => runCall env s [])^[k] s).handle ∧
      (coreOf ((fun s => runCall env s [])^[k] s).handle,
          ((fun s => runCall env s [])^[k] s).rx.contents) =
        (atomicStep env)^[k] (coreOf s.handle, s.rx.contents) := by
  induction k generalizing s with
  | zero => exact ⟨h, rfl⟩
  | succ k ih =>
      obtain ⟨hcalm, hstep⟩ := runCall_atomic env h
      obtain ⟨hcalm', hrest⟩ := ih hcalm
      rw [Function.iterate_succ_apply, Function.iterate_succ_apply]
      rw [hstep] at hrest
      exact ⟨hcalm', hrest⟩

theorem exists_atomic (env : Env) {s : RxSys} (h : Calm s.handle) (R : RxCore × List UInt8 → Prop) :
    (∃ k, R (coreOf ((fun s => runCall env s [])^[k] s).handle,
        ((fun s => runCall env s [])^[k] s).rx.contents)) ↔
      ∃ k, R ((atomicStep env)^[k] (coreOf s.handle, s.rx.contents)) :=
  exists_congr fun k => by rw [(iterate_atomic env h k).2]

end HostComm.RxAtomic
