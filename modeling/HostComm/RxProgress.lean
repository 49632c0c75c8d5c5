import HostComm.RxAtomic
import HostComm.RxTimeouts

namespace HostComm.RxProgress

open Protocol TimeEvents UartDriver ByteRings TxSend TxFsm RxFsm RxStream RxParser RxMoves RxAtomic
open RxTimeouts Runs

def waitsFor (h : HostCommRxFsm) : Nat :=
  match h.state with
  | .preambleProc => preambleSizeBytes
  | .headerProc => headerSizeBytes
  | .payloadProc => h.packet.header.payloadLen.toNat
  | .crcAndPostambleProc => crcSizeBytes + postambleSizeBytes
  | _ => 0

/-- The call took a byte of the preamble, or what its state waits for. -/
def Progress (s s' : RxSys) : Prop :=
  if s.handle.state = .preambleProc then s'.rx.contents.length < s.rx.contents.length
  else s'.rx.contents = s.rx.contents.drop (waitsFor s.handle) ∧ EventPending s'.handle

theorem react_none {h : HostCommRxFsm} (hs : h.state = .preambleProc ∨ Waits h.state)
    (hevent : ¬ EventPending h) : react (coreOf h) = none := by
  rcases hs with hs | hs | hs | hs
  all_goals simp only [EventPending, hs, eventsOf, List.mem_cons, List.not_mem_nil, or_false,
    not_or] at hevent
  · exact (react_preamble (c := coreOf h) hs).mpr hevent
  · exact (react_header (c := coreOf h) hs).mpr hevent
  · exact (react_payload (c := coreOf h) hs).mpr hevent
  · exact (react_crc (c := coreOf h) hs).mpr hevent

theorem need_of_lt {h : HostCommRxFsm} (hlt : waitsFor h < 256) : need (coreOf h) = waitsFor h := by
  simp only [waitsFor] at hlt
  simp only [need, coreOf, waitsFor]
  cases hs : h.state
  case payloadProc =>
    simp only [hs] at hlt
    exact Nat.mod_eq_of_lt hlt
  all_goals rfl

theorem need_le (h : HostCommRxFsm) : need (coreOf h) ≤ waitsFor h := by
  simp only [need, coreOf, waitsFor]
  cases hs : h.state
  case payloadProc => exact Nat.mod_le _ _
  all_goals exact Nat.le_refl _

theorem eventPending_iff {h : HostCommRxFsm} {state : RxState} {internal : RxInternal}
    {packet : PacketData} (hcore : coreOf h = ⟨state, internal, packet⟩) :
    EventPending h ↔ internal ∈ eventsOf state := by
  obtain ⟨hstate, hint, -⟩ := RxCore.mk.inj hcore
  rw [EventPending, hstate, hint]

theorem during_waits (env : Env) {h : HostCommRxFsm} (hs : Waits h.state) {t : List UInt8}
    (hlen : waitsFor h ≤ t.length) :
    (during env (coreOf h) t).2.length = need (coreOf h) ∧
      ∀ h', coreOf h' = (during env (coreOf h) t).1 → EventPending h' := by
  have hneed := (need_le h).trans hlen
  have htake {k : Nat} (hk : k ≤ t.length) : (t.take k).length = k := by
    rw [List.length_take, Nat.min_eq_left hk]
  rcases hs with hs | hs | hs
  all_goals
    simp only [need, coreOf, hs] at hneed
    simp only [during, need, coreOf, hs]
    refine ⟨htake hneed, fun h' hcore => (eventPending_iff hcore).mpr ?_⟩
  · split_ifs <;> decide
  · decide
  · split_ifs <;> decide

theorem eventPending_core {h h' : HostCommRxFsm} (hcore : coreOf h' = coreOf h) :
    EventPending h' ↔ EventPending h := eventPending_iff hcore

theorem scan_length_pos {bit : UInt8} (bits : List UInt8) {t : List UInt8} (ht : 0 < t.length) :
    0 < (scan (bit :: bits) t).length := by
  obtain ⟨b, rest, rfl⟩ := List.exists_cons_of_length_pos ht
  rw [scan]
  split_ifs
  · exact Nat.one_pos
  · exact Nat.succ_pos _

theorem progress_during (env : Env) {s s' : RxSys} (hs : s.handle.state = .preambleProc ∨ Waits s.handle.state)
    (hlen : waitsFor s.handle ≤ s.rx.contents.length)
    (hneed : need (coreOf s.handle) ≤ s.rx.contents.length % 256)
    (hcore : coreOf s'.handle = (during env (coreOf s.handle) s.rx.contents).1)
    (hrest : s'.rx.contents =
      s.rx.contents.drop (during env (coreOf s.handle) s.rx.contents).2.length) :
    Progress s s' ↔ waitsFor s.handle ≤ s.rx.contents.length % 256 := by
  rcases hs with hs | hw
  · have hfour : waitsFor s.handle = need (coreOf s.handle) := by simp only [waitsFor, need, coreOf, hs]
    have hpos : 0 < s.rx.contents.length := by
      refine Nat.lt_of_lt_of_le ?_ hlen
      rw [waitsFor, hs]
      exact Nat.succ_pos 3
    have htaken : 0 < (during env (coreOf s.handle) s.rx.contents).2.length := by
      simp only [during, coreOf, hs]
      exact scan_length_pos _ hpos
    rw [Progress, if_pos hs, hrest, List.length_drop]
    exact iff_of_true (Nat.sub_lt hpos htaken) (hfour ▸ hneed)
  · have hne : s.handle.state ≠ .preambleProc := by
      rcases hw with h | h | h
      all_goals simp [h]
    obtain ⟨htaken, hpending⟩ := during_waits env hw hlen
    rw [Progress, if_neg hne, hrest, htaken]
    by_cases hlt : waitsFor s.handle < 256
    · rw [need_of_lt hlt] at hneed ⊢
      exact iff_of_true ⟨rfl, hpending _ hcore⟩ hneed
    · refine iff_of_false ?_ ?_
      · rintro ⟨hdrop, -⟩
        have hsame := congrArg List.length hdrop
        rw [List.length_drop, List.length_drop] at hsame
        have hmod := Nat.mod_lt s.rx.contents.length (y := 256) (by decide)
        omega
      · have hmod := Nat.mod_lt s.rx.contents.length (y := 256) (by decide)
        omega

theorem no_progress {s s' : RxSys} (hevent : ¬ EventPending s.handle)
    (hcore : coreOf s'.handle = coreOf s.handle) (hrest : s'.rx.contents = s.rx.contents) :
    ¬ Progress s s' := by
  rw [Progress]
  split_ifs
  · rw [hrest]
    exact Nat.lt_irrefl _
  · rintro ⟨-, hpending⟩
    exact hevent ((eventPending_core hcore).mp hpending)

/-- The machine makes progress exactly when the length it sees, taken modulo
256, covers what it waits for. -/
theorem rx_progress (env : Env) {s : RxSys} (hs : s.handle.state = .preambleProc ∨ Waits s.handle.state)
    (hevent : ¬ EventPending s.handle) (hquiet : ¬ Raised s.handle)
    (hlen : waitsFor s.handle ≤ s.rx.contents.length) :
    Progress s (runCall env s []) ↔ waitsFor s.handle ≤ s.rx.contents.length % 256 := by
  have hreact := react_none hs hevent
  have hcalm : Calm s.handle := ⟨hquiet, fun h => absurd h (ne_ready_of_react hreact)⟩
  obtain ⟨-, hstep⟩ := runCall_atomic env hcalm
  by_cases hneed : need (coreOf s.handle) ≤ s.rx.contents.length % 256
  · rw [atomicStep_during env hreact hneed, Prod.mk.injEq] at hstep
    exact progress_during env hs hlen hneed hstep.1 hstep.2
  · rw [atomicStep_wait env hreact (Nat.lt_of_not_le hneed), Prod.mk.injEq] at hstep
    refine iff_of_false (no_progress hevent hstep.1 hstep.2) ?_
    exact fun h => hneed ((need_le s.handle).trans h)

theorem rx_progress_preamble :
    let env : Env := ⟨fun _ => 0, 0⟩
    let s := waiting env protocolPreamble 0 0
    Progress s (runCall env s []) := by
  intro env s
  exact (rx_progress env (.inl (by decide +kernel)) (by decide +kernel) (by decide +kernel)
    (by decide +kernel)).mpr (by decide +kernel)

/-- With 256 bytes stored the length check sees none. -/
theorem full_length_unseen :
    let env : Env := ⟨fun _ => 0, 0⟩
    let s := waiting env (protocolPreamble ++ List.replicate 252 0) 0 0
    s.handle.state = .preambleProc ∧ ¬ EventPending s.handle ∧ ¬ Raised s.handle ∧
      waitsFor s.handle ≤ s.rx.contents.length ∧ ¬ Progress s (runCall env s []) := by
  intro env s
  have hring : s.rx.contents.length = 256 := by decide +kernel
  have hafter : (runCall env s []).rx.contents.length = 256 := by decide +kernel
  have hstate : s.handle.state = .preambleProc := by decide +kernel
  refine ⟨hstate, by decide +kernel, by decide +kernel, by decide +kernel, ?_⟩
  rw [Progress, if_pos hstate, hring, hafter]
  exact Nat.lt_irrefl 256

end HostComm.RxProgress
