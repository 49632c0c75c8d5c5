import HostComm.RxAtomic
import HostComm.RxTimeouts

namespace HostComm.RxResync

open Protocol UartDriver ByteRings TxSend RxFsm RxStream RxParser RxAtomic RxTimeouts Runs

/-- A part of the pattern and a byte that differs from the next one: what a
failing comparison takes from the stream. -/
def Mismatch (bits w : List UInt8) : Prop :=
  ∃ matched bit later b, bits = matched ++ bit :: later ∧ b ≠ bit ∧ w = matched ++ [b]

/-- Bytes that failing comparisons take one after the other, with none left over. -/
def Blocks (bits noise : List UInt8) : Prop :=
  ∃ blocks : List (List UInt8), noise = blocks.flatten ∧ ∀ w ∈ blocks, Mismatch bits w

theorem Mismatch.cons {bits w : List UInt8} (h : Mismatch bits w) (bit : UInt8) :
    Mismatch (bit :: bits) (bit :: w) := by
  obtain ⟨matched, bit', later, b, rfl, hne, rfl⟩ := h
  exact ⟨bit :: matched, bit', later, b, rfl, hne, rfl⟩

theorem scan_mismatch {bits w : List UInt8} (h : Mismatch bits w) (t : List UInt8) :
    scan bits (w ++ t) = w := by
  obtain ⟨matched, bit, later, b, rfl, hne, rfl⟩ := h
  induction matched with
  | nil => simp only [List.nil_append, List.singleton_append, scan, if_pos hne]
  | cons m matched ih =>
      rw [List.cons_append, List.cons_append, List.cons_append, scan, if_neg (not_not.mpr rfl), ih]

theorem scan_cases (bits : List UInt8) {t : List UInt8} (h : bits.length ≤ t.length) :
    scan bits t = bits ∨ Mismatch bits (scan bits t) := by
  induction bits generalizing t with
  | nil => exact .inl (by cases t <;> rfl)
  | cons bit bits ih =>
      cases t with
      | nil => simp at h
      | cons b t =>
          rw [scan]
          by_cases hb : b = bit
          · subst hb
            rw [if_neg (not_not.mpr rfl)]
            rcases ih (Nat.le_of_succ_le_succ h) with heq | hmis
            · exact .inl (congrArg _ heq)
            · exact .inr (hmis.cons b)
          · rw [if_pos hb]
            exact .inr ⟨[], bit, bits, b, rfl, hb, rfl⟩

theorem blocks_nil (bits : List UInt8) : Blocks bits [] := ⟨[], rfl, by simp⟩

theorem blocks_append {bits w : List UInt8} (h : Mismatch bits w) (noise : List UInt8) :
    Blocks bits (w ++ noise) ↔ Blocks bits noise := by
  constructor
  · rintro ⟨blocks, hflat, hall⟩
    cases blocks with
    | nil =>
        obtain ⟨matched, bit, later, b, -, -, rfl⟩ := h
        simp at hflat
    | cons v blocks =>
        rw [List.forall_mem_cons] at hall
        rw [List.flatten_cons] at hflat
        have hv := scan_mismatch hall.1 blocks.flatten
        rw [← hflat, scan_mismatch h] at hv
        subst hv
        exact ⟨blocks, List.append_cancel_left hflat, hall.2⟩
  · rintro ⟨blocks, rfl, hall⟩
    exact ⟨w :: blocks, rfl, List.forall_mem_cons.mpr ⟨h, hall⟩⟩

theorem scan_le_of_blocks {bits noise : List UInt8} (h : Blocks bits noise) (hne : noise ≠ [])
    (t : List UInt8) : (scan bits (noise ++ t)).length ≤ noise.length := by
  obtain ⟨blocks, rfl, hall⟩ := h
  cases blocks with
  | nil => exact absurd rfl hne
  | cons w blocks =>
      rw [List.flatten_cons, List.append_assoc, scan_mismatch (hall w List.mem_cons_self),
        List.length_append]
      exact Nat.le_add_right _ _

def Missed (rest : List UInt8) (x : RxCore × List UInt8) : Prop :=
  x.2.length < rest.length ∨
    x.1.state = .preambleProc ∧ x.1.internal ≠ .preambleOk ∧ x.2.length < rest.length + 4

theorem length_atomicStep (env : Env) (x : RxCore × List UInt8) :
    (atomicStep env x).2.length ≤ x.2.length := by
  rw [atomicStep]
  by_cases hready : x.1.state = .packetReady
  · rw [if_pos hready]
  rw [if_neg hready]
  cases react x.1 with
  | some r => exact Nat.le_refl _
  | none =>
      dsimp only
      by_cases hneed : need x.1 ≤ x.2.length % 256
      · rw [if_pos hneed, List.length_drop]
        exact Nat.sub_le _ _
      · rw [if_neg hneed]

theorem atomicStep_scan (env : Env) {c : RxCore} {t : List UInt8} (hs : c.state = .preambleProc)
    (hi : c.internal ≠ .preambleOk) (hlen : 4 ≤ t.length % 256) :
    atomicStep env (c, t) =
      ({ c with internal := if scan protocolPreamble t = protocolPreamble then .preambleOk else c.internal },
        t.drop (scan protocolPreamble t).length) := by
  have hneed : need c ≤ t.length % 256 := by simpa only [need, hs] using hlen
  rw [atomicStep_during env ((react_preamble hs).mpr hi) hneed]
  simp only [during, hs]

theorem missed_step (env : Env) {rest : List UInt8} {x : RxCore × List UInt8} (h : Missed rest x) :
    Missed rest (atomicStep env x) := by
  have hle := length_atomicStep env x
  rcases h with hlt | ⟨hs, hi, hlt⟩
  · exact .inl (Nat.lt_of_le_of_lt hle hlt)
  by_cases hlen : 4 ≤ x.2.length % 256
  · have hstep := atomicStep_scan env (c := x.1) hs hi hlen
    by_cases hok : scan protocolPreamble x.2 = protocolPreamble
    · refine .inl ?_
      have hfour : protocolPreamble.length = 4 := LittleEndian.bytes32_length _
      have hmod := Nat.mod_le x.2.length 256
      rw [hstep, hok, List.length_drop, hfour]
      omega
    · refine .inr ⟨?_, ?_, Nat.lt_of_le_of_lt hle hlt⟩
      · rw [hstep]
        exact hs
      · rw [hstep, if_neg hok]
        exact hi
  · have hneed : x.2.length % 256 < need x.1 := by
      simpa only [need, hs] using Nat.lt_of_not_le hlen
    have hstep : atomicStep env x = x := atomicStep_wait env ((react_preamble hs).mpr hi) hneed
    rw [hstep]
    exact .inr ⟨hs, hi, hlt⟩

theorem missed_forever (env : Env) {rest : List UInt8} {x : RxCore × List UInt8} (h : Missed rest x) :
    ¬ ∃ k, ((atomicStep env)^[k] x).1.state = .headerProc ∧ ((atomicStep env)^[k] x).2 = rest := by
  rintro ⟨k, hstate, hrest⟩
  have hmissed : Missed rest ((atomicStep env)^[k] x) := by
    clear hstate hrest
    induction k generalizing x with
    | zero => exact h
    | succ k ih => exact ih (missed_step env h)
  rcases hmissed with hlt | ⟨hs, -, -⟩
  · rw [hrest] at hlt
    exact Nat.lt_irrefl _ hlt
  · rw [hs] at hstate
    cases hstate

def First (noise rest : List UInt8) : Prop :=
  ∀ noise' rest', noise ++ protocolPreamble ++ rest = noise' ++ protocolPreamble ++ rest' →
    noise.length ≤ noise'.length

/-- The preamble that ends before `rest` is found and nothing behind it is taken. -/
def Found (rest : List UInt8) (x : RxCore × List UInt8) : Prop :=
  x.1.state = .headerProc ∧ x.2 = rest

theorem preamble_length : protocolPreamble.length = 4 := LittleEndian.bytes32_length _

theorem found_at_once (env : Env) {c : RxCore} (hs : c.state = .preambleProc)
    (hi : c.internal ≠ .preambleOk) (rest : List UInt8)
    (hlen : (protocolPreamble ++ rest).length < 256) :
    ∃ k, Found rest ((atomicStep env)^[k] (c, protocolPreamble ++ rest)) := by
  have hfour : 4 ≤ (protocolPreamble ++ rest).length % 256 := by
    rw [Nat.mod_eq_of_lt hlen, List.length_append, preamble_length]
    exact Nat.le_add_right 4 _
  have hfirst := atomicStep_scan env hs hi hfour
  rw [scan_pattern, if_pos rfl, List.drop_left] at hfirst
  have hreact : react { c with internal := .preambleOk } =
      some (⟨.headerProc, .invalid, c.packet⟩, []) := by simp [react, hs]
  have hsecond : atomicStep env ({ c with internal := .preambleOk }, rest) =
      (⟨.headerProc, .invalid, c.packet⟩, rest) := atomicStep_react env (by simp [hs]) hreact rest
  refine ⟨2, ?_⟩
  rw [Function.iterate_succ_apply, hfirst, Function.iterate_one, hsecond]
  exact ⟨rfl, rfl⟩

theorem found_iff (env : Env) {c : RxCore} (hs : c.state = .preambleProc)
    (hi : c.internal ≠ .preambleOk) (noise rest : List UInt8)
    (hlen : (noise ++ protocolPreamble ++ rest).length < 256)
    (hfirst : First noise rest) :
    (∃ k, Found rest ((atomicStep env)^[k] (c, noise ++ protocolPreamble ++ rest))) ↔
      Blocks protocolPreamble noise := by
  induction hn : noise.length using Nat.strong_induction_on generalizing noise with
  | _ n ih =>
  by_cases hne : noise = []
  · subst hne
    exact iff_of_true (found_at_once env hs hi rest hlen) (blocks_nil _)
  have hfour : protocolPreamble.length ≤ (noise ++ protocolPreamble ++ rest).length := by
    simp only [List.length_append]
    omega
  have hno : scan protocolPreamble (noise ++ protocolPreamble ++ rest) ≠ protocolPreamble := by
    intro heq
    obtain ⟨rest', hrest'⟩ := scan_prefix protocolPreamble (noise ++ protocolPreamble ++ rest)
    rw [heq] at hrest'
    exact hne (List.eq_nil_of_length_eq_zero (Nat.le_zero.mp (hfirst [] rest' hrest'.symm)))
  have hmis := (scan_cases protocolPreamble hfour).resolve_left hno
  have hstep := atomicStep_scan env hs hi (by rwa [Nat.mod_eq_of_lt hlen, ← preamble_length])
  rw [if_neg hno] at hstep
  have hstart : ¬ Found rest (c, noise ++ protocolPreamble ++ rest) := by
    rintro ⟨hstate, -⟩
    rw [hs] at hstate
    cases hstate
  rw [exists_iterate_succ hstart, hstep]
  by_cases hle : (scan protocolPreamble (noise ++ protocolPreamble ++ rest)).length ≤ noise.length
  · -- the whole mismatch lies in the noise
    obtain ⟨later, hlater⟩ : scan protocolPreamble (noise ++ protocolPreamble ++ rest) <+: noise := by
      refine List.prefix_of_prefix_length_le ( scan_prefix _ _) ?_ hle
      rw [List.append_assoc]
      exact List.prefix_append ..
    generalize scan protocolPreamble (noise ++ protocolPreamble ++ rest) = w at *
    subst hlater
    have hpos : 0 < w.length := by
      obtain ⟨matched, bit, after, b, -, -, rfl⟩ := hmis
      simp
    rw [List.append_assoc, List.append_assoc, List.drop_left, ← List.append_assoc, blocks_append hmis]
    refine ih later.length ?_ later ?_ ?_ rfl
    · rw [← hn, List.length_append]
      omega
    · simp only [List.length_append] at hlen ⊢
      omega
    · intro noise' rest' heq
      have hw := hfirst (w ++ noise') rest' (by simp only [List.append_assoc] at heq ⊢; rw [heq])
      simp only [List.length_append] at hw
      omega
  · refine iff_of_false (missed_forever env (.inr ⟨hs, hi, ?_⟩)) ?_
    · simp only [List.length_drop, List.length_append, preamble_length] at hle ⊢
      omega
    · intro hblocks
      rw [List.append_assoc] at hle
      exact hle (scan_le_of_blocks hblocks hne _)

theorem found_atomic (env : Env) {s : RxSys} (hs : s.handle.state = .preambleProc)
    (rest : List UInt8) :
    (∃ k, ((fun s => runCall env s [])^[k] s).handle.state = .headerProc ∧
        ((fun s => runCall env s [])^[k] s).rx.contents = rest) ↔
      ∃ k, Found rest ((atomicStep env)^[k] (coreOf s.handle, s.rx.contents)) := by
  have hcalm : Calm s.handle := ⟨by simp [Raised, hs], fun h => by simp [hs] at h⟩
  exact exists_atomic env hcalm (Found rest)

theorem internal_of_not_pending {h : HostCommRxFsm} (hs : h.state = .preambleProc)
    (hevent : ¬ EventPending h) : h.internal ≠ .preambleOk := by
  simpa only [EventPending, hs, eventsOf, List.mem_singleton] using hevent

/-- The machine finds the first preamble exactly when its comparisons cut the
noise in front of it without a remainder. -/
theorem preamble_found (env : Env) {s : RxSys} (hs : s.handle.state = .preambleProc)
    (hevent : ¬ EventPending s.handle) {noise rest : List UInt8}
    (hring : s.rx.contents = noise ++ protocolPreamble ++ rest)
    (hlen : s.rx.contents.length ≤ 255) (hfirst : First noise rest) :
    (∃ k, ((fun s => runCall env s [])^[k] s).handle.state = .headerProc ∧
        ((fun s => runCall env s [])^[k] s).rx.contents = rest) ↔
      Blocks protocolPreamble noise := by
  rw [found_atomic env hs rest, hring]
  rw [hring] at hlen
  exact found_iff env (c := coreOf s.handle) hs (internal_of_not_pending hs hevent) noise rest
    (Nat.lt_succ_of_le hlen) hfirst

theorem first_of_head {b : UInt8} {rest : List UInt8} (h : ∀ t, b :: (protocolPreamble ++ rest) ≠
    protocolPreamble ++ t) : First [b] rest := by
  intro noise' rest' heq
  cases noise' with
  | nil => exact absurd heq (h rest')
  | cons b' noise' => exact Nat.le_add_left 1 _

/-- A byte that is no part of a preamble does no harm. -/
theorem preamble_found_behind :
    let env : Env := ⟨fun _ => 0, 0⟩
    let s := waiting env (7 :: protocolPreamble) 0 0
    ∃ k, ((fun s => runCall env s [])^[k] s).handle.state = .headerProc ∧
      ((fun s => runCall env s [])^[k] s).rx.contents = [] := by
  intro env s
  have hring : s.rx.contents = [7] ++ protocolPreamble ++ [] := by decide +kernel
  refine (preamble_found env (by decide +kernel) (by decide +kernel) hring (by decide +kernel) ?_).mpr ?_
  · exact first_of_head fun t heq => by cases (List.cons.inj heq).1
  · exact ⟨[[7]], rfl, fun w hw => ⟨[], 0x55, [0xAA, 0x55, 0xAA], 7, by decide, by decide, by simpa using hw⟩⟩

/-- The first byte of a preamble, once too often: the preamble is missed. -/
theorem preamble_missed :
    let env : Env := ⟨fun _ => 0, 0⟩
    let s := waiting env (0x55 :: protocolPreamble) 0 0
    s.handle.state = .preambleProc ∧ ¬ EventPending s.handle ∧
      s.rx.contents = [0x55] ++ protocolPreamble ++ [] ∧ s.rx.contents.length ≤ 255 ∧ First [0x55] [] ∧
      ¬ ∃ k, ((fun s => runCall env s [])^[k] s).handle.state = .headerProc ∧
        ((fun s => runCall env s [])^[k] s).rx.contents = [] := by
  intro env s
  have hs : s.handle.state = .preambleProc := by decide +kernel
  have hevent : ¬ EventPending s.handle := by decide +kernel
  have hring : s.rx.contents = [0x55] ++ protocolPreamble ++ [] := by decide +kernel
  have hlen : s.rx.contents.length ≤ 255 := by decide +kernel
  have hfirst : First [0x55] [] :=
    first_of_head fun t heq => by cases (List.cons.inj (List.cons.inj heq).2).1
  refine ⟨hs, hevent, hring, hlen, hfirst, ?_⟩
  rw [found_atomic env hs [], hring, found_iff env hs (internal_of_not_pending hs hevent) [0x55] []
    (by decide) hfirst]
  intro hblocks
  exact absurd (scan_le_of_blocks hblocks (by decide) protocolPreamble) (by decide)

end HostComm.RxResync
