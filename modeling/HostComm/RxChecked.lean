import HostComm.RxHeader
import HostComm.RxSound

namespace HostComm.RxChecked

open Protocol TimeEvents UartDriver ByteRings TxSend RxFsm RxStream RxParser RxSound RxHeader Runs

/-- A run call goes to a during action and its length check passes. -/
def Reads (s : RxSys) : Prop :=
  react (coreOf s.handle) = none ∧ ¬ Raised s.handle ∧ need (coreOf s.handle) ≤ (getRxDataLen s).1

instance (s : RxSys) : Decidable (Reads s) :=
  have : Decidable (react (coreOf s.handle) = none) := Option.decidableEqNone _
  inferInstanceAs (Decidable (_ ∧ _ ∧ _))

def checked (s : RxSys) : List UInt8 := (interrupts s).rx.contents

def readLens (c : RxCore) (t : List UInt8) : List Nat :=
  match c.state with
  | .preambleProc => List.replicate (scan protocolPreamble t).length 1
  | .headerProc => [headerSizeBytes]
  | .payloadProc => [c.packet.header.payloadLen.toNat]
  | .crcAndPostambleProc => [crcSizeBytes, postambleSizeBytes]
  | _ => []

/-- With `stored` bytes in the ring, the bytes that arrive before each of the
reads still fit; `sizes` are their numbers. -/
def RoomFor (stored : Nat) : List Nat → List Nat → Prop
  | [], _ => True
  | len :: lens, sizes =>
      stored + sizes.headD 0 ≤ rxDataBuffSize ∧
        RoomFor (stored + sizes.headD 0 - len) lens sizes.tail

instance instDecidableRoomFor : ∀ stored lens sizes, Decidable (RoomFor stored lens sizes)
  | _, [], _ => isTrue trivial
  | stored, len :: lens, sizes =>
      have := instDecidableRoomFor (stored + sizes.headD 0 - len) lens sizes.tail
      inferInstanceAs (Decidable (_ ∧ _))

/-- A call that reads keeps the ring from overflowing until its last read. -/
def RoomAtReads (s : RxSys) : RxEvent → Prop
  | .run irqs => Reads { s with irqs } →
      RoomFor (checked { s with irqs }).length
        (readLens (coreOf s.handle) (checked { s with irqs })) (irqs.tail.map List.length)
  | _ => True

instance (s : RxSys) : ∀ e, Decidable (RoomAtReads s e)
  | .run _ => inferInstanceAs (Decidable (_ → _))
  | .rxByte _ => isTrue trivial
  | .tick => isTrue trivial
  | .external _ => isTrue trivial

structure Whole (r : RxRead) : Prop where
  ok : r.ok = true
  length : r.bytes.length = r.len
  fits : r.len < 256

/-- Every read of a call returns 1, together they deliver the oldest bytes of
the check, and the machine makes of those what its state asks for. -/
structure CheckHolds (env : Env) (s s' : RxSys) : Prop where
  reads : ∃ rs, s'.reads = s.reads ++ rs ∧ (∀ r ∈ rs, Whole r) ∧
    rs.flatMap RxRead.bytes <+: checked s
  acted : Reads s → coreOf s'.handle = (during env (coreOf s.handle) (checked s)).1

theorem reads_setInternal (s : RxSys) (e : RxInternal) : (s.setInternal e).reads = s.reads := rfl

theorem contents_interrupts {s : RxSys}
    (h : s.rx.contents.length + (s.irqs.headD []).length ≤ rxDataBuffSize) :
    (interrupts s).rx.contents = s.rx.contents ++ s.irqs.headD [] := by
  rw [interrupts_eq]
  exact contents_rxBytes _ _ (room_rxBytes _ { s with irqs := s.irqs.tail } h)

def sizes (s : RxSys) : List Nat := s.irqs.map List.length

theorem sizes_headD (s : RxSys) : (sizes s).headD 0 = (s.irqs.headD []).length := by
  rw [sizes]
  cases s.irqs with
  | nil => rfl
  | cons batch rest => rfl

@[simp] theorem sizes_readRxData (s : RxSys) (len : Nat) :
    sizes (readRxData s len).2 = (sizes s).tail := by
  rw [sizes, sizes, ← List.map_tail]
  exact congrArg _ (irqs_interrupts s)

theorem read_fits {s : RxSys} {t : List UInt8} {len : Nat} (holdest : t <+: s.rx.contents)
    (hlen : len ≤ t.length) (hlt : len < 256)
    (hroom : s.rx.contents.length + (sizes s).headD 0 ≤ rxDataBuffSize) :
    (readRxData s len).1 = t.take len ∧
      (readRxData s len).2.reads = s.reads ++ [⟨len, true, t.take len⟩] ∧
      t.drop len <+: (readRxData s len).2.rx.contents ∧
      (readRxData s len).2.rx.contents.length = s.rx.contents.length + (sizes s).headD 0 - len := by
  obtain ⟨u, hu⟩ := holdest
  rw [sizes_headD] at hroom ⊢
  have hcont := contents_interrupts hroom
  obtain ⟨hok, hbytes, hleft⟩ := (interrupts s).rx.read_eq len
  rw [hcont, ← hu, List.append_assoc] at hok hbytes hleft
  rw [List.take_append_of_le_length hlen] at hbytes
  rw [List.drop_append_of_le_length hlen] at hleft
  rw [decide_eq_true (by rw [List.length_append]; omega)] at hok
  have hmod : len % 256 = len := Nat.mod_eq_of_lt hlt
  simp only [readRxData, uartReadRxData, hmod]
  refine ⟨hbytes, by rw [hok, hbytes, reads_interrupts], ?_, ?_⟩
  · rw [hleft]
    exact List.prefix_append ..
  · rw [hleft, ← hu, List.length_append, List.length_append, List.length_append, List.length_drop]
    omega

/-- The bytes `t` are the oldest of the ring, they are enough for the reads to
come, and the ring does not overflow before the last of these. -/
structure Backed (s : RxSys) (t : List UInt8) (lens : List Nat) : Prop where
  oldest : t <+: s.rx.contents
  enough : lens.sum ≤ t.length
  room : RoomFor s.rx.contents.length lens (sizes s)

theorem Backed.read {s : RxSys} {t : List UInt8} {len : Nat} {lens : List Nat}
    (h : Backed s t (len :: lens)) (hlt : len < 256) :
    (readRxData s len).1 = t.take len ∧
      (readRxData s len).2.reads = s.reads ++ [⟨len, true, t.take len⟩] ∧
      Backed (readRxData s len).2 (t.drop len) lens := by
  obtain ⟨holdest, henough, hroom, hrest⟩ := h
  rw [List.sum_cons] at henough
  obtain ⟨hbytes, hreads, hleft, hlen⟩ := read_fits holdest (by omega) hlt hroom
  refine ⟨hbytes, hreads, hleft, ?_, ?_⟩
  · rw [List.length_drop]
    omega
  · rw [hlen, sizes_readRxData]
    exact hrest

theorem whole_take {t : List UInt8} {len : Nat} (h : len ≤ t.length) (hlt : len < 256) :
    Whole ⟨len, true, t.take len⟩ := ⟨rfl, by rw [List.length_take, Nat.min_eq_left h], hlt⟩

def oneByte (b : UInt8) : RxRead := ⟨1, true, [b]⟩

theorem flatMap_oneByte (w : List UInt8) : (w.map oneByte).flatMap RxRead.bytes = w := by
  induction w with
  | nil => rfl
  | cons b w ih => rw [List.map_cons, List.flatMap_cons, ih]; rfl

theorem backed_readPreamble (bits : List UInt8) (local_ : UInt8) {s : RxSys} {t : List UInt8}
    (h : Backed s t (List.replicate (scan bits t).length 1)) (hlen : bits.length ≤ t.length) :
    (readPreamble local_ s bits).2.reads = s.reads ++ (scan bits t).map oneByte ∧
      ((readPreamble local_ s bits).1 = true ↔ scan bits t = bits) := by
  induction bits generalizing local_ s t with
  | nil =>
      have hnil : scan [] t = [] := by cases t <;> rfl
      rw [hnil]
      exact ⟨(List.append_nil _).symm, iff_of_true rfl rfl⟩
  | cons bit bits ih =>
      obtain ⟨b, t, rfl⟩ := List.exists_cons_of_length_pos (Nat.lt_of_lt_of_le (Nat.succ_pos _) hlen)
      rw [List.length_cons, List.length_cons, Nat.succ_le_succ_iff] at hlen
      by_cases hb : b = bit
      · have hscan : scan (bit :: bits) (b :: t) = b :: scan bits t := by simp [scan, hb]
        rw [hscan, List.length_cons, List.replicate_succ] at h
        obtain ⟨hbytes, hreads, hnext⟩ := h.read (by decide)
        have hread : (readRxData s 1).1 = [b] := hbytes
        have hleft : Backed (readRxData s 1).2 t (List.replicate (scan bits t).length 1) := hnext
        obtain ⟨hrest, hiff⟩ := ih b hleft hlen
        rw [readPreamble, hread, List.headD_cons, if_neg (not_not.mpr hb), hrest, hreads, hiff, hscan]
        exact ⟨List.append_assoc .., by rw [hb, List.cons.injEq, and_iff_right rfl]⟩
      · have hscan : scan (bit :: bits) (b :: t) = [b] := by simp [scan, hb]
        rw [hscan] at h
        obtain ⟨hbytes, hreads, -⟩ := h.read (by decide)
        have hread : (readRxData s 1).1 = [b] := hbytes
        rw [readPreamble, hread, List.headD_cons, if_pos hb, hreads, hscan]
        exact ⟨rfl, iff_of_false (by simp) fun he => hb (List.cons.inj he).1⟩

def duringAction (env : Env) (s : RxSys) : RxSys :=
  match s.handle.state with
  | .preambleProc => duringActionPreambleProc env s
  | .headerProc => duringActionHeaderProc s
  | .payloadProc => duringActionPayloadProc s
  | .crcAndPostambleProc => duringActionCrcAndPostambleProc env s
  | _ => s

theorem run_during (env : Env) {s : RxSys} (hreact : react (coreOf s.handle) = none)
    (hquiet : ¬ Raised s.handle) : hostCommRxFsmRun env s = duringAction env s := by
  rw [hostCommRxFsmRun, duringAction]
  cases hs : s.handle.state with
  | preambleProc =>
      have hok := (react_preamble (c := coreOf s.handle) hs).mp hreact
      exact if_neg hok
  | headerProc =>
      obtain ⟨hok, herror⟩ := (react_header (c := coreOf s.handle) hs).mp hreact
      rw [Raised, hs] at hquiet
      exact (if_neg hok).trans (if_neg (not_or.mpr ⟨hquiet, herror⟩))
  | payloadProc =>
      have hok := (react_payload (c := coreOf s.handle) hs).mp hreact
      rw [Raised, hs] at hquiet
      exact (if_neg hok).trans (if_neg hquiet)
  | crcAndPostambleProc =>
      obtain ⟨hok, hcrc, hpost⟩ := (react_crc (c := coreOf s.handle) hs).mp hreact
      rw [Raised, hs] at hquiet
      exact (if_neg hok).trans (if_neg (not_or.mpr ⟨hquiet, not_or.mpr ⟨hcrc, hpost⟩⟩))
  | packetReady => exact absurd hs (ne_ready_of_react hreact)
  | _ => rfl

theorem reads_transition (env : Env) {s : RxSys}
    (h : ¬ (react (coreOf s.handle) = none ∧ ¬ Raised s.handle)) :
    (hostCommRxFsmRun env s).reads = s.reads := by
  rw [hostCommRxFsmRun]
  cases hs : s.handle.state with
  | preambleProc =>
      simp only [preambleProcOnReact]
      split_ifs with hok
      · rfl
      · exact absurd ⟨(react_preamble (c := coreOf s.handle) hs).mpr hok, by simp [Raised, hs]⟩ h
  | headerProc =>
      simp only [headerProcOnReact]
      split_ifs with hok hlen hout hraised
      · rfl
      · rfl
      · exact reads_interrupts s
      · rfl
      · obtain ⟨hquiet, herror⟩ := not_or.mp hout
        refine absurd ⟨(react_header (c := coreOf s.handle) hs).mpr ⟨hok, herror⟩, ?_⟩ h
        rwa [Raised, hs]
  | payloadProc =>
      simp only [payloadProcOnReact]
      split_ifs with hok hraised
      · rfl
      · exact reads_interrupts (exitActionPayloadProc s)
      · refine absurd ⟨(react_payload (c := coreOf s.handle) hs).mpr hok, ?_⟩ h
        rwa [Raised, hs]
  | crcAndPostambleProc =>
      simp only [crcAndPostambleProcOnReact, exitActionCrcAndPostambleProc, isRaised_stop,
        Bool.false_eq_true, if_false]
      split_ifs with hok hout
      · rfl
      · rfl
      · obtain ⟨hquiet, herror⟩ := not_or.mp hout
        refine absurd ⟨(react_crc (c := coreOf s.handle) hs).mpr ⟨hok, not_or.mp herror⟩, ?_⟩ h
        rwa [Raised, hs]
  | packetReady =>
      simp only [packetReadyOnReact]
      split_ifs
      · rfl
      · rfl
  | _ => rfl

theorem reads_short (env : Env) {s : RxSys} (h : (getRxDataLen s).1 < need (coreOf s.handle)) :
    (duringAction env s).reads = s.reads := by
  have hshort : duringAction env s = (getRxDataLen s).2 := by
    rw [duringAction]
    cases hs : s.handle.state with
    | preambleProc =>
        simp only [need, coreOf, hs] at h
        exact if_neg (Nat.not_le_of_lt h)
    | headerProc =>
        simp only [need, coreOf, hs] at h
        exact if_neg (Nat.not_le_of_lt h)
    | payloadProc =>
        simp only [need, coreOf, hs] at h
        exact if_neg (Nat.not_le_of_lt h)
    | crcAndPostambleProc =>
        simp only [need, coreOf, hs] at h
        exact if_neg (Nat.not_le_of_lt h)
    | _ => simp [need, coreOf, hs] at h
  rw [hshort, reads_getRxDataLen]

structure Served (env : Env) (s : RxSys) (t : List UInt8) (s' : RxSys) : Prop where
  reads : ∃ rs, s'.reads = s.reads ++ rs ∧ (∀ r ∈ rs, Whole r) ∧ rs.flatMap RxRead.bytes <+: t
  acted : coreOf s'.handle = (during env (coreOf s.handle) t).1

section served

variable (env : Env) {s : RxSys} {t : List UInt8}

theorem served_preamble (hs : s.handle.state = .preambleProc)
    (hguard : preambleSizeBytes ≤ (getRxDataLen s).1) (hlen : preambleSizeBytes ≤ t.length)
    (h : Backed (getRxDataLen s).2 t (List.replicate (scan protocolPreamble t).length 1)) :
    Served env s t (duringActionPreambleProc env s) := by
  obtain ⟨hreads, hiff⟩ := backed_readPreamble protocolPreamble env.junk h hlen
  have hhandle := handle_readPreamble protocolPreamble env.junk (getRxDataLen s).2
  rw [reads_getRxDataLen] at hreads
  rw [handle_getRxDataLen] at hhandle
  simp only [duringActionPreambleProc, if_pos hguard]
  generalize readPreamble env.junk (getRxDataLen s).2 protocolPreamble = r at *
  refine ⟨⟨(scan protocolPreamble t).map oneByte, ?_, ?_, ?_⟩, ?_⟩
  · split_ifs
    · exact hreads
    · exact hreads
  · intro read hread
    obtain ⟨b, -, rfl⟩ := List.mem_map.mp hread
    exact ⟨rfl, rfl, (by decide : 1 < 256)⟩
  · rw [flatMap_oneByte]
    exact scan_prefix protocolPreamble t
  · simp only [during, coreOf, hs, ← hiff]
    split_ifs
    · simp [RxSys.setInternal, hhandle, hs]
    · simp [hhandle, hs]

theorem served_header (hs : s.handle.state = .headerProc)
    (hguard : headerSizeBytes ≤ (getRxDataLen s).1) (hlen : headerSizeBytes ≤ t.length)
    (h : Backed (getRxDataLen s).2 t [headerSizeBytes]) :
    Served env s t (duringActionHeaderProc s) := by
  obtain ⟨hbytes, hreads, -⟩ := h.read (by decide)
  have hhandle := handle_readRxData (getRxDataLen s).2 headerSizeBytes
  rw [reads_getRxDataLen] at hreads
  rw [handle_getRxDataLen] at hhandle
  simp only [duringActionHeaderProc, if_pos hguard, setInternal_ite]
  generalize readRxData (getRxDataLen s).2 headerSizeBytes = r at *
  have hsize : r.1.length = 4 := by
    rw [hbytes, List.length_take]
    exact Nat.min_eq_left hlen
  refine ⟨⟨_, hreads, ?_, ?_⟩, ?_⟩
  · exact List.forall_mem_singleton.mpr (whole_take hlen (by decide))
  · rw [List.flatMap_singleton]
    exact List.take_prefix ..
  · simp only [during, coreOf, hs, ← hbytes, loadHeader, RxSys.setInternal, hhandle,
      PacketHeader.load_eq _ hsize]

theorem served_payload (hs : s.handle.state = .payloadProc)
    (hlt : s.handle.packet.header.payloadLen.toNat < 256)
    (hguard : s.handle.packet.header.payloadLen.toNat ≤ (getRxDataLen s).1)
    (hlen : s.handle.packet.header.payloadLen.toNat ≤ t.length)
    (h : Backed (getRxDataLen s).2 t [s.handle.packet.header.payloadLen.toNat]) :
    Served env s t (duringActionPayloadProc s) := by
  have hmod := Nat.mod_eq_of_lt hlt
  simp only [duringActionPayloadProc, hmod, if_pos hguard]
  obtain ⟨g, hg⟩ : ∃ g, g = (getRxDataLen s).2.setInternal .payloadOk := ⟨_, rfl⟩
  have hhandle : g.handle = { s.handle with internal := .payloadOk } := by
    rw [hg, RxSys.setInternal, handle_getRxDataLen]
  have hback : Backed g t [g.handle.packet.header.payloadLen.toNat] := by
    rw [hhandle, hg]
    exact ⟨h.oldest, h.enough, h.room⟩
  have hsame : g.reads = s.reads := by
    rw [hg]
    exact reads_getRxDataLen s
  obtain ⟨hbytes, hreads, -⟩ := hback.read (by rwa [hhandle])
  have hkeep := handle_readRxData g g.handle.packet.header.payloadLen.toNat
  rw [← hg]
  generalize readRxData g g.handle.packet.header.payloadLen.toNat = r at *
  rw [hhandle] at hbytes hreads hkeep
  rw [hsame] at hreads
  refine ⟨⟨_, hreads, ?_, ?_⟩, ?_⟩
  · exact List.forall_mem_singleton.mpr (whole_take hlen hlt)
  · rw [List.flatMap_singleton]
    exact List.take_prefix ..
  · simp only [during, coreOf, hs, hmod, ← hbytes, loadPayload, hkeep]

theorem served_crc (hs : s.handle.state = .crcAndPostambleProc)
    (hguard : crcSizeBytes + postambleSizeBytes ≤ (getRxDataLen s).1)
    (hlen : crcSizeBytes + postambleSizeBytes ≤ t.length)
    (h : Backed (getRxDataLen s).2 t [crcSizeBytes, postambleSizeBytes]) :
    Served env s t (duringActionCrcAndPostambleProc env s) := by
  have hfirst : 4 ≤ t.length := Nat.le_trans (by decide) hlen
  have hsecond : 4 ≤ (t.drop 4).length := by
    rw [List.length_drop]
    exact Nat.le_sub_of_add_le hlen
  obtain ⟨hbytes, hreads, hnext⟩ := h.read (by decide)
  obtain ⟨-, hreads', -⟩ := hnext.read (by decide)
  have hhandle : (readRxData (readRxData (getRxDataLen s).2 crcSizeBytes).2
      postambleSizeBytes).2.handle = s.handle := by simp
  simp only [duringActionCrcAndPostambleProc, if_pos hguard]
  generalize readRxData (getRxDataLen s).2 crcSizeBytes = c at *
  generalize readRxData c.2 postambleSizeBytes = p at *
  rw [crc_event]
  rw [hreads, reads_getRxDataLen, List.append_assoc, List.singleton_append] at hreads'
  have hsize : c.1.length = 4 := by
    rw [hbytes, List.length_take]
    exact Nat.min_eq_left hfirst
  have hword : readWord env.junk c.1 = LittleEndian.word32 (t.take 4) := by
    rw [readWord_of_length hsize, hbytes]
  refine ⟨⟨_, (reads_setInternal ..).trans hreads', ?_, ?_⟩, ?_⟩
  · exact List.forall_mem_cons.mpr ⟨whole_take hfirst (by decide),
      List.forall_mem_singleton.mpr (whole_take hsecond (by decide))⟩
  · have hboth : t.take 4 ++ (t.drop 4).take 4 = t.take (4 + 4) := List.take_add.symm
    rw [List.flatMap_cons, List.flatMap_singleton, hboth]
    exact List.take_prefix ..
  · simp only [during, coreOf, hs, RxSys.setInternal, hhandle, hword]

end served

theorem readLens_sum_le {c : RxCore} {t : List UInt8} (hlen : need c ≤ t.length)
    (hlt : c.state = .payloadProc → c.packet.header.payloadLen.toNat < 256) :
    (readLens c t).sum ≤ t.length := by
  cases hs : c.state with
  | preambleProc =>
      rw [readLens, hs, List.sum_replicate_nat, Nat.mul_one]
      have hscan := scan_prefix protocolPreamble t
      exact hscan.length_le
  | headerProc => simpa only [readLens, need, hs, List.sum_singleton] using hlen
  | payloadProc =>
      simp only [need, hs, Nat.mod_eq_of_lt (hlt hs)] at hlen
      simpa only [readLens, hs, List.sum_singleton] using hlen
  | crcAndPostambleProc =>
      simp only [need, hs] at hlen
      rw [readLens, hs]
      exact hlen
  | _ => simp [readLens, hs]

theorem served_during (env : Env) {s : RxSys} {t : List UInt8}
    (hlt : s.handle.state = .payloadProc → s.handle.packet.header.payloadLen.toNat < 256)
    (hguard : need (coreOf s.handle) ≤ (getRxDataLen s).1)
    (hlen : need (coreOf s.handle) ≤ t.length)
    (h : Backed (getRxDataLen s).2 t (readLens (coreOf s.handle) t)) :
    Served env s t (duringAction env s) := by
  rw [duringAction]
  cases hs : s.handle.state with
  | preambleProc =>
      simp only [need, readLens, coreOf, hs] at hguard hlen h
      exact served_preamble env hs hguard hlen h
  | headerProc =>
      simp only [need, readLens, coreOf, hs] at hguard hlen h
      exact served_header env hs hguard hlen h
  | payloadProc =>
      simp only [need, readLens, coreOf, hs, Nat.mod_eq_of_lt (hlt hs)] at hguard hlen h
      exact served_payload env hs (hlt hs) hguard hlen h
  | crcAndPostambleProc =>
      simp only [need, readLens, coreOf, hs] at hguard hlen h
      exact served_crc env hs hguard hlen h
  | _ =>
      refine ⟨⟨[], (List.append_nil _).symm, by simp, List.nil_prefix⟩, ?_⟩
      simp only [during, coreOf, hs]

theorem checkHolds_run (env : Env) {s : RxSys} (hc : Carried s.handle)
    (hroom : Reads s → RoomFor (checked s).length (readLens (coreOf s.handle) (checked s))
      (s.irqs.tail.map List.length)) : CheckHolds env s (hostCommRxFsmRun env s) := by
  have hlt (hs : s.handle.state = .payloadProc) :
      s.handle.packet.header.payloadLen.toNat < 256 := payloadLen_lt hc (.inl hs)
  by_cases hr : Reads s
  · have hlen := le_of_getRxDataLen hr.2.2
    have hback : Backed (getRxDataLen s).2 (checked s) (readLens (coreOf s.handle) (checked s)) :=
      ⟨List.prefix_rfl, readLens_sum_le hlen hlt, by
        rw [sizes, getRxDataLen, irqs_interrupts]
        exact hroom hr⟩
    obtain ⟨hreads, hacted⟩ := served_during env hlt hr.2.2 hlen hback
    rw [run_during env hr.1 hr.2.1]
    exact ⟨hreads, fun _ => hacted⟩
  · have hnone : (hostCommRxFsmRun env s).reads = s.reads := by
      by_cases hidle : react (coreOf s.handle) = none ∧ ¬ Raised s.handle
      · rw [run_during env hidle.1 hidle.2]
        exact reads_short env (Nat.lt_of_not_le fun hneed => hr ⟨hidle.1, hidle.2, hneed⟩)
      · exact reads_transition env hidle
    exact ⟨⟨[], by rw [hnone, List.append_nil], by simp, List.nil_prefix⟩, fun h => absurd h hr⟩

theorem reads_runCall (env : Env) (s : RxSys) (irqs : List (List UInt8)) :
    (runCall env s irqs).reads = (hostCommRxFsmRun env { s with irqs }).reads :=
  reads_rxBytes ..

theorem checkHolds_runCall {env : Env} {s : RxSys} {irqs : List (List UInt8)}
    (h : CheckHolds env { s with irqs } (hostCommRxFsmRun env { s with irqs })) :
    CheckHolds env { s with irqs } (runCall env s irqs) := by
  obtain ⟨hreads, hacted⟩ := h
  refine ⟨(reads_runCall env s irqs).symm ▸ hreads, ?_⟩
  rw [runCall, handle_rxBytes]
  exact hacted

def ReadsDelivered (env : Env) (s : RxSys) : RxEvent → Prop
  | .run irqs => CheckHolds env { s with irqs } (runCall env s irqs)
  | _ => True

theorem delivered_step (env : Env) (s : RxSys) (e : RxEvent) (hc : Carried s.handle)
    (hroom : RoomAtReads s e) : ReadsDelivered env s e := by
  cases e with
  | run irqs => exact checkHolds_runCall (checkHolds_run env (s := { s with irqs }) hc hroom)
  | _ => trivial

theorem reads_whole (env : Env) {s : RxSys} {events : List RxEvent}
    (h : Along (ReadsDelivered env) (rxStep env) s events) :
    ∃ rs, (run (rxStep env) s events).reads = s.reads ++ rs ∧ ∀ r ∈ rs, Whole r := by
  refine run_invariant (P := ReadsDelivered env)
    (I := fun s' => ∃ rs, s'.reads = s.reads ++ rs ∧ ∀ r ∈ rs, Whole r)
    ?_ ⟨[], (List.append_nil _).symm, by simp⟩ h
  rintro s' e ⟨rs, hrs, hwhole⟩ he
  cases e with
  | run irqs =>
      obtain ⟨⟨new, hnew, hnewWhole, -⟩, -⟩ := he
      refine ⟨rs ++ new, ?_, List.forall_mem_append.mpr ⟨hwhole, hnewWhole⟩⟩
      rw [rxStep, hnew]
      simp only [hrs, List.append_assoc]
  | _ => exact ⟨rs, hrs, hwhole⟩

end HostComm.RxChecked
