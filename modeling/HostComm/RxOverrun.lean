import HostComm.RxChecked

namespace HostComm.RxOverrun

open Protocol TimeEvents UartDriver ByteRings TxSend RxFsm RxStream RxParser RxSound RxHeader
open RxChecked Runs

theorem rxBytes_append (s : RxSys) (before after : List UInt8) :
    rxBytes s (before ++ after) = rxBytes (rxBytes s before) after := List.foldl_append

theorem contents_after (s : RxSys) (bytes : List UInt8) :
    (rxBytes s bytes).rx.contents = s.rx.contents ++ bytes ∨
      (rxBytes s bytes).rx.contents <:+ bytes := by
  induction bytes using List.reverseRecOn with
  | nil => exact .inl (List.append_nil _).symm
  | append_singleton bytes b ih =>
      have hlast : (rxBytes s (bytes ++ [b])).rx.contents =
          if (rxBytes s bytes).rx.contents.length < rxDataBuffSize
            then (rxBytes s bytes).rx.contents ++ [b] else [] := by
        rw [rxBytes_append]
        exact rxArrival_contents ..
      rw [hlast]
      split_ifs
      · rcases ih with hall | hsome
        · rw [hall, List.append_assoc]
          exact .inl rfl
        · exact .inr (suffix_append_right hsome [b])
      · exact .inr List.nil_suffix

theorem contents_overrun {s : RxSys} {bytes : List UInt8}
    (h : rxDataBuffSize < s.rx.contents.length + bytes.length) :
    (rxBytes s bytes).rx.contents <:+ bytes := by
  rcases contents_after s bytes with hall | hsome
  · have hle := (rxBytes s bytes).rx.contents_le
    rw [hall, List.length_append] at hle
    omega
  · exact hsome

theorem read_overrun {s : RxSys} {len : Nat}
    (h : rxDataBuffSize < s.rx.contents.length + (sizes s).headD 0) :
    ∀ x ∈ (readRxData s len).1, x ∈ s.irqs.headD [] := by
  intro x hx
  rw [sizes_headD] at h
  have hread : (readRxData s len).1 = (interrupts s).rx.contents.take (len % 256) :=
    ByteRing.read_bytes ..
  have hleft : (interrupts s).rx.contents <:+ s.irqs.headD [] := by
    rw [interrupts_eq]
    exact contents_overrun h
  exact hleft.mem (List.mem_of_mem_take (hread ▸ hx))

theorem reads_readRxData (s : RxSys) (len : Nat) : ∃ r, (readRxData s len).2.reads = s.reads ++ [r] ∧
    r.len = len ∧ r.bytes = (readRxData s len).1 := by
  refine ⟨⟨len, (uartReadRxData (interrupts s).rx len).1, (readRxData s len).1⟩, ?_, rfl, rfl⟩
  rw [readRxData, reads_interrupts]

/-- Among the reads is one that asks for bytes and gets none but `b`, where
the bytes `t` go on with another one. -/
def Spoils (t : List UInt8) (b : UInt8) (rs : List RxRead) : Prop :=
  ∃ p good bad more, rs = good ++ bad :: more ∧ good.flatMap RxRead.bytes = t.take p ∧
    t[p]? ≠ some b ∧ 0 < bad.len ∧ ∀ x ∈ bad.bytes, x = b

theorem Spoils.append {t : List UInt8} {b : UInt8} {rs : List RxRead} (h : Spoils t b rs)
    (last : List RxRead) : Spoils t b (rs ++ last) := by
  obtain ⟨p, good, bad, more, hrs, hbad⟩ := h
  exact ⟨p, good, bad, more ++ last, by rw [hrs, List.append_assoc, List.cons_append], hbad⟩

theorem Spoils.cons {t : List UInt8} {b : UInt8} {rs : List RxRead} {len : Nat}
    (h : Spoils (t.drop len) b rs) : Spoils t b (⟨len, true, t.take len⟩ :: rs) := by
  obtain ⟨p, good, bad, more, hrs, hgood, hdiff, hbad⟩ := h
  refine ⟨len + p, ⟨len, true, t.take len⟩ :: good, bad, more, by rw [hrs, List.cons_append], ?_, ?_,
    hbad⟩
  · rw [List.flatMap_cons, hgood, List.take_add]
  · rwa [List.getElem?_drop] at hdiff

theorem not_prefix_of_spoils {t : List UInt8} {b : UInt8} {rs : List RxRead} (h : Spoils t b rs)
    (hwhole : ∀ r ∈ rs, Whole r) : ¬ rs.flatMap RxRead.bytes <+: t := by
  obtain ⟨p, good, bad, more, rfl, hgood, hdiff, hlen, hbytes⟩ := h
  rintro ⟨rest, hrest⟩
  have hbad : Whole bad := hwhole bad (List.mem_append_right good List.mem_cons_self)
  obtain ⟨x, xs, hx⟩ := List.exists_cons_of_length_pos (hbad.length.symm ▸ hlen)
  have hxb : x = b := hbytes x (hx ▸ List.mem_cons_self)
  rw [List.flatMap_append, List.flatMap_cons, hgood, hx, List.append_assoc, List.append_assoc,
    List.cons_append] at hrest
  have hdrop : t.drop p = x :: (xs ++ (more.flatMap RxRead.bytes ++ rest)) :=
    List.append_cancel_left ((List.take_append_drop p t).trans hrest.symm)
  apply hdiff
  rw [← List.head?_drop, hdrop, List.head?_cons, hxb]

def failAt (stored : Nat) : List Nat → List Nat → Nat
  | [], _ => 0
  | len :: lens, sizes =>
      if stored + sizes.headD 0 ≤ rxDataBuffSize
        then len + failAt (stored + sizes.headD 0 - len) lens sizes.tail else 0

/-- The bytes `t` are behind the reads to come, but the ring overflows before
the last of these, and what arrives is `b` over and over. -/
structure Doomed (s : RxSys) (t : List UInt8) (lens : List Nat) (b : UInt8) : Prop where
  oldest : t <+: s.rx.contents
  enough : lens.sum ≤ t.length
  overrun : ¬ RoomFor s.rx.contents.length lens (sizes s)
  late : ∀ batch ∈ s.irqs, ∀ x ∈ batch, x = b
  differs : t[failAt s.rx.contents.length lens (sizes s)]? ≠ some b

theorem doomed_nil {s : RxSys} {t : List UInt8} {b : UInt8} : ¬ Doomed s t [] b :=
  fun h => h.overrun trivial

theorem Doomed.read {s : RxSys} {t : List UInt8} {len : Nat} {lens : List Nat} {b : UInt8}
    (h : Doomed s t (len :: lens) b) (hpos : 0 < len) (hlt : len < 256) :
    (∃ bad, (readRxData s len).2.reads = s.reads ++ [bad] ∧ Spoils t b [bad]) ∨
      (readRxData s len).1 = t.take len ∧
        (readRxData s len).2.reads = s.reads ++ [⟨len, true, t.take len⟩] ∧
        Doomed (readRxData s len).2 (t.drop len) lens b := by
  obtain ⟨holdest, henough, hover, hlate, hdiff⟩ := h
  rw [List.sum_cons] at henough
  rw [failAt] at hdiff
  by_cases hroom : s.rx.contents.length + (sizes s).headD 0 ≤ rxDataBuffSize
  · rw [if_pos hroom] at hdiff
    obtain ⟨hbytes, hreads, hleft, hlen⟩ := read_fits holdest (by omega) hlt hroom
    refine .inr ⟨hbytes, hreads, hleft, ?_, ?_, ?_, ?_⟩
    · rw [List.length_drop]
      omega
    · rw [hlen, sizes_readRxData]
      exact fun hrest => hover ⟨hroom, hrest⟩
    · intro batch hbatch
      have hirqs : (readRxData s len).2.irqs = s.irqs.tail := irqs_interrupts s
      exact hlate batch (List.mem_of_mem_tail (hirqs ▸ hbatch))
    · rw [List.getElem?_drop, hlen, sizes_readRxData]
      exact hdiff
  · rw [if_neg hroom] at hdiff
    obtain ⟨bad, hreads, hlen, hbytes⟩ := reads_readRxData s len
    refine .inl ⟨bad, hreads, 0, [], bad, [], rfl, rfl, hdiff, hlen ▸ hpos, fun x hx => ?_⟩
    have hmem := read_overrun (Nat.lt_of_not_le hroom) x (hbytes ▸ hx)
    cases hirqs : s.irqs with
    | nil => simp [hirqs] at hmem
    | cons batch rest =>
        rw [hirqs, List.headD_cons] at hmem
        exact hlate batch (hirqs ▸ List.mem_cons_self) x hmem

theorem reads_readPreamble (bits : List UInt8) (local_ : UInt8) (s : RxSys) :
    ∃ more, (readPreamble local_ s bits).2.reads = s.reads ++ more := by
  induction bits generalizing local_ s with
  | nil => exact ⟨[], (List.append_nil _).symm⟩
  | cons bit bits ih =>
      obtain ⟨r, hr, -⟩ := reads_readRxData s 1
      rw [readPreamble]
      split_ifs
      · exact ⟨[r], hr⟩
      · obtain ⟨more, hmore⟩ := ih ((readRxData s 1).1.headD local_) (readRxData s 1).2
        exact ⟨[r] ++ more, by rw [hmore, hr, List.append_assoc]⟩

theorem reads_first (bit : UInt8) (bits : List UInt8) (local_ : UInt8) (s : RxSys) :
    ∃ more, (readPreamble local_ s (bit :: bits)).2.reads = (readRxData s 1).2.reads ++ more := by
  rw [readPreamble]
  split_ifs
  · exact ⟨[], (List.append_nil _).symm⟩
  · exact reads_readPreamble bits _ _

theorem spoiled_readPreamble (bits : List UInt8) (local_ : UInt8) {s : RxSys} {t : List UInt8}
    {b : UInt8} (h : Doomed s t (List.replicate (scan bits t).length 1) b) :
    ∃ rs, (readPreamble local_ s bits).2.reads = s.reads ++ rs ∧ Spoils t b rs := by
  induction bits generalizing local_ s t with
  | nil =>
      have hnil : scan [] t = [] := by cases t <;> rfl
      rw [hnil] at h
      exact absurd h doomed_nil
  | cons bit bits ih =>
      cases t with
      | nil => exact absurd h doomed_nil
      | cons c t =>
          have hlens : List.replicate (scan (bit :: bits) (c :: t)).length 1 =
              1 :: if c ≠ bit then [] else List.replicate (scan bits t).length 1 := by
            rw [scan]
            split_ifs
            · rfl
            · rfl
          rw [hlens] at h
          rcases h.read Nat.one_pos (by decide) with ⟨bad, hreads, hspoils⟩ | ⟨hbytes, hreads, hnext⟩
          · obtain ⟨more, hmore⟩ := reads_first bit bits local_ s
            exact ⟨[bad] ++ more, by rw [hmore, hreads, List.append_assoc], hspoils.append more⟩
          · by_cases hc : c = bit
            · rw [if_neg (not_not.mpr hc)] at hnext
              obtain ⟨rs, hrs, hspoils⟩ := ih c hnext
              have hread : (readRxData s 1).1 = [c] := hbytes
              refine ⟨⟨1, true, [c]⟩ :: rs, ?_, hspoils.cons⟩
              rw [readPreamble, hread, List.headD_cons, if_neg (not_not.mpr hc), hrs, hreads]
              exact List.append_assoc ..
            · rw [if_pos hc] at hnext
              exact absurd hnext doomed_nil

section spoiled

variable (env : Env) {s : RxSys} {t : List UInt8} {b : UInt8}

theorem spoiled_preamble (hguard : preambleSizeBytes ≤ (getRxDataLen s).1)
    (h : Doomed (getRxDataLen s).2 t (List.replicate (scan protocolPreamble t).length 1) b) :
    ∃ rs, (duringActionPreambleProc env s).reads = s.reads ++ rs ∧ Spoils t b rs := by
  obtain ⟨rs, hrs, hspoils⟩ := spoiled_readPreamble protocolPreamble env.junk h
  rw [reads_getRxDataLen] at hrs
  refine ⟨rs, ?_, hspoils⟩
  simp only [duringActionPreambleProc, if_pos hguard]
  split_ifs
  · exact hrs
  · exact hrs

theorem Doomed.single {g : RxSys} {len : Nat} (h : Doomed g t [len] b) (hpos : 0 < len)
    (hlt : len < 256) : ∃ rs, (readRxData g len).2.reads = g.reads ++ rs ∧ Spoils t b rs := by
  rcases h.read hpos hlt with ⟨bad, hreads, hspoils⟩ | ⟨-, -, hnext⟩
  · exact ⟨[bad], hreads, hspoils⟩
  · exact absurd hnext doomed_nil

theorem spoiled_header (hguard : headerSizeBytes ≤ (getRxDataLen s).1)
    (h : Doomed (getRxDataLen s).2 t [headerSizeBytes] b) :
    ∃ rs, (duringActionHeaderProc s).reads = s.reads ++ rs ∧ Spoils t b rs := by
  obtain ⟨rs, hrs, hspoils⟩ := h.single (by decide) (by decide)
  rw [reads_getRxDataLen] at hrs
  refine ⟨rs, ?_, hspoils⟩
  simp only [duringActionHeaderProc, if_pos hguard]
  split_ifs
  · exact hrs
  · exact hrs

theorem spoiled_payload (hpos : 0 < s.handle.packet.header.payloadLen.toNat)
    (hlt : s.handle.packet.header.payloadLen.toNat < 256)
    (hguard : s.handle.packet.header.payloadLen.toNat ≤ (getRxDataLen s).1)
    (h : Doomed (getRxDataLen s).2 t [s.handle.packet.header.payloadLen.toNat] b) :
    ∃ rs, (duringActionPayloadProc s).reads = s.reads ++ rs ∧ Spoils t b rs := by
  have hhandle : ((getRxDataLen s).2.setInternal .payloadOk).handle.packet = s.handle.packet := by
    rw [RxSys.setInternal, handle_getRxDataLen]
  have hset : Doomed ((getRxDataLen s).2.setInternal .payloadOk) t
      [s.handle.packet.header.payloadLen.toNat] b := ⟨h.oldest, h.enough, h.overrun, h.late, h.differs⟩
  obtain ⟨rs, hrs, hspoils⟩ := hset.single hpos hlt
  rw [reads_setInternal, reads_getRxDataLen] at hrs
  refine ⟨rs, ?_, hspoils⟩
  simp only [duringActionPayloadProc, Nat.mod_eq_of_lt hlt, if_pos hguard, hhandle]
  exact hrs

theorem spoiled_crc (hguard : crcSizeBytes + postambleSizeBytes ≤ (getRxDataLen s).1)
    (h : Doomed (getRxDataLen s).2 t [crcSizeBytes, postambleSizeBytes] b) :
    ∃ rs, (duringActionCrcAndPostambleProc env s).reads = s.reads ++ rs ∧ Spoils t b rs := by
  have hboth : ∃ rs, (readRxData (readRxData (getRxDataLen s).2 crcSizeBytes).2
      postambleSizeBytes).2.reads = s.reads ++ rs ∧ Spoils t b rs := by
    rcases h.read (by decide) (by decide) with ⟨bad, hreads, hspoils⟩ | ⟨-, hreads, hnext⟩
    · obtain ⟨r, hr, -⟩ := reads_readRxData (readRxData (getRxDataLen s).2 crcSizeBytes).2
        postambleSizeBytes
      refine ⟨[bad] ++ [r], ?_, hspoils.append [r]⟩
      rw [hr, hreads, reads_getRxDataLen, List.append_assoc]
    · obtain ⟨rs, hrs, hspoils⟩ := hnext.single (by decide) (by decide)
      refine ⟨_, ?_, hspoils.cons⟩
      rw [hrs, hreads, reads_getRxDataLen, List.append_assoc, List.singleton_append]
  obtain ⟨rs, hrs, hspoils⟩ := hboth
  refine ⟨rs, ?_, hspoils⟩
  simp only [duringActionCrcAndPostambleProc, if_pos hguard]
  rw [crc_event, reads_setInternal]
  exact hrs

theorem spoiled_during (hpos : s.handle.state = .payloadProc → 0 < s.handle.packet.header.payloadLen.toNat)
    (hlt : s.handle.state = .payloadProc → s.handle.packet.header.payloadLen.toNat < 256)
    (hguard : need (coreOf s.handle) ≤ (getRxDataLen s).1)
    (h : Doomed (getRxDataLen s).2 t (readLens (coreOf s.handle) t) b) :
    ∃ rs, (duringAction env s).reads = s.reads ++ rs ∧ Spoils t b rs := by
  rw [duringAction]
  cases hs : s.handle.state with
  | preambleProc =>
      simp only [need, readLens, coreOf, hs] at hguard h
      exact spoiled_preamble env hguard h
  | headerProc =>
      simp only [need, readLens, coreOf, hs] at hguard h
      exact spoiled_header hguard h
  | payloadProc =>
      simp only [need, readLens, coreOf, hs, Nat.mod_eq_of_lt (hlt hs)] at hguard h
      exact spoiled_payload (hpos hs) (hlt hs) hguard h
  | crcAndPostambleProc =>
      simp only [need, readLens, coreOf, hs] at hguard h
      exact spoiled_crc env hguard h
  | _ =>
      simp only [readLens, coreOf, hs] at h
      exact absurd h doomed_nil

end spoiled

def SameArrivals (irqs irqs' : List (List UInt8)) : Prop :=
  irqs'.head? = irqs.head? ∧ irqs'.map List.length = irqs.map List.length

theorem rx_interrupts {s s' : RxSys} (hrx : s'.rx = s.rx) (hirqs : s'.irqs.head? = s.irqs.head?) :
    (interrupts s').rx = (interrupts s).rx := by
  rw [interrupts_eq, interrupts_eq, rx_rxBytes, rx_rxBytes, List.headD_eq_head?_getD,
    List.headD_eq_head?_getD, hirqs, hrx]

theorem roomAtReads_same {s : RxSys} {irqs irqs' : List (List UInt8)} (h : SameArrivals irqs irqs') :
    RoomAtReads s (.run irqs') ↔ RoomAtReads s (.run irqs) := by
  obtain ⟨hhead, hsizes⟩ := h
  have hrx : (interrupts { s with irqs := irqs' }).rx = (interrupts { s with irqs }).rx :=
    rx_interrupts rfl hhead
  simp only [RoomAtReads, Reads, checked, getRxDataLen, hrx, List.map_tail, hsizes]

def flooded (b : UInt8) : List (List UInt8) → List (List UInt8)
  | [] => []
  | batch :: rest => batch :: rest.map fun late => List.replicate late.length b

theorem same_flooded (b : UInt8) (irqs : List (List UInt8)) : SameArrivals irqs (flooded b irqs) := by
  cases irqs with
  | nil => exact ⟨rfl, rfl⟩
  | cons batch rest => exact ⟨rfl, by simp [flooded]⟩

theorem late_flooded {b : UInt8} {irqs : List (List UInt8)} :
    ∀ batch ∈ (flooded b irqs).tail, ∀ x ∈ batch, x = b := by
  intro batch hbatch x hx
  cases irqs with
  | nil => cases hbatch
  | cons first rest =>
      obtain ⟨late, -, rfl⟩ := List.mem_map.mp hbatch
      exact List.eq_of_mem_replicate hx

theorem exists_other (o : Option UInt8) : ∃ b, o ≠ some b := by
  by_cases h : o = some 0
  · exact ⟨1, by rw [h]; decide⟩
  · exact ⟨0, h⟩

theorem not_checkHolds (env : Env) {s s' : RxSys} {b : UInt8} (hc : Carried s.handle)
    (hr : Reads s) (hreads : s'.reads = (hostCommRxFsmRun env s).reads)
    (hover : ¬ RoomFor (checked s).length (readLens (coreOf s.handle) (checked s)) (sizes s).tail)
    (hlate : ∀ batch ∈ s.irqs.tail, ∀ x ∈ batch, x = b)
    (hdiff : (checked s)[failAt (checked s).length (readLens (coreOf s.handle) (checked s))
      (sizes s).tail]? ≠ some b) : ¬ CheckHolds env s s' := by
  rintro ⟨⟨rs, hrs, hwhole, hprefix⟩, -⟩
  have hlt (hs : s.handle.state = .payloadProc) :
      s.handle.packet.header.payloadLen.toNat < 256 := payloadLen_lt hc (.inl hs)
  have hirqs : (getRxDataLen s).2.irqs = s.irqs.tail := irqs_interrupts s
  have hsizes : sizes (getRxDataLen s).2 = (sizes s).tail := by
    rw [sizes, hirqs, sizes, List.map_tail]
  have hdoomed : Doomed (getRxDataLen s).2 (checked s) (readLens (coreOf s.handle) (checked s)) b := by
    refine ⟨List.prefix_rfl, readLens_sum_le (le_of_getRxDataLen hr.2.2) hlt, ?_, ?_, ?_⟩
    · rw [hsizes]
      exact hover
    · rw [hirqs]
      exact hlate
    · rw [hsizes]
      exact hdiff
  obtain ⟨rs', hrs', hspoils⟩ := spoiled_during env hc.nonempty hlt hr.2.2 hdoomed
  rw [hreads, run_during env hr.1 hr.2.1, hrs'] at hrs
  have hsame : rs' = rs := List.append_cancel_left hrs
  exact not_prefix_of_spoils (hsame ▸ hspoils) hwhole hprefix

theorem room_of_delivered (env : Env) {s : RxSys} {irqs : List (List UInt8)} (hc : Carried s.handle)
    (h : ∀ irqs', SameArrivals irqs irqs' → ReadsDelivered env s (.run irqs')) :
    RoomAtReads s (.run irqs) := by
  by_contra hroom
  obtain ⟨b, hb⟩ := exists_other ((checked { s with irqs })[failAt (checked { s with irqs }).length
    (readLens (coreOf s.handle) (checked { s with irqs })) (irqs.tail.map List.length)]?)
  have hsame := same_flooded b irqs
  have hcheck : checked { s with irqs := flooded b irqs } = checked { s with irqs } :=
    congrArg ByteRing.contents (rx_interrupts rfl hsame.1)
  have hsizes : (sizes { s with irqs := flooded b irqs }).tail = irqs.tail.map List.length := by
    rw [sizes, hsame.2, List.map_tail]
  rw [← roomAtReads_same hsame] at hroom
  obtain ⟨hr, hover⟩ := Classical.not_imp.mp hroom
  refine not_checkHolds env (s := { s with irqs := flooded b irqs }) hc hr (reads_runCall env s _)
    ?_ late_flooded ?_ (h _ hsame)
  · rw [sizes, ← List.map_tail]
    exact hover
  · rw [hcheck, hsizes]
    exact hb

/-- In a state the machine can be in, the ring keeps room exactly if the check
is good whatever the bytes after it are. -/
theorem room_iff (env : Env) {s : RxSys} (hc : Carried s.handle) (irqs : List (List UInt8)) :
    RoomAtReads s (.run irqs) ↔
      ∀ irqs', SameArrivals irqs irqs' → ReadsDelivered env s (.run irqs') := by
  constructor
  · intro hroom irqs' hsame
    exact delivered_step env s (.run irqs') hc ((roomAtReads_same hsame).mpr hroom)
  · exact room_of_delivered env hc

/-- In a run in which the ring does not overflow between a length check and
the last read it guards, every read is as the check promised. In every state of
a run a call has that room exactly if its check lasts whatever the bytes after
it are. -/
theorem reads_delivered (env : Env) (s₀ : RxSys) (events : List RxEvent) :
    (Along RoomAtReads (rxStep env) (hostCommRxFsmInit s₀) events →
      Along (ReadsDelivered env) (rxStep env) (hostCommRxFsmInit s₀) events) ∧
    ∀ irqs, RoomAtReads (run (rxStep env) (hostCommRxFsmInit s₀) events) (.run irqs) ↔
      ∀ irqs', SameArrivals irqs irqs' →
        ReadsDelivered env (run (rxStep env) (hostCommRxFsmInit s₀) events) (.run irqs') := by
  have hc : Carried (run (rxStep env) (hostCommRxFsmInit s₀) events).handle :=
    run_preserves (I := fun s : RxSys => Carried s.handle) (carried_step env) (carried_init s₀) events
  exact ⟨along_mono (I := fun s => Carried s.handle) (carried_step env) (delivered_step env)
    (carried_init s₀), room_iff env hc⟩

/-- Bytes arrive before the length check and before each of the four reads. -/
theorem reads_delivered_preamble :
    Along (ReadsDelivered ⟨fun _ => 0, 0⟩) (rxStep ⟨fun _ => 0, 0⟩) (hostCommRxFsmInit idle)
      [.rxByte 0x55, .rxByte 0xAA, .run [[0x55, 0xAA], [1], [0xBB], [0], [0]]] :=
  (reads_delivered ⟨fun _ => 0, 0⟩ idle _).1 (by decide +kernel)

def overrun : List RxEvent :=
  (List.replicate 511 0).map .rxByte ++ [.run [[], [1, 1]]]

theorem run_rxBytes (env : Env) (s : RxSys) (bytes : List UInt8) :
    run (rxStep env) s (bytes.map .rxByte) = rxBytes s bytes := List.foldl_map ..

theorem contents_filled :
    (rxBytes (hostCommRxFsmInit idle) (List.replicate 511 0)).rx.contents = List.replicate 511 0 := by
  have hempty : (hostCommRxFsmInit idle).rx.contents = [] := contents_start ..
  have hroom := room_rxBytes (List.replicate 511 0) (hostCommRxFsmInit idle) (by
    rw [hempty, List.length_replicate]
    decide)
  rw [contents_rxBytes _ _ hroom, hempty, List.nil_append]

theorem check_outlived :
    ¬ Along (ReadsDelivered ⟨fun _ => 0, 0⟩) (rxStep ⟨fun _ => 0, 0⟩) (hostCommRxFsmInit idle)
      overrun := by
  rw [overrun, along_append, run_rxBytes]
  rintro ⟨-, hholds, -⟩
  have hstored := contents_filled
  have hhandle := handle_rxBytes (hostCommRxFsmInit idle) (List.replicate 511 0)
  obtain ⟨s, hs⟩ : ∃ s, s = rxBytes (hostCommRxFsmInit idle) (List.replicate 511 0) := ⟨_, rfl⟩
  rw [← hs] at hholds hstored hhandle
  have hcheck : checked { s with irqs := [[], [1, 1]] } = List.replicate 511 0 := hstored
  have hsizes : (sizes { s with irqs := [[], [1, 1]] }).tail = [2] := rfl
  have hlate : ∀ batch ∈ [[(1 : UInt8), 1]], ∀ x ∈ batch, x = 1 := by simp
  have hlen : (getRxDataLen { s with irqs := [[], [1, 1]] }).1 = 255 := by
    refine (uartGetRxDataLen_eq s.rx).trans ?_
    rw [hstored, List.length_replicate]
  -- the first stored byte is no preamble byte, so one read is all there is
  have hlens : readLens (coreOf s.handle) (List.replicate 511 0) = [1] := by
    rw [hhandle]
    rfl
  have hreads : Reads { s with irqs := [[], [1, 1]] } := by
    refine ⟨?_, ?_, ?_⟩
    · rw [hhandle]
      rfl
    · rw [hhandle]
      decide
    · rw [hlen, hhandle]
      decide
  refine not_checkHolds ⟨fun _ => 0, 0⟩ (s := { s with irqs := [[], [1, 1]] })
    (hhandle ▸ carried_init idle) hreads (reads_runCall ⟨fun _ => 0, 0⟩ s [[], [1, 1]]) ?_ hlate ?_
    hholds
  · rw [hcheck, hlens, hsizes, List.length_replicate]
    decide
  · rw [hcheck, hlens, hsizes, List.length_replicate]
    decide

end HostComm.RxOverrun
