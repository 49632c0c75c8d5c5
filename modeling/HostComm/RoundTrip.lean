import HostComm.FrameHistory
import HostComm.RxAtomic

namespace HostComm.RoundTrip

open Protocol LittleEndian XorWords Crc TimeEvents UartDriver ByteRings TxQueue TxSend RxFsm RxStream RxParser Runs
open RxAtomic FrameHistory

def received (p : PacketData) (old : PacketPayload) : PacketData := ⟨p.header, old.load p.body⟩

section stages

variable (env : Env) (pk : PacketData) (t : List UInt8)

theorem stage_preamble (h : 4 ≤ (4 + t.length) % 256) :
    atomicStep env (⟨.preambleProc, .invalid, pk⟩, protocolPreamble ++ t) =
      (⟨.preambleProc, .preambleOk, pk⟩, t) := by
  have hlen : (protocolPreamble ++ t).length = 4 + t.length := by
    rw [List.length_append]
    rfl
  rw [atomicStep_during env rfl (by rw [hlen]; exact h)]
  simp only [during, scan_pattern, if_true, List.drop_left]

theorem stage_preambleOk :
    atomicStep env (⟨.preambleProc, .preambleOk, pk⟩, t) = (⟨.headerProc, .invalid, pk⟩, t) :=
  atomicStep_react env (by simp) rfl t

theorem stage_header (header : PacketHeader)
    (hvalid : protocolCheckValidHeader ⟨header, pk.payload⟩ = true)
    (h : 4 ≤ (4 + t.length) % 256) :
    atomicStep env (⟨.headerProc, .invalid, pk⟩, header.bytes ++ t) =
      (⟨.headerProc, .headerOk, ⟨header, pk.payload⟩⟩, t) := by
  have hlen : (header.bytes ++ t).length = 4 + t.length := by
    rw [List.length_append, PacketHeader.bytes_length]
  have htake : (header.bytes ++ t).take 4 = header.bytes :=
    List.take_left' (PacketHeader.bytes_length header)
  rw [atomicStep_during env rfl (by rw [hlen]; exact h)]
  simp only [during, htake, PacketHeader.ofBytes_bytes, hvalid, if_true, List.drop_left]

theorem stage_headerOk :
    atomicStep env (⟨.headerProc, .headerOk, pk⟩, t) =
      (⟨if 0 < pk.header.payloadLen.toNat then .payloadProc else .crcAndPostambleProc, .invalid,
        pk⟩, t) :=
  atomicStep_react env (by simp) rfl t

theorem stage_payload (w : List UInt8) (hlt : pk.header.payloadLen.toNat < 256)
    (hw : w.length = pk.header.payloadLen.toNat)
    (h : pk.header.payloadLen.toNat ≤ (pk.header.payloadLen.toNat + t.length) % 256) :
    atomicStep env (⟨.payloadProc, .invalid, pk⟩, w ++ t) =
      (⟨.payloadProc, .payloadOk, { pk with payload := pk.payload.load w }⟩, t) := by
  have hmod : pk.header.payloadLen.toNat % 256 = pk.header.payloadLen.toNat := Nat.mod_eq_of_lt hlt
  have hneed : need ⟨.payloadProc, .invalid, pk⟩ ≤ (w ++ t).length % 256 := by
    rw [List.length_append, hw]
    exact hmod.trans_le h
  have htake : (w ++ t).take (pk.header.payloadLen.toNat % 256) = w := by
    rw [hmod]
    exact List.take_left' hw
  rw [atomicStep_during env rfl hneed]
  simp only [during, htake, List.drop_left]

theorem stage_payloadOk :
    atomicStep env (⟨.payloadProc, .payloadOk, pk⟩, t) =
      (⟨.crcAndPostambleProc, .invalid, pk⟩, t) :=
  atomicStep_react env (by simp) rfl t

theorem stage_crc (crc : UInt32) :
    atomicStep env (⟨.crcAndPostambleProc, .invalid, pk⟩, bytes32 crc ++ protocolPostamble) =
      (⟨.crcAndPostambleProc, if rxCrc env pk = crc then .crcAndPostambleOk else .crcError, pk⟩,
        []) := by
  have hlen : (bytes32 crc ++ protocolPostamble).length = 8 := by
    rw [List.length_append, bytes32_length]
    rfl
  have htake : (bytes32 crc ++ protocolPostamble).take 4 = bytes32 crc :=
    List.take_left' (bytes32_length crc)
  have hall : (bytes32 crc ++ protocolPostamble).take 8 = bytes32 crc ++ protocolPostamble :=
    List.take_of_length_le hlen.le
  rw [atomicStep_during env rfl (by rw [hlen]; exact Nat.le_refl 8)]
  simp only [during, htake, hall, word32_bytes32, List.drop_length]

theorem stage_event (ok : Prop) [Decidable ok] :
    atomicStep env (⟨.crcAndPostambleProc, if ok then .crcAndPostambleOk else .crcError, pk⟩, t) =
      (⟨if ok then .packetReady else .preambleProc, .invalid, pk⟩, t) := by
  split_ifs
  · exact atomicStep_react env (by simp) rfl t
  · exact atomicStep_react env (by simp) rfl t

end stages

def afterPreamble (p : PacketData) (crc : UInt32) : List UInt8 :=
  p.header.bytes ++ (p.body ++ (bytes32 crc ++ protocolPostamble))

theorem tail_length (crc : UInt32) : (bytes32 crc ++ protocolPostamble).length = 8 := by
  rw [List.length_append, bytes32_length]
  rfl

section frames

variable (env : Env) {p : PacketData} (hvalid : protocolCheckValidHeader p = true)
variable (pk : PacketData) (crc : UInt32)

include hvalid

theorem body_length_of_valid : p.body.length = p.header.payloadLen.toNat :=
  body_length (valid_len hvalid).le

theorem received_body (old : PacketPayload) : (received p old).body = p.body := by
  have hlen := body_length_of_valid hvalid
  have hload := old.take_load (hlen.trans_le (valid_len hvalid).le)
  rwa [hlen] at hload

theorem afterPreamble_length :
    (afterPreamble p crc).length = 12 + p.header.payloadLen.toNat := by
  rw [afterPreamble, List.length_append, List.length_append, tail_length,
    PacketHeader.bytes_length, body_length_of_valid hvalid]
  omega

theorem valid_any (payload : PacketPayload) :
    protocolCheckValidHeader ⟨p.header, payload⟩ = true := (valid_header rfl).trans hvalid

theorem parse_preamble (h : 4 ≤ (16 + p.header.payloadLen.toNat) % 256) :
    ∃ m, (atomicStep env)^[m]
        (⟨.preambleProc, .invalid, pk⟩, protocolPreamble ++ afterPreamble p crc) =
      (⟨.headerProc, .invalid, pk⟩, afterPreamble p crc) := by
  have hlen := afterPreamble_length hvalid crc
  apply iterate_cons (stage_preamble env pk _ (by rw [hlen]; omega))
  apply iterate_cons (stage_preambleOk env pk _)
  exact ⟨0, rfl⟩

theorem parse_header (h : 4 ≤ (12 + p.header.payloadLen.toNat) % 256) :
    ∃ m, (atomicStep env)^[m] (⟨.headerProc, .invalid, pk⟩, afterPreamble p crc) =
      (⟨if 0 < p.header.payloadLen.toNat then .payloadProc else .crcAndPostambleProc, .invalid,
        ⟨p.header, pk.payload⟩⟩, p.body ++ (bytes32 crc ++ protocolPostamble)) := by
  have hbody := body_length_of_valid hvalid
  rw [afterPreamble]
  apply iterate_cons (stage_header env pk _ p.header (valid_any hvalid _) (by
    rw [List.length_append, tail_length, hbody]
    omega))
  apply iterate_cons (stage_headerOk env _ _)
  exact ⟨0, rfl⟩

theorem parse_frame (hlt : p.header.payloadLen.toNat < 240) :
    ∃ m, (atomicStep env)^[m]
        (⟨.preambleProc, .invalid, pk⟩, protocolPreamble ++ afterPreamble p crc) =
      (⟨if rxCrc env (received p pk.payload) = crc then .packetReady else .preambleProc, .invalid,
        received p pk.payload⟩, []) := by
  have hbody := body_length_of_valid hvalid
  apply iterate_trans (parse_preamble env hvalid pk crc (by omega))
  apply iterate_trans (parse_header env hvalid pk crc (by omega))
  have hend : ∃ m, (atomicStep env)^[m] (⟨.crcAndPostambleProc, .invalid, received p pk.payload⟩,
      bytes32 crc ++ protocolPostamble) =
        (⟨if rxCrc env (received p pk.payload) = crc then .packetReady else .preambleProc, .invalid,
          received p pk.payload⟩, []) := by
    apply iterate_cons (stage_crc env _ crc)
    apply iterate_cons (stage_event env _ _ _)
    exact ⟨0, rfl⟩
  by_cases hpos : 0 < p.header.payloadLen.toNat
  · rw [if_pos hpos]
    apply iterate_cons (stage_payload env ⟨p.header, pk.payload⟩ _ p.body (valid_len hvalid) hbody (by
      rw [tail_length]
      change p.header.payloadLen.toNat ≤ (p.header.payloadLen.toNat + 8) % 256
      omega))
    apply iterate_cons (stage_payloadOk env _ _)
    exact hend
  · have hnil : p.body = [] := List.length_eq_zero_iff.mp (hbody.trans (Nat.eq_zero_of_not_pos hpos))
    have hsame : received p pk.payload = ⟨p.header, pk.payload⟩ := by
      rw [received, hnil]
      rfl
    rw [if_neg hpos, hnil, List.nil_append]
    rw [hsame] at hend ⊢
    exact hend

/-- A longer frame is never taken to its end: the length of what is left wraps
around to less than the state waits for. -/
theorem parse_stuck (hge : 240 ≤ p.header.payloadLen.toNat) :
    ∃ y, (∃ m, (atomicStep env)^[m]
        (⟨.preambleProc, .invalid, pk⟩, protocolPreamble ++ afterPreamble p crc) = y) ∧
      atomicStep env y = y ∧ y.1.state ≠ .packetReady := by
  have hlen := afterPreamble_length hvalid crc
  have hbody := body_length_of_valid hvalid
  have hmax : p.header.payloadLen.toNat < 256 := valid_len hvalid
  have hwhole : (protocolPreamble ++ afterPreamble p crc).length =
      4 + (12 + p.header.payloadLen.toNat) := by
    rw [List.length_append, hlen]
    rfl
  by_cases hfirst : p.header.payloadLen.toNat < 244
  · refine ⟨_, ⟨0, rfl⟩, atomicStep_wait env rfl ?_, by simp⟩
    rw [hwhole]
    change _ < 4
    omega
  have hheader := parse_preamble env hvalid pk crc (by omega)
  by_cases hsecond : p.header.payloadLen.toNat < 248
  · refine ⟨(⟨.headerProc, .invalid, pk⟩, afterPreamble p crc), hheader, atomicStep_wait env rfl ?_,
      by simp⟩
    rw [hlen]
    change _ < 4
    omega
  · have hpayload := parse_header env hvalid pk crc (by omega)
    rw [if_pos (Nat.lt_of_lt_of_le (by decide) hge)] at hpayload
    refine ⟨_, iterate_trans hheader hpayload, atomicStep_wait env rfl ?_, by simp⟩
    rw [List.length_append, tail_length, hbody]
    change _ < p.header.payloadLen.toNat % 256
    omega

end frames

theorem crc_agree_iff (env envRx : Env) {p : PacketData}
    (hvalid : protocolCheckValidHeader p = true) (old : PacketPayload) :
    txCrc env p = rxCrc envRx (received p old) ↔
      xorWords (payloadPtr p env.after) 0 3 ^^^ xorWords (payloadPtr p env.after) (frameWords p)
        (p.header.payloadLen.toNat - frameWords p) = rxRest envRx (received p old) := by
  have hh : p.header = (received p old).header := rfl
  have hb : p.body = (received p old).body := (received_body hvalid old).symm
  have hlen := xorWords_append (payloadPtr p env.after) 0 (frameWords p)
    (p.header.payloadLen.toNat - frameWords p)
  rw [Nat.zero_add, Nat.add_sub_cancel' (frameWords_le p)] at hlen
  have htx : txCrc env p =
      (headerPtr p env.after 0 ^^^ xorWords (payloadPtr p env.after) 0 (frameWords p)) ^^^
        (xorWords (payloadPtr p env.after) 0 3 ^^^ xorWords (payloadPtr p env.after) (frameWords p)
          (p.header.payloadLen.toNat - frameWords p)) := by
    rw [txCrc_eq, hlen]
    ac_rfl
  rw [htx, rxCrc_split, ← headerPtr_zero env.after envRx.after hh, ← frameWords_congr hh,
    ← xorWords_frame env.after envRx.after hh hb (Nat.le_refl _), xor_prefix_eq_iff]

/-- The frame that a send hands over, put in an empty receive ring, comes
through exactly for short payloads and agreeing check values. -/
theorem frame_round_trip (env envRx : Env) (u : Uart) (s : RxSys) (p : PacketData)
    (hvalid : protocolCheckValidHeader p = true)
    (hroom : u.tx.contents.length + (16 + p.header.payloadLen.toNat) ≤ txDataBuffSize)
    (hstate : s.handle.state = .preambleProc) (hinternal : s.handle.internal = .invalid)
    (hbytes : s.rx.contents = ((txSendPacket env u p).2.handed.drop u.handed.length).flatten) :
    ((∃ k, let s' := (fun s => runCall envRx s [])^[k] s
        s'.handle.state = .packetReady ∧ s'.handle.packet.header = p.header ∧
          s'.handle.packet.body = p.body ∧ s'.rx.contents = []) ∧
      txCrc env p = rxCrc envRx (received p s.handle.packet.payload)) ↔
    p.header.payloadLen.toNat < 240 ∧
      xorWords (payloadPtr p env.after) 0 3 ^^^ xorWords (payloadPtr p env.after) (frameWords p)
        (p.header.payloadLen.toNat - frameWords p) =
          rxRest envRx (received p s.handle.packet.payload) := by
  have hlt := valid_len hvalid
  have hframe : s.rx.contents = protocolPreamble ++ afterPreamble p (txCrc env p) := by
    rw [hbytes, (txSendPacket_handed env u hlt hroom).2, List.drop_left, frameParts_flatten env hlt,
      afterPreamble]
    simp only [List.append_assoc]
  have hcore : coreOf s.handle = ⟨.preambleProc, .invalid, s.handle.packet⟩ := by
    rw [coreOf, hstate, hinternal]
  have hcalm : Calm s.handle := by
    refine ⟨?_, ?_⟩
    · rw [Raised, hstate]
      exact not_false
    · rw [hstate]
      intro he
      cases he
  -- on the pair of core and stored bytes
  have hpair : (∃ k, let s' := (fun s => runCall envRx s [])^[k] s
      s'.handle.state = .packetReady ∧ s'.handle.packet.header = p.header ∧
        s'.handle.packet.body = p.body ∧ s'.rx.contents = []) ↔
      ∃ k, let x := (atomicStep envRx)^[k] (coreOf s.handle, s.rx.contents)
        x.1.state = .packetReady ∧ x.1.packet.header = p.header ∧
          x.1.packet.body = p.body ∧ x.2 = [] :=
    exists_atomic envRx hcalm fun x => x.1.state = .packetReady ∧ x.1.packet.header = p.header ∧
      x.1.packet.body = p.body ∧ x.2 = []
  have habs (z : RxCore × List UInt8) (hz : z.1.state = .packetReady ∧
      z.1.packet.header = p.header ∧ z.1.packet.body = p.body ∧ z.2 = []) :
      atomicStep envRx z = z := atomicStep_ready envRx hz.1 z.2
  rw [hpair, hcore, hframe, ← crc_agree_iff env envRx hvalid]
  by_cases hshort : p.header.payloadLen.toNat < 240
  · rw [and_iff_right hshort, and_iff_right_iff_imp]
    intro hcrc
    obtain ⟨m, hm⟩ := parse_frame envRx hvalid s.handle.packet (txCrc env p) hshort
    refine ⟨m, ?_⟩
    rw [hm, if_pos hcrc.symm]
    exact ⟨rfl, rfl, received_body hvalid _, rfl⟩
  · obtain ⟨y, hy, hfix, hno⟩ := parse_stuck envRx hvalid s.handle.packet (txCrc env p)
      (Nat.le_of_not_lt hshort)
    refine iff_of_false ?_ fun h => hshort h.1
    rintro ⟨hex, -⟩
    exact hno ((exists_iterate_iff hy hfix habs).mp hex).1

def fresh : RxSys :=
  hostCommRxFsmInit (.start ⟨.invalid, .invalid, .invalid, timeEventStop, timeEventStop,
    timeEventStop, ⟨⟨0, 0, 0⟩, .zero⟩⟩ hostCommTxQueueInit)

/-- Two equal payload words cancel out, and the frame is received. -/
theorem frame_round_trip_payload :
    let env : Env := ⟨fun _ => 0, 0⟩
    let p : PacketData :=
      ⟨⟨1, hostToTargetDir, 8⟩, PacketPayload.zero.load [1, 2, 3, 4, 1, 2, 3, 4]⟩
    let s := rxBytes fresh (txSendPacket env uartInit p).2.handed.flatten
    ∃ k, ((fun s => runCall env s [])^[k] s).handle.state = .packetReady ∧
      ((fun s => runCall env s [])^[k] s).handle.packet.body = [1, 2, 3, 4, 1, 2, 3, 4] := by
  intro env p s
  obtain ⟨⟨k, hk⟩, -⟩ := (frame_round_trip env env uartInit s p (by decide) (by decide +kernel)
    (by decide +kernel) (by decide +kernel) (by decide +kernel)).mpr ⟨by decide, by decide +kernel⟩
  have hbody : p.body = [1, 2, 3, 4, 1, 2, 3, 4] := by decide +kernel
  exact ⟨k, hk.1, hk.2.2.1.trans hbody⟩

/-- A frame with four payload bytes is refused by a fresh receiver. -/
theorem frame_round_trip_fails :
    let env : Env := ⟨fun _ => 0, 0⟩
    let p : PacketData := ⟨⟨1, hostToTargetDir, 4⟩, PacketPayload.zero.load [1, 2, 3, 4]⟩
    ¬ ∃ k, ((fun s => runCall env s [])^[k]
      (rxBytes fresh (txSendPacket env uartInit p).2.handed.flatten)).handle.state = .packetReady := by
  intro env p
  rintro ⟨k, hk⟩
  have hcrc : rxCrc env (received p .zero) ≠ txCrc env p := by decide +kernel
  have hstored : (rxBytes fresh (txSendPacket env uartInit p).2.handed.flatten).rx.contents =
      protocolPreamble ++ afterPreamble p (txCrc env p) := by decide +kernel
  have hhandle : (rxBytes fresh (txSendPacket env uartInit p).2.handed.flatten).handle =
      fresh.handle := handle_rxBytes ..
  have hcalm : Calm (rxBytes fresh (txSendPacket env uartInit p).2.handed.flatten).handle := by
    rw [hhandle]
    exact ⟨not_false, fun he => by cases he⟩
  have hready := congrArg (fun x => x.1.state) (iterate_atomic env hcalm k).2
  rw [hstored, hhandle] at hready
  obtain ⟨m, hm⟩ := parse_frame env (p := p) (by decide) ⟨⟨0, 0, 0⟩, .zero⟩ (txCrc env p) (by decide)
  rw [if_neg hcrc] at hm
  have hend := (exists_iterate_iff (R := fun z => z.1.state = .packetReady) ⟨m, hm⟩
    (atomicStep_wait env rfl (by decide +kernel)) fun z hz => atomicStep_ready env hz z.2).mp
    ⟨k, hready.symm.trans hk⟩
  cases hend

end HostComm.RoundTrip
