import HostComm.ByteLanes
import HostComm.RxFrames

namespace HostComm.RxDamage

open Protocol LittleEndian Crc TimeEvents TxQueue TxSend RxFsm RxStream RxParser RxChunk RxResync
open RoundTrip RxFrames ByteLanes Runs

def padding (len : Nat) : List UInt8 := List.replicate ((4 - len % 4) % 4) 0

/-- Header, payload and check value in whole words. -/
def checkedBytes (f : Frame) : List UInt8 :=
  f.packet.header.bytes ++ f.packet.body ++ padding f.packet.header.payloadLen.toNat ++ bytes32 f.crc

/-- What stands in memory behind a payload of `len` bytes. -/
def staleByte (env : Env) (old : PacketPayload) (len k : Nat) : UInt8 :=
  if k < headerSizeBytes + len then 0 else packetByte ⟨⟨0, 0, 0⟩, old⟩ env.after k

def stale (env : Env) (old : PacketPayload) (len : Nat) : UInt32 :=
  wordSum (staleByte env old len) (len + 4)

theorem packetByte_payload (p : PacketData) (after : Nat → UInt8) (k : Nat) (h : headerSizeBytes ≤ k) :
    packetByte p after k =
      p.payload.bytes.getD (k - headerSizeBytes) (after (k - headerSizeBytes - maxPayloadSize)) := by
  rw [packetByte, if_neg (Nat.not_lt_of_le h), List.getD_eq_getElem?_getD]
  split_ifs with hbuf
  · rw [List.getElem?_eq_getElem (by rwa [PacketPayload.bytes_length]), PacketPayload.getElem_bytes]
    rfl
  · rw [List.getElem?_eq_none (by rwa [PacketPayload.bytes_length, ← Nat.not_lt])]
    rfl

theorem packetByte_received (env : Env) {p : PacketData} (hvalid : protocolCheckValidHeader p = true)
    (old : PacketPayload) (k : Nat) :
    packetByte (received p old) env.after k =
      (p.header.bytes ++ p.body).getD k 0 ^^^ staleByte env old p.header.payloadLen.toNat k := by
  have hlen := body_length_of_valid hvalid
  have hlt := valid_len hvalid
  have hfour : headerSizeBytes = 4 := rfl
  have hheader := PacketHeader.bytes_length p.header
  have hload := PacketPayload.bytes_load old (hlen.trans_le (Nat.le_of_lt hlt))
  rw [staleByte, List.getD_eq_getElem?_getD]
  by_cases hh : k < headerSizeBytes
  · rw [if_pos (Nat.lt_add_right _ hh), UInt8.xor_zero, List.getElem?_append_left (by omega),
      packetByte, if_pos hh, List.getD_eq_getElem?_getD]
    rfl
  · rw [List.getElem?_append_right (by omega), hheader, packetByte_payload _ _ _ (by omega), received,
      hload, List.getD_eq_getElem?_getD]
    by_cases hk : k < headerSizeBytes + p.header.payloadLen.toNat
    · have hbody : k - 4 < p.body.length := by omega
      rw [if_pos hk, UInt8.xor_zero, hfour, List.getElem?_append_left hbody,
        List.getElem?_eq_getElem hbody]
      rfl
    · have hnone : p.body[k - 4]? = none := List.getElem?_eq_none (by omega)
      have hindex : p.body.length + (k - headerSizeBytes - p.body.length) = k - headerSizeBytes := by
        omega
      rw [if_neg hk, List.getElem?_append_right (by omega), List.getElem?_drop, hindex, hnone,
        packetByte_payload _ _ _ (by omega), Option.getD_none, UInt8.zero_xor,
        List.getD_eq_getElem?_getD]

def frameSum (p : PacketData) : UInt32 :=
  wordSum (fun k => (p.header.bytes ++ p.body).getD k 0) (p.header.payloadLen.toNat + 4)

theorem rxCrc_received (env : Env) {p : PacketData} (hvalid : protocolCheckValidHeader p = true)
    (old : PacketPayload) :
    rxCrc env (received p old) = frameSum p ^^^ stale env old p.header.payloadLen.toNat := by
  have hlt := p.header.payloadLen.toNat_lt
  have hlen : headerSizeBytes + p.header.payloadLen.toNat = p.header.payloadLen.toNat + 4 :=
    Nat.add_comm _ _
  have hsum : rxCrc env (received p old) =
      wordSum (packetByte (received p old) env.after) (p.header.payloadLen.toNat + 4) := by
    rw [rxCrc, received, hlen, crc32Accumulate_eq _ (Nat.succ_pos _) (by omega), UInt32.zero_xor]
    rfl
  rw [hsum, frameSum, stale, ← wordSum_xor]
  exact wordSum_congr fun k _ => packetByte_received env hvalid old k

theorem listSum_checkedBytes (f : Frame) :
    listSum (checkedBytes f) = frameSum f.packet ^^^ f.crc := by
  have hlen := body_length_of_valid f.valid
  have hdata : (f.packet.header.bytes ++ f.packet.body).length =
      4 + f.packet.header.payloadLen.toNat := by
    rw [List.length_append, PacketHeader.bytes_length, hlen]
  have hwords : (f.packet.header.bytes ++ f.packet.body ++
      padding f.packet.header.payloadLen.toNat).length % 4 = 0 := by
    rw [List.length_append, hdata, padding, List.length_replicate]
    omega
  rw [checkedBytes, listSum_append _ hwords, listSum_bytes32, padding,
    listSum_zeros _ _ (f.packet.header.payloadLen.toNat + 4) (by omega) (by omega)]
  rfl

theorem accepted_iff (env : Env) (old : PacketPayload) (f : Frame) :
    rxCrc env (received f.packet old) = f.crc ↔
      listSum (checkedBytes f) = stale env old f.packet.header.payloadLen.toNat := by
  rw [rxCrc_received env f.valid, listSum_checkedBytes]
  exact xor_eq_comm

theorem checkedBytes_length (f : Frame) : (checkedBytes f).length =
    8 + f.packet.header.payloadLen.toNat + (4 - f.packet.header.payloadLen.toNat % 4) % 4 := by
  have hlen := body_length_of_valid f.valid
  simp only [checkedBytes, padding, List.length_append, List.length_replicate, bytes32_length,
    PacketHeader.bytes_length, hlen]
  omega

theorem refused_of_burst (env : Env) (old : PacketPayload) {f g : Frame}
    (hlen : f.packet.header.payloadLen = g.packet.header.payloadLen)
    (haccepted : rxCrc env (received f.packet old) = f.crc)
    (hburst : Burst (checkedBytes f) (checkedBytes g)) :
    rxCrc env (received g.packet old) ≠ g.crc := by
  have hsame : (checkedBytes f).length = (checkedBytes g).length := by
    rw [checkedBytes_length, checkedBytes_length, hlen]
  have hwords : (checkedBytes f).length % 4 = 0 := by
    rw [checkedBytes_length]
    omega
  have hne := listSum_ne_of_burst hsame hwords hburst
  rw [Ne, accepted_iff, ← hlen, ← (accepted_iff env old f).mp haccepted]
  exact hne.symm

theorem expected_append (env : Env) (old : PacketPayload) (before pieces : List Piece) :
    expected env old (before ++ pieces) =
      expected env old before ++ expected env (before.foldl Piece.payload old) pieces := by
  induction before generalizing old with
  | nil => rfl
  | cons x before ih => rw [List.cons_append, expected, expected, ih, List.foldl_cons, List.cons_append]

theorem expected_length (env : Env) (old : PacketPayload) (pieces : List Piece) :
    (expected env old pieces).length = pieces.length := by
  induction pieces generalizing old with
  | nil => rfl
  | cons x pieces ih => rw [expected, List.length_cons, ih, List.length_cons]

theorem expected_at (env : Env) (old : PacketPayload) (before : List Piece) (x : Piece)
    (after : List Piece) :
    (expected env old (before ++ x :: after))[before.length]? =
      some (x.outcome env (before.foldl Piece.payload old)) := by
  rw [expected_append, List.getElem?_append_right (expected_length env old before).le,
    expected_length, Nat.sub_self]
  rfl

theorem outcome_at (env : Env) (h : HostCommRxFsm) (q : HostCommTxQueue) (before : List Piece)
    (x : Piece) (after : List Piece) {rest : List UInt8} (hrest : rest.length < 4)
    {events : List RxEvent}
    (hs : arrivals events <+: (before ++ x :: after).flatMap Piece.bytes ++ rest)
    (hu : Along (Undisturbed env) (rxStep env) (hostCommRxFsmInit (.start h q)) events)
    (hdone : before.length < (outcomes (run (rxStep env) (hostCommRxFsmInit (.start h q))
      events)).length) :
    (outcomes (run (rxStep env) (hostCommRxFsmInit (.start h q)) events))[before.length]? =
      some (x.outcome env (before.foldl Piece.payload .zero)) := by
  obtain ⟨pk, taken, -, hwalk⟩ := walk_to_end env h q _ hrest hu hs
  have hprefix : outcomes (run (rxStep env) (hostCommRxFsmInit (.start h q)) events) <+:
      expected env .zero (before ++ x :: after) := outcomes_mono env hwalk
  obtain ⟨later, hall⟩ := hprefix
  have hat := expected_at env .zero before x after
  rwa [← hall, List.getElem?_append_left hdone] at hat

/-- A frame comes damaged but in its length, where in the same history it is
acknowledged as it was sent. It is acknowledged exactly if the damage cancels in
the exclusive or of its words, and never if it lies in four consecutive bytes. -/
theorem damage_answered (env : Env) (h : HostCommRxFsm) (q : HostCommTxQueue)
    (before after after' : List Piece) (f g : Frame)
    (hlen : f.packet.header.payloadLen = g.packet.header.payloadLen)
    (rest rest' : List UInt8) (hrest : rest.length < 4) (hrest' : rest'.length < 4)
    (events events' : List RxEvent)
    (hs : arrivals events <+: (before ++ .frame f :: after).flatMap Piece.bytes ++ rest)
    (hs' : arrivals events' <+: (before ++ .frame g :: after').flatMap Piece.bytes ++ rest')
    (hu : Along (Undisturbed env) (rxStep env) (hostCommRxFsmInit (.start h q)) events)
    (hu' : Along (Undisturbed env) (rxStep env) (hostCommRxFsmInit (.start h q)) events') :
    let s := run (rxStep env) (hostCommRxFsmInit (.start h q)) events
    let s' := run (rxStep env) (hostCommRxFsmInit (.start h q)) events'
    (outcomes s)[before.length]? = some (.ack f.packet.header f.packet.body) →
      before.length < (outcomes s').length →
      (outcomes s')[before.length]? =
          some (if listSum (checkedBytes g) = listSum (checkedBytes f)
            then .ack g.packet.header g.packet.body else .nack) ∧
        (Burst (checkedBytes f) (checkedBytes g) → (outcomes s')[before.length]? = some .nack) := by
  intro s s' hack hdone
  let old := before.foldl Piece.payload PacketPayload.zero
  have haccepted : rxCrc env (received f.packet old) = f.crc := by
    obtain ⟨hlt, -⟩ := List.getElem?_eq_some_iff.mp hack
    have houtcome := outcome_at env h q before (.frame f) after hrest hs hu hlt
    rw [hack, Piece.outcome] at houtcome
    by_contra hne
    rw [if_neg hne] at houtcome
    cases houtcome
  have houtcome := outcome_at env h q before (.frame g) after' hrest' hs' hu' hdone
  rw [houtcome, Piece.outcome]
  refine ⟨?_, fun hburst => ?_⟩
  · have hiff : rxCrc env (received g.packet old) = g.crc ↔
        listSum (checkedBytes g) = listSum (checkedBytes f) := by
      rw [accepted_iff, ← hlen, ← (accepted_iff env old f).mp haccepted]
    simp only [old] at hiff
    simp only [hiff]
  · rw [if_neg (refused_of_burst env old hlen haccepted hburst)]

/-- Of five payload bytes the fourth is damaged. -/
theorem damage_answered_one_byte :
    let env : Env := ⟨fun _ => 0, 0⟩
    let h : HostCommRxFsm := ⟨.invalid, .invalid, .invalid, timeEventStop, timeEventStop,
      timeEventStop, ⟨⟨0, 0, 0⟩, .zero⟩⟩
    let sent (b : UInt8) : PacketData := ⟨⟨1, hostToTargetDir, 5⟩, .load .zero [1, 2, 3, b, 5]⟩
    let f : Frame := ⟨[], sent 4, 0x406b905, protocolPostamble, blocks_nil _, by decide, rfl⟩
    let g : Frame := ⟨[], sent 6, 0x406b905, protocolPostamble, blocks_nil _, by decide, rfl⟩
    let events (f : Frame) := f.bytes.map .rxByte ++ List.replicate 8 (.run [])
    let s := run (rxStep env) (hostCommRxFsmInit (.start h hostCommTxQueueInit)) (events f)
    let s' := run (rxStep env) (hostCommRxFsmInit (.start h hostCommTxQueueInit)) (events g)
    outcomes s = [.ack f.packet.header [1, 2, 3, 4, 5]] ∧ (outcomes s')[0]? = some .nack := by
  intro env h sent f g events s s'
  have hack : outcomes s = [.ack f.packet.header [1, 2, 3, 4, 5]] := by decide +kernel
  have hs : arrivals (events f) <+: ([] ++ [Piece.frame f]).flatMap Piece.bytes ++ [] := by decide +kernel
  have hs' : arrivals (events g) <+: ([] ++ [Piece.frame g]).flatMap Piece.bytes ++ [] := by decide +kernel
  have hburst : Burst (checkedBytes f) (checkedBytes g) :=
    ⟨by decide +kernel, 7, by decide +kernel, by decide +kernel⟩
  exact ⟨hack, (damage_answered env h hostCommTxQueueInit [] [] [] f g rfl [] [] (by decide)
    (by decide) (events f) (events g) hs hs' (by decide +kernel) (by decide +kernel)
    (by decide +kernel) (by decide +kernel)).2 hburst⟩

end HostComm.RxDamage
