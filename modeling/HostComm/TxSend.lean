import HostComm.Crc
import HostComm.UartDriver

namespace HostComm.TxSend

open CircularBuffer ByteRings Protocol LittleEndian Crc UartDriver

/-- What a call finds behind the packet structure it sums, and in an automatic
variable before the first store. Behind the packet of a request lie its
acknowledge flag, for which a run has `Env.behind`, and what follows the handle
of the transmitter; behind the packet of the receiver whatever objects follow its
handle, such as the one of the transmitter. A check value reads there from 62
payload bytes on (the receiver) and from 65 on (the sender). A run with one `Env`
assumes that these bytes, the flag apart, stay as they are. -/
structure Env where
  after : Nat → UInt8
  junk : UInt8

def Env.behind (env : Env) (ackExpected : Bool) : Env :=
  { env with after := Function.update env.after 0 (if ackExpected then 1 else 0) }

def sendCrcAndPostamble (env : Env) (u : Uart) (crc : UInt32) : Bool × Uart :=
  let t := uartTransmitIt env.junk u (bytes32 crc)
  if t.1 = false then (false, t.2)
  else
    let t := uartTransmitIt env.junk t.2 protocolPostamble
    if t.1 = false then (false, t.2) else (true, t.2)

def txSendPacket (env : Env) (u : Uart) (packet : PacketData) : Bool × Uart :=
  let t := uartTransmitIt env.junk u protocolPreamble
  if t.1 = false then (false, t.2)
  else
    let crc := crc32Accumulate (headerPtr packet env.after) headerSizeBytes 0
    let t := uartTransmitIt env.junk t.2 packet.header.bytes
    if t.1 = false then (false, t.2)
    else if packet.header.payloadLen.toNat ≠ 0 then
      let crc := crc32Accumulate (payloadPtr packet env.after) packet.header.payloadLen.toNat crc
      -- the length parameter of the transmit function is a `uint8_t`
      let t := uartTransmitIt env.junk t.2
        (packet.payload.bytes.take (packet.header.payloadLen.toNat % 256))
      if t.1 = false then (false, t.2) else sendCrcAndPostamble env t.2 crc
    else sendCrcAndPostamble env t.2 crc

def txCrc (env : Env) (p : PacketData) : UInt32 :=
  let crc := crc32Accumulate (headerPtr p env.after) headerSizeBytes 0
  if p.header.payloadLen.toNat ≠ 0 then
    crc32Accumulate (payloadPtr p env.after) p.header.payloadLen.toNat crc
  else crc

def frameParts (env : Env) (p : PacketData) : List (List UInt8) :=
  [protocolPreamble, p.header.bytes] ++
    (if p.header.payloadLen.toNat ≠ 0
      then [p.payload.bytes.take (p.header.payloadLen.toNat % 256)] else []) ++
    [bytes32 (txCrc env p), protocolPostamble]

def sendAll (junk : UInt8) (u : Uart) : List (List UInt8) → Bool × Uart
  | [] => (true, u)
  | data :: rest =>
      let t := uartTransmitIt junk u data
      if t.1 = false then (false, t.2) else sendAll junk t.2 rest

theorem txSendPacket_eq (env : Env) (u : Uart) (p : PacketData) :
    txSendPacket env u p = sendAll env.junk u (frameParts env p) := by
  have htail (v : Uart) (crc : UInt32) : sendCrcAndPostamble env v crc =
      sendAll env.junk v [bytes32 crc, protocolPostamble] := rfl
  by_cases hlen : p.header.payloadLen.toNat ≠ 0
  · have hcrc : txCrc env p = crc32Accumulate (payloadPtr p env.after) p.header.payloadLen.toNat
        (crc32Accumulate (headerPtr p env.after) headerSizeBytes 0) := if_pos hlen
    simp only [txSendPacket, frameParts, if_pos hlen, htail, hcrc]
    rfl
  · have hcrc : txCrc env p = crc32Accumulate (headerPtr p env.after) headerSizeBytes 0 := if_neg hlen
    simp only [txSendPacket, frameParts, if_neg hlen, htail, hcrc]
    rfl

@[simp] theorem tx_startTx (u : Uart) (chunk : List UInt8) : (startTx u chunk).tx = u.tx := rfl

theorem handed_transmit (junk : UInt8) (u : Uart) (data : List UInt8) :
    (uartTransmitIt junk u data).2.handed = u.handed ++ [data] := by
  simp only [uartTransmitIt]
  split_ifs <;> rfl

theorem transmit_room (junk : UInt8) (u : Uart) {data : List UInt8} (h : u.tx.Room data.length) :
    (uartTransmitIt junk u data).1 = true ∧
      (uartTransmitIt junk u data).2.tx.contents.length ≤ u.tx.contents.length + data.length := by
  obtain ⟨hok, hc⟩ := u.tx.write_of_room data h
  simp only [uartTransmitIt, if_pos hok]
  split_ifs
  · refine ⟨rfl, ?_⟩
    simp only [tx_startTx, ByteRing.contents_get, hc, List.length_tail, List.length_append]
    omega
  · refine ⟨rfl, ?_⟩
    simp only [hc, List.length_append, Nat.le_refl]

theorem sendAll_handed (junk : UInt8) (parts : List (List UInt8)) (u : Uart)
    (hne : ∀ d ∈ parts, d ≠ [])
    (hroom : u.tx.contents.length + (parts.map List.length).sum ≤ txDataBuffSize) :
    (sendAll junk u parts).1 = true ∧ (sendAll junk u parts).2.handed = u.handed ++ parts := by
  induction parts generalizing u with
  | nil => exact ⟨rfl, (List.append_nil _).symm⟩
  | cons data rest ih =>
      simp only [List.map_cons, List.sum_cons] at hroom
      have hpos : 0 < data.length := List.length_pos_of_ne_nil (hne data List.mem_cons_self)
      have hhere : u.tx.Room data.length := ⟨by omega, by omega⟩
      obtain ⟨hok, hlen⟩ := transmit_room junk u hhere
      obtain ⟨hrest, hhanded⟩ := ih (uartTransmitIt junk u data).2
        (fun d hd => hne d (List.mem_cons_of_mem _ hd)) (by omega)
      refine ⟨?_, ?_⟩
      · simp only [sendAll, hok, Bool.true_eq_false, if_false, hrest]
      · simp only [sendAll, hok, Bool.true_eq_false, if_false, hhanded, handed_transmit,
          List.append_assoc, List.singleton_append]

theorem frameParts_ne_nil (env : Env) {p : PacketData} (h : p.header.payloadLen.toNat < maxPayloadSize) :
    ∀ d ∈ frameParts env p, d ≠ [] := by
  have hnil {d : List UInt8} {k : Nat} (hk : d.length = k + 1) : d ≠ [] := by
    rintro rfl
    simp at hk
  intro d hd
  simp only [frameParts, List.mem_append, List.mem_cons, List.not_mem_nil, or_false] at hd
  rcases hd with ((rfl | rfl) | hd) | (rfl | rfl)
  · exact hnil (bytes32_length _)
  · exact hnil (PacketHeader.bytes_length _)
  · split_ifs at hd with hz
    · obtain ⟨k, hk⟩ := Nat.exists_eq_succ_of_ne_zero hz
      apply hnil (k := k)
      rw [List.mem_singleton.mp hd, List.length_take, PacketPayload.bytes_length,
        Nat.mod_eq_of_lt h, Nat.min_eq_left h.le, hk]
    · exact absurd hd List.not_mem_nil
  · exact hnil (bytes32_length _)
  · exact hnil (bytes32_length _)

theorem frameParts_flatten (env : Env) {p : PacketData} (h : p.header.payloadLen.toNat < maxPayloadSize) :
    (frameParts env p).flatten =
      protocolPreamble ++ p.header.bytes ++ p.body ++ bytes32 (txCrc env p) ++ protocolPostamble := by
  by_cases hz : p.header.payloadLen.toNat = 0
  · have hbody : p.body = [] := by rw [PacketData.body, hz, List.take_zero]
    simp [frameParts, hz, hbody]
  · have hmod : p.header.payloadLen.toNat % 256 = p.header.payloadLen.toNat := Nat.mod_eq_of_lt h
    simp [frameParts, hz, hmod, PacketData.body]

theorem txSendPacket_handed (env : Env) (u : Uart) {p : PacketData}
    (h : p.header.payloadLen.toNat < maxPayloadSize)
    (hroom : u.tx.contents.length + (16 + p.header.payloadLen.toNat) ≤ txDataBuffSize) :
    (txSendPacket env u p).1 = true ∧
      (txSendPacket env u p).2.handed = u.handed ++ frameParts env p := by
  have hsum : ((frameParts env p).map List.length).sum = 16 + p.header.payloadLen.toNat := by
    have hflat := congrArg List.length (frameParts_flatten env h)
    have hpre : protocolPreamble.length = 4 := bytes32_length _
    have hpost : protocolPostamble.length = 4 := bytes32_length _
    rw [List.length_flatten] at hflat
    rw [hflat]
    simp only [List.length_append, PacketHeader.bytes_length, body_length h.le, bytes32_length,
      hpre, hpost]
    omega
  rw [txSendPacket_eq]
  exact sendAll_handed env.junk _ u (frameParts_ne_nil env h) (by rw [hsum]; exact hroom)

end HostComm.TxSend
