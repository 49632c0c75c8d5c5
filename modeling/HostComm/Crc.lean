import HostComm.Protocol
import HostComm.XorWords

namespace HostComm.Crc

open Protocol LittleEndian XorWords

/-- Memory from a packet structure on: its 260 bytes, then `after`, the bytes
of whatever objects follow it. -/
def packetByte (p : PacketData) (after : Nat → UInt8) (k : Nat) : UInt8 :=
  if k < headerSizeBytes then p.header.bytes.getD k 0
  else if h : k - headerSizeBytes < maxPayloadSize then p.payload.buffer ⟨k - headerSizeBytes, h⟩
  else after (k - headerSizeBytes - maxPayloadSize)

def wordAt (mem : Nat → UInt8) (i : Nat) : UInt32 :=
  word32 [mem (4 * i), mem (4 * i + 1), mem (4 * i + 2), mem (4 * i + 3)]

def headerPtr (p : PacketData) (after : Nat → UInt8) : Nat → UInt32 := wordAt (packetByte p after)

def payloadPtr (p : PacketData) (after : Nat → UInt8) : Nat → UInt32 :=
  wordAt fun k => packetByte p after (headerSizeBytes + k)

/-- `len - 1` in a 32-bit `size_t`. -/
def sizePred (len : Nat) : Nat := (len + (2 ^ 32 - 1)) % 2 ^ 32

def crc32Accumulate (buff : Nat → UInt32) (len : Nat) (crcValue : UInt32) : UInt32 :=
  (List.range (sizePred len)).foldl (fun crc i => crc ^^^ buff (i + 1)) (crcValue ^^^ buff 0)

theorem crc32Accumulate_eq (buff : Nat → UInt32) {len : Nat} (hpos : 0 < len) (hlt : len < 2 ^ 32)
    (crcValue : UInt32) : crc32Accumulate buff len crcValue = crcValue ^^^ xorWords buff 0 len := by
  obtain ⟨k, rfl⟩ : ∃ k, len = k + 1 := Nat.exists_eq_succ_of_ne_zero (by omega)
  have hpred : sizePred (k + 1) = k := by
    unfold sizePred
    omega
  have hfold : (List.range k).foldl (fun crc i => crc ^^^ buff (i + 1)) (crcValue ^^^ buff 0) =
      (List.range' 1 k).foldl (fun crc i => crc ^^^ buff i) (crcValue ^^^ buff 0) := by
    rw [List.range'_eq_map_range, List.foldl_map]
    simp only [Nat.add_comm 1]
  rw [crc32Accumulate, hpred, hfold, foldl_xor, xorWords, UInt32.xor_assoc]

theorem headerPtr_succ (p : PacketData) (after : Nat → UInt8) (i : Nat) :
    headerPtr p after (1 + i) = payloadPtr p after i := by
  simp only [headerPtr, payloadPtr, wordAt, headerSizeBytes]
  rw [show 4 * (1 + i) = 4 + 4 * i by omega]
  simp only [Nat.add_assoc]

theorem xorWords_headerPtr (p : PacketData) (after : Nat → UInt8) (count : Nat) :
    xorWords (headerPtr p after) 0 (count + 1) =
      headerPtr p after 0 ^^^ xorWords (payloadPtr p after) 0 count := by
  have hshift := xorWords_shift (headerPtr p after) 1 0 count
  simp only [headerPtr_succ] at hshift
  rw [xorWords, hshift]

theorem headerPtr_zero {p q : PacketData} (a b : Nat → UInt8) (h : p.header = q.header) :
    headerPtr p a 0 = headerPtr q b 0 := by
  simp [headerPtr, wordAt, packetByte, headerSizeBytes, h]

def frameWords (p : PacketData) : Nat := min p.header.payloadLen.toNat maxPayloadSize / 4

theorem buffer_eq_of_body {p q : PacketData} (hh : p.header = q.header) (hb : p.body = q.body)
    (k : Nat) (hk : k < maxPayloadSize) (hl : k < p.header.payloadLen.toNat) :
    p.payload.buffer ⟨k, hk⟩ = q.payload.buffer ⟨k, hk⟩ := by
  have hp : p.body[k]? = some (p.payload.buffer ⟨k, hk⟩) := by
    rw [PacketData.body, List.getElem?_take_of_lt hl, List.getElem?_eq_getElem (by simpa using hk),
      PacketPayload.getElem_bytes]
  have hq : q.body[k]? = some (q.payload.buffer ⟨k, hk⟩) := by
    rw [PacketData.body, List.getElem?_take_of_lt (hh ▸ hl),
      List.getElem?_eq_getElem (by simpa using hk), PacketPayload.getElem_bytes]
  rw [hb, hq] at hp
  exact (Option.some.inj hp).symm

theorem payloadPtr_congr {p q : PacketData} (a b : Nat → UInt8) (hh : p.header = q.header)
    (hb : p.body = q.body) {i : Nat} (hi : i < frameWords p) :
    payloadPtr p a i = payloadPtr q b i := by
  have hbyte (j : Nat) (hj : j < 4) : packetByte p a (headerSizeBytes + (4 * i + j)) =
      packetByte q b (headerSizeBytes + (4 * i + j)) := by
    have hlt : 4 * i + j < min p.header.payloadLen.toNat maxPayloadSize := by
      unfold frameWords at hi
      omega
    have hbuf : 4 * i + j < maxPayloadSize := Nat.lt_of_lt_of_le hlt (Nat.min_le_right _ _)
    have hsub : headerSizeBytes + (4 * i + j) - headerSizeBytes = 4 * i + j := Nat.add_sub_cancel_left ..
    simp only [packetByte, if_neg (Nat.not_lt.mpr (Nat.le_add_right headerSizeBytes (4 * i + j))),
      hsub, dif_pos hbuf]
    exact buffer_eq_of_body hh hb _ hbuf (Nat.lt_of_lt_of_le hlt (Nat.min_le_left _ _))
  have h0 := hbyte 0 (by omega)
  have h1 := hbyte 1 (by omega)
  have h2 := hbyte 2 (by omega)
  have h3 := hbyte 3 (by omega)
  rw [Nat.add_zero] at h0
  simp only [payloadPtr, wordAt, h0, h1, h2, h3]

theorem frameWords_congr {p q : PacketData} (h : p.header = q.header) :
    frameWords p = frameWords q := by
  rw [frameWords, frameWords, h]

theorem xorWords_frame {p q : PacketData} (a b : Nat → UInt8) (hh : p.header = q.header)
    (hb : p.body = q.body) {count : Nat} (hc : count ≤ frameWords p) :
    xorWords (payloadPtr p a) 0 count = xorWords (payloadPtr q b) 0 count := by
  apply xorWords_congr
  intro i _ hi
  exact payloadPtr_congr a b hh hb (by omega)

end HostComm.Crc
