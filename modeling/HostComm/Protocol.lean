import HostComm.LittleEndian

namespace HostComm.Protocol

open LittleEndian

abbrev maxPayloadSize : Nat := 256
abbrev preambleSizeBytes : Nat := 4
abbrev headerSizeBytes : Nat := 4
abbrev crcSizeBytes : Nat := 4
abbrev postambleSizeBytes : Nat := 4

abbrev targetToHostDir : UInt8 := 0xAA
abbrev hostToTargetDir : UInt8 := 0xBB

abbrev cmdStart : UInt8 := 0x00
abbrev cmdEnd : UInt8 := 0x55
abbrev evtStart : UInt8 := 0x56
abbrev evtEnd : UInt8 := 0xAB
abbrev resStart : UInt8 := 0xAC
abbrev resEnd : UInt8 := 0xFF

abbrev targetToHostResAck : UInt8 := 0xAD
abbrev targetToHostResNack : UInt8 := 0xAE
abbrev targetToHostEvtPrintDbgMsg : UInt8 := 0x58

abbrev preamble : UInt32 := 0xAA55AA55
abbrev postamble : UInt32 := 0xBB55BB55

def protocolPreamble : List UInt8 := bytes32 preamble

def protocolPostamble : List UInt8 := bytes32 postamble

/-- Four bytes in memory: the `type` union and the direction take one each. -/
structure PacketHeader where
  type : UInt8
  dir : UInt8
  payloadLen : UInt16
  deriving DecidableEq, Repr

structure PacketPayload where
  buffer : Fin maxPayloadSize → UInt8

structure PacketData where
  header : PacketHeader
  payload : PacketPayload

def isHostToTargetCmd (cmd : UInt8) : Bool := cmdStart < cmd && cmd < cmdEnd

def isHostToTargetEvt (evt : UInt8) : Bool := evtStart < evt && evt < evtEnd

def isHostToTargetRes (res : UInt8) : Bool := resStart < res && res < resEnd

def protocolCheckValidHeader (packet : PacketData) : Bool :=
  if isHostToTargetCmd packet.header.type || isHostToTargetEvt packet.header.type ||
      isHostToTargetRes packet.header.type then
    if packet.header.payloadLen.toNat < maxPayloadSize then
      if packet.header.dir = hostToTargetDir then true else false
    else false
  else false

namespace PacketHeader

def bytes (h : PacketHeader) : List UInt8 := h.type :: h.dir :: bytes16 h.payloadLen

def ofBytes (bs : List UInt8) : PacketHeader :=
  ⟨bs.getD 0 0, bs.getD 1 0, word16 (bs.drop 2)⟩

/-- Bytes stored through a pointer to the header: they replace the first ones. -/
def load (h : PacketHeader) (bs : List UInt8) : PacketHeader :=
  ofBytes (bs ++ h.bytes.drop bs.length)

@[simp] theorem bytes_length (h : PacketHeader) : h.bytes.length = 4 := by simp [bytes]

@[simp] theorem ofBytes_bytes (h : PacketHeader) : ofBytes h.bytes = h := by
  simp [ofBytes, bytes]

theorem bytes_ofBytes {bs : List UInt8} (h : bs.length = 4) : (ofBytes bs).bytes = bs := by
  match bs, h with
  | [a, b, c, d], _ =>
      have hlen : bytes16 (word16 [c, d]) = [c, d] := bytes16_word16 rfl
      simp [ofBytes, bytes, hlen]

@[simp] theorem load_bytes (h k : PacketHeader) : h.load k.bytes = k := by
  simp [load, List.drop_eq_nil_of_le]

theorem load_eq {bs : List UInt8} (h : PacketHeader) (hl : bs.length = 4) :
    h.load bs = ofBytes bs := by
  simp [load, List.drop_eq_nil_of_le, hl]

end PacketHeader

namespace PacketPayload

def bytes (p : PacketPayload) : List UInt8 := List.ofFn p.buffer

def load (p : PacketPayload) (bs : List UInt8) : PacketPayload :=
  ⟨fun i => bs.getD i (p.buffer i)⟩

def zero : PacketPayload := ⟨fun _ => 0⟩

@[simp] theorem bytes_length (p : PacketPayload) : p.bytes.length = maxPayloadSize :=
  List.length_ofFn

theorem getElem_bytes (p : PacketPayload) (i : Nat) (hi : i < p.bytes.length) :
    p.bytes[i] = p.buffer ⟨i, bytes_length p ▸ hi⟩ := by
  simp only [bytes, List.getElem_ofFn]

theorem buffer_load (p : PacketPayload) (bs : List UInt8) (i : Fin maxPayloadSize) :
    (p.load bs).buffer i = bs.getD i (p.buffer i) := rfl

theorem bytes_load (p : PacketPayload) {bs : List UInt8} (h : bs.length ≤ maxPayloadSize) :
    (p.load bs).bytes = bs ++ p.bytes.drop bs.length := by
  apply List.ext_getElem
  · rw [List.length_append, List.length_drop, bytes_length, bytes_length]
    omega
  · intro i h₁ h₂
    rw [getElem_bytes, buffer_load]
    by_cases hi : i < bs.length
    · rw [List.getElem_append_left hi]
      simp only [List.getD_eq_getElem?_getD, List.getElem?_eq_getElem hi, Option.getD_some]
    · rw [List.getElem_append_right (by omega), List.getElem_drop]
      have he : bs.length + (i - bs.length) = i := by omega
      simp only [List.getD_eq_getElem?_getD, List.getElem?_eq_none (Nat.le_of_not_lt hi),
        Option.getD_none, he]
      rw [getElem_bytes]

theorem take_load (p : PacketPayload) {bs : List UInt8} (h : bs.length ≤ maxPayloadSize) :
    (p.load bs).bytes.take bs.length = bs := by
  rw [bytes_load p h, List.take_left']
  rfl

end PacketPayload

def PacketData.bytes (p : PacketData) : List UInt8 := p.header.bytes ++ p.payload.bytes

def PacketData.body (p : PacketData) : List UInt8 := p.payload.bytes.take p.header.payloadLen.toNat

theorem valid_len {p : PacketData} (h : protocolCheckValidHeader p = true) :
    p.header.payloadLen.toNat < maxPayloadSize := by
  unfold protocolCheckValidHeader at h
  split_ifs at h
  assumption

theorem valid_header {p q : PacketData} (h : p.header = q.header) :
    protocolCheckValidHeader p = protocolCheckValidHeader q := by
  simp only [protocolCheckValidHeader, h]

theorem body_length {p : PacketData} (h : p.header.payloadLen.toNat ≤ maxPayloadSize) :
    p.body.length = p.header.payloadLen.toNat := by
  rw [PacketData.body, List.length_take, PacketPayload.bytes_length, Nat.min_eq_left h]

end HostComm.Protocol
