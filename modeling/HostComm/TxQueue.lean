import HostComm.ByteRings
import HostComm.Protocol
import HostComm.Runs

namespace HostComm.TxQueue

open ByteRings Protocol

abbrev txQueueBuffSize : Nat := 1024

abbrev txSrcFwUser : UInt8 := 2
abbrev txSrcRxFsm : UInt8 := 3

structure TxRequest where
  src : UInt8
  packet : PacketData
  ackExpected : Bool

structure HostCommTxQueue where
  packetCnt : Nat
  cb : ByteRing txQueueBuffSize

def hostCommTxQueueInit : HostCommTxQueue := ⟨0, .init (fun _ => 0) (by decide)⟩

def hostCommTxQueueGetPendingTransfers (q : HostCommTxQueue) : Nat := q.packetCnt

/-- The `uint8_t` local: header and payload bytes of a request. -/
def packetDataLen (req : TxRequest) : Nat :=
  (headerSizeBytes + req.packet.header.payloadLen.toNat) % 256

def hostCommTxQueueWriteRequest (q : HostCommTxQueue) (req : TxRequest) : Bool × HostCommTxQueue :=
  if packetDataLen req + 1 < q.cb.freeSpace then
    let cb := q.cb.put req.src
    let cb := cb.put (if req.ackExpected then 1 else 0)
    let cb := (cb.write (req.packet.bytes.take (packetDataLen req))).2
    (true, ⟨q.packetCnt + 1, cb⟩)
  else (false, q)

/-- The fields are stored through pointers into the request, so a short read
leaves the rest of a field as it was. -/
def hostCommTxQueueReadRequest (q : HostCommTxQueue) (req : TxRequest) :
    Bool × HostCommTxQueue × TxRequest :=
  if 0 < q.packetCnt then
    let src := q.cb.get
    let ack := src.2.get
    let hdr := ack.2.read headerSizeBytes
    let header := req.packet.header.load hdr.2.1
    let body := hdr.2.2.read header.payloadLen.toNat
    (true, ⟨q.packetCnt - 1, body.2.2⟩,
      { src := src.1.getD req.src
        ackExpected := (ack.1.map (· != 0)).getD req.ackExpected
        packet := ⟨header, req.packet.payload.load body.2.1⟩ })
  else (false, q, req)

def hostCommTxQueueFetchRequest (q : HostCommTxQueue) (req : TxRequest) : Bool × TxRequest :=
  if 0 < q.packetCnt then
    let src := (q.cb.fetch 1).getD []
    let ack := (q.cb.fetch 1).getD []
    let header := req.packet.header.load ((q.cb.fetch headerSizeBytes).getD [])
    let body := (q.cb.fetch header.payloadLen.toNat).getD []
    (true,
      { src := src.headD req.src
        ackExpected := (ack.head?.map (· != 0)).getD req.ackExpected
        packet := ⟨header, req.packet.payload.load body⟩ })
  else (false, req)

def encode (req : TxRequest) : List UInt8 :=
  req.src :: (if req.ackExpected then 1 else 0) :: (req.packet.header.bytes ++ req.packet.body)

/-- Equal in everything that is sent; the rest of the payload buffer is free. -/
structure SameRequest (r s : TxRequest) : Prop where
  src : r.src = s.src
  ackExpected : r.ackExpected = s.ackExpected
  header : r.packet.header = s.packet.header
  body : r.packet.body = s.packet.body

/-- Header and payload length fit the byte count of the queue. -/
def Fits (req : TxRequest) : Prop := req.packet.header.payloadLen.toNat ≤ 251

instance (req : TxRequest) : Decidable (Fits req) := inferInstanceAs (Decidable (_ ≤ _))

structure Holds (q : HostCommTxQueue) (L : List TxRequest) : Prop where
  count : q.packetCnt = L.length
  stored : q.cb.contents = L.flatMap encode
  fits : ∀ r ∈ L, Fits r

theorem SameRequest.refl (r : TxRequest) : SameRequest r r := ⟨rfl, rfl, rfl, rfl⟩

theorem body_length_of_fits {r : TxRequest} (h : Fits r) :
    r.packet.body.length = r.packet.header.payloadLen.toNat := by
  have hle : r.packet.header.payloadLen.toNat ≤ 251 := h
  apply body_length
  simp only [maxPayloadSize]
  omega

theorem packetDataLen_of_fits {r : TxRequest} (h : Fits r) :
    packetDataLen r = 4 + r.packet.header.payloadLen.toNat := by
  have hle : r.packet.header.payloadLen.toNat ≤ 251 := h
  simp only [packetDataLen, headerSizeBytes]
  omega

theorem packet_bytes_of_fits {r : TxRequest} (h : Fits r) :
    r.packet.bytes.take (packetDataLen r) = r.packet.header.bytes ++ r.packet.body := by
  rw [packetDataLen_of_fits h, PacketData.bytes, List.take_append, PacketHeader.bytes_length,
    List.take_of_length_le (by simp), Nat.add_sub_cancel_left]
  rfl

theorem writeRequest_eq (q : HostCommTxQueue) (r : TxRequest) :
    if packetDataLen r + 1 < q.cb.freeSpace then (hostCommTxQueueWriteRequest q r).1 = true
    else hostCommTxQueueWriteRequest q r = (false, q) := by
  rw [hostCommTxQueueWriteRequest]
  by_cases hroom : packetDataLen r + 1 < q.cb.freeSpace
  · rw [if_pos hroom, if_pos hroom]
  · rw [if_neg hroom, if_neg hroom]

theorem holds_init : Holds hostCommTxQueueInit [] :=
  ⟨rfl, by simp [hostCommTxQueueInit], by simp⟩

theorem write_accepted {q : HostCommTxQueue} {r : TxRequest} (hr : Fits r)
    (hroom : 6 + r.packet.header.payloadLen.toNat ≤ txQueueBuffSize - q.cb.contents.length) :
    (hostCommTxQueueWriteRequest q r).1 = true ∧
      (hostCommTxQueueWriteRequest q r).2.packetCnt = q.packetCnt + 1 ∧
      (hostCommTxQueueWriteRequest q r).2.cb.contents = q.cb.contents ++ encode r := by
  have hlen := body_length_of_fits hr
  have hguard : packetDataLen r + 1 < q.cb.freeSpace := by
    rw [packetDataLen_of_fits hr, ByteRing.freeSpace_eq]
    omega
  have hput (c : ByteRing txQueueBuffSize) (b : UInt8) (hc : c.contents.length < txQueueBuffSize) :=
    c.contents_put b hc
  let ackByte : UInt8 := if r.ackExpected then 1 else 0
  have h1 : (q.cb.put r.src).contents = q.cb.contents ++ [r.src] := hput _ _ (by omega)
  have h2 : ((q.cb.put r.src).put ackByte).contents = q.cb.contents ++ [r.src] ++ [ackByte] := by
    rw [hput _ _ (by rw [h1]; simp; omega), h1]
  have h3 := ((q.cb.put r.src).put ackByte).write_of_room
    (r.packet.header.bytes ++ r.packet.body) ⟨by rw [h2]; simp; omega, by rw [h2]; simp [hlen]; omega⟩
  rw [hostCommTxQueueWriteRequest, if_pos hguard, packet_bytes_of_fits hr]
  refine ⟨rfl, rfl, ?_⟩
  change (((q.cb.put r.src).put ackByte).write (r.packet.header.bytes ++ r.packet.body)).2.contents = _
  rw [h3.2, h2]
  simp [encode, ackByte]

theorem write_rejected {q : HostCommTxQueue} {r : TxRequest} (hr : Fits r)
    (hno : ¬ 6 + r.packet.header.payloadLen.toNat ≤ txQueueBuffSize - q.cb.contents.length) :
    hostCommTxQueueWriteRequest q r = (false, q) := by
  have hguard : ¬ packetDataLen r + 1 < q.cb.freeSpace := by
    rw [packetDataLen_of_fits hr, ByteRing.freeSpace_eq]
    omega
  rw [hostCommTxQueueWriteRequest, if_neg hguard]

/-- What the read leaves in a request structure: the fields of the queued
request, over what the payload buffer held. -/
def delivered (r req : TxRequest) : TxRequest :=
  { src := r.src, ackExpected := r.ackExpected
    packet := ⟨r.packet.header, req.packet.payload.load r.packet.body⟩ }

theorem delivered_same {r : TxRequest} (hr : Fits r) (req : TxRequest) :
    SameRequest r (delivered r req) := by
  refine ⟨rfl, rfl, rfl, ?_⟩
  have hlen := body_length_of_fits hr
  have hfit : r.packet.header.payloadLen.toNat ≤ 251 := hr
  have hle : r.packet.body.length ≤ maxPayloadSize := by
    rw [hlen]
    exact hfit.trans (by decide)
  have htake := PacketPayload.take_load req.packet.payload hle
  rw [hlen] at htake
  exact htake.symm

theorem read_oldest {q : HostCommTxQueue} {r : TxRequest} {rest : List UInt8} (hr : Fits r)
    (hcnt : 0 < q.packetCnt) (hq : q.cb.contents = encode r ++ rest) (req : TxRequest) :
    ∃ q', hostCommTxQueueReadRequest q req = (true, q', delivered r req) ∧
      q'.packetCnt = q.packetCnt - 1 ∧ q'.cb.contents = rest := by
  have hlen := body_length_of_fits hr
  have hsrc : q.cb.get.1 = some r.src := by rw [ByteRing.get_fst, hq]; rfl
  have hack : q.cb.get.2.get.1 = some (if r.ackExpected then 1 else 0) := by
    rw [ByteRing.get_fst, ByteRing.contents_get, hq]
    rfl
  have hcont : q.cb.get.2.get.2.contents = r.packet.header.bytes ++ (r.packet.body ++ rest) := by
    rw [ByteRing.contents_get, ByteRing.contents_get, hq]
    simp [encode]
  have hhdr : (q.cb.get.2.get.2.read headerSizeBytes).2.1 = r.packet.header.bytes := by
    rw [ByteRing.read_bytes, hcont, List.take_left' (PacketHeader.bytes_length _)]
  have hcont₂ : (q.cb.get.2.get.2.read headerSizeBytes).2.2.contents = r.packet.body ++ rest := by
    rw [ByteRing.contents_read, hcont, List.drop_left' (PacketHeader.bytes_length _)]
  have hload : req.packet.header.load r.packet.header.bytes = r.packet.header :=
    PacketHeader.load_bytes _ _
  have hbool : ((if r.ackExpected then (1 : UInt8) else 0) != 0) = r.ackExpected := by
    cases r.ackExpected <;> rfl
  refine ⟨⟨q.packetCnt - 1, ((q.cb.get.2.get.2.read headerSizeBytes).2.2.read
    r.packet.header.payloadLen.toNat).2.2⟩, ?_, rfl, ?_⟩
  · have hbody : ((q.cb.get.2.get.2.read headerSizeBytes).2.2.read
        r.packet.header.payloadLen.toNat).2.1 = r.packet.body := by
      rw [ByteRing.read_bytes, hcont₂, List.take_left' hlen]
    rw [hostCommTxQueueReadRequest, if_pos hcnt]
    simp only [hsrc, hack, hhdr, hload, Option.getD_some, Option.map_some, hbool, hbody]
    rfl
  · simp only [ByteRing.contents_read, hcont₂, List.drop_left' hlen]

theorem holds_write {q : HostCommTxQueue} {L : List TxRequest} (h : Holds q L) {r : TxRequest}
    (hr : Fits r) :
    if 6 + r.packet.header.payloadLen.toNat ≤ txQueueBuffSize - q.cb.contents.length
    then (hostCommTxQueueWriteRequest q r).1 = true ∧
      Holds (hostCommTxQueueWriteRequest q r).2 (L ++ [r])
    else hostCommTxQueueWriteRequest q r = (false, q) := by
  split_ifs with hroom
  · obtain ⟨hok, hcnt, hcont⟩ := write_accepted hr hroom
    refine ⟨hok, ?_, ?_, ?_⟩
    · simp [hcnt, h.count]
    · simp [hcont, h.stored]
    · intro s hs
      rcases List.mem_append.mp hs with hs | hs
      · exact h.fits s hs
      · exact (List.mem_singleton.mp hs) ▸ hr
  · exact write_rejected hr hroom

theorem holds_read {q : HostCommTxQueue} {r : TxRequest} {L : List TxRequest}
    (h : Holds q (r :: L)) (req : TxRequest) :
    ∃ q', hostCommTxQueueReadRequest q req = (true, q', delivered r req) ∧ Holds q' L := by
  have hr : Fits r := h.fits r List.mem_cons_self
  have hcnt : 0 < q.packetCnt := by simp [h.count]
  have hq : q.cb.contents = encode r ++ L.flatMap encode := by simp [h.stored]
  obtain ⟨q', hread, hcnt', hcont⟩ := read_oldest hr hcnt hq req
  refine ⟨q', hread, ?_, hcont, fun s hs => h.fits s (List.mem_cons_of_mem _ hs)⟩
  rw [hcnt', h.count, List.length_cons, Nat.add_sub_cancel]

theorem read_empty {q : HostCommTxQueue} (h : Holds q []) (req : TxRequest) :
    hostCommTxQueueReadRequest q req = (false, q, req) := by
  have hcnt : ¬ 0 < q.packetCnt := by simp [h.count]
  rw [hostCommTxQueueReadRequest, if_neg hcnt]

end HostComm.TxQueue
