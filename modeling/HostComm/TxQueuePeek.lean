import HostComm.TxQueueFifo

namespace HostComm.TxQueuePeek

open LittleEndian ByteRings Protocol TxQueue TxQueueFifo Runs

/-- The fetch returns what the read would return, and fills the same fields
with the same data. -/
structure PeekAgrees (q : HostCommTxQueue) (req : TxRequest) : Prop where
  status : (hostCommTxQueueFetchRequest q req).1 = (hostCommTxQueueReadRequest q req).1
  filled : SameRequest (hostCommTxQueueFetchRequest q req).2 (hostCommTxQueueReadRequest q req).2.2

/-- Nothing is pending, or the source, the flag and the header of the oldest
record are all zero. -/
def OldestBlank (q : HostCommTxQueue) : Prop :=
  q.packetCnt = 0 ∨ q.cb.contents.take 6 = List.replicate 6 0

instance (q : HostCommTxQueue) : Decidable (OldestBlank q) := inferInstanceAs (Decidable (_ ∨ _))

def ackByte (r : TxRequest) : UInt8 := if r.ackExpected then 1 else 0

theorem encode_eq (r : TxRequest) : encode r = [r.src, ackByte r, r.packet.header.type,
    r.packet.header.dir] ++ (bytes16 r.packet.header.payloadLen ++ r.packet.body) := rfl

theorem take_six (r : TxRequest) (rest : List UInt8) : (encode r ++ rest).take 6 =
    [r.src, ackByte r, r.packet.header.type, r.packet.header.dir] ++
      bytes16 r.packet.header.payloadLen := by
  rw [encode_eq, ← List.append_assoc, List.append_assoc, List.take_left' (by simp)]

/-- What the fetch takes for the header: the four bytes at the tail, which are
the source, the flag, the type and the direction. -/
def misread (r : TxRequest) : PacketHeader :=
  ⟨r.src, ackByte r, word16 [r.packet.header.type, r.packet.header.dir]⟩

theorem fetchRequest_pending {q : HostCommTxQueue} {r : TxRequest} {rest : List UInt8}
    (hcnt : 0 < q.packetCnt) (hq : q.cb.contents = encode r ++ rest) (req : TxRequest) :
    hostCommTxQueueFetchRequest q req =
      (true,
        { src := r.src, ackExpected := r.src != 0
          packet := ⟨misread r,
            req.packet.payload.load ((q.cb.fetch (misread r).payloadLen.toNat).getD [])⟩ }) := by
  have hlen : 6 ≤ q.cb.contents.length := by
    rw [hq, encode_eq]
    simp
  have hone : q.cb.fetch 1 = some [r.src] := by
    rw [ByteRing.fetch_eq, if_pos (by omega), hq]
    rfl
  have hfour : q.cb.fetch headerSizeBytes =
      some [r.src, ackByte r, r.packet.header.type, r.packet.header.dir] := by
    rw [ByteRing.fetch_eq, if_pos (by simp only [headerSizeBytes]; omega), hq]
    rfl
  have hload : req.packet.header.load [r.src, ackByte r, r.packet.header.type,
      r.packet.header.dir] = misread r := PacketHeader.load_eq _ rfl
  rw [hostCommTxQueueFetchRequest, if_pos hcnt]
  simp only [hone, hfour, Option.getD_some, List.headD_cons, List.head?_cons, Option.map_some, hload]

theorem misread_len (src : UInt8) : (word16 [src, 1]).toNat = src.toNat + 256 := by
  have hlt := src.toNat_lt
  have hone : (1 : UInt8).toNat = 1 := rfl
  rw [word16, UInt16.toNat_ofNat', leValue, leValue, leValue, hone]
  omega

theorem misread_eq_iff {r : TxRequest} (hr : Fits r) :
    (r.src != 0) = r.ackExpected ∧ misread r = r.packet.header ↔
      r.src = 0 ∧ ackByte r = 0 ∧ r.packet.header = ⟨0, 0, 0⟩ := by
  have hfit : r.packet.header.payloadLen.toNat ≤ 251 := hr
  constructor
  · rintro ⟨hack, hsame⟩
    have htype : r.packet.header.type = r.src := (congrArg PacketHeader.type hsame).symm
    have hdir : r.packet.header.dir = ackByte r := (congrArg PacketHeader.dir hsame).symm
    have hlen : word16 [r.src, ackByte r] = r.packet.header.payloadLen := by
      have := congrArg PacketHeader.payloadLen hsame
      rwa [misread, htype, hdir] at this
    cases hflag : r.ackExpected with
    | false =>
        have hsrc : r.src = 0 := by simpa [hflag] using hack
        have hbyte : ackByte r = 0 := by simp [ackByte, hflag]
        rw [hsrc, hbyte] at hlen
        refine ⟨hsrc, hbyte, ?_⟩
        rw [← hsame, misread, htype, hdir, hsrc, hbyte]
        rfl
    | true =>
        have hbyte : ackByte r = 1 := by simp [ackByte, hflag]
        rw [← hlen, hbyte, misread_len] at hfit
        omega
  · rintro ⟨hsrc, hbyte, hheader⟩
    refine ⟨?_, ?_⟩
    · cases hflag : r.ackExpected with
      | false => simp [hsrc]
      | true => simp [ackByte, hflag] at hbyte
    · rw [misread, hsrc, hbyte, hheader]
      rfl

theorem blank_iff (r : TxRequest) (rest : List UInt8) :
    (encode r ++ rest).take 6 = List.replicate 6 0 ↔
      r.src = 0 ∧ ackByte r = 0 ∧ r.packet.header = ⟨0, 0, 0⟩ := by
  rw [take_six]
  constructor
  · intro h
    have hsplit : [r.src, ackByte r, r.packet.header.type, r.packet.header.dir] ++
        bytes16 r.packet.header.payloadLen = [0, 0, 0, 0] ++ [0, 0] := h
    obtain ⟨hfour, hlen⟩ := List.append_inj hsplit rfl
    simp only [List.cons.injEq, and_true] at hfour
    obtain ⟨hsrc, hbyte, htype, hdir⟩ := hfour
    refine ⟨hsrc, hbyte, ?_⟩
    have hzero : r.packet.header.payloadLen = 0 := by
      rw [← word16_bytes16 r.packet.header.payloadLen, hlen]
      rfl
    calc r.packet.header = ⟨r.packet.header.type, r.packet.header.dir,
            r.packet.header.payloadLen⟩ := rfl
      _ = ⟨0, 0, 0⟩ := by rw [htype, hdir, hzero]
  · rintro ⟨hsrc, hbyte, hheader⟩
    rw [hsrc, hbyte, hheader]
    rfl

theorem fetch_zero (q : HostCommTxQueue) : (q.cb.fetch 0).getD [] = [] := by
  rw [ByteRing.fetch_eq, if_pos (Nat.zero_le _)]
  rfl

theorem peekAgrees_pending {q : HostCommTxQueue} {r : TxRequest} {L : List TxRequest}
    (h : Holds q (r :: L)) (req : TxRequest) : PeekAgrees q req ↔ OldestBlank q := by
  have hr : Fits r := h.fits r List.mem_cons_self
  have hcnt : 0 < q.packetCnt := by simp [h.count]
  have hq : q.cb.contents = encode r ++ L.flatMap encode := by simp [h.stored]
  obtain ⟨q', hread, -⟩ := holds_read h req
  have hfetch := fetchRequest_pending hcnt hq req
  rw [OldestBlank, or_iff_right (by omega), hq, blank_iff]
  constructor
  · rintro ⟨-, hfilled⟩
    rw [hfetch, hread] at hfilled
    exact (misread_eq_iff hr).mp ⟨hfilled.ackExpected, hfilled.header⟩
  · intro hblank
    obtain ⟨hack, hsame⟩ := (misread_eq_iff hr).mpr hblank
    have hheader : r.packet.header = ⟨0, 0, 0⟩ := hblank.2.2
    have hnone : r.packet.body = [] := by
      rw [PacketData.body, hheader]
      rfl
    refine ⟨by rw [hfetch, hread], ?_⟩
    rw [hfetch, hread, hsame, hheader]
    refine ⟨rfl, hack, ?_, ?_⟩
    · simp only [delivered, hheader]
    · simp only [delivered, hheader, hnone]
      change PacketData.body ⟨_, req.packet.payload.load ((q.cb.fetch 0).getD [])⟩ = _
      rw [fetch_zero]

theorem peekAgrees_empty {q : HostCommTxQueue} (h : Holds q []) (req : TxRequest) :
    PeekAgrees q req ↔ OldestBlank q := by
  have hcnt : q.packetCnt = 0 := h.count
  have hfetch : hostCommTxQueueFetchRequest q req = (false, req) := by
    rw [hostCommTxQueueFetchRequest, if_neg (by omega)]
  refine iff_of_true ⟨?_, ?_⟩ (.inl hcnt)
  · rw [hfetch, read_empty h]
  · rw [hfetch, read_empty h]
    exact .refl req

/-- Every field is fetched from the tail, so the two decoders of a record agree
only on a record that starts with zeros. -/
theorem fetchRequest_agrees_iff (ops : List QueueOp)
    (hfit : ∀ r, QueueOp.write r ∈ ops → Fits r) (req : TxRequest) :
    PeekAgrees (run queueStep hostCommTxQueueInit ops) req ↔
      OldestBlank (run queueStep hostCommTxQueueInit ops) := by
  obtain ⟨L, D, hL, -, -⟩ := run_conserves holds_init ops hfit
  cases L with
  | nil => exact peekAgrees_empty hL req
  | cons r L => exact peekAgrees_pending hL req

def blankRequest : TxRequest := ⟨0, ⟨⟨0, 0, 0⟩, .zero⟩, false⟩

def eventRequest : TxRequest := ⟨txSrcFwUser, ⟨⟨targetToHostEvtPrintDbgMsg, targetToHostDir, 3⟩, .zero⟩, true⟩

theorem fetchRequest_agrees_blank :
    PeekAgrees (run queueStep hostCommTxQueueInit [.write blankRequest]) eventRequest :=
  (fetchRequest_agrees_iff [.write blankRequest] (by
    intro r hr
    cases List.mem_singleton.mp hr
    decide) eventRequest).mpr (by decide +kernel)

/-- The flag and the header of a queued event come out as other values. -/
theorem fetchRequest_misreads :
    Fits eventRequest ∧
      ¬ PeekAgrees (run queueStep hostCommTxQueueInit [.write eventRequest]) blankRequest := by
  refine ⟨by decide, fun h => ?_⟩
  have hheader := h.filled.header
  revert hheader
  decide +kernel

end HostComm.TxQueuePeek
