import HostComm.TxFsm
import HostComm.TxQueueFifo
import Mathlib.Data.List.Forall2

namespace HostComm.TxDbgMsg

open ByteRings Protocol LittleEndian TxQueue TxQueueFifo TxSend TxFsm Runs

/-- Any later use of the queue delivers the records of the list, and the ones
accepted after them, whole and in order. -/
def Delivers (q : HostCommTxQueue) (L : List TxRequest) : Prop :=
  ∀ ops : List QueueOp, (∀ r, QueueOp.write r ∈ ops → Fits r) → ∃ D L',
    L ++ acceptedBy q ops = D ++ L' ∧ List.Forall₂ SameRequest D (deliveredBy q ops) ∧
      hostCommTxQueueGetPendingTransfers (run queueStep q ops) = L'.length

structure DbgRecord (dbgMsg : List UInt8) (ackExpected : Bool) (r : TxRequest) : Prop where
  src : r.src = txSrcFwUser
  ackExpected : r.ackExpected = ackExpected
  dir : r.packet.header.dir = targetToHostDir
  type : r.packet.header.type = targetToHostEvtPrintDbgMsg
  payloadLen : r.packet.header.payloadLen.toNat = dbgMsg.length
  body : r.packet.body = dbgMsg

/-- A message that is accepted becomes one more record of the queue, and one
that is refused changes nothing. -/
def Survives (q : HostCommTxQueue) (L : List TxRequest) (local_ : TxRequest) (dbgMsg : List UInt8)
    (ackExpected : Bool) : Prop :=
  let w := hostCommTxFsmWriteDbgMsg q local_ dbgMsg ackExpected
  if w.1 = true then ∃ r, DbgRecord dbgMsg ackExpected r ∧ Delivers w.2 (L ++ [r]) else w.2 = q

def dbgRequest (local_ : TxRequest) (dbgMsg : List UInt8) (ackExpected : Bool) : TxRequest :=
  { src := txSrcFwUser, ackExpected
    packet := ⟨⟨targetToHostEvtPrintDbgMsg, targetToHostDir, UInt16.ofNat dbgMsg.length⟩,
      local_.packet.payload.load (dbgMsg.take (UInt16.ofNat dbgMsg.length).toNat)⟩ }

theorem storedLen (dbgMsg : List UInt8) :
    (UInt16.ofNat dbgMsg.length).toNat = dbgMsg.length % 65536 := rfl

theorem delivers_of_holds {q : HostCommTxQueue} {L : List TxRequest} (h : Holds q L) :
    Delivers q L := by
  intro ops hfit
  obtain ⟨L', D, hL, heq, hsame⟩ := run_conserves h ops hfit
  exact ⟨D, L', heq, hsame, hL.count⟩

theorem writeDbgMsg_eq (q : HostCommTxQueue) (local_ : TxRequest) (dbgMsg : List UInt8)
    (ackExpected : Bool) :
    hostCommTxFsmWriteDbgMsg q local_ dbgMsg ackExpected =
      if 0 < dbgMsg.length % 65536 ∧ dbgMsg.length % 65536 < 256 then
        hostCommTxQueueWriteRequest q (dbgRequest local_ dbgMsg ackExpected)
      else (false, q) := rfl

theorem dbgRequest_record (local_ : TxRequest) {dbgMsg : List UInt8} (h : dbgMsg.length ≤ 251)
    (ackExpected : Bool) : DbgRecord dbgMsg ackExpected (dbgRequest local_ dbgMsg ackExpected) := by
  have hlen : (UInt16.ofNat dbgMsg.length).toNat = dbgMsg.length := by
    rw [storedLen]
    omega
  refine ⟨rfl, rfl, rfl, rfl, hlen, ?_⟩
  have hle : dbgMsg.length ≤ maxPayloadSize := h.trans (by decide)
  rw [PacketData.body, dbgRequest]
  simp only [hlen, List.take_length]
  exact PacketPayload.take_load _ hle

theorem survives_short {q : HostCommTxQueue} {L : List TxRequest} (h : Holds q L)
    (local_ : TxRequest) {dbgMsg : List UInt8} (hshort : dbgMsg.length ≤ 251) (ackExpected : Bool) :
    Survives q L local_ dbgMsg ackExpected := by
  have hrecord := dbgRequest_record local_ hshort ackExpected
  have hfit : Fits (dbgRequest local_ dbgMsg ackExpected) := hrecord.payloadLen.trans_le hshort
  have hw := holds_write h hfit
  rw [Survives, writeDbgMsg_eq]
  by_cases hguard : 0 < dbgMsg.length % 65536 ∧ dbgMsg.length % 65536 < 256
  · rw [if_pos hguard]
    split_ifs at hw with hroom
    · rw [if_pos hw.1]
      exact ⟨_, hrecord, delivers_of_holds hw.2⟩
    · rw [hw]
      rfl
  · rw [if_neg hguard]
    rfl

theorem deliveredBy_drain (z : TxRequest) {L : List TxRequest} (hfits : ∀ r ∈ L, Fits r)
    {q : HostCommTxQueue} {rest : List UInt8} {m : Nat} (hcnt : q.packetCnt = L.length + m)
    (hq : q.cb.contents = L.flatMap encode ++ rest) :
    ∃ q', q'.packetCnt = m ∧ q'.cb.contents = rest ∧ ∀ more,
      deliveredBy q (List.replicate L.length (.read z) ++ more) =
        L.map (fun r => delivered r z) ++ deliveredBy q' more := by
  induction L generalizing q with
  | nil => exact ⟨q, by simpa using hcnt, by simpa using hq, fun more => rfl⟩
  | cons r L ih =>
      rw [List.flatMap_cons, List.append_assoc] at hq
      rw [List.length_cons] at hcnt
      obtain ⟨q₁, hread, hcnt₁, hq₁⟩ := read_oldest (hfits r List.mem_cons_self) (by omega) hq z
      obtain ⟨q', hcnt', hq', hmore⟩ := ih (fun s hs => hfits s (List.mem_cons_of_mem _ hs))
        (q := q₁) (by omega) hq₁
      refine ⟨q', hcnt', hq', fun more => ?_⟩
      have hstep : queueStep q (.read z) = q₁ := by rw [queueStep, hread]
      rw [List.length_cons, List.replicate_succ, List.cons_append, deliveredBy, hread, hstep,
        hmore more]
      rfl

theorem acceptedBy_reads (q : HostCommTxQueue) (zs : List TxRequest) :
    acceptedBy q (zs.map .read) = [] := by
  induction zs generalizing q with
  | nil => rfl
  | cons z zs ih => exact ih (queueStep q (.read z))

def staleRequest : TxRequest := ⟨0, ⟨⟨0, 0, 256⟩, .zero⟩, false⟩

theorem word16_high (x : UInt8) : 256 ≤ (word16 [x, 1]).toNat := by
  have hx : x.toNat < 256 := x.toNat_lt
  have hvalue : leValue [x, 1] = x.toNat + 256 := rfl
  rw [word16, UInt16.toNat_ofNat', hvalue]
  omega

theorem load_short {w : List UInt8} (h : w.length ≤ 3) :
    256 ≤ (staleRequest.packet.header.load w).payloadLen.toNat := by
  rcases w with _ | ⟨a, _ | ⟨b, _ | ⟨c, _ | ⟨d, w⟩⟩⟩⟩
  · exact word16_high 0
  · exact word16_high 0
  · exact word16_high 0
  · exact word16_high c
  · simp only [List.length_cons] at h
    omega

/-- A record that starts with its two flag bytes and at most three bytes of
its header is not read back with the length of a message. -/
theorem read_cut {q : HostCommTxQueue} {src ack : UInt8} {w : List UInt8} (hcnt : 0 < q.packetCnt)
    (hq : q.cb.contents = src :: ack :: w) (hw : w.length ≤ 3) :
    (hostCommTxQueueReadRequest q staleRequest).1 = true ∧
      256 ≤ (hostCommTxQueueReadRequest q staleRequest).2.2.packet.header.payloadLen.toNat := by
  have hrest : q.cb.get.2.get.2.contents = w := by
    rw [ByteRing.contents_get, ByteRing.contents_get, hq]
    rfl
  have hread : (q.cb.get.2.get.2.read headerSizeBytes).2.1 = w := by
    rw [ByteRing.read_bytes, hrest]
    exact List.take_of_length_le (hw.trans (by decide))
  rw [hostCommTxQueueReadRequest, if_pos hcnt]
  simp only [hread]
  exact ⟨trivial, load_short hw⟩

theorem write_contents {n : Nat} (c : ByteRing n) (data : List UInt8)
    (h : c.contents.length + data.length ≤ n) : (c.write data).2.contents = c.contents ++ data := by
  by_cases hroom : c.Room data.length
  · exact (c.write_of_room data hroom).2
  · have hnil : data = [] := by
      apply List.eq_nil_of_length_eq_zero
      by_contra hne
      exact hroom ⟨by omega, h⟩
    rw [(c.write_of_no_room data hroom).2, hnil, List.append_nil]

theorem write_cut {q : HostCommTxQueue} {r : TxRequest} {n : Nat}
    (hlen : r.packet.header.payloadLen.toNat = 252 + n) (hn : n ≤ 3)
    (hok : (hostCommTxQueueWriteRequest q r).1 = true) :
    (hostCommTxQueueWriteRequest q r).2.packetCnt = q.packetCnt + 1 ∧
      ∃ ack, (hostCommTxQueueWriteRequest q r).2.cb.contents =
        q.cb.contents ++ (r.src :: ack :: r.packet.bytes.take n) := by
  have hcount : packetDataLen r = n := by
    simp only [packetDataLen, headerSizeBytes]
    omega
  have hsize : (r.packet.bytes.take n).length = n := by
    rw [List.length_take, PacketData.bytes, List.length_append, PacketHeader.bytes_length]
    omega
  rw [hostCommTxQueueWriteRequest, hcount] at hok ⊢
  by_cases hguard : n + 1 < q.cb.freeSpace
  · rw [if_pos hguard]
    rw [ByteRing.freeSpace_eq] at hguard
    refine ⟨rfl, if r.ackExpected then 1 else 0, ?_⟩
    generalize (if r.ackExpected then (1 : UInt8) else 0) = ack
    have h1 : (q.cb.put r.src).contents = q.cb.contents ++ [r.src] :=
      q.cb.contents_put _ (by omega)
    have h2 : ((q.cb.put r.src).put ack).contents = q.cb.contents ++ [r.src] ++ [ack] := by
      rw [ByteRing.contents_put _ _ (by rw [h1, List.length_append, List.length_singleton]; omega), h1]
    have h3 := write_contents ((q.cb.put r.src).put ack) (r.packet.bytes.take n) (by
      rw [h2, hsize, List.length_append, List.length_append, List.length_singleton,
        List.length_singleton]
      omega)
    simpa [h2] using h3
  · rw [if_neg hguard] at hok
    cases hok

theorem not_delivers_cut {q : HostCommTxQueue} {L : List TxRequest} (hfits : ∀ s ∈ L, Fits s)
    {src ack : UInt8} {w : List UInt8} (hcnt : q.packetCnt = L.length + 1)
    (hq : q.cb.contents = L.flatMap encode ++ src :: ack :: w) (hw : w.length ≤ 3) {r : TxRequest}
    (hr : r.packet.header.payloadLen.toNat < 256) : ¬ Delivers q (L ++ [r]) := by
  intro hdelivers
  obtain ⟨q', hcnt', hq', hmore⟩ := deliveredBy_drain staleRequest hfits hcnt hq
  obtain ⟨hok, hlarge⟩ := read_cut (hcnt' ▸ Nat.one_pos) hq' hw
  have hops : List.replicate L.length (QueueOp.read staleRequest) ++ [.read staleRequest] =
      (List.replicate (L.length + 1) staleRequest).map .read := by
    rw [List.map_replicate, List.replicate_succ']
  obtain ⟨D, L', heq, hsame, -⟩ := hdelivers
    (List.replicate L.length (.read staleRequest) ++ [.read staleRequest]) (by simp)
  have hlast : deliveredBy q' [.read staleRequest] =
      [(hostCommTxQueueReadRequest q' staleRequest).2.2] := by
    simp [deliveredBy, hok]
  rw [hmore, hlast] at hsame
  rw [hops, acceptedBy_reads, List.append_nil] at heq
  have hlength := hsame.length_eq
  have htotal := congrArg List.length heq
  simp only [List.length_append, List.length_map, List.length_singleton] at hlength htotal
  have hnil : L' = [] := List.eq_nil_of_length_eq_zero (by omega)
  rw [hnil, List.append_nil] at heq
  rw [← heq] at hsame
  have hrev := List.rel_reverse hsame
  rw [List.reverse_append, List.reverse_append] at hrev
  cases hrev with
  | cons hhead _ =>
      rw [← hhead.header] at hlarge
      omega

theorem not_survives_long {q : HostCommTxQueue} {L : List TxRequest} (h : Holds q L)
    {local_ : TxRequest} {dbgMsg : List UInt8} (hlong : 251 < dbgMsg.length) {ackExpected : Bool}
    (hok : (hostCommTxFsmWriteDbgMsg q local_ dbgMsg ackExpected).1 = true) :
    ¬ Survives q L local_ dbgMsg ackExpected := by
  rw [Survives, if_pos hok]
  rintro ⟨r, hrecord, hdelivers⟩
  have hlen := hrecord.payloadLen
  have hword : r.packet.header.payloadLen.toNat < 65536 := r.packet.header.payloadLen.toNat_lt
  have hmod : dbgMsg.length % 65536 = dbgMsg.length := Nat.mod_eq_of_lt (hlen ▸ hword)
  rw [writeDbgMsg_eq, hmod] at hok hdelivers
  by_cases hguard : 0 < dbgMsg.length ∧ dbgMsg.length < 256
  · rw [if_pos hguard] at hok hdelivers
    obtain ⟨n, hn⟩ : ∃ n, dbgMsg.length = 252 + n := Nat.exists_eq_add_of_le hlong
    have hstored : (dbgRequest local_ dbgMsg ackExpected).packet.header.payloadLen.toNat = 252 + n := by
      rw [← hn, ← hmod]
      exact storedLen dbgMsg
    obtain ⟨hcnt, ack, hcont⟩ := write_cut hstored (by omega) hok
    rw [h.count] at hcnt
    rw [h.stored] at hcont
    refine not_delivers_cut h.fits hcnt hcont ?_ (by omega) hdelivers
    rw [List.length_take]
    omega
  · rw [if_neg hguard] at hok
    cases hok

/-- A message is accepted when its stored length passes the check and the
truncated record length leaves room. -/
def Accepted (q : HostCommTxQueue) (len : Nat) : Prop :=
  (0 < len % 65536 ∧ len % 65536 < 256) ∧ (4 + len % 65536) % 256 + 1 < q.cb.freeSpace

instance (q : HostCommTxQueue) (len : Nat) : Decidable (Accepted q len) :=
  inferInstanceAs (Decidable (_ ∧ _))

theorem writeDbgMsg_cases (q : HostCommTxQueue) (local_ : TxRequest) (dbgMsg : List UInt8)
    (ackExpected : Bool) :
    if Accepted q dbgMsg.length then (hostCommTxFsmWriteDbgMsg q local_ dbgMsg ackExpected).1 = true
    else hostCommTxFsmWriteDbgMsg q local_ dbgMsg ackExpected = (false, q) := by
  have hw := writeRequest_eq q (dbgRequest local_ dbgMsg ackExpected)
  have hcount : packetDataLen (dbgRequest local_ dbgMsg ackExpected) =
      (4 + dbgMsg.length % 65536) % 256 := rfl
  rw [hcount] at hw
  rw [writeDbgMsg_eq]
  by_cases hguard : 0 < dbgMsg.length % 65536 ∧ dbgMsg.length % 65536 < 256
  · rw [if_pos hguard]
    by_cases hroom : (4 + dbgMsg.length % 65536) % 256 + 1 < q.cb.freeSpace
    · rw [if_pos hroom] at hw
      rw [if_pos ⟨hguard, hroom⟩]
      exact hw
    · rw [if_neg hroom] at hw
      rw [if_neg fun h => hroom h.2]
      exact hw
  · rw [if_neg hguard, if_neg fun h => hguard h.1]

def Survivable (q : HostCommTxQueue) (len : Nat) : Prop :=
  len ≤ 251 ∨ len % 65536 = 0 ∨ 256 ≤ len % 65536 ∨ q.cb.freeSpace ≤ (4 + len % 65536) % 256 + 1

theorem survives_iff {q : HostCommTxQueue} {L : List TxRequest} (h : Holds q L) (local_ : TxRequest)
    (dbgMsg : List UInt8) (ackExpected : Bool) :
    Survives q L local_ dbgMsg ackExpected ↔ Survivable q dbgMsg.length := by
  by_cases hshort : dbgMsg.length ≤ 251
  · exact iff_of_true (survives_short h local_ hshort ackExpected) (.inl hshort)
  have hw := writeDbgMsg_cases q local_ dbgMsg ackExpected
  by_cases haccepted : Accepted q dbgMsg.length
  · rw [if_pos haccepted] at hw
    refine iff_of_false (not_survives_long h (Nat.lt_of_not_le hshort) hw) ?_
    rw [Accepted] at haccepted
    rw [Survivable]
    omega
  · rw [if_neg haccepted] at hw
    refine iff_of_true ?_ ?_
    · rw [Survives, hw]
      rfl
    · rw [Accepted] at haccepted
      rw [Survivable]
      omega

/-- A debug message survives a queue that holds its records, as every history of
fitting writes and of reads leaves it, exactly when it is short or refused. -/
theorem dbgMsg_survives (ops : List QueueOp) (hfit : ∀ r, QueueOp.write r ∈ ops → Fits r) :
    (∃ D L : List TxRequest, acceptedBy hostCommTxQueueInit ops = D ++ L ∧
      List.Forall₂ SameRequest D (deliveredBy hostCommTxQueueInit ops) ∧
      Holds (run queueStep hostCommTxQueueInit ops) L) ∧
    ∀ (q : HostCommTxQueue) (L : List TxRequest), Holds q L →
      hostCommTxQueueGetPendingTransfers q = L.length ∧ Delivers q L ∧
      ∀ local_ dbgMsg ackExpected,
        Survives q L local_ dbgMsg ackExpected ↔ Survivable q dbgMsg.length := by
  refine ⟨?_, fun q L hL => ⟨hL.count, delivers_of_holds hL, survives_iff hL⟩⟩
  obtain ⟨L, D, hL, heq, hsame⟩ := run_conserves holds_init ops hfit
  exact ⟨D, L, by simpa using heq, hsame, hL⟩

theorem freeSpace_init : hostCommTxQueueInit.cb.freeSpace = 1024 := by
  rw [ByteRing.freeSpace_eq, hostCommTxQueueInit, ByteRing.contents_init]
  rfl

/-- A message of two characters behind a record that waits, after one that was read. -/
theorem dbgMsg_survives_second :
    let event (type : UInt8) (body : List UInt8) : TxRequest :=
      ⟨txSrcFwUser, ⟨⟨type, targetToHostDir, UInt16.ofNat body.length⟩,
        PacketPayload.zero.load body⟩, true⟩
    let ops : List QueueOp :=
      [.write (event 0x58 [1, 2, 3]), .write (event 0x59 [4]), .read staleRequest]
    ∃ L, L.length = 1 ∧
      Survives (run queueStep hostCommTxQueueInit ops) L staleRequest [0x48, 0x69] true := by
  intro event ops
  have hfit : ∀ r, QueueOp.write r ∈ ops → Fits r := by
    intro r hr
    have hcases : r = event 0x58 [1, 2, 3] ∨ r = event 0x59 [4] := by simpa [ops] using hr
    rcases hcases with rfl | rfl
    · decide
    · decide
  obtain ⟨⟨D, L, -, -, hL⟩, hheld⟩ := dbgMsg_survives ops hfit
  obtain ⟨hcnt, -, hiff⟩ := hheld _ L hL
  have hone : hostCommTxQueueGetPendingTransfers (run queueStep hostCommTxQueueInit ops) = 1 := by
    decide +kernel
  refine ⟨L, (hone.symm.trans hcnt).symm, ?_⟩
  rw [hiff]
  exact Or.inl (by decide)

theorem cut_of_length {dbgMsg : List UInt8} (hlen : dbgMsg.length = 252) :
    (hostCommTxFsmWriteDbgMsg hostCommTxQueueInit staleRequest dbgMsg true).1 = true ∧
      ¬ Survives hostCommTxQueueInit [] staleRequest dbgMsg true := by
  have hok := writeDbgMsg_cases hostCommTxQueueInit staleRequest dbgMsg true
  have haccepted : Accepted hostCommTxQueueInit dbgMsg.length := by
    rw [Accepted, hlen, freeSpace_init]
    decide
  rw [if_pos haccepted] at hok
  have hlong : 251 < dbgMsg.length := by omega
  exact ⟨hok, not_survives_long holds_init hlong hok⟩

/-- A message of 252 characters is accepted and its record is two bytes long. -/
theorem long_dbgMsg_cut :
    let dbgMsg : List UInt8 := List.replicate 252 0x41
    Delivers hostCommTxQueueInit [] ∧
      (hostCommTxFsmWriteDbgMsg hostCommTxQueueInit staleRequest dbgMsg true).1 = true ∧
      ¬ Survives hostCommTxQueueInit [] staleRequest dbgMsg true :=
  ⟨delivers_of_holds holds_init, cut_of_length List.length_replicate⟩

end HostComm.TxDbgMsg
