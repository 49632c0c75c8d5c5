import HostComm.RxFsm

namespace HostComm.CrcBounds

open Protocol LittleEndian Crc TxSend RxFsm

def loadWord (mem : List UInt8) (k : Nat) : Option UInt32 := do
  return word32 [← mem[k]?, ← mem[k + 1]?, ← mem[k + 2]?, ← mem[k + 3]?]

/-- One pass of the loop over a buffer whose reads may fail. -/
def accumulateChecked (buff : Nat → Option UInt32) (crc : UInt32) (i : Nat) : Option UInt32 :=
  (buff (i + 1)).map (crc ^^^ ·)

def crc32AccumulateChecked (buff : Nat → Option UInt32) (len : Nat) (crcValue : UInt32) :
    Option UInt32 :=
  (buff 0).bind fun w => (List.range (sizePred len)).foldlM (accumulateChecked buff) (crcValue ^^^ w)

def headerWord (p : PacketData) (i : Nat) : Option UInt32 := loadWord p.bytes (4 * i)

def payloadWord (p : PacketData) (i : Nat) : Option UInt32 :=
  loadWord p.bytes (headerSizeBytes + 4 * i)

def rxCrcChecked (p : PacketData) : Option UInt32 :=
  crc32AccumulateChecked (headerWord p) (headerSizeBytes + p.header.payloadLen.toNat) 0

def txCrcChecked (p : PacketData) : Option UInt32 :=
  (crc32AccumulateChecked (headerWord p) headerSizeBytes 0).bind fun crc =>
    if p.header.payloadLen.toNat ≠ 0 then
      crc32AccumulateChecked (payloadWord p) p.header.payloadLen.toNat crc
    else some crc

theorem foldlM_isSome (buff : Nat → Option UInt32) (is : List Nat) (crc : UInt32) :
    (is.foldlM (accumulateChecked buff) crc).isSome ↔ ∀ i ∈ is, (buff (i + 1)).isSome := by
  induction is generalizing crc with
  | nil => simp
  | cons i is ih =>
      rw [List.foldlM_cons, List.forall_mem_cons, accumulateChecked]
      cases buff (i + 1) with
      | none => simp
      | some w =>
          rw [Option.map_some, Option.isSome_some, eq_self, true_and]
          exact ih (crc ^^^ w)

theorem foldlM_eq {buff : Nat → Option UInt32} {mem : Nat → UInt32}
    (hmem : ∀ i w, buff i = some w → w = mem i) (is : List Nat) {crc c : UInt32}
    (h : is.foldlM (accumulateChecked buff) crc = some c) :
    c = is.foldl (fun crc i => crc ^^^ mem (i + 1)) crc := by
  induction is generalizing crc with
  | nil =>
      rw [List.foldlM_nil] at h
      exact (Option.some.inj h).symm
  | cons i is ih =>
      rw [List.foldlM_cons, accumulateChecked] at h
      cases hread : buff (i + 1) with
      | none =>
          rw [hread] at h
          cases h
      | some w =>
          rw [hread] at h
          rw [List.foldl_cons, ← hmem _ _ hread]
          exact ih h

theorem checked_isSome (buff : Nat → Option UInt32) {len : Nat} (hpos : 0 < len)
    (hlt : len < 2 ^ 32) (crcValue : UInt32) :
    (crc32AccumulateChecked buff len crcValue).isSome ↔ ∀ i < len, (buff i).isSome := by
  obtain ⟨k, rfl⟩ : ∃ k, len = k + 1 := Nat.exists_eq_succ_of_ne_zero (by omega)
  have hpred : sizePred (k + 1) = k := by
    unfold sizePred
    omega
  rw [crc32AccumulateChecked, hpred, Nat.forall_lt_succ_left']
  cases buff 0 with
  | none => simp
  | some w =>
      have hloop := foldlM_isSome buff (List.range k) (crcValue ^^^ w)
      simp only [List.mem_range] at hloop
      rw [Option.bind_some, hloop, Option.isSome_some, eq_self, true_and]

theorem checked_eq {buff : Nat → Option UInt32} {mem : Nat → UInt32}
    (hmem : ∀ i w, buff i = some w → w = mem i) {len : Nat} {crcValue c : UInt32}
    (h : crc32AccumulateChecked buff len crcValue = some c) :
    c = crc32Accumulate mem len crcValue := by
  rw [crc32AccumulateChecked] at h
  rw [crc32Accumulate]
  generalize List.range (sizePred len) = is at h ⊢
  cases hread : buff 0 with
  | none =>
      rw [hread] at h
      cases h
  | some w =>
      rw [hread, Option.bind_some] at h
      rw [← hmem 0 w hread]
      exact foldlM_eq hmem is h

theorem bytes_length (p : PacketData) : p.bytes.length = 260 := by
  rw [PacketData.bytes, List.length_append, PacketHeader.bytes_length, PacketPayload.bytes_length]
  rfl

theorem bytes_getElem (p : PacketData) (after : Nat → UInt8) {k : Nat} (h : k < p.bytes.length) :
    p.bytes[k] = packetByte p after k := by
  have hheader : p.header.bytes.length = 4 := PacketHeader.bytes_length p.header
  have hlt : k < 260 := bytes_length p ▸ h
  simp only [PacketData.bytes, packetByte]
  by_cases hk : k < 4
  · rw [List.getElem_append_left (hheader.symm ▸ hk), if_pos hk, List.getD_eq_getElem?_getD,
      List.getElem?_eq_getElem (hheader.symm ▸ hk), Option.getD_some]
  · have hsub : k - 4 < 256 := by omega
    rw [List.getElem_append_right (hheader.symm ▸ Nat.le_of_not_lt hk), if_neg hk, dif_pos hsub,
      PacketPayload.getElem_bytes]
    simp only [hheader]

theorem loadWord_none {mem : List UInt8} {k : Nat} (h : mem.length ≤ k + 3) : loadWord mem k = none := by
  have hlast : mem[k + 3]? = none := List.getElem?_eq_none h
  rw [loadWord, hlast]
  cases mem[k]? <;> cases mem[k + 1]? <;> cases mem[k + 2]? <;> rfl

theorem loadWord_some (p : PacketData) (after : Nat → UInt8) {k : Nat} (h : k + 3 < 260) :
    loadWord p.bytes k = some (word32 [packetByte p after k, packetByte p after (k + 1),
      packetByte p after (k + 2), packetByte p after (k + 3)]) := by
  have hbyte {j : Nat} (hj : j < 260) : p.bytes[j]? = some (packetByte p after j) := by
    have hlt : j < p.bytes.length := (bytes_length p).symm ▸ hj
    rw [List.getElem?_eq_getElem hlt, bytes_getElem p after hlt]
  have h0 : k < 260 := by omega
  have h1 : k + 1 < 260 := by omega
  have h2 : k + 2 < 260 := by omega
  rw [loadWord, hbyte h, hbyte h0, hbyte h1, hbyte h2]
  rfl

theorem loadWord_isSome (p : PacketData) (k : Nat) : (loadWord p.bytes k).isSome ↔ k + 4 ≤ 260 := by
  by_cases h : k + 3 < 260
  · rw [loadWord_some p (fun _ => 0) h]
    exact iff_of_true rfl h
  · rw [loadWord_none (by rw [bytes_length]; exact Nat.le_of_not_lt h)]
    exact iff_of_false Bool.false_ne_true h

theorem headerWord_eq (p : PacketData) (after : Nat → UInt8) (i : Nat) (w : UInt32)
    (h : headerWord p i = some w) : w = headerPtr p after i := by
  have hin : 4 * i + 4 ≤ 260 := (loadWord_isSome p _).mp (by rw [← headerWord, h]; rfl)
  rw [headerWord, loadWord_some p after hin] at h
  exact (Option.some.inj h).symm

theorem payloadWord_eq (p : PacketData) (after : Nat → UInt8) (i : Nat) (w : UInt32)
    (h : payloadWord p i = some w) : w = payloadPtr p after i := by
  have hin : headerSizeBytes + 4 * i + 4 ≤ 260 :=
    (loadWord_isSome p _).mp (by rw [← payloadWord, h]; rfl)
  rw [payloadWord, loadWord_some p after hin] at h
  exact (Option.some.inj h).symm

theorem forall_words_iff {len b : Nat} (p : PacketData) (hpos : 0 < len) :
    (∀ i < len, (loadWord p.bytes (b + 4 * i)).isSome) ↔ b + 4 * len ≤ 260 := by
  simp only [loadWord_isSome]
  constructor
  · intro h
    have hlast := h (len - 1) (Nat.sub_lt hpos Nat.one_pos)
    omega
  · intro h i hi
    omega

theorem rxCrc_inside (p : PacketData) :
    (rxCrcChecked p).isSome ↔ p.header.payloadLen.toNat ≤ 61 := by
  have hmax : p.header.payloadLen.toNat < 2 ^ 16 := p.header.payloadLen.toNat_lt
  have hpos : 0 < 4 + p.header.payloadLen.toNat := by omega
  have hlt : 4 + p.header.payloadLen.toNat < 2 ^ 32 := by omega
  have hwords := forall_words_iff (b := 0) p hpos
  simp only [Nat.zero_add] at hwords
  refine (checked_isSome (headerWord p) hpos hlt 0).trans (hwords.trans ?_)
  omega

theorem headerCrc_inside (p : PacketData) :
    (crc32AccumulateChecked (headerWord p) headerSizeBytes 0).isSome := by
  rw [checked_isSome _ (by decide) (by decide)]
  intro i hi
  have hfour : i < 4 := hi
  rw [headerWord, loadWord_isSome]
  omega

theorem txCrc_inside (p : PacketData) :
    (txCrcChecked p).isSome ↔ p.header.payloadLen.toNat ≤ 64 := by
  have hmax : p.header.payloadLen.toNat < 2 ^ 16 := p.header.payloadLen.toNat_lt
  obtain ⟨crc, hcrc⟩ := Option.isSome_iff_exists.mp (headerCrc_inside p)
  rw [txCrcChecked, hcrc, Option.bind_some]
  by_cases hzero : p.header.payloadLen.toNat ≠ 0
  · have hpos : 0 < p.header.payloadLen.toNat := Nat.pos_of_ne_zero hzero
    have hlt : p.header.payloadLen.toNat < 2 ^ 32 := by omega
    rw [if_pos hzero]
    refine (checked_isSome (payloadWord p) hpos hlt crc).trans ((forall_words_iff (b := 4) p hpos).trans ?_)
    omega
  · rw [if_neg hzero]
    have hempty : p.header.payloadLen.toNat = 0 := not_not.mp hzero
    exact iff_of_true rfl (hempty ▸ Nat.zero_le 64)

/-- The reads of the check value loop stay inside the packet for short
payloads only, and then give the value the machines compute. -/
theorem crc_reads_inside (p : PacketData) :
    ((rxCrcChecked p).isSome ↔ p.header.payloadLen.toNat ≤ 61) ∧
      ((txCrcChecked p).isSome ↔ p.header.payloadLen.toNat ≤ 64) ∧
      ∀ env : Env, (∀ c, rxCrcChecked p = some c → c = rxCrc env p) ∧
        ∀ c, txCrcChecked p = some c → c = txCrc env p := by
  refine ⟨rxCrc_inside p, txCrc_inside p, fun env => ⟨fun c h => ?_, fun c h => ?_⟩⟩
  · exact checked_eq (headerWord_eq p env.after) h
  · obtain ⟨crc, hcrc⟩ := Option.isSome_iff_exists.mp (headerCrc_inside p)
    have hfirst := checked_eq (headerWord_eq p env.after) hcrc
    rw [txCrcChecked, hcrc, Option.bind_some] at h
    rw [txCrc, ← hfirst]
    by_cases hzero : p.header.payloadLen.toNat ≠ 0
    · rw [if_pos hzero] at h ⊢
      exact checked_eq (payloadWord_eq p env.after) h
    · rw [if_neg hzero] at h ⊢
      exact (Option.some.inj h).symm

/-- A valid header with a payload length of 62, and a request of 65 bytes. -/
theorem crc_reads_leave :
    (protocolCheckValidHeader ⟨⟨1, hostToTargetDir, 62⟩, .zero⟩ = true ∧
        rxCrcChecked ⟨⟨1, hostToTargetDir, 62⟩, .zero⟩ = none) ∧
      txCrcChecked ⟨⟨targetToHostEvtPrintDbgMsg, targetToHostDir, 65⟩, .zero⟩ = none := by
  refine ⟨⟨by decide, ?_⟩, ?_⟩
  · rw [← Option.not_isSome_iff_eq_none, rxCrc_inside]
    decide
  · rw [← Option.not_isSome_iff_eq_none, txCrc_inside]
    decide

end HostComm.CrcBounds
