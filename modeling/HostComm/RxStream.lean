import HostComm.RxFsm

namespace HostComm.RxStream

open Protocol UartDriver ByteRings TxQueue RxFsm

/-- No announced byte is dropped silently: overflows are counted, and there is
none while the ring has room for all that is about to arrive. -/
structure Received (s s' : RxSys) : Prop where
  mono : s.overflows ≤ s'.overflows
  room : s.rx.contents.length + s.irqs.flatten.length ≤ rxDataBuffSize →
    s'.overflows = s.overflows ∧
      s'.rx.contents.length + s'.irqs.flatten.length ≤ rxDataBuffSize
  pending : s'.arrived ++ s'.irqs.flatten = s.arrived ++ s.irqs.flatten

/-- From `s` to `s'` the bytes `w` were taken from the ring, while interrupts
may have put bytes in. Without an overflow the stream stays intact. -/
structure Flow (s : RxSys) (w : List UInt8) (s' : RxSys) : Prop where
  consumed : s'.consumed = s.consumed ++ w
  flow : ∃ new, s'.arrived = s.arrived ++ new ∧
    (s'.overflows = s.overflows → s.rx.contents ++ new = w ++ s'.rx.contents)

structure Took (s : RxSys) (w : List UInt8) (s' : RxSys) : Prop extends Received s s', Flow s w s'

theorem Received.refl (s : RxSys) : Received s s := ⟨Nat.le_refl _, fun h => ⟨rfl, h⟩, rfl⟩

theorem Received.trans {s₁ s₂ s₃ : RxSys} (h : Received s₁ s₂) (k : Received s₂ s₃) :
    Received s₁ s₃ where
  mono := h.mono.trans k.mono
  room := by
    intro hroom
    obtain ⟨h₂, hroom₂⟩ := h.room hroom
    obtain ⟨h₃, hroom₃⟩ := k.room hroom₂
    exact ⟨h₃.trans h₂, hroom₃⟩
  pending := k.pending.trans h.pending

theorem Took.refl (s : RxSys) : Took s [] s where
  toReceived := .refl s
  consumed := (List.append_nil _).symm
  flow := ⟨[], (List.append_nil _).symm, fun _ => List.append_nil _⟩

theorem Took.trans {s₁ s₂ s₃ : RxSys} {v w : List UInt8} (h : Took s₁ v s₂) (k : Took s₂ w s₃) :
    Took s₁ (v ++ w) s₃ where
  toReceived := h.toReceived.trans k.toReceived
  consumed := by rw [k.consumed, h.consumed, List.append_assoc]
  flow := by
    obtain ⟨m, ham, hfm⟩ := h.flow
    obtain ⟨n, han, hfn⟩ := k.flow
    refine ⟨m ++ n, ?_, ?_⟩
    · rw [han, ham, List.append_assoc]
    · intro heq
      have h₁ := h.mono
      have h₂ := k.mono
      have hm := hfm (by omega)
      have hn := hfn (by omega)
      rw [← List.append_assoc, hm, List.append_assoc, hn, List.append_assoc]

theorem Received.update {s s' : RxSys} (h : Received s s') (handle : HostCommRxFsm)
    (queue : HostCommTxQueue) (responses : List RxResponse) :
    Received s { s' with handle, queue, responses } := ⟨h.mono, h.room, h.pending⟩

theorem Took.update {s s' : RxSys} {w : List UInt8} (h : Took s w s') (handle : HostCommRxFsm)
    (queue : HostCommTxQueue) (responses : List RxResponse) :
    Took s w { s' with handle, queue, responses } :=
  ⟨⟨h.mono, h.room, h.pending⟩, h.consumed, h.flow⟩

theorem contents_start (handle : HostCommRxFsm) (queue : HostCommTxQueue) :
    (RxSys.start handle queue).rx.contents = [] := ByteRing.contents_init _ (by decide)

section rxBytes

theorem rxBytes_fields (bytes : List UInt8) (s : RxSys) :
    (rxBytes s bytes).handle = s.handle ∧ (rxBytes s bytes).queue = s.queue ∧
      (rxBytes s bytes).irqs = s.irqs ∧ (rxBytes s bytes).reads = s.reads ∧
      (rxBytes s bytes).responses = s.responses ∧ (rxBytes s bytes).arrived = s.arrived ++ bytes := by
  induction bytes generalizing s with
  | nil => exact ⟨rfl, rfl, rfl, rfl, rfl, (List.append_nil _).symm⟩
  | cons b bytes ih =>
      obtain ⟨h₁, h₂, h₃, h₄, h₅, h₆⟩ := ih (rxByte s b)
      refine ⟨h₁, h₂, h₃, h₄, h₅, ?_⟩
      rw [rxBytes, List.foldl_cons, ← rxBytes, h₆]
      simp [rxByte]

theorem rx_rxBytes (bytes : List UInt8) (s : RxSys) :
    (rxBytes s bytes).rx = bytes.foldl rxArrival s.rx := by
  induction bytes generalizing s with
  | nil => rfl
  | cons b bytes ih => exact ih (rxByte s b)

@[simp] theorem handle_rxBytes (s : RxSys) (bytes : List UInt8) :
    (rxBytes s bytes).handle = s.handle := (rxBytes_fields bytes s).1

@[simp] theorem queue_rxBytes (s : RxSys) (bytes : List UInt8) :
    (rxBytes s bytes).queue = s.queue := (rxBytes_fields bytes s).2.1

@[simp] theorem irqs_rxBytes (s : RxSys) (bytes : List UInt8) :
    (rxBytes s bytes).irqs = s.irqs := (rxBytes_fields bytes s).2.2.1

@[simp] theorem reads_rxBytes (s : RxSys) (bytes : List UInt8) :
    (rxBytes s bytes).reads = s.reads := (rxBytes_fields bytes s).2.2.2.1

@[simp] theorem responses_rxBytes (s : RxSys) (bytes : List UInt8) :
    (rxBytes s bytes).responses = s.responses := (rxBytes_fields bytes s).2.2.2.2.1

@[simp] theorem arrived_rxBytes (s : RxSys) (bytes : List UInt8) :
    (rxBytes s bytes).arrived = s.arrived ++ bytes := (rxBytes_fields bytes s).2.2.2.2.2

@[simp] theorem consumed_rxBytes (s : RxSys) (bytes : List UInt8) :
    (rxBytes s bytes).consumed = s.consumed := by
  rw [RxSys.consumed, reads_rxBytes, RxSys.consumed]

theorem overflows_rxBytes (bytes : List UInt8) (s : RxSys) :
    s.overflows ≤ (rxBytes s bytes).overflows := by
  induction bytes generalizing s with
  | nil => exact Nat.le_refl _
  | cons b bytes ih =>
      refine Nat.le_trans ?_ (ih (rxByte s b))
      simp only [rxByte]
      split_ifs
      · exact Nat.le_refl _
      · exact Nat.le_succ _

theorem contents_rxByte {s : RxSys} {b : UInt8} (h : (rxByte s b).overflows = s.overflows) :
    (rxByte s b).rx.contents = s.rx.contents ++ [b] := by
  have hroom : s.rx.Room 1 := by
    by_contra hno
    simp [rxByte, hno] at h
  simp only [rxByte, rxArrival_contents, if_pos hroom.1]

theorem contents_rxBytes (bytes : List UInt8) (s : RxSys)
    (h : (rxBytes s bytes).overflows = s.overflows) :
    (rxBytes s bytes).rx.contents = s.rx.contents ++ bytes := by
  induction bytes generalizing s with
  | nil => exact (List.append_nil _).symm
  | cons b bytes ih =>
      have hrest := overflows_rxBytes bytes (rxByte s b)
      have hone : s.overflows ≤ (rxByte s b).overflows := overflows_rxBytes [b] s
      change (rxBytes (rxByte s b) bytes).overflows = _ at h
      change (rxBytes (rxByte s b) bytes).rx.contents = _
      rw [ih (rxByte s b) (by omega), contents_rxByte (by omega), List.append_assoc,
        List.singleton_append]

theorem room_rxBytes (bytes : List UInt8) (s : RxSys)
    (h : s.rx.contents.length + bytes.length ≤ rxDataBuffSize) :
    (rxBytes s bytes).overflows = s.overflows := by
  induction bytes generalizing s with
  | nil => rfl
  | cons b bytes ih =>
      rw [List.length_cons] at h
      have hroom : s.rx.Room 1 := ⟨by omega, by omega⟩
      have hone : (rxByte s b).overflows = s.overflows := by simp [rxByte, hroom]
      have hlen := congrArg List.length (contents_rxByte hone)
      rw [List.length_append, List.length_singleton] at hlen
      exact (ih (rxByte s b) (by omega)).trans hone

theorem took_rxBytes (s : RxSys) (bytes : List UInt8) (rest : List (List UInt8))
    (h : s.irqs.flatten = bytes ++ rest.flatten) :
    Took s [] (rxBytes { s with irqs := rest } bytes) where
  consumed := by
    rw [consumed_rxBytes, List.append_nil]
    rfl
  mono := overflows_rxBytes bytes { s with irqs := rest }
  flow := by
    refine ⟨bytes, arrived_rxBytes .., ?_⟩
    intro ho
    rw [contents_rxBytes bytes _ ho]
    rfl
  room := by
    intro hroom
    rw [h, List.length_append] at hroom
    have ho := room_rxBytes bytes { s with irqs := rest }
      (Nat.le_trans (Nat.add_le_add_left (Nat.le_add_right _ _) _) hroom)
    refine ⟨ho, ?_⟩
    rw [contents_rxBytes bytes _ ho, irqs_rxBytes, List.length_append]
    simp only
    omega
  pending := by
    rw [arrived_rxBytes, irqs_rxBytes, h, List.append_assoc]

end rxBytes

section ringOperations

theorem interrupts_eq (s : RxSys) :
    interrupts s = rxBytes { s with irqs := s.irqs.tail } (s.irqs.headD []) := by
  rcases s with ⟨handle, rx, queue, irqs, arrived, overflows, reads, responses⟩
  cases irqs with
  | nil => rfl
  | cons batch rest => rfl

theorem took_interrupts (s : RxSys) : Took s [] (interrupts s) := by
  rw [interrupts]
  split
  · exact .refl s
  · next batch rest h => exact took_rxBytes s batch rest (by rw [h, List.flatten_cons])

@[simp] theorem handle_interrupts (s : RxSys) : (interrupts s).handle = s.handle := by
  rw [interrupts_eq, handle_rxBytes]

@[simp] theorem queue_interrupts (s : RxSys) : (interrupts s).queue = s.queue := by
  rw [interrupts_eq, queue_rxBytes]

@[simp] theorem responses_interrupts (s : RxSys) : (interrupts s).responses = s.responses := by
  rw [interrupts_eq, responses_rxBytes]

@[simp] theorem reads_interrupts (s : RxSys) : (interrupts s).reads = s.reads := by
  rw [interrupts_eq, reads_rxBytes]

@[simp] theorem irqs_interrupts (s : RxSys) : (interrupts s).irqs = s.irqs.tail := by
  rw [interrupts_eq, irqs_rxBytes]

theorem took_readRxData (s : RxSys) (len : Nat) :
    Took s (readRxData s len).1 (readRxData s len).2 := by
  have hbytes : (readRxData s len).1 = (interrupts s).rx.contents.take (len % 256) :=
    ByteRing.read_bytes ..
  have hrest : (readRxData s len).2.rx.contents = (interrupts s).rx.contents.drop (len % 256) :=
    ByteRing.contents_read ..
  suffices hread : Took (interrupts s) (readRxData s len).1 (readRxData s len).2 from
    (took_interrupts s).trans hread
  refine ⟨⟨Nat.le_refl _, ?_, rfl⟩, ?_, ⟨[], ?_, fun _ => ?_⟩⟩
  · intro hroom
    refine ⟨rfl, Nat.le_trans (Nat.add_le_add_right ?_ _) hroom⟩
    rw [hrest, List.length_drop]
    exact Nat.sub_le _ _
  · rw [RxSys.consumed, readRxData, List.flatMap_append]
    exact congrArg _ (List.append_nil _)
  · exact (List.append_nil _).symm
  · rw [hbytes, hrest, List.append_nil, List.take_append_drop]

@[simp] theorem handle_readRxData (s : RxSys) (len : Nat) :
    (readRxData s len).2.handle = s.handle := handle_interrupts s

@[simp] theorem queue_readRxData (s : RxSys) (len : Nat) :
    (readRxData s len).2.queue = s.queue := queue_interrupts s

@[simp] theorem responses_readRxData (s : RxSys) (len : Nat) :
    (readRxData s len).2.responses = s.responses := responses_interrupts s

theorem readRxData_bytes (s : RxSys) (len : Nat) (ho : (readRxData s len).2.overflows = s.overflows)
    (hlen : len % 256 ≤ s.rx.contents.length) :
    (readRxData s len).1 = s.rx.contents.take (len % 256) := by
  obtain ⟨new, -, hflow⟩ := (took_interrupts s).flow
  have hc := hflow ho
  rw [List.nil_append] at hc
  have hread : (readRxData s len).1 = (interrupts s).rx.contents.take (len % 256) :=
    ByteRing.read_bytes ..
  rw [hread, ← hc, List.take_append_of_le_length hlen]

theorem took_getRxDataLen (s : RxSys) : Took s [] (getRxDataLen s).2 := took_interrupts s

theorem received_clearRxData (s : RxSys) : Received s (clearRxData s) := by
  refine (took_interrupts s).toReceived.trans ⟨Nat.le_refl _, fun hroom => ⟨rfl, ?_⟩, rfl⟩
  rw [clearRxData, uartClearRxData, ByteRing.contents_reset]
  exact Nat.le_trans (Nat.add_le_add_right (Nat.zero_le _) _) hroom

@[simp] theorem consumed_clearRxData (s : RxSys) : (clearRxData s).consumed = s.consumed :=
  (took_interrupts s).consumed.trans (List.append_nil _)

@[simp] theorem handle_clearRxData (s : RxSys) : (clearRxData s).handle = s.handle :=
  handle_interrupts s

@[simp] theorem queue_clearRxData (s : RxSys) : (clearRxData s).queue = s.queue :=
  queue_interrupts s

@[simp] theorem responses_clearRxData (s : RxSys) : (clearRxData s).responses = s.responses :=
  responses_interrupts s

@[simp] theorem handle_getRxDataLen (s : RxSys) : (getRxDataLen s).2.handle = s.handle :=
  handle_interrupts s

@[simp] theorem reads_getRxDataLen (s : RxSys) : (getRxDataLen s).2.reads = s.reads :=
  reads_interrupts s

@[simp] theorem queue_getRxDataLen (s : RxSys) : (getRxDataLen s).2.queue = s.queue :=
  queue_interrupts s

@[simp] theorem responses_getRxDataLen (s : RxSys) :
    (getRxDataLen s).2.responses = s.responses := responses_interrupts s

theorem le_of_getRxDataLen {s : RxSys} {k : Nat} (h : k ≤ (getRxDataLen s).1) :
    k ≤ (getRxDataLen s).2.rx.contents.length := le_contents_of_guard h

end ringOperations

/-- The bytes a byte by byte comparison with a pattern takes from a stream. -/
def scan : List UInt8 → List UInt8 → List UInt8
  | bit :: bits, b :: rest => if b ≠ bit then [b] else b :: scan bits rest
  | _, _ => []

theorem scan_append (bits t u : List UInt8) (h : bits.length ≤ t.length) :
    scan bits (t ++ u) = scan bits t := by
  induction bits generalizing t with
  | nil => cases t <;> rfl
  | cons bit bits ih =>
      cases t with
      | nil => simp at h
      | cons b t =>
          rw [List.length_cons, List.length_cons, Nat.succ_le_succ_iff] at h
          rw [List.cons_append, scan, scan, ih t h]

theorem scan_prefix (bits t : List UInt8) : scan bits t <+: t := by
  induction bits generalizing t with
  | nil => cases t <;> exact List.nil_prefix
  | cons bit bits ih =>
      cases t with
      | nil => exact List.nil_prefix
      | cons b t =>
          rw [scan]
          split_ifs
          · exact ⟨t, rfl⟩
          · exact List.cons_prefix_cons.mpr ⟨rfl, ih t⟩

theorem scan_pattern (bits t : List UInt8) : scan bits (bits ++ t) = bits := by
  induction bits with
  | nil => cases t <;> rfl
  | cons bit bits ih => rw [List.cons_append, scan, if_neg (not_not.mpr rfl), ih]

theorem took_readPreamble (bits : List UInt8) (local_ : UInt8) (s : RxSys) :
    ∃ w, Took s w (readPreamble local_ s bits).2 := by
  induction bits generalizing local_ s with
  | nil => exact ⟨[], .refl s⟩
  | cons bit bits ih =>
      have hone := took_readRxData s 1
      rw [readPreamble]
      split_ifs
      · exact ⟨_, hone⟩
      · obtain ⟨w, hw⟩ := ih ((readRxData s 1).1.headD local_) (readRxData s 1).2
        exact ⟨_, hone.trans hw⟩

theorem keep_readPreamble {α : Type} (f : RxSys → α) (hread : ∀ s, f (readRxData s 1).2 = f s)
    (bits : List UInt8) (local_ : UInt8) (s : RxSys) : f (readPreamble local_ s bits).2 = f s := by
  induction bits generalizing local_ s with
  | nil => rfl
  | cons bit bits ih =>
      rw [readPreamble]
      split_ifs
      · exact hread s
      · exact (ih _ _).trans (hread s)

@[simp] theorem handle_readPreamble (bits : List UInt8) (local_ : UInt8) (s : RxSys) :
    (readPreamble local_ s bits).2.handle = s.handle :=
  keep_readPreamble RxSys.handle (handle_readRxData · 1) bits local_ s

@[simp] theorem queue_readPreamble (bits : List UInt8) (local_ : UInt8) (s : RxSys) :
    (readPreamble local_ s bits).2.queue = s.queue :=
  keep_readPreamble RxSys.queue (queue_readRxData · 1) bits local_ s

@[simp] theorem responses_readPreamble (bits : List UInt8) (local_ : UInt8) (s : RxSys) :
    (readPreamble local_ s bits).2.responses = s.responses :=
  keep_readPreamble RxSys.responses (responses_readRxData · 1) bits local_ s

theorem readPreamble_scan (bits : List UInt8) (local_ : UInt8) (s : RxSys)
    (ho : (readPreamble local_ s bits).2.overflows = s.overflows)
    (hlen : bits.length ≤ s.rx.contents.length) :
    Took s (scan bits s.rx.contents) (readPreamble local_ s bits).2 ∧
      ((readPreamble local_ s bits).1 = true ↔ scan bits s.rx.contents = bits) := by
  induction bits generalizing local_ s with
  | nil =>
      have hnil : scan [] s.rx.contents = [] := by cases s.rx.contents <;> rfl
      rw [hnil]
      exact ⟨.refl s, iff_of_true rfl rfl⟩
  | cons bit bits ih =>
      obtain ⟨b, t, hbt⟩ := List.exists_cons_of_length_pos (Nat.lt_of_lt_of_le (Nat.succ_pos _) hlen)
      rw [hbt, List.length_cons, List.length_cons, Nat.succ_le_succ_iff] at hlen
      have hone := took_readRxData s 1
      obtain ⟨w, hw⟩ := took_readPreamble bits ((readRxData s 1).1.headD local_) (readRxData s 1).2
      have hsame : (readRxData s 1).2.overflows = s.overflows := by
        have h₁ := hone.mono
        have h₂ := hw.mono
        rw [readPreamble] at ho
        split_ifs at ho
        · exact ho
        · omega
      have hread : (readRxData s 1).1 = [b] := by
        rw [readRxData_bytes s 1 hsame (by rw [hbt]; exact Nat.le_add_left 1 _), hbt]
        rfl
      rw [readPreamble, hread, List.headD_cons] at ho ⊢
      rw [hread] at hone
      rw [hbt, scan]
      by_cases hb : b = bit
      · rw [if_neg (not_not.mpr hb)] at ho ⊢
        rw [if_neg (not_not.mpr hb)]
        obtain ⟨new, -, hflow⟩ := hone.flow
        have hcont : (readRxData s 1).2.rx.contents = t ++ new := by
          have h := hflow hsame
          rw [hbt, List.cons_append, List.singleton_append] at h
          exact (List.cons.inj h).2.symm
        obtain ⟨htook, hiff⟩ := ih b (readRxData s 1).2 (ho.trans hsame.symm) (by
          rw [hcont, List.length_append]
          exact Nat.le_add_right_of_le hlen)
        rw [hcont, scan_append bits t new hlen] at htook hiff
        exact ⟨hone.trans htook, by rw [hiff, hb, List.cons.injEq, and_iff_right rfl]⟩
      · rw [if_pos hb] at ho ⊢
        rw [if_pos hb]
        exact ⟨hone, iff_of_false (by simp) fun h => hb (List.cons.inj h).1⟩

end HostComm.RxStream
