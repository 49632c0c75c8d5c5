import HostComm.RingSteps

namespace HostComm.WritePreempted

open Windows CircularBuffer CircularBufferFifo Runs RingSteps

def awaitsFlag : WritePc → Bool
  | .markFull _ => true
  | _ => false

/-- An interrupt between the head and the flag assignment does not take the
last byte. -/
def KeepsByte (s : TxRing) : TxEvent → Prop
  | .main => True
  | .txComplete k => awaitsFlag s.pc = true →
      circularBuffGetDataLen s.cb = 0 ∨ k < circularBuffGetDataLen s.cb

instance (s : TxRing) : ∀ e, Decidable (KeepsByte s e)
  | .main => isTrue trivial
  | .txComplete _ => inferInstanceAs (Decidable (_ → _ ∨ _))

theorem read_retreats (c : CircularBuff) (k : Nat) :
    (circularBuffRead c k).2.2 = tailPtrRetreat^[(circularBuffRead c k).2.1.length] c := by
  induction k generalizing c with
  | zero => rfl
  | succ k ih =>
      by_cases hempty : circularBuffEmpty c
      · simp [circularBuffRead, circularBuffGet, hempty]
      · simp [circularBuffRead, circularBuffGet, hempty, ih (tailPtrRetreat c)]

theorem retreats_keep (c : CircularBuff) (j : Nat) :
    (tailPtrRetreat^[j] c).buffer = c.buffer ∧ (tailPtrRetreat^[j] c).head = c.head ∧
      (tailPtrRetreat^[j] c).length = c.length := by
  induction j generalizing c with
  | zero => exact ⟨rfl, rfl, rfl⟩
  | succ j ih => exact ih (tailPtrRetreat c)

theorem read_keeps (c : CircularBuff) (k : Nat) :
    (circularBuffRead c k).2.2.buffer = c.buffer ∧ (circularBuffRead c k).2.2.head = c.head ∧
      (circularBuffRead c k).2.2.length = c.length := by
  rw [read_retreats]
  exact retreats_keep c _

theorem contents_storeHead {c : CircularBuff} (h : c.Valid) (b : UInt8)
    (hlt : circularBuffGetDataLen c < c.length) : contents (storeHead c b) = contents c := by
  have hout : ∀ i, i < circularBuffGetDataLen c → (c.tail + i) % c.length ≠ c.head := by
    intro i hi
    rw [head_eq h]
    exact add_mod_ne hi hlt
  exact window_update c.buffer c.length c.tail _ c.head b hout

structure Flows (c₀ : CircularBuff) (data taken q rest : List UInt8) : Prop where
  stream : taken ++ (q ++ rest) = contents c₀ ++ data
  room : q.length + rest.length ≤ c₀.length
  small : data.length ≤ c₀.length
  left_le : rest.length ≤ data.length

def Facts (c₀ : CircularBuff) (data : List UInt8) (s : TxRing) : Prop :=
  match s.pc with
  | .checkFull d => d = data ∧ s.cb.Valid ∧ s.taken ++ contents s.cb = contents c₀
  | .checkSpace d => d = data ∧ s.cb.Valid ∧ s.taken ++ contents s.cb = contents c₀
  | .loop rest => s.cb.Valid ∧ Flows c₀ data s.taken (contents s.cb) rest
  | .dropOldest rest =>
      s.cb.Valid ∧ Flows c₀ data s.taken (contents s.cb) (s.cb.buffer s.cb.head :: rest)
  | .moveHead rest =>
      s.cb.Valid ∧ Flows c₀ data s.taken (contents s.cb) (s.cb.buffer s.cb.head :: rest)
  | .markFull rest => s.cb.full = false ∧ rest.length < data.length ∧
      ∃ q, q ≠ [] ∧ Holds s.cb q ∧ Flows c₀ data s.taken q rest
  | .returned .ok => s.cb.Valid ∧ s.taken ++ contents s.cb = contents c₀ ++ data
  | .returned _ => True

structure Good (c₀ : CircularBuff) (data : List UInt8) (s : TxRing) : Prop where
  length_eq : s.cb.length = c₀.length
  facts : Facts c₀ data s

variable {c₀ : CircularBuff} {data : List UInt8}

theorem Flows.not_full {c : CircularBuff} {taken rest : List UInt8} {b : UInt8} (hv : c.Valid)
    (hlen : c.length = c₀.length) (h : Flows c₀ data taken (contents c) (b :: rest)) :
    circularBuffGetDataLen c < c.length ∧ c.full = false := by
  have hroom := h.room
  rw [contents_length, ← hlen, List.length_cons] at hroom
  have hlt : circularBuffGetDataLen c < c.length := by omega
  refine ⟨hlt, ?_⟩
  rw [← Bool.not_eq_true, full_iff hv]
  exact hlt.ne

theorem good_start (h : c₀.Valid) : Good c₀ data (writeStart c₀ data) := ⟨rfl, rfl, h, rfl⟩

theorem good_main {s : TxRing} (h : Good c₀ data s) : Good c₀ data (writeStep s) := by
  obtain ⟨hlen, hfacts⟩ := h
  obtain ⟨c, pc, taken⟩ := s
  cases pc with
  | checkFull d =>
      simp only [writeStep]
      split_ifs
      · exact ⟨hlen, trivial⟩
      · exact ⟨hlen, hfacts⟩
  | checkSpace d =>
      obtain ⟨rfl, hv, hstream⟩ := hfacts
      simp only [writeStep]
      split_ifs with hroom
      · exact ⟨hlen, trivial⟩
      · simp only at hlen hv hstream hroom
        have hle := dataLen_le hv
        rw [circularBuffGetFreeSpace] at hroom
        refine ⟨hlen, hv, ?_, ?_, ?_, Nat.le_refl _⟩
        · rw [← List.append_assoc]
          exact congrArg (· ++ d) hstream
        · rw [contents_length, ← hlen]
          simp only
          omega
        · omega
  | loop rest =>
      obtain ⟨hv, hflow⟩ := hfacts
      cases rest with
      | nil =>
          have hstream := hflow.stream
          rw [List.append_nil] at hstream
          exact ⟨hlen, hv, hstream⟩
      | cons b rest =>
          simp only at hlen hv hflow
          have hstore := contents_storeHead hv b (hflow.not_full hv hlen).1
          have hcell : (storeHead c b).buffer (storeHead c b).head = b := by simp [storeHead]
          refine ⟨hlen, ⟨hv.pos, hv.head_lt, hv.tail_lt, hv.full_eq⟩, ?_⟩
          change Flows c₀ data taken (contents (storeHead c b))
            ((storeHead c b).buffer (storeHead c b).head :: rest)
          rw [hstore, hcell]
          exact hflow
  | dropOldest rest =>
      obtain ⟨hv, hflow⟩ := hfacts
      simp only at hlen hv hflow
      have hsame : dropOldest c = c := if_neg (Bool.eq_false_iff.mp (hflow.not_full hv hlen).2)
      simp only [writeStep, hsame]
      exact ⟨hlen, hv, hflow⟩
  | moveHead rest =>
      obtain ⟨hv, hflow⟩ := hfacts
      simp only at hlen hv hflow
      have hleft := hflow.left_le
      rw [List.length_cons] at hleft
      obtain ⟨hlt, hfull⟩ := hflow.not_full hv hlen
      have hpush := (holds_contents hv).push (c.buffer c.head) (by rwa [contents_length])
      have hstored : storeHead c (c.buffer c.head) = c := by
        rw [storeHead, Function.update_eq_self]
      rw [hstored] at hpush
      refine ⟨hlen, hfull, hleft, _, by simp, hpush, ?_, ?_, hflow.small, Nat.le_of_succ_le hleft⟩
      · have hstream := hflow.stream
        simp only [List.append_assoc, List.singleton_append] at hstream ⊢
        exact hstream
      · have hroom := hflow.room
        rw [List.length_cons, contents_length] at hroom
        rw [List.length_append, List.length_singleton, contents_length]
        omega
  | markFull rest =>
      obtain ⟨-, -, q, hne, hq, hflow⟩ := hfacts
      simp only at hlen hq
      have hflag : (c.head == c.tail) = true ↔ q.length = c.length := by
        rw [beq_iff_eq, hq.head_eq_tail_iff hne]
      have hmarked : Holds (markFull c) q := ⟨hq.tail_lt, hq.head_eq, hq.bound, hq.cells⟩
      obtain ⟨hv, hc⟩ := hmarked.exact hflag
      refine ⟨hlen, hv, ?_⟩
      change Flows c₀ data taken (contents (markFull c)) rest
      rw [hc]
      exact hflow
  | returned status => exact ⟨hlen, hfacts⟩

theorem Flows.read {taken q rest : List UInt8} (h : Flows c₀ data taken q rest) (k : Nat) :
    Flows c₀ data (taken ++ q.take k) (q.drop k) rest where
  stream := by
    rw [List.append_assoc, ← List.append_assoc (q.take k), List.take_append_drop]
    exact h.stream
  room := by
    have hroom := h.room
    rw [List.length_drop]
    omega
  small := h.small
  left_le := h.left_le

theorem read_unmarked {c : CircularBuff} {q : List UInt8} (hq : Holds c q) (hfull : c.full = false) :
    c.Valid ∧ (q.length = c.length ∧ contents c = [] ∨ contents c = q) := by
  by_cases hlt : q.length = c.length
  · have hempty : Holds c [] := by
      refine ⟨hq.tail_lt, ?_, Nat.zero_le _, rfl⟩
      rw [hq.head_eq, hlt, Nat.add_mod_right, List.length_nil, Nat.add_zero]
    have hpos := hq.pos
    obtain ⟨hv, hc⟩ := hempty.exact (iff_of_false (by simp [hfull]) (by simp; omega))
    exact ⟨hv, .inl ⟨hlt, hc⟩⟩
  · obtain ⟨hv, hc⟩ := hq.exact (iff_of_false (by simp [hfull]) hlt)
    exact ⟨hv, .inr hc⟩

theorem read_valid {c : CircularBuff} (hv : c.Valid) (j : Nat) :
    (circularBuffRead c j).2.2.Valid ∧ (circularBuffRead c j).2.1 = (contents c).take j ∧
      contents (circularBuffRead c j).2.2 = (contents c).drop j := by
  obtain ⟨c', hr, hv', -, hc'⟩ := read_spec hv j
  rw [hr]
  exact ⟨hv', rfl, hc'⟩

theorem stream_read {c : CircularBuff} (hv : c.Valid) (j : Nat) {taken all : List UInt8}
    (hs : taken ++ contents c = all) :
    taken ++ (circularBuffRead c j).2.1 ++ contents (circularBuffRead c j).2.2 = all := by
  obtain ⟨-, hb, hc⟩ := read_valid hv j
  rw [hb, hc, List.append_assoc, List.take_append_drop, hs]

theorem Flows.ring_read {c : CircularBuff} (hv : c.Valid) (j : Nat) {taken rest : List UInt8}
    (h : Flows c₀ data taken (contents c) rest) :
    Flows c₀ data (taken ++ (circularBuffRead c j).2.1) (contents (circularBuffRead c j).2.2)
      rest := by
  obtain ⟨-, hb, hc⟩ := read_valid hv j
  rw [hb, hc]
  exact h.read j

theorem unmarked_interrupt {c : CircularBuff} {taken q rest : List UInt8} {k : Nat}
    (hfull : c.full = false) (hne : q ≠ []) (hq : Holds c q) (hf : Flows c₀ data taken q rest)
    (hkeep : circularBuffGetDataLen c = 0 ∨ k < circularBuffGetDataLen c) :
    (circularBuffRead c (min k (circularBuffGetDataLen c))).2.2.full = false ∧
      ∃ q', q' ≠ [] ∧ Holds (circularBuffRead c (min k (circularBuffGetDataLen c))).2.2 q' ∧
        Flows c₀ data (taken ++ (circularBuffRead c (min k (circularBuffGetDataLen c))).2.1) q' rest := by
  obtain ⟨hv, ⟨hall, hc⟩ | hc⟩ := read_unmarked hq hfull
  · have hzero : min k (circularBuffGetDataLen c) = 0 := by
      rw [← contents_length, hc, List.length_nil, Nat.min_zero]
    rw [hzero]
    refine ⟨hfull, q, hne, hq, ?_⟩
    rw [circularBuffRead, List.append_nil]
    exact hf
  · have hpos := List.length_pos_of_ne_nil hne
    rw [← contents_length, hc] at hkeep
    have hlt : k < q.length := by omega
    have hmin : min k (circularBuffGetDataLen c) = k := by
      rw [← contents_length, hc]
      exact Nat.min_eq_left hlt.le
    rw [hmin]
    obtain ⟨hv', -, hc'⟩ := read_valid hv k
    rw [hc] at hc'
    refine ⟨?_, contents (circularBuffRead c k).2.2, ?_, holds_contents hv', (hc ▸ hf).ring_read hv k⟩
    · have hnot : ¬ q.length = c.length := by
        rw [← hc, contents_length, ← full_iff hv]
        simp [hfull]
      have hbound := hq.bound
      rw [← Bool.not_eq_true, full_iff hv', ← contents_length, hc', (read_keeps c k).2.2,
        List.length_drop]
      omega
    · rw [hc', ne_eq, List.drop_eq_nil_iff]
      omega

theorem good_interrupt {s : TxRing} {k : Nat} (h : Good c₀ data s)
    (hkeep : KeepsByte s (.txComplete k)) : Good c₀ data (txStep s (.txComplete k)) := by
  obtain ⟨hlen, hfacts⟩ := h
  obtain ⟨c, pc, taken⟩ := s
  obtain ⟨hbuffer, hhead, hlength⟩ := read_keeps c (min k (circularBuffGetDataLen c))
  simp only [txStep]
  refine ⟨hlength.trans hlen, ?_⟩
  cases pc with
  | checkFull d =>
      obtain ⟨hd, hv, hs⟩ := hfacts
      exact ⟨hd, (read_valid hv _).1, stream_read hv _ hs⟩
  | checkSpace d =>
      obtain ⟨hd, hv, hs⟩ := hfacts
      exact ⟨hd, (read_valid hv _).1, stream_read hv _ hs⟩
  | loop rest =>
      obtain ⟨hv, hf⟩ := hfacts
      exact ⟨(read_valid hv _).1, hf.ring_read hv _⟩
  | dropOldest rest =>
      obtain ⟨hv, hf⟩ := hfacts
      refine ⟨(read_valid hv _).1, ?_⟩
      simp only [hbuffer, hhead]
      exact hf.ring_read hv _
  | moveHead rest =>
      obtain ⟨hv, hf⟩ := hfacts
      refine ⟨(read_valid hv _).1, ?_⟩
      simp only [hbuffer, hhead]
      exact hf.ring_read hv _
  | markFull rest =>
      obtain ⟨hfull, hleft, q, hne, hq, hf⟩ := hfacts
      obtain ⟨hfull', q', hne', hq', hf'⟩ := unmarked_interrupt hfull hne hq hf (hkeep rfl)
      exact ⟨hfull', hleft, q', hne', hq', hf'⟩
  | returned status =>
      cases status with
      | ok => exact ⟨(read_valid hfacts.1 _).1, stream_read hfacts.1 _ hfacts.2⟩
      | full => trivial
      | notEnoughSpace => trivial

/-- The ring once the main loop has finished the byte it is putting. -/
def settle (pc : WritePc) (c : CircularBuff) : CircularBuff :=
  match pc with
  | .moveHead _ => markFull (moveHead c)
  | .markFull _ => markFull c
  | _ => c

/-- The ring was emptied under the main loop and then marked full: it reports
more bytes than were written, and never gives the excess back. -/
structure Over (c₀ : CircularBuff) (data : List UInt8) (s : TxRing) : Prop where
  small : data.length ≤ c₀.length
  length_eq : s.cb.length = c₀.length
  valid : (settle s.pc s.cb).Valid
  surplus : (contents c₀).length + c₀.length <
    s.taken.length + circularBuffGetDataLen (settle s.pc s.cb)

theorem dataLen_marked {c : CircularBuff} (h : (markFull c).Valid) :
    circularBuffGetDataLen (markFull c) =
      if c.tail < c.head then c.head - c.tail else c.length + c.head - c.tail := by
  have hh : c.head < c.length := h.head_lt
  have ht : c.tail < c.length := h.tail_lt
  by_cases he : c.head = c.tail
  · simp [markFull, circularBuffGetDataLen, he]
  · simp only [markFull, circularBuffGetDataLen, beq_eq_false_iff_ne.mpr he, Bool.false_eq_true,
      if_false]
    split_ifs <;> omega

/-- A tail advance lowers the length that the flag assignment leaves by one at
most: on the last byte it raises it. -/
theorem retreat_marked {c : CircularBuff} (h : (markFull c).Valid) :
    (markFull (tailPtrRetreat c)).Valid ∧ circularBuffGetDataLen (markFull c) ≤
      circularBuffGetDataLen (markFull (tailPtrRetreat c)) + 1 := by
  have hh : c.head < c.length := h.head_lt
  have ht : c.tail < c.length := h.tail_lt
  have hv : (markFull (tailPtrRetreat c)).Valid :=
    ⟨h.pos, h.head_lt, Nat.mod_lt _ h.pos, fun hf => by simpa [markFull] using hf⟩
  refine ⟨hv, ?_⟩
  rw [dataLen_marked h, dataLen_marked hv]
  simp only [tailPtrRetreat, moveTail, clearFull, succ_mod ht]
  split_ifs <;> omega

theorem retreats_marked {c : CircularBuff} (h : (markFull c).Valid) (j : Nat) :
    (markFull (tailPtrRetreat^[j] c)).Valid ∧ circularBuffGetDataLen (markFull c) ≤
      circularBuffGetDataLen (markFull (tailPtrRetreat^[j] c)) + j := by
  induction j generalizing c with
  | zero => exact ⟨h, Nat.le_refl _⟩
  | succ j ih =>
      obtain ⟨hv, hle⟩ := retreat_marked h
      obtain ⟨hv', hle'⟩ := ih hv
      exact ⟨hv', by rw [Function.iterate_succ_apply]; omega⟩

theorem moveHead_retreats (c : CircularBuff) (j : Nat) :
    moveHead (tailPtrRetreat^[j] c) = tailPtrRetreat^[j] (moveHead c) := by
  have hstep : Function.Semiconj moveHead tailPtrRetreat tailPtrRetreat := fun _ => rfl
  exact hstep.iterate_right j c

theorem dataLen_advance {c : CircularBuff} (h : c.Valid) :
    (headPtrAdvance c).Valid ∧ circularBuffGetDataLen c ≤ circularBuffGetDataLen (headPtrAdvance c) := by
  have hput : headPtrAdvance c = circularBuffPut c (c.buffer c.head) := by
    rw [circularBuffPut, storeHead, Function.update_eq_self]
  rw [hput, ← contents_length, ← contents_length]
  by_cases hlen : circularBuffGetDataLen c = c.length
  · obtain ⟨hv, -, hc⟩ := put_of_full h (c.buffer c.head) hlen
    refine ⟨hv, ?_⟩
    rw [hc, List.length_append, List.length_tail, List.length_singleton]
    omega
  · have hlt : circularBuffGetDataLen c < c.length := Nat.lt_of_le_of_ne (dataLen_le h) hlen
    obtain ⟨hv, -, hc⟩ := put_of_lt h (c.buffer c.head) hlt
    refine ⟨hv, ?_⟩
    rw [hc, List.length_append]
    omega

theorem over_main {s : TxRing} (h : Over c₀ data s) : Over c₀ data (writeStep s) := by
  obtain ⟨hsmall, hlen, hv, hsurplus⟩ := h
  obtain ⟨c, pc, taken⟩ := s
  cases pc with
  | checkFull d =>
      simp only [writeStep]
      split_ifs
      · exact ⟨hsmall, hlen, hv, hsurplus⟩
      · exact ⟨hsmall, hlen, hv, hsurplus⟩
  | checkSpace d =>
      simp only [writeStep]
      split_ifs
      · exact ⟨hsmall, hlen, hv, hsurplus⟩
      · exact ⟨hsmall, hlen, hv, hsurplus⟩
  | loop rest =>
      cases rest with
      | nil => exact ⟨hsmall, hlen, hv, hsurplus⟩
      | cons b rest => exact ⟨hsmall, hlen, ⟨hv.pos, hv.head_lt, hv.tail_lt, hv.full_eq⟩, hsurplus⟩
  | dropOldest rest =>
      have hkeep : (dropOldest c).length = c.length := by rw [dropOldest]; split_ifs <;> rfl
      obtain ⟨hv', hle⟩ := dataLen_advance hv
      exact ⟨hsmall, hkeep.trans hlen, hv', hsurplus.trans_le (Nat.add_le_add_left hle _)⟩
  | moveHead rest => exact ⟨hsmall, hlen, hv, hsurplus⟩
  | markFull rest => exact ⟨hsmall, hlen, hv, hsurplus⟩
  | returned status => exact ⟨hsmall, hlen, hv, hsurplus⟩

theorem settle_read {pc : WritePc} {c : CircularBuff} (h : (settle pc c).Valid) (k : Nat) :
    (settle pc (circularBuffRead c k).2.2).Valid ∧ circularBuffGetDataLen (settle pc c) ≤
      circularBuffGetDataLen (settle pc (circularBuffRead c k).2.2) +
        (circularBuffRead c k).2.1.length := by
  have hread (hv : c.Valid) : (circularBuffRead c k).2.2.Valid ∧ circularBuffGetDataLen c ≤
      circularBuffGetDataLen (circularBuffRead c k).2.2 + (circularBuffRead c k).2.1.length := by
    obtain ⟨c', hr, hv', -, hc'⟩ := read_spec hv k
    rw [hr, ← contents_length c', hc', List.length_drop, List.length_take, contents_length]
    exact ⟨hv', by omega⟩
  cases pc with
  | moveHead rest =>
      simp only [settle, read_retreats c k, moveHead_retreats]
      exact retreats_marked h _
  | markFull rest =>
      simp only [settle, read_retreats c k]
      exact retreats_marked h _
  | checkFull d => exact hread h
  | checkSpace d => exact hread h
  | loop rest => exact hread h
  | dropOldest rest => exact hread h
  | returned status => exact hread h

theorem over_step {s : TxRing} (e : TxEvent) (h : Over c₀ data s) : Over c₀ data (txStep s e) := by
  cases e with
  | main => exact over_main h
  | txComplete k =>
      obtain ⟨hv, hle⟩ := settle_read h.valid (min k (circularBuffGetDataLen s.cb))
      refine ⟨h.small, (read_keeps s.cb _).2.2.trans h.length_eq, hv, ?_⟩
      have hsurplus := h.surplus
      simp only [txStep, List.length_append]
      omega

theorem over_interrupt {s : TxRing} {e : TxEvent} (h : Good c₀ data s) (hbreak : ¬ KeepsByte s e) :
    Over c₀ data (txStep s e) := by
  obtain ⟨hlen, hfacts⟩ := h
  obtain ⟨c, pc, taken⟩ := s
  cases e with
  | main => exact absurd trivial hbreak
  | txComplete k =>
      rw [KeepsByte, Classical.not_imp, not_or] at hbreak
      obtain ⟨hpc, hpos, hall⟩ := hbreak
      cases pc with
      | markFull rest =>
          obtain ⟨hfull, hleft, q, hne, hq, hf⟩ := hfacts
          simp only at hlen hfull hq hf hpos hall
          obtain ⟨hv, hc⟩ := read_unmarked hq hfull
          have hq_len : circularBuffGetDataLen c = q.length := by
            rcases hc with ⟨-, hc⟩ | hc
            · rw [← contents_length, hc] at hpos
              exact absurd rfl hpos
            · rw [← contents_length, hc]
          have hj : min k (circularBuffGetDataLen c) = circularBuffGetDataLen c := by omega
          rw [txStep, hj]
          obtain ⟨c', hr, hv', hl', hc'⟩ := read_spec hv (circularBuffGetDataLen c)
          have hempty : circularBuffGetDataLen c' = 0 := by
            rw [← contents_length, hc', List.length_drop, contents_length, Nat.sub_self]
          have hhead : c'.head = c'.tail := by
            have hhead := head_eq hv'
            rwa [hempty, Nat.add_zero, Nat.mod_eq_of_lt hv'.tail_lt] at hhead
          have hfull' : (markFull c').full = true := beq_iff_eq.mpr hhead
          have hmarked : (markFull c').Valid := ⟨hv'.pos, hv'.head_lt, hv'.tail_lt, fun _ => hhead⟩
          refine ⟨hf.small, ?_, ?_, ?_⟩
          · rw [hr]
            exact hl'.trans hlen
          · rw [hr]
            exact hmarked
          · rw [hr]
            have hlength := congrArg List.length hf.stream
            have hfulllen : circularBuffGetDataLen (markFull c') = c.length := by
              rw [circularBuffGetDataLen, if_pos hfull']
              exact hl'
            simp only [settle, hfulllen, List.length_append, List.length_take, contents_length,
              Nat.min_self, hq_len] at hlength ⊢
            omega
      | checkFull d => exact absurd hpc Bool.false_ne_true
      | checkSpace d => exact absurd hpc Bool.false_ne_true
      | loop rest => exact absurd hpc Bool.false_ne_true
      | dropOldest rest => exact absurd hpc Bool.false_ne_true
      | moveHead rest => exact absurd hpc Bool.false_ne_true
      | returned status => exact absurd hpc Bool.false_ne_true

theorem good_step (s : TxRing) (e : TxEvent) (h : Good c₀ data s) (hkeep : KeepsByte s e) :
    Good c₀ data (txStep s e) := by
  cases e with
  | main => exact good_main h
  | txComplete k => exact good_interrupt h hkeep

/-- A write that returns has kept the stream in order exactly when no
interrupt emptied the ring between the head and the flag assignment. -/
theorem write_preempted {c : CircularBuff} (hc : c.Valid) (data : List UInt8)
    (events : List TxEvent) (hret : (run txStep (writeStart c data) events).pc = .returned .ok) :
    (run txStep (writeStart c data) events).taken ++
        contents (run txStep (writeStart c data) events).cb = contents c ++ data ↔
      Along KeepsByte txStep (writeStart c data) events := by
  have hsplit : Along KeepsByte txStep (writeStart c data) events ∧
        Good c data (run txStep (writeStart c data) events) ∨
      ¬ Along KeepsByte txStep (writeStart c data) events ∧
        Over c data (run txStep (writeStart c data) events) :=
    run_splits (fun s e h _ hk => good_step s e h hk) (fun s e h _ hk => over_interrupt h hk)
      (fun s e h _ => over_step e h) (good_start hc) (along_true txStep _ events)
  rcases hsplit with ⟨hall, hgood⟩ | ⟨hnot, hover⟩
  · have hfacts := hgood.facts
    rw [Facts, hret] at hfacts
    exact iff_of_true hfacts.2 hall
  · refine iff_of_false (fun hstream => ?_) hnot
    have hsurplus := hover.surplus
    have hsmall := hover.small
    have hlength := congrArg List.length hstream
    rw [hret] at hsurplus
    simp only [settle, List.length_append, contents_length] at hsurplus hlength
    omega

end HostComm.WritePreempted
