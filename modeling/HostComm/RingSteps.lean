import HostComm.CircularBufferFifo

namespace HostComm.RingSteps

open Windows CircularBuffer CircularBufferFifo Runs

/-- Where the main loop is in `circular_buff_write`: at one of the two checks,
at the store of the next byte, or at one of the assignments that follow it. -/
inductive WritePc
  | checkFull (data : List UInt8)
  | checkSpace (data : List UInt8)
  | loop (rest : List UInt8)
  | dropOldest (rest : List UInt8)
  | moveHead (rest : List UInt8)
  | markFull (rest : List UInt8)
  | returned (status : CircularBuffSt)
  deriving DecidableEq

/-- The ring with the main loop inside a write; `taken` records what the
interrupts have read. -/
structure TxRing where
  cb : CircularBuff
  pc : WritePc
  taken : List UInt8

def writeStart (cb : CircularBuff) (data : List UInt8) : TxRing := ⟨cb, .checkFull data, []⟩

def writeStep (s : TxRing) : TxRing :=
  match s.pc with
  | .checkFull data =>
      if circularBuffFull s.cb then { s with pc := .returned .full }
      else { s with pc := .checkSpace data }
  | .checkSpace data =>
      if circularBuffGetFreeSpace s.cb < data.length then { s with pc := .returned .notEnoughSpace }
      else { s with pc := .loop data }
  | .loop [] => { s with pc := .returned .ok }
  | .loop (b :: rest) => { s with cb := storeHead s.cb b, pc := .dropOldest rest }
  | .dropOldest rest => { s with cb := dropOldest s.cb, pc := .moveHead rest }
  | .moveHead rest => { s with cb := moveHead s.cb, pc := .markFull rest }
  | .markFull rest => { s with cb := markFull s.cb, pc := .loop rest }
  | .returned _ => s

/-- `txComplete k` is an interrupt that reads the stored bytes, `k` at most. -/
inductive TxEvent
  | main
  | txComplete (k : Nat)

def txStep (s : TxRing) : TxEvent → TxRing
  | .main => writeStep s
  | .txComplete k =>
      let r := circularBuffRead s.cb (min k (circularBuffGetDataLen s.cb))
      { s with cb := r.2.2, taken := s.taken ++ r.2.1 }

/-- Where the main loop is in `circular_buff_read`, with the number of bytes
left to read: before the empty check, or at one of the assignments of a get. -/
inductive ReadPc
  | check (left : Nat)
  | load (left : Nat)
  | clearFull (left : Nat)
  | moveTail (left : Nat)
  | returned (complete : Bool)
  deriving DecidableEq

/-- The ring with the main loop inside a read; `taken` are the bytes it has
loaded, `arrived` those the interrupts have written. -/
structure RxRing where
  cb : CircularBuff
  pc : ReadPc
  taken : List UInt8
  arrived : List UInt8

def readStart (cb : CircularBuff) (k : Nat) : RxRing := ⟨cb, .check k, [], []⟩

def readStep (s : RxRing) : RxRing :=
  match s.pc with
  | .check 0 => { s with pc := .returned true }
  | .check (k + 1) =>
      if circularBuffEmpty s.cb then { s with pc := .returned false } else { s with pc := .load k }
  | .load k => { s with taken := s.taken ++ [s.cb.buffer s.cb.tail], pc := .clearFull k }
  | .clearFull k => { s with cb := clearFull s.cb, pc := .moveTail k }
  | .moveTail k => { s with cb := moveTail s.cb, pc := .check k }
  | .returned _ => s

inductive RxEvent
  | main
  | rxByte (byte : UInt8)

def rxStep (s : RxRing) : RxEvent → RxRing
  | .main => readStep s
  | .rxByte byte =>
      { s with cb := (circularBuffWrite s.cb [byte]).2, arrived := s.arrived ++ [byte] }

theorem loop_refines (c : CircularBuff) (rest taken : List UInt8) :
    ∃ m, writeStep^[m] ⟨c, .loop rest, taken⟩ = ⟨putAll c rest, .returned .ok, taken⟩ := by
  induction rest generalizing c with
  | nil => exact ⟨1, rfl⟩
  | cons b rest ih =>
      apply iterate_cons (y := ⟨storeHead c b, .dropOldest rest, taken⟩) rfl
      apply iterate_cons (y := ⟨dropOldest (storeHead c b), .moveHead rest, taken⟩) rfl
      apply iterate_cons (y := ⟨moveHead (dropOldest (storeHead c b)), .markFull rest, taken⟩) rfl
      apply iterate_cons (y := ⟨circularBuffPut c b, .loop rest, taken⟩) rfl
      exact ih (circularBuffPut c b)

/-- Without interrupts the steps of a write are the write. -/
theorem write_refines (c : CircularBuff) (data : List UInt8) :
    ∃ m, writeStep^[m] (writeStart c data) =
      ⟨(circularBuffWrite c data).2, .returned (circularBuffWrite c data).1, []⟩ := by
  rw [circularBuffWrite]
  by_cases hf : c.full
  · rw [if_pos hf]
    refine ⟨1, ?_⟩
    simp [writeStart, writeStep, circularBuffFull, hf]
  · rw [if_neg hf]
    apply iterate_cons (y := ⟨c, .checkSpace data, []⟩)
    · simp [writeStart, writeStep, circularBuffFull, hf]
    · by_cases hroom : circularBuffGetFreeSpace c < data.length
      · rw [if_pos hroom]
        refine ⟨1, ?_⟩
        simp [writeStep, hroom]
      · rw [if_neg hroom]
        apply iterate_cons (y := ⟨c, .loop data, []⟩)
        · simp [writeStep, hroom]
        · exact loop_refines c data []

theorem read_refines (c : CircularBuff) (k : Nat) (taken arrived : List UInt8) :
    ∃ m, readStep^[m] ⟨c, .check k, taken, arrived⟩ =
      ⟨(circularBuffRead c k).2.2, .returned (circularBuffRead c k).1,
        taken ++ (circularBuffRead c k).2.1, arrived⟩ := by
  induction k generalizing c taken with
  | zero =>
      refine ⟨1, ?_⟩
      simp [readStep, circularBuffRead]
  | succ k ih =>
      by_cases hempty : circularBuffEmpty c
      · refine ⟨1, ?_⟩
        simp [readStep, circularBuffRead, circularBuffGet, hempty]
      · apply iterate_cons (y := ⟨c, .load k, taken, arrived⟩)
        · simp [readStep, hempty]
        apply iterate_cons (y := ⟨c, .clearFull k, taken ++ [c.buffer c.tail], arrived⟩) rfl
        apply iterate_cons (y := ⟨clearFull c, .moveTail k, taken ++ [c.buffer c.tail], arrived⟩) rfl
        apply iterate_cons (y := ⟨tailPtrRetreat c, .check k, taken ++ [c.buffer c.tail], arrived⟩) rfl
        have hread := ih (tailPtrRetreat c) (taken ++ [c.buffer c.tail])
        simpa [circularBuffRead, circularBuffGet, hempty] using hread

structure Holds (c : CircularBuff) (q : List UInt8) : Prop where
  tail_lt : c.tail < c.length
  head_eq : c.head = (c.tail + q.length) % c.length
  bound : q.length ≤ c.length
  cells : window c.buffer c.length c.tail q.length = q

theorem holds_contents {c : CircularBuff} (h : c.Valid) : Holds c (contents c) where
  tail_lt := h.tail_lt
  head_eq := by rw [contents_length, ← head_eq h]
  bound := by rw [contents_length]; exact dataLen_le h
  cells := by rw [contents_length]; rfl

namespace Holds

variable {c : CircularBuff} {q : List UInt8}

theorem pos (h : Holds c q) : 0 < c.length := Nat.zero_lt_of_lt h.tail_lt

theorem head_lt (h : Holds c q) : c.head < c.length := h.head_eq ▸ Nat.mod_lt _ h.pos

theorem exact (h : Holds c q) (hf : c.full = true ↔ q.length = c.length) :
    c.Valid ∧ contents c = q := by
  have hlen : circularBuffGetDataLen c = q.length := dataLen_of_head h.tail_lt h.bound h.head_eq hf
  refine ⟨⟨h.pos, h.head_lt, h.tail_lt, fun hfull => ?_⟩, ?_⟩
  · rw [h.head_eq, hf.mp hfull, Nat.add_mod_right, Nat.mod_eq_of_lt h.tail_lt]
  · rw [contents, hlen, h.cells]

theorem head_eq_tail_iff (h : Holds c q) (hne : q ≠ []) : c.head = c.tail ↔ q.length = c.length := by
  have hpos : 0 < q.length := List.length_pos_of_ne_nil hne
  have hbound := h.bound
  have ht := h.tail_lt
  rw [h.head_eq]
  constructor
  · intro he
    by_contra hlt
    have hne' : (c.tail + 0) % c.length ≠ (c.tail + q.length) % c.length :=
      add_mod_ne hpos (by omega)
    rw [he, Nat.add_zero, Nat.mod_eq_of_lt ht] at hne'
    exact hne' rfl
  · intro he
    rw [he, Nat.add_mod_right, Nat.mod_eq_of_lt ht]

theorem push (h : Holds c q) (b : UInt8) (hlt : q.length < c.length) :
    Holds (moveHead (storeHead c b)) (q ++ [b]) where
  tail_lt := h.tail_lt
  head_eq := by
    simp only [moveHead, storeHead, List.length_append, List.length_singleton]
    rw [h.head_eq, Nat.mod_add_mod, Nat.add_assoc]
  bound := by
    rw [List.length_append, List.length_singleton]
    exact hlt
  cells := by
    simp only [moveHead, storeHead, List.length_append, List.length_singleton]
    rw [h.head_eq, window_store _ _ _ _ _ hlt, h.cells]

theorem pop {b : UInt8} (h : Holds c (b :: q)) :
    c.buffer c.tail = b ∧ Holds (moveTail c) q := by
  have hcells := h.cells
  simp only [List.length_cons, window, List.cons.injEq, Nat.mod_eq_of_lt h.tail_lt] at hcells
  refine ⟨hcells.1, Nat.mod_lt _ h.pos, ?_, Nat.le_of_succ_le h.bound, ?_⟩
  · simp only [moveTail]
    rw [h.head_eq, Nat.mod_add_mod, List.length_cons, Nat.add_right_comm, Nat.add_assoc]
  · simp only [moveTail]
    rw [window_mod_succ, hcells.2]

end Holds

end HostComm.RingSteps
