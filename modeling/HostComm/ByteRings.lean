import HostComm.CircularBufferFifo

namespace HostComm.ByteRings

open CircularBuffer CircularBufferFifo

variable {n : Nat}

/-- A circular buffer of capacity `n` between two of its operations. -/
structure ByteRing (n : Nat) where
  cb : CircularBuff
  valid : cb.Valid
  length_eq : cb.length = n

namespace ByteRing

def init (buffer : Nat → UInt8) (h : 0 < n) : ByteRing n :=
  ⟨circularBuffInit buffer n, valid_init buffer h, rfl⟩

def contents (r : ByteRing n) : List UInt8 := CircularBuffer.contents r.cb

def dataLen (r : ByteRing n) : Nat := circularBuffGetDataLen r.cb

def freeSpace (r : ByteRing n) : Nat := circularBuffGetFreeSpace r.cb

theorem valid_put (r : ByteRing n) (b : UInt8) :
    (circularBuffPut r.cb b).Valid ∧ (circularBuffPut r.cb b).length = r.cb.length := by
  by_cases h : circularBuffGetDataLen r.cb = r.cb.length
  · obtain ⟨hv, hl, -⟩ := put_of_full r.valid b h
    exact ⟨hv, hl⟩
  · obtain ⟨hv, hl, -⟩ := put_of_lt r.valid b (lt_of_le_of_ne (dataLen_le r.valid) h)
    exact ⟨hv, hl⟩

def put (r : ByteRing n) (b : UInt8) : ByteRing n :=
  ⟨circularBuffPut r.cb b, (valid_put r b).1, (valid_put r b).2.trans r.length_eq⟩

theorem valid_get (r : ByteRing n) :
    (circularBuffGet r.cb).2.Valid ∧ (circularBuffGet r.cb).2.length = r.cb.length := by
  by_cases h : circularBuffGetDataLen r.cb = 0
  · rw [get_of_empty r.valid h]
    exact ⟨r.valid, rfl⟩
  · obtain ⟨b, c', hget, hv, hl, -⟩ := get_of_pos r.valid (Nat.pos_of_ne_zero h)
    rw [hget]
    exact ⟨hv, hl⟩

def get (r : ByteRing n) : Option UInt8 × ByteRing n :=
  ((circularBuffGet r.cb).1,
    ⟨(circularBuffGet r.cb).2, (valid_get r).1, (valid_get r).2.trans r.length_eq⟩)

theorem valid_write (r : ByteRing n) (data : List UInt8) :
    (circularBuffWrite r.cb data).2.Valid ∧ (circularBuffWrite r.cb data).2.length = r.cb.length := by
  by_cases h : circularBuffGetDataLen r.cb < r.cb.length ∧
      data.length ≤ r.cb.length - circularBuffGetDataLen r.cb
  · rw [write_ok r.valid data h.1 h.2]
    obtain ⟨hv, hl, -⟩ := putAll_spec r.valid data (by omega)
    exact ⟨hv, hl⟩
  · rw [(write_refused r.valid data h).2]
    exact ⟨r.valid, rfl⟩

def write (r : ByteRing n) (data : List UInt8) : CircularBuffSt × ByteRing n :=
  ((circularBuffWrite r.cb data).1,
    ⟨(circularBuffWrite r.cb data).2, (valid_write r data).1, (valid_write r data).2.trans r.length_eq⟩)

theorem valid_read (r : ByteRing n) (k : Nat) :
    (circularBuffRead r.cb k).2.2.Valid ∧ (circularBuffRead r.cb k).2.2.length = r.cb.length := by
  obtain ⟨c', hread, hv, hl, -⟩ := read_spec r.valid k
  rw [hread]
  exact ⟨hv, hl⟩

def read (r : ByteRing n) (k : Nat) : Bool × List UInt8 × ByteRing n :=
  ((circularBuffRead r.cb k).1, (circularBuffRead r.cb k).2.1,
    ⟨(circularBuffRead r.cb k).2.2, (valid_read r k).1, (valid_read r k).2.trans r.length_eq⟩)

def fetch (r : ByteRing n) (k : Nat) : Option (List UInt8) := circularBuffFetch r.cb k

def reset (r : ByteRing n) : ByteRing n := ⟨circularBuffReset r.cb, valid_reset r.valid, r.length_eq⟩

theorem dataLen_eq (r : ByteRing n) : r.dataLen = r.contents.length := (contents_length r.cb).symm

theorem contents_le (r : ByteRing n) : r.contents.length ≤ n := by
  have hle := dataLen_le r.valid
  rw [r.length_eq] at hle
  exact (dataLen_eq r).symm.trans_le hle

theorem freeSpace_eq (r : ByteRing n) : r.freeSpace = n - r.contents.length := by
  have hfree : r.freeSpace = r.cb.length - r.dataLen := rfl
  rw [hfree, dataLen_eq, r.length_eq]

@[simp] theorem contents_init (buffer : Nat → UInt8) (h : 0 < n) :
    (init buffer h).contents = [] := contents_reset _

@[simp] theorem contents_reset (r : ByteRing n) : r.reset.contents = [] :=
  CircularBuffer.contents_reset r.cb

theorem contents_put (r : ByteRing n) (b : UInt8) (h : r.contents.length < n) :
    (r.put b).contents = r.contents ++ [b] :=
  (put_of_lt r.valid b (by rw [r.length_eq]; exact (dataLen_eq r).trans_lt h)).2.2

theorem get_fst (r : ByteRing n) : r.get.1 = r.contents.head? := by
  by_cases h : circularBuffGetDataLen r.cb = 0
  · have hnil : r.contents = [] := List.length_eq_zero_iff.mp ((contents_length r.cb).trans h)
    simp [get, get_of_empty r.valid h, hnil]
  · obtain ⟨b, c', hget, -, -, hc⟩ := get_of_pos r.valid (Nat.pos_of_ne_zero h)
    simp [get, hget, contents, hc]

@[simp] theorem contents_get (r : ByteRing n) : r.get.2.contents = r.contents.tail := by
  by_cases h : circularBuffGetDataLen r.cb = 0
  · have hnil : r.contents = [] := List.length_eq_zero_iff.mp ((contents_length r.cb).trans h)
    have hsame : r.get.2 = r := by simp [get, get_of_empty r.valid h]
    rw [hsame, hnil]
    rfl
  · obtain ⟨b, c', hget, -, -, hc⟩ := get_of_pos r.valid (Nat.pos_of_ne_zero h)
    simp [get, hget, contents, hc]

def Room (r : ByteRing n) (len : Nat) : Prop := r.contents.length < n ∧ r.contents.length + len ≤ n

instance (r : ByteRing n) (len : Nat) : Decidable (r.Room len) :=
  inferInstanceAs (Decidable (_ ∧ _))

theorem write_of_room (r : ByteRing n) (data : List UInt8) (h : r.Room data.length) :
    (r.write data).1 = .ok ∧ (r.write data).2.contents = r.contents ++ data := by
  have hd : circularBuffGetDataLen r.cb = r.contents.length := dataLen_eq r
  have hl := r.length_eq
  obtain ⟨hlt, hroom⟩ := h
  have hok := write_ok r.valid data (by omega) (by omega)
  refine ⟨congrArg Prod.fst hok, ?_⟩
  simp only [write, contents, hok]
  exact (putAll_spec r.valid data (by omega)).2.2

theorem write_of_no_room (r : ByteRing n) (data : List UInt8) (h : ¬ r.Room data.length) :
    (r.write data).1 ≠ .ok ∧ (r.write data).2 = r := by
  have hd : circularBuffGetDataLen r.cb = r.contents.length := dataLen_eq r
  have hl := r.length_eq
  have hno : ¬ (circularBuffGetDataLen r.cb < r.cb.length ∧
      data.length ≤ r.cb.length - circularBuffGetDataLen r.cb) := by
    rintro ⟨hlt, hroom⟩
    exact h ⟨by omega, by omega⟩
  obtain ⟨hst, hsame⟩ := write_refused r.valid data hno
  refine ⟨hst, ?_⟩
  rcases r with ⟨cb, hv, hl⟩
  simpa only [write, ByteRing.mk.injEq] using hsame

theorem write_ok_iff (r : ByteRing n) (data : List UInt8) :
    (r.write data).1 = .ok ↔ r.Room data.length := by
  by_cases h : r.Room data.length
  · exact iff_of_true (write_of_room r data h).1 h
  · exact iff_of_false (write_of_no_room r data h).1 h

theorem read_eq (r : ByteRing n) (k : Nat) :
    (r.read k).1 = decide (k ≤ r.contents.length) ∧ (r.read k).2.1 = r.contents.take k ∧
      (r.read k).2.2.contents = r.contents.drop k := by
  obtain ⟨c', hread, hv, hl, hc⟩ := read_spec r.valid k
  have hd : circularBuffGetDataLen r.cb = r.contents.length := dataLen_eq r
  refine ⟨?_, ?_, ?_⟩
  · simp [read, hread, hd]
  · simp [read, hread, contents]
  · simpa [read, hread, contents] using hc

theorem read_bytes (r : ByteRing n) (k : Nat) : (r.read k).2.1 = r.contents.take k := (read_eq r k).2.1

@[simp] theorem contents_read (r : ByteRing n) (k : Nat) :
    (r.read k).2.2.contents = r.contents.drop k := (read_eq r k).2.2

theorem fetch_eq (r : ByteRing n) (k : Nat) :
    r.fetch k = if k ≤ r.contents.length then some (r.contents.take k) else none := by
  rw [fetch, fetch_spec r.valid k, ← dataLen_eq]
  rfl

end ByteRing

end HostComm.ByteRings
