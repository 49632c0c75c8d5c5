import HostComm.CircularBuffer
import HostComm.Fifo
import HostComm.Runs

namespace HostComm.CircularBufferFifo

open Windows CircularBuffer Fifos Runs

theorem put_of_lt {c : CircularBuff} (h : c.Valid) (b : UInt8)
    (hlt : circularBuffGetDataLen c < c.length) :
    (circularBuffPut c b).Valid ∧ (circularBuffPut c b).length = c.length ∧
      contents (circularBuffPut c b) = contents c ++ [b] := by
  have hfull : c.full = false := by
    by_contra hne
    have := (full_iff h).mp (by simpa using hne)
    omega
  have hhead := head_eq h
  have hput : circularBuffPut c b =
      { buffer := Function.update c.buffer c.head b, head := (c.head + 1) % c.length,
        tail := c.tail, length := c.length, full := (c.head + 1) % c.length == c.tail } := by
    simp [circularBuffPut, headPtrAdvance, markFull, moveHead, dropOldest, storeHead, hfull]
  have hnext : (c.head + 1) % c.length =
      (c.tail + (circularBuffGetDataLen c + 1)) % c.length := by
    rw [hhead, Nat.mod_add_mod, Nat.add_assoc]
  have hwrap : (c.head + 1) % c.length = c.tail ↔ circularBuffGetDataLen c + 1 = c.length := by
    constructor
    · intro he
      by_contra hne
      have hmod : (c.tail + 0) % c.length ≠ (c.tail + (circularBuffGetDataLen c + 1)) % c.length :=
        add_mod_ne (by omega) (by omega)
      apply hmod
      rw [← hnext, he, Nat.add_zero, Nat.mod_eq_of_lt h.tail_lt]
    · intro he
      rw [hnext, he, Nat.add_mod_right, Nat.mod_eq_of_lt h.tail_lt]
  have hlen : circularBuffGetDataLen (circularBuffPut c b) = circularBuffGetDataLen c + 1 := by
    rw [hput]
    exact dataLen_of_head h.tail_lt hlt hnext (by simpa using hwrap)
  refine ⟨?_, by rw [hput], ?_⟩
  · rw [hput]
    exact ⟨h.pos, Nat.mod_lt _ h.pos, h.tail_lt, by simp⟩
  · rw [contents, hlen, hput]
    simp only
    conv_lhs => rw [hhead]
    exact window_store c.buffer c.length c.tail _ b hlt

theorem put_of_full {c : CircularBuff} (h : c.Valid) (b : UInt8)
    (hlen : circularBuffGetDataLen c = c.length) :
    (circularBuffPut c b).Valid ∧ (circularBuffPut c b).length = c.length ∧
      contents (circularBuffPut c b) = (contents c).tail ++ [b] := by
  have hfull : c.full = true := (full_iff h).mpr hlen
  have hhead := h.full_eq hfull
  have hput : circularBuffPut c b =
      { buffer := Function.update c.buffer c.tail b, head := (c.tail + 1) % c.length,
        tail := (c.tail + 1) % c.length, length := c.length, full := true } := by
    simp [circularBuffPut, headPtrAdvance, markFull, moveHead, dropOldest, storeHead, hfull, hhead]
  obtain ⟨k, hk⟩ : ∃ k, c.length = k + 1 := Nat.exists_eq_succ_of_ne_zero (by have := h.pos; omega)
  have hcell : (c.tail + 1 + k) % c.length = c.tail := by
    rw [show c.tail + 1 + k = c.tail + c.length by omega, Nat.add_mod_right,
      Nat.mod_eq_of_lt h.tail_lt]
  refine ⟨?_, by rw [hput], ?_⟩
  · rw [hput]
    exact ⟨h.pos, Nat.mod_lt _ h.pos, Nat.mod_lt _ h.pos, by simp⟩
  · have htail : (contents c).tail = window c.buffer c.length (c.tail + 1) k := by
      rw [contents, hlen, hk]
      rfl
    have hstore := window_store c.buffer c.length (c.tail + 1) k b (by omega)
    rw [hcell] at hstore
    rw [htail, ← hstore, contents, hput]
    simp only [circularBuffGetDataLen, if_true]
    rw [window_mod_succ, hk]

theorem get_of_empty {c : CircularBuff} (h : c.Valid) (hlen : circularBuffGetDataLen c = 0) :
    circularBuffGet c = (none, c) := by
  simp [circularBuffGet, (empty_iff h).mpr hlen]

theorem get_of_pos {c : CircularBuff} (h : c.Valid) (hlen : 0 < circularBuffGetDataLen c) :
    ∃ b c', circularBuffGet c = (some b, c') ∧ c'.Valid ∧ c'.length = c.length ∧
      contents c = b :: contents c' := by
  have hempty : circularBuffEmpty c = false := by
    by_contra hne
    have := (empty_iff h).mp (by simpa using hne)
    omega
  obtain ⟨k, hk⟩ := Nat.exists_eq_succ_of_ne_zero hlen.ne'
  have hle := dataLen_le h
  have hget : circularBuffGet c = (some (c.buffer c.tail), tailPtrRetreat c) := by
    simp [circularBuffGet, hempty]
  have hk' : circularBuffGetDataLen (tailPtrRetreat c) = k := by
    apply dataLen_of_head (Nat.mod_lt _ h.pos)
    · simp only [tailPtrRetreat, moveTail, clearFull]
      omega
    · simp only [tailPtrRetreat, moveTail, clearFull]
      rw [Nat.mod_add_mod, head_eq h, hk, Nat.add_assoc, Nat.add_comm 1 k]
    · simp only [tailPtrRetreat, moveTail, clearFull, Bool.false_eq_true, false_iff]
      omega
  refine ⟨_, _, hget, ?_, rfl, ?_⟩
  · exact ⟨h.pos, h.head_lt, Nat.mod_lt _ h.pos, by simp [tailPtrRetreat, moveTail, clearFull]⟩
  · rw [contents, contents, hk', hk, window, Nat.mod_eq_of_lt h.tail_lt]
    simp only [tailPtrRetreat, moveTail, clearFull]
    rw [window_mod_succ]

theorem putAll_spec {c : CircularBuff} (h : c.Valid) (data : List UInt8)
    (hroom : circularBuffGetDataLen c + data.length ≤ c.length) :
    (putAll c data).Valid ∧ (putAll c data).length = c.length ∧
      contents (putAll c data) = contents c ++ data := by
  induction data generalizing c with
  | nil => simp [h]
  | cons b data ih =>
      simp only [List.length_cons] at hroom
      obtain ⟨hv, hl, hc⟩ := put_of_lt h b (by omega)
      have hlen : circularBuffGetDataLen (circularBuffPut c b) = circularBuffGetDataLen c + 1 := by
        rw [← contents_length, hc]
        simp
      obtain ⟨hv', hl', hc'⟩ := ih hv (by omega)
      exact ⟨hv', hl'.trans hl, by rw [putAll_cons, hc', hc, List.append_assoc]; rfl⟩

theorem write_ok {c : CircularBuff} (h : c.Valid) (data : List UInt8)
    (hlt : circularBuffGetDataLen c < c.length)
    (hroom : data.length ≤ c.length - circularBuffGetDataLen c) :
    circularBuffWrite c data = (.ok, putAll c data) := by
  have hfull : ¬ c.full = true := fun hf => by
    have := (full_iff h).mp hf
    omega
  have hspace : ¬ circularBuffGetFreeSpace c < data.length := by
    unfold circularBuffGetFreeSpace
    omega
  simp [circularBuffWrite, hfull, hspace]

theorem write_refused {c : CircularBuff} (h : c.Valid) (data : List UInt8)
    (hno : ¬ (circularBuffGetDataLen c < c.length ∧
      data.length ≤ c.length - circularBuffGetDataLen c)) :
    (circularBuffWrite c data).1 ≠ .ok ∧ (circularBuffWrite c data).2 = c := by
  have hle := dataLen_le h
  by_cases hf : c.full = true
  · simp [circularBuffWrite, hf]
  · have hlt : circularBuffGetDataLen c < c.length :=
      lt_of_le_of_ne hle fun he => hf ((full_iff h).mpr he)
    have hspace : circularBuffGetFreeSpace c < data.length := by
      unfold circularBuffGetFreeSpace
      omega
    simp [circularBuffWrite, hf, hspace]

theorem read_spec {c : CircularBuff} (h : c.Valid) (k : Nat) :
    ∃ c', circularBuffRead c k =
        (decide (k ≤ circularBuffGetDataLen c), (contents c).take k, c') ∧
      c'.Valid ∧ c'.length = c.length ∧ contents c' = (contents c).drop k := by
  induction k generalizing c with
  | zero => exact ⟨c, by simp [circularBuffRead], h, rfl, by simp⟩
  | succ k ih =>
      by_cases hlen : circularBuffGetDataLen c = 0
      · have hnil : contents c = [] := List.length_eq_zero_iff.mp (by simpa using hlen)
        exact ⟨c, by simp [circularBuffRead, get_of_empty h hlen, hnil, hlen], h, rfl, by simp [hnil]⟩
      · obtain ⟨b, c₁, hget, hv, hl, hc⟩ := get_of_pos h (Nat.pos_of_ne_zero hlen)
        obtain ⟨c₂, hread, hv₂, hl₂, hc₂⟩ := ih hv
        have hsucc : circularBuffGetDataLen c = circularBuffGetDataLen c₁ + 1 := by
          have := congrArg List.length hc
          simpa using this
        refine ⟨c₂, ?_, hv₂, hl₂.trans hl, by rw [hc, List.drop_succ_cons, hc₂]⟩
        simp [circularBuffRead, hget, hread, hc, hsucc]

theorem fetchFrom_eq_window (c : CircularBuff) (tailIdx k : Nat) (h : tailIdx < c.length) :
    fetchFrom c tailIdx k = window c.buffer c.length tailIdx k := by
  induction k generalizing tailIdx with
  | zero => rfl
  | succ k ih =>
      have hpos : 0 < c.length := by omega
      rw [fetchFrom, window, ih _ (Nat.mod_lt _ hpos), window_mod, Nat.mod_eq_of_lt h]

theorem fetch_spec {c : CircularBuff} (h : c.Valid) (k : Nat) :
    circularBuffFetch c k =
      if k ≤ circularBuffGetDataLen c then some ((contents c).take k) else none := by
  unfold circularBuffFetch
  by_cases hk : k ≤ circularBuffGetDataLen c
  · rw [if_neg (by omega), if_pos hk, fetchFrom_eq_window c c.tail k h.tail_lt, contents,
      take_window _ _ _ hk]
  · rw [if_pos (by omega), if_neg hk]

inductive RingOp
  | put (b : UInt8)
  | get
  | write (data : List UInt8)
  | read (k : Nat)
  | fetch (k : Nat)
  | reset

inductive RingOut
  | done
  | got (b : Option UInt8)
  | wrote (accepted : Bool)
  | read (complete : Bool) (data : List UInt8)
  | fetched (data : Option (List UInt8))
  deriving DecidableEq

def exec (c : CircularBuff) : RingOp → RingOut × CircularBuff
  | .put b => (.done, circularBuffPut c b)
  | .get => (.got (circularBuffGet c).1, (circularBuffGet c).2)
  | .write data => (.wrote ((circularBuffWrite c data).1 == .ok), (circularBuffWrite c data).2)
  | .read k => (.read (circularBuffRead c k).1 (circularBuffRead c k).2.1, (circularBuffRead c k).2.2)
  | .fetch k => (.fetched (circularBuffFetch c k), c)
  | .reset => (.done, circularBuffReset c)

def specExec {n : Nat} (f : Fifo UInt8 n) : RingOp → RingOut × Fifo UInt8 n
  | .put b => (.done, f.put b)
  | .get => (.got f.get.1, f.get.2)
  | .write data => (.wrote (f.write data).isSome, (f.write data).getD f)
  | .read k => (.read (decide (k ≤ f.items.length)) (f.read k).1, (f.read k).2)
  | .fetch k => (.fetched (f.fetch k), f)
  | .reset => (.done, .empty)

def execState (c : CircularBuff) (op : RingOp) : CircularBuff := (exec c op).2

def specState {n : Nat} (f : Fifo UInt8 n) (op : RingOp) : Fifo UInt8 n := (specExec f op).2

structure Represents {n : Nat} (c : CircularBuff) (f : Fifo UInt8 n) : Prop where
  valid : c.Valid
  length_eq : c.length = n
  contents_eq : contents c = f.items

theorem Represents.dataLen {n : Nat} {c : CircularBuff} {f : Fifo UInt8 n} (h : Represents c f) :
    circularBuffGetDataLen c = f.items.length := by
  rw [← contents_length, h.contents_eq]

theorem represents_init {n : Nat} (hn : 0 < n) (buffer : Nat → UInt8) :
    Represents (circularBuffInit buffer n) (Fifo.empty : Fifo UInt8 n) :=
  ⟨valid_init buffer hn, rfl, contents_reset _⟩

namespace Represents

variable {n : Nat} {c : CircularBuff} {f : Fifo UInt8 n}

theorem put (h : Represents c f) (b : UInt8) : Represents (circularBuffPut c b) (f.put b) := by
  have hd := h.dataLen
  obtain ⟨hv, hl, hc⟩ := h
  by_cases hfull : f.items.length = n
  · obtain ⟨hv', hl', hc'⟩ := put_of_full hv b (by omega)
    have hn : 0 < n := hl ▸ hv.pos
    refine ⟨hv', hl'.trans hl, ?_⟩
    rw [hc', f.put_of_full b hn hfull, hc]
  · have hlt : f.items.length < n := lt_of_le_of_ne f.bound hfull
    obtain ⟨hv', hl', hc'⟩ := put_of_lt hv b (by omega)
    refine ⟨hv', hl'.trans hl, ?_⟩
    rw [hc', f.put_of_lt b hlt, hc]

theorem get (h : Represents c f) :
    (circularBuffGet c).1 = f.get.1 ∧ Represents (circularBuffGet c).2 f.get.2 := by
  have hd := h.dataLen
  obtain ⟨hv, hl, hc⟩ := h
  by_cases hz : f.items.length = 0
  · have hnil : f.items = [] := List.length_eq_zero_iff.mp hz
    rw [get_of_empty hv (hd.trans hz)]
    refine ⟨?_, hv, hl, ?_⟩
    · simp [Fifo.get, hnil]
    · simp [Fifo.get, hc, hnil]
  · obtain ⟨b, c', hget, hv', hl', hc'⟩ := get_of_pos hv (by omega)
    rw [hc] at hc'
    rw [hget]
    refine ⟨?_, hv', hl'.trans hl, ?_⟩
    · simp [Fifo.get, hc']
    · simp [Fifo.get, hc']

theorem write (h : Represents c f) (data : List UInt8) :
    ((circularBuffWrite c data).1 == .ok) = (f.write data).isSome ∧
      Represents (circularBuffWrite c data).2 ((f.write data).getD f) := by
  have hd := h.dataLen
  by_cases hroom : f.items.length < n ∧ data.length ≤ n - f.items.length
  · obtain ⟨hv, hl, hc⟩ := h
    obtain ⟨hv', hl', hc'⟩ := putAll_spec hv data (by omega)
    rw [write_ok hv data (by omega) (by omega)]
    refine ⟨?_, hv', hl'.trans hl, ?_⟩
    · simp [Fifo.write, hroom]
    · simp [Fifo.write, hroom, hc', hc]
  · obtain ⟨hst, hsame⟩ := write_refused h.valid data (by rwa [hd, h.length_eq])
    rw [Fifo.write, dif_neg hroom, hsame]
    exact ⟨by simpa using hst, h⟩

theorem read (h : Represents c f) (k : Nat) :
    (circularBuffRead c k).1 = decide (k ≤ f.items.length) ∧
      (circularBuffRead c k).2.1 = (f.read k).1 ∧
      Represents (circularBuffRead c k).2.2 (f.read k).2 := by
  obtain ⟨c', hread, hv', hl', hc'⟩ := read_spec h.valid k
  rw [hread, h.dataLen, h.contents_eq]
  refine ⟨rfl, rfl, hv', hl'.trans h.length_eq, ?_⟩
  rw [hc', h.contents_eq]
  rfl

end Represents

/-- One operation of the ring is one operation of the bounded queue. -/
theorem exec_refines {n : Nat} {c : CircularBuff} {f : Fifo UInt8 n} (h : Represents c f)
    (op : RingOp) :
    (exec c op).1 = (specExec f op).1 ∧ Represents (exec c op).2 (specExec f op).2 := by
  cases op with
  | put b => exact ⟨rfl, h.put b⟩
  | get => exact ⟨congrArg RingOut.got h.get.1, h.get.2⟩
  | write data => exact ⟨congrArg RingOut.wrote (h.write data).1, (h.write data).2⟩
  | read k =>
      obtain ⟨hcomplete, hdata, hnext⟩ := h.read k
      refine ⟨?_, hnext⟩
      rw [exec, specExec, hcomplete, hdata]
  | fetch k =>
      refine ⟨?_, h⟩
      rw [exec, specExec, fetch_spec h.valid k, h.contents_eq, h.dataLen]
      rfl
  | reset => exact ⟨rfl, valid_reset h.valid, h.length_eq, contents_reset c⟩

theorem run_refines {n : Nat} {c : CircularBuff} {f : Fifo UInt8 n} (h : Represents c f)
    (ops : List RingOp) : Represents (run execState c ops) (run specState f ops) := by
  induction ops generalizing c f with
  | nil => exact h
  | cons op ops ih => exact ih (exec_refines h op).2

/-- Whatever operations came before, the ring behaves as a queue `Q` of at
most `n` bytes, the ones from the tail to the head. -/
theorem circularBuff_refines_fifo (n : Nat) (hn : 0 < n) (buffer : Nat → UInt8)
    (ops : List RingOp) :
    let c := run execState (circularBuffInit buffer n) ops
    c.head < n ∧ c.tail < n ∧ (c.full = true → c.head = c.tail) ∧
    ∃ Q : List UInt8, Q.length ≤ n ∧
      Q = window c.buffer n c.tail (circularBuffGetDataLen c) ∧
      Q = (run specState (Fifo.empty : Fifo UInt8 n) ops).items ∧
      circularBuffGetDataLen c = Q.length ∧ circularBuffGetFreeSpace c = n - Q.length ∧
      (circularBuffEmpty c = true ↔ Q = []) ∧ (circularBuffFull c = true ↔ Q.length = n) ∧
      (∀ b, contents (circularBuffPut c b) = if Q.length = n then Q.tail ++ [b] else Q ++ [b]) ∧
      ((circularBuffGet c).1 = Q.head? ∧ contents (circularBuffGet c).2 = Q.tail ∧
        (Q = [] → (circularBuffGet c).2 = c)) ∧
      (∀ data, if Q.length < n ∧ data.length ≤ n - Q.length
        then (circularBuffWrite c data).1 = .ok ∧ contents (circularBuffWrite c data).2 = Q ++ data
        else (circularBuffWrite c data).1 ≠ .ok ∧ (circularBuffWrite c data).2 = c) ∧
      (∀ k, k ≤ Q.length → (circularBuffRead c k).1 = true ∧
        (circularBuffRead c k).2.1 = Q.take k ∧ contents (circularBuffRead c k).2.2 = Q.drop k) ∧
      (∀ k, circularBuffFetch c k = if k ≤ Q.length then some (Q.take k) else none) ∧
      contents (circularBuffReset c) = [] := by
  intro c
  have hrep : Represents c (run specState (Fifo.empty : Fifo UInt8 n) ops) :=
    run_refines (represents_init hn buffer) ops
  generalize run specState (Fifo.empty : Fifo UInt8 n) ops = f at hrep
  have hd := hrep.dataLen
  obtain ⟨hv, hl, hc⟩ := hrep
  refine ⟨hl ▸ hv.head_lt, hl ▸ hv.tail_lt, hv.full_eq, f.items, f.bound, ?_, rfl, hd, ?_, ?_, ?_,
    ?_, ?_, ?_, ?_, ?_, contents_reset c⟩
  · rw [← hc, contents, hl]
  · rw [circularBuffGetFreeSpace, hd, hl]
  · rw [empty_iff hv, hd, List.length_eq_zero_iff]
  · rw [circularBuffFull, full_iff hv, hd, hl]
  · intro b
    split_ifs with hfull
    · rw [(put_of_full hv b (by omega)).2.2, hc]
    · have hlt : f.items.length < n := lt_of_le_of_ne f.bound hfull
      rw [(put_of_lt hv b (by omega)).2.2, hc]
  · obtain ⟨hout, hnext⟩ := exec_refines (f := f) ⟨hv, hl, hc⟩ .get
    refine ⟨by simpa [exec, specExec, Fifo.get] using hout, hnext.contents_eq, ?_⟩
    intro hnil
    rw [get_of_empty hv (by rw [hd, hnil]; rfl)]
  · intro data
    split_ifs with hroom
    · rw [write_ok hv data (by omega) (by omega)]
      exact ⟨rfl, by rw [(putAll_spec hv data (by omega)).2.2, hc]⟩
    · exact write_refused hv data (by rwa [hd, hl])
  · intro k hk
    obtain ⟨c', hread, -, -, hc'⟩ := read_spec hv k
    rw [hread, hc', hc, hd]
    exact ⟨by simpa using hk, rfl, rfl⟩
  · intro k
    rw [fetch_spec hv k, hd, hc]

theorem circularBuff_refines_fifo_one :
    circularBuffGetDataLen (run execState (circularBuffInit (fun _ => 0) 1) [.put 7, .put 9]) = 1 := by
  obtain ⟨-, -, -, Q, -, -, hQ, hlen, -⟩ :=
    circularBuff_refines_fifo 1 (by decide) (fun _ => 0) [.put 7, .put 9]
  rw [hlen, hQ]
  decide

end HostComm.CircularBufferFifo
