import HostComm.RingSteps

namespace HostComm.ReadPreempted

open Windows CircularBuffer CircularBufferFifo Runs RingSteps

def Accepts (s : RxRing) : RxEvent → Prop
  | .main => True
  | .rxByte byte => (circularBuffWrite s.cb [byte]).1 = .ok

instance (s : RxRing) : ∀ e, Decidable (Accepts s e)
  | .main => isTrue trivial
  | .rxByte _ => inferInstanceAs (Decidable (_ = _))

/-- A byte may arrive here without spoiling the flag. Between the flag and the
tail assignment the ring must not look empty, which is how one that was full
looks, and at the end of the read the byte must not make it full. -/
def FlagSafe (c : CircularBuff) : ReadPc → Prop
  | .check _ => True
  | .load _ => True
  | .clearFull _ => True
  | .moveTail left => 1 < c.length → circularBuffGetDataLen c ≠ 0 ∧
      (left = 0 → circularBuffGetDataLen c + 1 ≠ c.length)
  | .returned _ => True

instance (c : CircularBuff) : DecidablePred (FlagSafe c)
  | .check _ => isTrue trivial
  | .load _ => isTrue trivial
  | .clearFull _ => isTrue trivial
  | .moveTail _ => inferInstanceAs (Decidable (_ → _ ∧ (_ → _)))
  | .returned _ => isTrue trivial

def KeepsFlag (s : RxRing) : RxEvent → Prop
  | .main => True
  | .rxByte _ => FlagSafe s.cb s.pc

instance (s : RxRing) : ∀ e, Decidable (KeepsFlag s e)
  | .main => isTrue trivial
  | .rxByte _ => inferInstanceAs (Decidable (FlagSafe s.cb s.pc))

theorem put_unfull {c : CircularBuff} (hf : c.full = false) (b : UInt8) :
    circularBuffPut c b = markFull (moveHead (storeHead c b)) := by
  simp [circularBuffPut, headPtrAdvance, dropOldest, storeHead, hf]

theorem put_length {c : CircularBuff} (hf : c.full = false) (b : UInt8) :
    (circularBuffPut c b).length = c.length := by
  rw [put_unfull hf]
  rfl

theorem write_accepted {c : CircularBuff} {b : UInt8} (h : (circularBuffWrite c [b]).1 = .ok) :
    c.full = false ∧ (circularBuffWrite c [b]).2 = circularBuffPut c b := by
  by_cases hf : c.full
  · simp [circularBuffWrite, hf] at h
  · by_cases hroom : circularBuffGetFreeSpace c < [b].length
    · simp only [circularBuffWrite, if_neg hf, if_pos hroom, reduceCtorEq] at h
    · simp only [circularBuffWrite, if_neg hf, if_neg hroom]
      exact ⟨Bool.not_eq_true _ ▸ hf, rfl⟩

/-- The ring holds `q`. Its flag is right, except that before the last byte
of the read it may be set one byte early. -/
structure Loose (c : CircularBuff) (last : Prop) (q : List UInt8) : Prop where
  holds : Holds c q
  marked : q.length = c.length → c.full = true
  of_full : c.full = true →
    q.length = c.length ∨ ¬ last ∧ q ≠ [] ∧ q.length + 1 = c.length

/-- Nothing has gone wrong: the bytes of the ring at each step of the read.
Between the flag and the tail assignment they start after the loaded one. -/
def Facts (c₀ : CircularBuff) (s : RxRing) : Prop :=
  match s.pc with
  | .check left => ∃ q, Loose s.cb (left = 0) q ∧ s.taken ++ q = contents c₀ ++ s.arrived
  | .load _ => ∃ b q, Loose s.cb False (b :: q) ∧ s.taken ++ b :: q = contents c₀ ++ s.arrived
  | .clearFull _ => ∃ b q, Loose s.cb False (b :: q) ∧ s.taken ++ q = contents c₀ ++ s.arrived
  | .moveTail left => s.cb.tail < s.cb.length ∧
      ∃ q, Loose (moveTail s.cb) (left = 0) q ∧ s.taken ++ q = contents c₀ ++ s.arrived
  | .returned _ => ∃ q, Loose s.cb True q ∧ s.taken ++ q = contents c₀ ++ s.arrived

structure Good (c₀ : CircularBuff) (s : RxRing) : Prop where
  length_eq : s.cb.length = c₀.length
  facts : Facts c₀ s

variable {c₀ : CircularBuff}

namespace Loose

variable {c : CircularBuff} {last : Prop} {q : List UInt8}

theorem of_valid (h : c.Valid) (last : Prop) : Loose c last (contents c) where
  holds := holds_contents h
  marked := fun hlen => (full_iff h).mpr ((contents_length c).symm.trans hlen)
  of_full := fun hf => .inl ((contents_length c).trans ((full_iff h).mp hf))

theorem exact (h : Loose c last q) (hexact : c.full = true → q.length = c.length) :
    c.Valid ∧ contents c = q := h.holds.exact ⟨hexact, h.marked⟩

theorem of_unfull (h : Loose c last q) (hf : c.full = false) : c.Valid ∧ contents c = q := by
  apply h.exact
  intro hf'
  rw [hf] at hf'
  exact absurd hf' Bool.false_ne_true

theorem ne_nil (h : Loose c last q) (hne : ¬ circularBuffEmpty c = true) : q ≠ [] := by
  rintro rfl
  have hf : c.full = false := by
    by_contra hf
    rw [Bool.not_eq_false] at hf
    rcases h.of_full hf with hn | ⟨-, hnil, -⟩
    · exact absurd hn h.holds.pos.ne
    · exact hnil rfl
  obtain ⟨hv, hc⟩ := h.of_unfull hf
  rw [empty_iff hv, ← contents_length, hc] at hne
  exact hne rfl

theorem arrive (h : Loose c last q) (hf : c.full = false) (b : UInt8) :
    Loose (circularBuffPut c b) last (q ++ [b]) := by
  obtain ⟨hv, hc⟩ := h.of_unfull hf
  have hne : circularBuffGetDataLen c ≠ c.length := by
    intro he
    rw [(full_iff hv).mpr he] at hf
    exact absurd hf Bool.false_ne_true.symm
  obtain ⟨hv', -, hc'⟩ := put_of_lt hv b (Nat.lt_of_le_of_ne (dataLen_le hv) hne)
  rw [hc] at hc'
  exact hc' ▸ of_valid hv' last

end Loose

theorem good_start (h : c₀.Valid) (k : Nat) : Good c₀ (readStart c₀ k) :=
  ⟨rfl, contents c₀, .of_valid h _, by simp [readStart]⟩

theorem good_main {s : RxRing} (h : Good c₀ s) : Good c₀ (readStep s) := by
  obtain ⟨hlen, hfacts⟩ := h
  obtain ⟨c, pc, taken, arrived⟩ := s
  cases pc with
  | check left =>
      obtain ⟨q, hq, hstream⟩ := hfacts
      cases left with
      | zero =>
          refine ⟨hlen, q, ⟨hq.holds, hq.marked, fun hf => ?_⟩, hstream⟩
          rcases hq.of_full hf with hn | ⟨hlast, -⟩
          · exact .inl hn
          · exact absurd rfl hlast
      | succ left =>
          simp only [readStep]
          simp only at hq
          split_ifs with hempty
          · refine ⟨hlen, q, ⟨hq.holds, hq.marked, fun hf => ?_⟩, hstream⟩
            simp only at hf
            rw [circularBuffEmpty, hf] at hempty
            exact absurd hempty Bool.false_ne_true
          · obtain ⟨b, q, rfl⟩ := List.exists_cons_of_ne_nil (hq.ne_nil hempty)
            refine ⟨hlen, b, q, ⟨hq.holds, hq.marked, fun hf => ?_⟩, hstream⟩
            rcases hq.of_full hf with hn | ⟨-, hone⟩
            · exact .inl hn
            · exact .inr ⟨id, hone⟩
  | load left =>
      obtain ⟨b, q, hq, hstream⟩ := hfacts
      refine ⟨hlen, b, q, hq, ?_⟩
      simp only at hq hstream
      have hb : c.buffer c.tail = b := hq.holds.pop.1
      simp only [readStep, hb, List.append_assoc, List.singleton_append]
      exact hstream
  | clearFull left =>
      obtain ⟨b, q, hq, hstream⟩ := hfacts
      simp only at hlen hq
      have hcleared : Holds (clearFull c) (b :: q) :=
        ⟨hq.holds.tail_lt, hq.holds.head_eq, hq.holds.bound, hq.holds.cells⟩
      refine ⟨hlen, hq.holds.tail_lt, q, ⟨hcleared.pop.2, fun hn => ?_, fun hf => absurd hf Bool.false_ne_true⟩, hstream⟩
      have hbound : q.length + 1 ≤ c.length := hq.holds.bound
      have hn : q.length = c.length := hn
      omega
  | moveTail left => exact ⟨hlen, hfacts.2⟩
  | returned complete => exact ⟨hlen, hfacts⟩

theorem gap_dataLen {c : CircularBuff} {last : Prop} {q : List UInt8} (ht : c.tail < c.length)
    (hf : c.full = false) (hq : Loose (moveTail c) last q) :
    q.length < c.length ∧
      circularBuffGetDataLen c = if q.length + 1 = c.length then 0 else q.length + 1 := by
  have hbound : q.length ≤ c.length := hq.holds.bound
  have hlt : q.length < c.length := by
    refine Nat.lt_of_le_of_ne hbound fun he => ?_
    have hfull : c.full = true := hq.marked he
    rw [hf] at hfull
    exact absurd hfull Bool.false_ne_true
  have hhead : c.head = (c.tail + (q.length + 1)) % c.length := by
    have hhead : c.head = ((c.tail + 1) % c.length + q.length) % c.length := hq.holds.head_eq
    rw [hhead, Nat.mod_add_mod, Nat.add_assoc, Nat.add_comm 1]
  refine ⟨hlt, ?_⟩
  split_ifs with he
  · apply dataLen_of_head ht (Nat.zero_le _)
    · rw [hhead, he, Nat.add_mod_right, Nat.add_zero]
    · exact iff_of_false (by simp [hf]) (by omega)
  · apply dataLen_of_head ht hlt hhead
    exact iff_of_false (by simp [hf]) he

theorem succ_head_eq_tail_iff {c : CircularBuff} (h : c.Valid) (hf : c.full = false) :
    (c.head + 1) % c.length = c.tail ↔ circularBuffGetDataLen c + 1 = c.length := by
  have hh := h.head_lt
  have ht := h.tail_lt
  have hlen : circularBuffGetDataLen c =
      if c.tail ≤ c.head then c.head - c.tail else c.length + c.head - c.tail := by
    simp [circularBuffGetDataLen, hf]
  rw [hlen, succ_mod hh]
  split_ifs <;> omega

theorem valid_of_unfull {c : CircularBuff} (hh : c.head < c.length) (ht : c.tail < c.length)
    (hf : c.full = false) : c.Valid :=
  ⟨Nat.zero_lt_of_lt hh, hh, ht, fun hfull => absurd (hf.symm.trans hfull) Bool.false_ne_true⟩

theorem put_full_iff {c : CircularBuff} (hv : c.Valid) (hf : c.full = false) (b : UInt8) :
    (circularBuffPut c b).full = true ↔ circularBuffGetDataLen c + 1 = c.length := by
  rw [put_unfull hf, ← succ_head_eq_tail_iff hv hf]
  exact beq_iff_eq

theorem gap_arrive {c : CircularBuff} {left : Nat} {q : List UInt8} (ht : c.tail < c.length)
    (hf : c.full = false) (hq : Loose (moveTail c) (left = 0) q) (hsafe : FlagSafe c (.moveTail left))
    (b : UInt8) : Loose (moveTail (circularBuffPut c b)) (left = 0) (q ++ [b]) := by
  obtain ⟨hlt, hgap⟩ := gap_dataLen ht hf hq
  have hv : c.Valid := valid_of_unfull hq.holds.head_lt ht hf
  have hflag := put_full_iff hv hf b
  have hpush := hq.holds.push b hlt
  rw [put_unfull hf] at hflag ⊢
  refine ⟨⟨hpush.tail_lt, hpush.head_eq, hpush.bound, hpush.cells⟩, fun hn => ?_, fun hfull => ?_⟩
  · apply hflag.mpr
    have hn : q.length + 1 = c.length := by
      rw [List.length_append] at hn
      exact hn
    rw [if_pos hn] at hgap
    rcases Nat.lt_or_ge 1 c.length with hone | hone
    · exact absurd hgap (hsafe hone).1
    · omega
  · have hnext := hflag.mp hfull
    rw [List.length_append, List.length_singleton]
    by_cases hn : q.length + 1 = c.length
    · exact .inl hn
    · rw [if_neg hn] at hgap
      refine .inr ⟨fun hleft => ?_, by simp, ?_⟩
      · exact (hsafe (by omega)).2 hleft hnext
      · rw [hgap] at hnext
        exact hnext

theorem good_arrival {s : RxRing} {b : UInt8} (h : Good c₀ s)
    (hok : Accepts s (.rxByte b)) (hkeep : KeepsFlag s (.rxByte b)) :
    Good c₀ (rxStep s (.rxByte b)) := by
  obtain ⟨hlen, hfacts⟩ := h
  obtain ⟨c, pc, taken, arrived⟩ := s
  obtain ⟨hf, hput⟩ := write_accepted hok
  simp only at hlen hf hput
  simp only [rxStep, hput]
  refine ⟨(put_length hf b).trans hlen, ?_⟩
  have hstream {q : List UInt8} (hs : taken ++ q = contents c₀ ++ arrived) :
      taken ++ (q ++ [b]) = contents c₀ ++ (arrived ++ [b]) := by
    rw [← List.append_assoc, hs, List.append_assoc]
  cases pc with
  | check left =>
      obtain ⟨q, hq, hs⟩ := hfacts
      exact ⟨q ++ [b], hq.arrive hf b, hstream hs⟩
  | load left =>
      obtain ⟨x, q, hq, hs⟩ := hfacts
      exact ⟨x, q ++ [b], hq.arrive hf b, hstream hs⟩
  | clearFull left =>
      obtain ⟨x, q, hq, hs⟩ := hfacts
      exact ⟨x, q ++ [b], hq.arrive hf b, hstream hs⟩
  | moveTail left =>
      obtain ⟨ht, q, hq, hs⟩ := hfacts
      simp only at ht hq hs
      refine ⟨?_, q ++ [b], gap_arrive ht hf hq hkeep b, hstream hs⟩
      rw [put_unfull hf]
      exact ht
  | returned complete =>
      obtain ⟨q, hq, hs⟩ := hfacts
      exact ⟨q ++ [b], hq.arrive hf b, hstream hs⟩

def unflagged (c : CircularBuff) : Nat :=
  if c.full = true ∧ c.head ≠ c.tail then c.length - 1 else circularBuffGetDataLen c

/-- What the ring will store when the main loop has finished the byte it is
reading. -/
def remains (pc : ReadPc) (c : CircularBuff) : Nat :=
  match pc with
  | .clearFull _ => unflagged c - 1
  | .moveTail _ => unflagged (moveTail c)
  | _ => unflagged c

def holdsByte : ReadPc → Bool
  | .load _ => true
  | .clearFull _ => true
  | _ => false

/-- A byte arrived while a full ring looked empty: a whole ring of bytes is
missing, and nothing brings it back. -/
structure Short (c₀ : CircularBuff) (s : RxRing) : Prop where
  length_eq : s.cb.length = c₀.length
  one_lt : 1 < s.cb.length
  head_lt : s.cb.head < s.cb.length
  tail_lt : s.cb.tail < s.cb.length
  nonempty : holdsByte s.pc = true → circularBuffEmpty s.cb = false
  missing : s.taken.length + remains s.pc s.cb + c₀.length ≤
    (contents c₀).length + s.arrived.length

/-- A byte filled the ring at the end of the read: the flag stays set although
the tail has moved on. -/
structure Stale (c₀ : CircularBuff) (s : RxRing) : Prop where
  length_eq : s.cb.length = c₀.length
  pc_eq : s.pc = .moveTail 0 ∨ s.pc = .check 0 ∨ ∃ complete, s.pc = .returned complete
  full : s.cb.full = true
  excess : s.taken.length + c₀.length = (contents c₀).length + s.arrived.length + 1

theorem dataLen_le_unflagged (c : CircularBuff) :
    circularBuffGetDataLen c ≤ unflagged c + 1 := by
  rw [unflagged]
  split_ifs with h
  · rw [circularBuffGetDataLen, if_pos h.1]
    omega
  · exact Nat.le_succ _

theorem unflagged_of_valid {c : CircularBuff} (h : c.Valid) :
    unflagged c = circularBuffGetDataLen c :=
  if_neg fun hf => hf.2 (h.full_eq hf.1)

theorem unflagged_pos {c : CircularBuff} (hone : 1 < c.length) (hh : c.head < c.length)
    (ht : c.tail < c.length) (hne : circularBuffEmpty c = false) : 0 < unflagged c := by
  rw [unflagged]
  split_ifs with hf
  · omega
  · have hv : c.Valid := ⟨Nat.zero_lt_of_lt hh, hh, ht, fun hfull => by
      by_contra he
      exact hf ⟨hfull, he⟩⟩
    rw [Nat.pos_iff_ne_zero, ne_eq, ← empty_iff hv, hne]
    exact Bool.false_ne_true

theorem unflagged_retreat {c : CircularBuff} (hone : 1 < c.length) (hh : c.head < c.length)
    (ht : c.tail < c.length) (hne : circularBuffEmpty c = false) :
    unflagged (moveTail (clearFull c)) ≤ unflagged c - 1 := by
  simp only [circularBuffEmpty] at hne
  simp only [unflagged, circularBuffGetDataLen, moveTail, clearFull, succ_mod ht,
    Bool.false_eq_true, false_and, if_false]
  cases hf : c.full with
  | true =>
      simp only [true_and, if_true]
      split_ifs <;> omega
  | false =>
      have hapart : c.tail ≠ c.head := by simpa [hf] using hne
      simp only [Bool.false_eq_true, false_and, if_false]
      split_ifs <;> omega

theorem unflagged_put {c : CircularBuff} (hv : c.Valid) (hf : c.full = false) (b : UInt8) :
    (circularBuffPut c b).Valid ∧ circularBuffEmpty (circularBuffPut c b) = false ∧
      unflagged (circularBuffPut c b) = unflagged c + 1 := by
  have hne : circularBuffGetDataLen c ≠ c.length := by
    rw [ne_eq, ← full_iff hv, hf]
    exact Bool.false_ne_true
  obtain ⟨hv', -, hc⟩ := put_of_lt hv b (Nat.lt_of_le_of_ne (dataLen_le hv) hne)
  have hlen : circularBuffGetDataLen (circularBuffPut c b) = circularBuffGetDataLen c + 1 := by
    rw [← contents_length, hc, List.length_append, contents_length]
    rfl
  refine ⟨hv', ?_, ?_⟩
  · rw [← Bool.not_eq_true, empty_iff hv', hlen]
    exact Nat.succ_ne_zero _
  · rw [unflagged_of_valid hv', unflagged_of_valid hv, hlen]

theorem unflagged_gap {c : CircularBuff} (hone : 1 < c.length) (hh : c.head < c.length)
    (ht : c.tail < c.length) (hf : c.full = false) (b : UInt8) :
    unflagged (moveTail (circularBuffPut c b)) ≤ unflagged (moveTail c) + 1 := by
  simp only [put_unfull hf, unflagged, circularBuffGetDataLen, moveTail, markFull, moveHead,
    storeHead, succ_mod ht, succ_mod hh, hf, beq_iff_eq, Bool.false_eq_true, false_and, if_false]
  split_ifs <;> omega

theorem unflagged_missed {c : CircularBuff} (hone : 1 < c.length) (hh : c.head < c.length)
    (ht : c.tail < c.length) (hf : c.full = false) (hempty : circularBuffGetDataLen c = 0)
    (b : UInt8) : unflagged (moveTail (circularBuffPut c b)) = 0 := by
  have he : c.tail = c.head := by
    simp only [circularBuffGetDataLen, hf, Bool.false_eq_true, if_false] at hempty
    split_ifs at hempty <;> omega
  have hapart : ¬ (c.head + 1) % c.length = c.head := by
    rw [succ_mod hh]
    split_ifs <;> omega
  simp [put_unfull hf, unflagged, circularBuffGetDataLen, moveTail, markFull, moveHead, storeHead,
    he, hapart]

theorem short_main {s : RxRing} (h : Short c₀ s) : Short c₀ (readStep s) := by
  obtain ⟨hlen, hone, hh, ht, hne, hmiss⟩ := h
  obtain ⟨c, pc, taken, arrived⟩ := s
  cases pc with
  | check left =>
      cases left with
      | zero => exact ⟨hlen, hone, hh, ht, fun hb => absurd hb Bool.false_ne_true, hmiss⟩
      | succ left =>
          simp only [readStep]
          split_ifs with hempty
          · exact ⟨hlen, hone, hh, ht, fun hb => absurd hb Bool.false_ne_true, hmiss⟩
          · exact ⟨hlen, hone, hh, ht, fun _ => by simpa using hempty, hmiss⟩
  | load left =>
      refine ⟨hlen, hone, hh, ht, hne, ?_⟩
      have hpos : 0 < unflagged c := unflagged_pos hone hh ht (hne rfl)
      simp only [readStep, remains, List.length_append, List.length_singleton] at hmiss ⊢
      omega
  | clearFull left =>
      refine ⟨hlen, hone, hh, ht, fun hb => absurd hb Bool.false_ne_true, ?_⟩
      have hle := unflagged_retreat hone hh ht (hne rfl)
      simp only [readStep, remains] at hle hmiss ⊢
      omega
  | moveTail left =>
      exact ⟨hlen, hone, hh, Nat.mod_lt _ (Nat.zero_lt_of_lt hone),
        fun hb => absurd hb Bool.false_ne_true, hmiss⟩
  | returned complete => exact ⟨hlen, hone, hh, ht, hne, hmiss⟩

theorem short_arrival {s : RxRing} {b : UInt8} (h : Short c₀ s) (hok : Accepts s (.rxByte b)) :
    Short c₀ (rxStep s (.rxByte b)) := by
  obtain ⟨hlen, hone, hh, ht, -, hmiss⟩ := h
  obtain ⟨c, pc, taken, arrived⟩ := s
  obtain ⟨hf, hput⟩ := write_accepted hok
  simp only at hlen hone hh ht hf hput hmiss
  have hv : c.Valid := valid_of_unfull hh ht hf
  obtain ⟨hv', hne', hlen'⟩ := unflagged_put hv hf b
  have hsame := put_length hf b
  have hremains : remains pc (circularBuffPut c b) ≤ remains pc c + 1 := by
    cases pc with
    | moveTail left => exact unflagged_gap hone hh ht hf b
    | clearFull left =>
        simp only [remains]
        omega
    | check left => exact hlen'.le
    | load left => exact hlen'.le
    | returned complete => exact hlen'.le
  simp only [rxStep, hput]
  refine ⟨hsame.trans hlen, hsame.symm ▸ hone, hv'.head_lt, hv'.tail_lt, fun _ => hne', ?_⟩
  simp only [List.length_append, List.length_singleton]
  omega

theorem stale_step {s : RxRing} (e : RxEvent) (h : Stale c₀ s) (hok : Accepts s e) :
    Stale c₀ (rxStep s e) := by
  obtain ⟨hlen, hpc, hfull, hexcess⟩ := h
  obtain ⟨c, pc, taken, arrived⟩ := s
  cases e with
  | main =>
      obtain rfl | rfl | ⟨complete, rfl⟩ := hpc
      · exact ⟨hlen, .inr (.inl rfl), hfull, hexcess⟩
      · exact ⟨hlen, .inr (.inr ⟨true, rfl⟩), hfull, hexcess⟩
      · exact ⟨hlen, .inr (.inr ⟨complete, rfl⟩), hfull, hexcess⟩
  | rxByte b =>
      have hf := (write_accepted hok).1
      exact absurd (hf.symm.trans hfull) Bool.false_ne_true

theorem bad_step (s : RxRing) (e : RxEvent) (h : Short c₀ s ∨ Stale c₀ s) (hok : Accepts s e) :
    Short c₀ (rxStep s e) ∨ Stale c₀ (rxStep s e) := by
  rcases h with h | h
  · cases e with
    | main => exact .inl (short_main h)
    | rxByte b => exact .inl (short_arrival h hok)
  · exact .inr (stale_step e h hok)

theorem gap_breaks {c : CircularBuff} {taken arrived : List UInt8} {left : Nat} {b : UInt8}
    (hlen : c.length = c₀.length) (hf : c.full = false)
    (hfacts : Facts c₀ ⟨c, .moveTail left, taken, arrived⟩) (hbreak : ¬ FlagSafe c (.moveTail left)) :
    Short c₀ ⟨circularBuffPut c b, .moveTail left, taken, arrived ++ [b]⟩ ∨
      Stale c₀ ⟨circularBuffPut c b, .moveTail left, taken, arrived ++ [b]⟩ := by
  rw [FlagSafe, Classical.not_imp] at hbreak
  obtain ⟨hone, hbreak⟩ := hbreak
  obtain ⟨ht, q, hq, hs⟩ := hfacts
  simp only at ht hq hs
  obtain ⟨hlt, hgap⟩ := gap_dataLen ht hf hq
  have hh : c.head < c.length := hq.holds.head_lt
  have hv : c.Valid := valid_of_unfull hh ht hf
  have hsame := put_length hf b
  have hcount : taken.length + q.length = (contents c₀).length + arrived.length := by
    simpa using congrArg List.length hs
  by_cases hempty : circularBuffGetDataLen c = 0
  · have hv' := (unflagged_put hv hf b).1
    left
    refine ⟨hsame.trans hlen, hsame.symm ▸ hone, hv'.head_lt, hv'.tail_lt,
      fun hb => absurd hb Bool.false_ne_true, ?_⟩
    have hn : q.length + 1 = c.length := by
      by_contra hn
      rw [if_neg hn] at hgap
      omega
    have hzero : unflagged (moveTail (circularBuffPut c b)) = 0 :=
      unflagged_missed hone hh ht hf hempty b
    simp only [remains, hzero, List.length_append, List.length_singleton]
    omega
  · have hlast : left = 0 ∧ circularBuffGetDataLen c + 1 = c.length := by
      by_contra hno
      exact hbreak ⟨hempty, fun hleft hn => hno ⟨hleft, hn⟩⟩
    obtain ⟨rfl, hn⟩ := hlast
    have hq1 : ¬ q.length + 1 = c.length := by
      intro he
      rw [if_pos he] at hgap
      exact hempty hgap
    rw [if_neg hq1] at hgap
    right
    refine ⟨hsame.trans hlen, .inl rfl, (put_full_iff hv hf b).mpr hn, ?_⟩
    simp only [List.length_append, List.length_singleton]
    omega

theorem bad_arrival (s : RxRing) (e : RxEvent) (h : Good c₀ s) (hok : Accepts s e)
    (hbreak : ¬ KeepsFlag s e) : Short c₀ (rxStep s e) ∨ Stale c₀ (rxStep s e) := by
  obtain ⟨hlen, hfacts⟩ := h
  obtain ⟨c, pc, taken, arrived⟩ := s
  cases e with
  | main => exact absurd trivial hbreak
  | rxByte b =>
      obtain ⟨hf, hput⟩ := write_accepted hok
      simp only at hlen hf hput
      simp only [rxStep, hput]
      cases pc with
      | moveTail left => exact gap_breaks hlen hf hfacts hbreak
      | check left => exact absurd trivial hbreak
      | load left => exact absurd trivial hbreak
      | clearFull left => exact absurd trivial hbreak
      | returned complete => exact absurd trivial hbreak

theorem good_step (s : RxRing) (e : RxEvent) (h : Good c₀ s) (hok : Accepts s e)
    (hkeep : KeepsFlag s e) : Good c₀ (rxStep s e) := by
  cases e with
  | main => exact good_main h
  | rxByte b => exact good_arrival h hok hkeep

/-- A read that returns has kept the stream in order exactly when no byte came
between its flag and tail assignments in one of the two bad places. -/
theorem read_preempted {c : CircularBuff} (hc : c.Valid) (k : Nat) (events : List RxEvent)
    (hok : Along Accepts rxStep (readStart c k) events) {complete : Bool}
    (hret : (run rxStep (readStart c k) events).pc = .returned complete) :
    (run rxStep (readStart c k) events).taken ++
        contents (run rxStep (readStart c k) events).cb =
        contents c ++ (run rxStep (readStart c k) events).arrived ↔
      Along KeepsFlag rxStep (readStart c k) events := by
  have hsplit : Along KeepsFlag rxStep (readStart c k) events ∧
        Good c (run rxStep (readStart c k) events) ∨
      ¬ Along KeepsFlag rxStep (readStart c k) events ∧
        (Short c (run rxStep (readStart c k) events) ∨
          Stale c (run rxStep (readStart c k) events)) :=
    run_splits (B := fun s => Short c s ∨ Stale c s) good_step bad_arrival bad_step
      (good_start hc k) hok
  rcases hsplit with ⟨hall, hgood⟩ | ⟨hnot, hbad⟩
  · have hfacts := hgood.facts
    rw [Facts, hret] at hfacts
    obtain ⟨q, hq, hs⟩ := hfacts
    have hexact : contents (run rxStep (readStart c k) events).cb = q := by
      refine (hq.exact fun hf => ?_).2
      rcases hq.of_full hf with hn | ⟨hlast, -⟩
      · exact hn
      · exact absurd trivial hlast
    rw [hexact]
    exact iff_of_true hs hall
  · refine iff_of_false (fun hstream => ?_) hnot
    have hlength := congrArg List.length hstream
    simp only [List.length_append, contents_length] at hlength
    rcases hbad with hshort | hstale
    · have hmissing := hshort.missing
      have hone := hshort.one_lt
      have hlen := hshort.length_eq
      have hle := dataLen_le_unflagged (run rxStep (readStart c k) events).cb
      rw [hret] at hmissing
      simp only [remains, contents_length] at hmissing
      omega
    · have hexcess := hstale.excess
      have hlen := hstale.length_eq
      rw [circularBuffGetDataLen, if_pos hstale.full] at hlength
      rw [contents_length] at hexcess
      omega

end HostComm.ReadPreempted
