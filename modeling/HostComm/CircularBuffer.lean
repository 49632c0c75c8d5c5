import HostComm.Windows

namespace HostComm.CircularBuffer

open Windows

inductive CircularBuffSt
  | ok
  | full
  | notEnoughSpace
  deriving DecidableEq, Repr

/-- The control block. `buffer` is the memory the registered pointer
addresses; the sums of indices stay below `2 ^ 32` after the reduction, so
the `size_t` fields are plain numbers. -/
structure CircularBuff where
  buffer : Nat → UInt8
  head : Nat
  tail : Nat
  length : Nat
  full : Bool

def dropOldest (c : CircularBuff) : CircularBuff :=
  if c.full then { c with tail := (c.tail + 1) % c.length } else c

def moveHead (c : CircularBuff) : CircularBuff := { c with head := (c.head + 1) % c.length }

def markFull (c : CircularBuff) : CircularBuff := { c with full := c.head == c.tail }

def headPtrAdvance (c : CircularBuff) : CircularBuff := markFull (moveHead (dropOldest c))

def clearFull (c : CircularBuff) : CircularBuff := { c with full := false }

def moveTail (c : CircularBuff) : CircularBuff := { c with tail := (c.tail + 1) % c.length }

def tailPtrRetreat (c : CircularBuff) : CircularBuff := moveTail (clearFull c)

def circularBuffEmpty (c : CircularBuff) : Bool := !c.full && c.tail == c.head

def circularBuffFull (c : CircularBuff) : Bool := c.full

def circularBuffReset (c : CircularBuff) : CircularBuff :=
  { c with head := 0, tail := 0, full := false }

/-- The block comes from `malloc`: its other fields are set by the reset. -/
def circularBuffInit (buffer : Nat → UInt8) (size : Nat) : CircularBuff :=
  circularBuffReset { buffer, head := 0, tail := 0, length := size, full := false }

def circularBuffGetDataLen (c : CircularBuff) : Nat :=
  if c.full then c.length
  else if c.tail ≤ c.head then c.head - c.tail
  else c.length + c.head - c.tail

def circularBuffGetFreeSpace (c : CircularBuff) : Nat := c.length - circularBuffGetDataLen c

def storeHead (c : CircularBuff) (data : UInt8) : CircularBuff :=
  { c with buffer := Function.update c.buffer c.head data }

def circularBuffPut (c : CircularBuff) (data : UInt8) : CircularBuff :=
  headPtrAdvance (storeHead c data)

/-- `none` is the return value 0: `*data` keeps what it held. -/
def circularBuffGet (c : CircularBuff) : Option UInt8 × CircularBuff :=
  if circularBuffEmpty c then (none, c) else (some (c.buffer c.tail), tailPtrRetreat c)

def putAll (c : CircularBuff) (data : List UInt8) : CircularBuff := data.foldl circularBuffPut c

def circularBuffWrite (c : CircularBuff) (data : List UInt8) : CircularBuffSt × CircularBuff :=
  if c.full then (.full, c)
  else if circularBuffGetFreeSpace c < data.length then (.notEnoughSpace, c)
  else (.ok, putAll c data)

/-- Status and the bytes stored through the pointer: a read that comes up
short has already stored the ones it found. -/
def circularBuffRead (c : CircularBuff) : Nat → Bool × List UInt8 × CircularBuff
  | 0 => (true, [], c)
  | n + 1 =>
      match circularBuffGet c with
      | (none, c) => (false, [], c)
      | (some b, c) =>
          let r := circularBuffRead c n
          (r.1, b :: r.2.1, r.2.2)

def fetchFrom (c : CircularBuff) : Nat → Nat → List UInt8
  | _, 0 => []
  | tailIdx, n + 1 => c.buffer tailIdx :: fetchFrom c ((tailIdx + 1) % c.length) n

def circularBuffFetch (c : CircularBuff) (dataLen : Nat) : Option (List UInt8) :=
  if circularBuffGetDataLen c < dataLen then none else some (fetchFrom c c.tail dataLen)

/-- What the three fields promise outside the operations. -/
structure CircularBuff.Valid (c : CircularBuff) : Prop where
  pos : 0 < c.length
  head_lt : c.head < c.length
  tail_lt : c.tail < c.length
  full_eq : c.full = true → c.head = c.tail

def contents (c : CircularBuff) : List UInt8 :=
  window c.buffer c.length c.tail (circularBuffGetDataLen c)

@[simp] theorem contents_length (c : CircularBuff) :
    (contents c).length = circularBuffGetDataLen c := by
  simp [contents]

@[simp] theorem putAll_nil (c : CircularBuff) : putAll c [] = c := rfl

@[simp] theorem putAll_cons (c : CircularBuff) (b : UInt8) (data : List UInt8) :
    putAll c (b :: data) = putAll (circularBuffPut c b) data := rfl

theorem valid_init (buffer : Nat → UInt8) {size : Nat} (h : 0 < size) :
    (circularBuffInit buffer size).Valid :=
  ⟨h, h, h, by simp [circularBuffInit, circularBuffReset]⟩

theorem contents_reset (c : CircularBuff) : contents (circularBuffReset c) = [] := by
  simp [contents, circularBuffReset, circularBuffGetDataLen]

theorem valid_reset {c : CircularBuff} (h : c.Valid) : (circularBuffReset c).Valid :=
  ⟨h.pos, h.pos, h.pos, by simp [circularBuffReset]⟩

theorem dataLen_le {c : CircularBuff} (h : c.Valid) : circularBuffGetDataLen c ≤ c.length := by
  have := h.head_lt
  have := h.tail_lt
  unfold circularBuffGetDataLen
  split_ifs <;> omega

theorem full_iff {c : CircularBuff} (h : c.Valid) :
    c.full = true ↔ circularBuffGetDataLen c = c.length := by
  have := h.head_lt
  have := h.tail_lt
  have := h.pos
  unfold circularBuffGetDataLen
  split_ifs with hf
  · exact iff_of_true hf rfl
  · exact iff_of_false hf (by omega)
  · exact iff_of_false hf (by omega)

theorem empty_iff {c : CircularBuff} (h : c.Valid) :
    circularBuffEmpty c = true ↔ circularBuffGetDataLen c = 0 := by
  have := h.head_lt
  have := h.tail_lt
  have := h.pos
  unfold circularBuffEmpty circularBuffGetDataLen
  cases c.full with
  | true => simp; omega
  | false => simp; split_ifs <;> omega

theorem head_eq {c : CircularBuff} (h : c.Valid) :
    c.head = (c.tail + circularBuffGetDataLen c) % c.length := by
  have hh := h.head_lt
  have ht := h.tail_lt
  unfold circularBuffGetDataLen
  split_ifs with hf hle
  · rw [Nat.add_mod_right, Nat.mod_eq_of_lt ht, h.full_eq hf]
  · rw [Nat.add_sub_cancel' hle, Nat.mod_eq_of_lt hh]
  · rw [show c.tail + (c.length + c.head - c.tail) = c.head + c.length by omega,
      Nat.add_mod_right, Nat.mod_eq_of_lt hh]

theorem dataLen_of_head {c : CircularBuff} {k : Nat} (ht : c.tail < c.length) (hk : k ≤ c.length)
    (hh : c.head = (c.tail + k) % c.length) (hf : c.full = true ↔ k = c.length) :
    circularBuffGetDataLen c = k := by
  unfold circularBuffGetDataLen
  split_ifs with hfull hle
  · exact (hf.mp hfull).symm
  · have hlt : k < c.length := lt_of_le_of_ne hk fun he => hfull (hf.mpr he)
    by_cases hw : c.tail + k < c.length
    · rw [Nat.mod_eq_of_lt hw] at hh; omega
    · rw [Nat.mod_eq_sub_mod (by omega), Nat.mod_eq_of_lt (by omega)] at hh; omega
  · have hlt : k < c.length := lt_of_le_of_ne hk fun he => hfull (hf.mpr he)
    by_cases hw : c.tail + k < c.length
    · rw [Nat.mod_eq_of_lt hw] at hh; omega
    · rw [Nat.mod_eq_sub_mod (by omega), Nat.mod_eq_of_lt (by omega)] at hh; omega

end HostComm.CircularBuffer
