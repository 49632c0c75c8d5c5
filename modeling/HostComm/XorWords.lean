import Mathlib.Data.List.Basic
import Mathlib.Tactic.Common

namespace HostComm.XorWords

def xorWords (w : Nat → UInt32) (start : Nat) : Nat → UInt32
  | 0 => 0
  | count + 1 => w start ^^^ xorWords w (start + 1) count

@[simp] theorem xorWords_zero (w : Nat → UInt32) (start : Nat) : xorWords w start 0 = 0 := rfl

theorem xorWords_append (w : Nat → UInt32) (start j k : Nat) :
    xorWords w start (j + k) = xorWords w start j ^^^ xorWords w (start + j) k := by
  induction j generalizing start with
  | zero => simp
  | succ j ih =>
      rw [Nat.add_right_comm, xorWords, ih (start + 1), xorWords, UInt32.xor_assoc,
        Nat.add_right_comm start 1 j, Nat.add_assoc start j 1]

theorem xorWords_congr {v w : Nat → UInt32} (start count : Nat)
    (h : ∀ i, start ≤ i → i < start + count → v i = w i) :
    xorWords v start count = xorWords w start count := by
  induction count generalizing start with
  | zero => rfl
  | succ count ih =>
      have hhead : v start = w start := h start (Nat.le_refl start) (by omega)
      have htail := ih (start + 1) fun i hi hlt => h i (by omega) (by omega)
      rw [xorWords, xorWords, hhead, htail]

theorem xorWords_shift (w : Nat → UInt32) (offset start count : Nat) :
    xorWords (fun i => w (offset + i)) start count = xorWords w (offset + start) count := by
  induction count generalizing start with
  | zero => rfl
  | succ count ih => rw [xorWords, xorWords, ih (start + 1), Nat.add_assoc]

theorem foldl_xor (w : Nat → UInt32) (start count : Nat) (acc : UInt32) :
    (List.range' start count).foldl (fun acc i => acc ^^^ w i) acc =
      acc ^^^ xorWords w start count := by
  induction count generalizing start acc with
  | zero => simp
  | succ count ih =>
      rw [List.range'_succ, List.foldl_cons, ih (start + 1), xorWords, UInt32.xor_assoc]

/-- Sums that agree on a prefix are equal exactly when their rests are. -/
theorem xor_prefix_eq_iff (a b c : UInt32) : a ^^^ b = a ^^^ c ↔ b = c := UInt32.xor_right_inj a

end HostComm.XorWords
