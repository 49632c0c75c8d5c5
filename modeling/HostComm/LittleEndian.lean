import Mathlib.Algebra.Group.Nat.Defs
import Mathlib.Data.List.Basic
import Mathlib.Tactic.Common

namespace HostComm.LittleEndian

def leValue : List UInt8 → Nat
  | [] => 0
  | b :: bs => b.toNat + 256 * leValue bs

def leBytes : Nat → Nat → List UInt8
  | 0, _ => []
  | k + 1, v => UInt8.ofNat v :: leBytes k (v / 256)

@[simp] theorem leBytes_length (k v : Nat) : (leBytes k v).length = k := by
  induction k generalizing v with
  | zero => rfl
  | succ k ih => simp [leBytes, ih]

theorem leValue_lt (bs : List UInt8) : leValue bs < 256 ^ bs.length := by
  induction bs with
  | nil => simp [leValue]
  | cons b bs ih =>
      have hb : b.toNat < 256 := b.toNat_lt
      rw [leValue, List.length_cons, Nat.pow_succ]
      omega

theorem leBytes_leValue (bs : List UInt8) : leBytes bs.length (leValue bs) = bs := by
  induction bs with
  | nil => rfl
  | cons b bs ih =>
      have hb : b.toNat < 256 := b.toNat_lt
      have hdiv : (b.toNat + 256 * leValue bs) / 256 = leValue bs := by omega
      have hhead : UInt8.ofNat (b.toNat + 256 * leValue bs) = b := by
        apply UInt8.toNat_inj.mp
        rw [UInt8.toNat_ofNat']
        omega
      rw [List.length_cons, leValue, leBytes, hdiv, ih, hhead]

theorem leValue_leBytes (k v : Nat) : leValue (leBytes k v) = v % 256 ^ k := by
  induction k generalizing v with
  | zero => simp [leBytes, leValue, Nat.mod_one]
  | succ k ih =>
      have hsplit : v % 256 ^ (k + 1) = v % 256 + 256 * (v / 256 % 256 ^ k) := by
        rw [Nat.pow_succ, Nat.mul_comm (256 ^ k) 256, Nat.mod_mul]
      rw [leBytes, leValue, ih, UInt8.toNat_ofNat', hsplit]

/-- A 32-bit word as the machine loads it from four consecutive bytes. -/
def word32 (bs : List UInt8) : UInt32 := UInt32.ofNat (leValue bs)

def bytes32 (w : UInt32) : List UInt8 := leBytes 4 w.toNat

def word16 (bs : List UInt8) : UInt16 := UInt16.ofNat (leValue bs)

def bytes16 (w : UInt16) : List UInt8 := leBytes 2 w.toNat

@[simp] theorem bytes32_length (w : UInt32) : (bytes32 w).length = 4 := leBytes_length 4 _

@[simp] theorem bytes16_length (w : UInt16) : (bytes16 w).length = 2 := leBytes_length 2 _

@[simp] theorem word32_bytes32 (w : UInt32) : word32 (bytes32 w) = w := by
  have hlt : w.toNat < 256 ^ 4 := w.toNat_lt
  rw [word32, bytes32, leValue_leBytes, Nat.mod_eq_of_lt hlt]
  exact UInt32.ofNat_toNat

@[simp] theorem word16_bytes16 (w : UInt16) : word16 (bytes16 w) = w := by
  have hlt : w.toNat < 256 ^ 2 := w.toNat_lt
  rw [word16, bytes16, leValue_leBytes, Nat.mod_eq_of_lt hlt]
  exact UInt16.ofNat_toNat

theorem bytes32_word32 {bs : List UInt8} (h : bs.length = 4) : bytes32 (word32 bs) = bs := by
  have hlt : leValue bs < 2 ^ 32 := by
    have := leValue_lt bs
    rwa [h] at this
  have hval : (word32 bs).toNat = leValue bs := by
    rw [word32, UInt32.toNat_ofNat', Nat.mod_eq_of_lt hlt]
  rw [bytes32, hval, ← h, leBytes_leValue]

theorem bytes16_word16 {bs : List UInt8} (h : bs.length = 2) : bytes16 (word16 bs) = bs := by
  have hlt : leValue bs < 2 ^ 16 := by
    have := leValue_lt bs
    rwa [h] at this
  have hval : (word16 bs).toNat = leValue bs := by
    rw [word16, UInt16.toNat_ofNat', Nat.mod_eq_of_lt hlt]
  rw [bytes16, hval, ← h, leBytes_leValue]

end HostComm.LittleEndian
