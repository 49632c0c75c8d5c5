import Mathlib.Data.List.Basic
import Mathlib.Data.Nat.ModEq
import Mathlib.Logic.Function.Basic
import Mathlib.Tactic.Common

namespace HostComm.Windows

variable {α : Type}

/-- The `k` cells of a memory of `n` cells that start at `start`, read
cyclically. -/
def window (mem : Nat → α) (n start : Nat) : Nat → List α
  | 0 => []
  | k + 1 => mem (start % n) :: window mem n (start + 1) k

@[simp] theorem window_zero (mem : Nat → α) (n start : Nat) : window mem n start 0 = [] := rfl

@[simp] theorem window_length (mem : Nat → α) (n start k : Nat) :
    (window mem n start k).length = k := by
  induction k generalizing start with
  | zero => rfl
  | succ k ih => simp [window, ih]

theorem window_mod (mem : Nat → α) (n start k : Nat) :
    window mem n (start % n) k = window mem n start k := by
  induction k generalizing start with
  | zero => rfl
  | succ k ih =>
      have hnext : window mem n (start % n + 1) k = window mem n (start + 1) k := by
        rw [← ih (start % n + 1), ← ih (start + 1), Nat.mod_add_mod]
      simp only [window, Nat.mod_mod, hnext]

theorem window_mod_succ (mem : Nat → α) (n start k : Nat) :
    window mem n ((start + 1) % n) k = window mem n (start + 1) k :=
  window_mod mem n (start + 1) k

theorem window_append (mem : Nat → α) (n start j k : Nat) :
    window mem n start (j + k) = window mem n start j ++ window mem n (start + j) k := by
  induction j generalizing start with
  | zero => simp
  | succ j ih =>
      rw [Nat.add_right_comm, window, ih (start + 1), window, List.cons_append,
        Nat.add_right_comm start 1 j, Nat.add_assoc start j 1]

theorem window_concat (mem : Nat → α) (n start k : Nat) :
    window mem n start (k + 1) = window mem n start k ++ [mem ((start + k) % n)] := by
  rw [window_append]
  rfl

theorem take_window (mem : Nat → α) (n start : Nat) {j k : Nat} (h : j ≤ k) :
    (window mem n start k).take j = window mem n start j := by
  obtain ⟨r, rfl⟩ := Nat.exists_eq_add_of_le h
  rw [window_append, List.take_append_of_le_length (by simp), List.take_of_length_le (by simp)]

theorem window_update (mem : Nat → α) (n start k j : Nat) (x : α)
    (h : ∀ i, i < k → (start + i) % n ≠ j) :
    window (Function.update mem j x) n start k = window mem n start k := by
  induction k generalizing start with
  | zero => rfl
  | succ k ih =>
      have hhead : start % n ≠ j := h 0 (Nat.succ_pos k)
      have htail : window (Function.update mem j x) n (start + 1) k = window mem n (start + 1) k := by
        apply ih
        intro i hi
        have := h (i + 1) (Nat.succ_lt_succ hi)
        rwa [Nat.add_right_comm, Nat.add_assoc]
      rw [window, window, htail, Function.update_of_ne hhead]

theorem add_mod_ne {n start i k : Nat} (hi : i < k) (hk : k < n) :
    (start + i) % n ≠ (start + k) % n := by
  intro h
  have hd : n ∣ (start + k) - (start + i) := (Nat.modEq_iff_dvd' (by omega)).mp h
  have hle := Nat.le_of_dvd (by omega) hd
  omega

theorem succ_mod {n i : Nat} (h : i < n) : (i + 1) % n = if i + 1 = n then 0 else i + 1 := by
  split_ifs with he
  · rw [he, Nat.mod_self]
  · exact Nat.mod_eq_of_lt (by omega)

theorem window_store (mem : Nat → α) (n start k : Nat) (x : α) (hk : k < n) :
    window (Function.update mem ((start + k) % n) x) n start (k + 1) =
      window mem n start k ++ [x] := by
  rw [window_concat, window_update mem n start k _ x fun i hi => add_mod_ne hi hk,
    Function.update_self]

end HostComm.Windows
