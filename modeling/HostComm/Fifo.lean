import Mathlib.Data.List.Basic
import Mathlib.Tactic.Common

namespace HostComm.Fifos

variable {α : Type} {n : Nat}

/-- A first-in first-out store of at most `n` items, the oldest first. -/
structure Fifo (α : Type) (n : Nat) where
  items : List α
  bound : items.length ≤ n

namespace Fifo

def empty : Fifo α n := ⟨[], Nat.zero_le n⟩

/-- Append an item; a full store drops its oldest one first. -/
def put (f : Fifo α n) (x : α) : Fifo α n :=
  ⟨(f.items ++ [x]).drop (f.items.length + 1 - n), by simp; omega⟩

def get (f : Fifo α n) : Option α × Fifo α n :=
  (f.items.head?, ⟨f.items.tail, by have := f.bound; simp; omega⟩)

def write (f : Fifo α n) (xs : List α) : Option (Fifo α n) :=
  if h : f.items.length < n ∧ xs.length ≤ n - f.items.length then
    some ⟨f.items ++ xs, by simp; omega⟩
  else none

def read (f : Fifo α n) (k : Nat) : List α × Fifo α n :=
  (f.items.take k, ⟨f.items.drop k, by have := f.bound; simp; omega⟩)

def fetch (f : Fifo α n) (k : Nat) : Option (List α) :=
  if k ≤ f.items.length then some (f.items.take k) else none

theorem put_of_lt (f : Fifo α n) (x : α) (h : f.items.length < n) :
    (f.put x).items = f.items ++ [x] := by
  simp only [put]
  rw [show f.items.length + 1 - n = 0 by omega, List.drop_zero]

theorem put_of_full (f : Fifo α n) (x : α) (hn : 0 < n) (h : f.items.length = n) :
    (f.put x).items = f.items.tail ++ [x] := by
  have hne : f.items ≠ [] := by rintro he; simp [he] at h; omega
  obtain ⟨y, ys, he⟩ := List.exists_cons_of_ne_nil hne
  simp only [put, h, Nat.add_sub_cancel_left]
  rw [he]
  rfl

end Fifo

end HostComm.Fifos
