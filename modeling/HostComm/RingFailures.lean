import HostComm.CircularBufferFifo

namespace HostComm.RingFailures

open CircularBuffer CircularBufferFifo Runs

def refused : RingOut → Bool
  | .wrote accepted => !accepted
  | .read complete _ => !complete
  | .fetched data => data.isNone
  | _ => false

/-- When the operation is refused, the stored bytes are as before it. -/
def KeepsBytes (c : CircularBuff) (op : RingOp) : Prop :=
  refused (exec c op).1 = true → contents (execState c op) = contents c

instance (c : CircularBuff) (op : RingOp) : Decidable (KeepsBytes c op) :=
  inferInstanceAs (Decidable (_ → _))

variable {c : CircularBuff}

theorem keepsBytes_fetch (k : Nat) : KeepsBytes c (.fetch k) := fun _ => rfl

theorem keepsBytes_write (h : c.Valid) (data : List UInt8) : KeepsBytes c (.write data) := by
  intro hrefused
  by_cases hroom : circularBuffGetDataLen c < c.length ∧
      data.length ≤ c.length - circularBuffGetDataLen c
  · have hok : circularBuffWrite c data = (.ok, putAll c data) := write_ok h data hroom.1 hroom.2
    rw [exec, hok] at hrefused
    cases hrefused
  · exact congrArg contents (write_refused h data hroom).2

theorem read_refused (h : c.Valid) {k : Nat} (hk : circularBuffGetDataLen c < k) :
    refused (exec c (.read k)).1 = true ∧ contents (execState c (.read k)) = [] := by
  obtain ⟨c', hread, -, -, hc'⟩ := read_spec h k
  constructor
  · simp [exec, refused, hread, hk]
  · rw [execState, exec, hread]
    simp only [hc']
    rw [List.drop_eq_nil_iff, contents_length]
    exact hk.le

theorem keepsBytes_read_iff (h : c.Valid) (k : Nat) :
    KeepsBytes c (.read k) ↔ k ≤ circularBuffGetDataLen c ∨ circularBuffEmpty c = true := by
  rw [empty_iff h]
  by_cases hk : k ≤ circularBuffGetDataLen c
  · obtain ⟨c', hread, -⟩ := read_spec h k
    refine iff_of_true (fun hrefused => ?_) (.inl hk)
    simp [exec, refused, hread, hk] at hrefused
  · obtain ⟨hrefused, hnil⟩ := read_refused h (Nat.lt_of_not_le hk)
    rw [or_iff_right hk, ← contents_length, List.length_eq_zero_iff, KeepsBytes, hnil]
    constructor
    · intro hkeeps
      exact (hkeeps hrefused).symm
    · intro hempty _
      exact hempty.symm

/-- The two operations with a check in front keep the bytes they fail on; the
read finds the shortage by running into it, and keeps them only if there are
none. -/
theorem refused_read_keeps_iff (n : Nat) (hn : 0 < n) (buffer : Nat → UInt8)
    (ops : List RingOp) :
    let c := run execState (circularBuffInit buffer n) ops
    (∀ k, KeepsBytes c (.read k) ↔
      k ≤ circularBuffGetDataLen c ∨ circularBuffEmpty c = true) ∧
    (∀ k, KeepsBytes c (.fetch k)) ∧ ∀ data, KeepsBytes c (.write data) := by
  intro c
  have hvalid : c.Valid := (run_refines (represents_init hn buffer) ops).valid
  exact ⟨keepsBytes_read_iff hvalid, keepsBytes_fetch, keepsBytes_write hvalid⟩

theorem refused_read_keeps_two :
    let c := run execState (circularBuffInit (fun _ => 0) 8)
      [.write [1, 2, 3, 4, 5, 6], .read 5, .write [7, 8, 9], .get, .get]
    (KeepsBytes c (.read 2) ∧ ¬ KeepsBytes c (.read 3)) ∧ KeepsBytes c (.fetch 3) ∧
      KeepsBytes c (.write [1, 2, 3, 4, 5, 6, 7]) := by
  intro c
  obtain ⟨hread, hfetch, hwrite⟩ := refused_read_keeps_iff 8 (by decide) (fun _ => 0)
    [.write [1, 2, 3, 4, 5, 6], .read 5, .write [7, 8, 9], .get, .get]
  exact ⟨⟨(hread 2).mpr (by decide), mt (hread 3).mp (by decide)⟩, hfetch 3, hwrite _⟩

/-- One byte is stored and two are asked for: the byte is gone. -/
theorem refused_read_loses_byte :
    ¬ KeepsBytes (run execState (circularBuffInit (fun _ => 0) 8) [.put 0xAA]) (.read 2) := by
  decide

end HostComm.RingFailures
