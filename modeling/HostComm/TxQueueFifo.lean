import HostComm.TxQueue

namespace HostComm.TxQueueFifo

open ByteRings Protocol TxQueue Runs

inductive QueueOp
  | write (req : TxRequest)
  | read (req : TxRequest)

def queueStep (q : HostCommTxQueue) : QueueOp → HostCommTxQueue
  | .write req => (hostCommTxQueueWriteRequest q req).2
  | .read req => (hostCommTxQueueReadRequest q req).2.1

def acceptedBy (q : HostCommTxQueue) : List QueueOp → List TxRequest
  | [] => []
  | .write req :: ops =>
      (if (hostCommTxQueueWriteRequest q req).1 then [req] else []) ++
        acceptedBy (queueStep q (.write req)) ops
  | .read req :: ops => acceptedBy (queueStep q (.read req)) ops

def deliveredBy (q : HostCommTxQueue) : List QueueOp → List TxRequest
  | [] => []
  | .write req :: ops => deliveredBy (queueStep q (.write req)) ops
  | .read req :: ops =>
      (if (hostCommTxQueueReadRequest q req).1
        then [(hostCommTxQueueReadRequest q req).2.2] else []) ++
        deliveredBy (queueStep q (.read req)) ops

/-- From a queue that holds `L`, the delivered requests are the oldest of
`L` and the accepted ones, and the rest is what the queue holds at the end. -/
theorem run_conserves {q : HostCommTxQueue} {L : List TxRequest} (h : Holds q L)
    (ops : List QueueOp) (hfit : ∀ r, QueueOp.write r ∈ ops → Fits r) :
    ∃ L' D, Holds (run queueStep q ops) L' ∧ L ++ acceptedBy q ops = D ++ L' ∧
      List.Forall₂ SameRequest D (deliveredBy q ops) := by
  induction ops generalizing q L with
  | nil => exact ⟨L, [], h, by simp [acceptedBy], .nil⟩
  | cons op ops ih =>
      have hrest : ∀ r, QueueOp.write r ∈ ops → Fits r := fun r hr => hfit r (List.mem_cons_of_mem _ hr)
      cases op with
      | write r =>
          have hr : Fits r := hfit r List.mem_cons_self
          have hw := holds_write h hr
          split_ifs at hw with hroom
          · obtain ⟨hok, hnext⟩ := hw
            obtain ⟨L', D, hL, heq, hsame⟩ := ih hnext hrest
            exact ⟨L', D, hL, by simpa [acceptedBy, hok, queueStep] using heq, hsame⟩
          · have hq : queueStep q (.write r) = q := by simp [queueStep, hw]
            obtain ⟨L', D, hL, heq, hsame⟩ := ih (q := queueStep q (.write r)) (hq ▸ h) hrest
            exact ⟨L', D, hL, by simpa [acceptedBy, hw] using heq, hsame⟩
      | read req =>
          cases L with
          | nil =>
              have hread := read_empty h req
              have hq : queueStep q (.read req) = q := by simp [queueStep, hread]
              obtain ⟨L', D, hL, heq, hsame⟩ := ih (q := queueStep q (.read req)) (hq ▸ h) hrest
              exact ⟨L', D, hL, heq, by simpa [deliveredBy, hread] using hsame⟩
          | cons r L =>
              obtain ⟨q', hread, hnext⟩ := holds_read h req
              have hq : queueStep q (.read req) = q' := by simp [queueStep, hread]
              obtain ⟨L', D, hL, heq, hsame⟩ := ih (q := queueStep q (.read req)) (hq ▸ hnext) hrest
              refine ⟨L', r :: D, hL, by simpa [acceptedBy] using heq, ?_⟩
              simpa [deliveredBy, hread] using
                ⟨delivered_same (h.fits r List.mem_cons_self) req, hsame⟩

theorem txQueue_fifo (ops : List QueueOp) (hfit : ∀ r, QueueOp.write r ∈ ops → Fits r) :
    let q := run queueStep hostCommTxQueueInit ops
    ∃ L : List TxRequest, hostCommTxQueueGetPendingTransfers q = L.length ∧
      q.cb.contents = L.flatMap encode ∧
      (∃ D, acceptedBy hostCommTxQueueInit ops = D ++ L ∧
        List.Forall₂ SameRequest D (deliveredBy hostCommTxQueueInit ops)) ∧
      (∀ r, Fits r →
        if 6 + r.packet.header.payloadLen.toNat ≤ 1024 - q.cb.contents.length
        then (hostCommTxQueueWriteRequest q r).1 = true ∧
          Holds (hostCommTxQueueWriteRequest q r).2 (L ++ [r])
        else hostCommTxQueueWriteRequest q r = (false, q)) ∧
      (∀ r L', L = r :: L' → ∀ req, ∃ q' req',
        hostCommTxQueueReadRequest q req = (true, q', req') ∧ SameRequest r req' ∧ Holds q' L') ∧
      (L = [] → ∀ req, hostCommTxQueueReadRequest q req = (false, q, req)) := by
  intro q
  obtain ⟨L, D, hL, heq, hsame⟩ := run_conserves holds_init ops hfit
  refine ⟨L, hL.count, hL.stored, ⟨D, by simpa using heq, hsame⟩, ?_, ?_, ?_⟩
  · intro r hr
    exact holds_write hL hr
  · rintro r L' rfl req
    obtain ⟨q', hread, hnext⟩ := holds_read hL req
    exact ⟨q', _, hread, delivered_same (hL.fits r List.mem_cons_self) req, hnext⟩
  · rintro rfl req
    exact read_empty hL req

/-- Three records are written and two read in between; the third is still there. -/
theorem txQueue_fifo_three :
    let event (type : UInt8) (body : List UInt8) : TxRequest :=
      ⟨txSrcFwUser, ⟨⟨type, targetToHostDir, UInt16.ofNat body.length⟩,
        PacketPayload.zero.load body⟩, true⟩
    let old := event 0 []
    let ops : List QueueOp := [.write (event 0x58 [1, 2, 3]), .write (event 0x59 []), .read old,
      .write (event 0x58 [4]), .read old]
    let q := run queueStep hostCommTxQueueInit ops
    (deliveredBy hostCommTxQueueInit ops).map (·.packet.body) = [[1, 2, 3], []] ∧
      ∃ r : TxRequest, q.cb.contents = encode r ∧ r.packet.body = [4] := by
  intro event old ops q
  have hfit : ∀ r, QueueOp.write r ∈ ops → Fits r := by
    intro r hr
    have hcases : r = event 0x58 [1, 2, 3] ∨ r = event 0x59 [] ∨ r = event 0x58 [4] := by
      simpa [ops] using hr
    rcases hcases with rfl | rfl | rfl
    · decide
    · decide
    · decide
  obtain ⟨L, hcnt, hcont, ⟨D, heq, hsame⟩, -⟩ := txQueue_fifo ops hfit
  have hone : q.packetCnt = 1 := by decide +kernel
  obtain ⟨r, rfl⟩ : ∃ r, L = [r] := List.length_eq_one_iff.mp (hcnt.symm.trans hone)
  have hbodies : (acceptedBy hostCommTxQueueInit ops).map (·.packet.body) =
      [[1, 2, 3], []] ++ [[4]] := by decide +kernel
  rw [heq, List.map_append] at hbodies
  have hlast := List.append_inj_right' hbodies rfl
  refine ⟨by decide +kernel, r, by simpa using hcont, ?_⟩
  simpa using hlast

end HostComm.TxQueueFifo
