import HostComm.HostSystem
import HostComm.RxSound
import HostComm.TxRetries

namespace HostComm.AckOrder

open Protocol UartDriver ByteRings TxQueue TxSend TxFsm TxDiscipline RxFsm RxResponses TxOrder HostSystem Runs
open RxSound TxRetries

abbrev ackRequest : TxRequest := noPayloadRequest targetToHostResAck false

/-- The `k`-th request handed over is the acknowledge that the step from `s`
to `ready` enqueued. -/
def AckHanded (s ready final : HostSys) (k : Nat) : Prop :=
  (acceptedOf s.tx.trace).length ≤ k ∧ k < (acceptedOf ready.tx.trace).length ∧
    ∃ ack, (handedOf final.tx.trace)[k]? = some ack ∧ SameRequest ackRequest ack

/-- A request of the application that the queue accepts behind the step from
`s` to `ready` is handed over behind the acknowledge of this step. -/
def AckFirst (env : Env) (s ready : HostSys) : Prop :=
  ∀ wait r rest, AppFits (wait ++ .tx (.request r) :: rest) →
    let later := run (hostStep env) ready wait
    let final := run (hostStep env) ready (wait ++ .tx (.request r) :: rest)
    -- the position of `r` among the accepted requests, and so among those handed over
    let n := (acceptedOf later.tx.trace).length
    (hostCommTxQueueWriteRequest later.tx.queue r).1 = true →
    n < (handedOf final.tx.trace).length → ∃ k < n, AckHanded s ready final k

def ResponseRoom (s : HostSys) : Prop := 6 ≤ s.tx.queue.cb.freeSpace

instance (s : HostSys) : Decidable (ResponseRoom s) := inferInstanceAs (Decidable (_ ≤ _))

theorem tx_enters (env : Env) {s : HostSys} {e : HostEvent}
    (h : Enters s.rx.handle (hostStep env s e).rx.handle) :
    (hostStep env s e).tx = writeRequest s.tx ackRequest := by
  rw [tx_step]
  cases e with
  | rx event =>
      have hanswer : answer s.rx.handle (rxStep env { s.rx with queue := s.tx.queue } event).handle =
          [⟨ackRequest, s.rx.handle.packet⟩] := if_pos h
      rw [seenByTx, hanswer]
      rfl
  | tx event => exact absurd h.2 h.1

theorem writeAck (s : HostSys) :
    if ResponseRoom s then (hostCommTxQueueWriteRequest s.tx.queue ackRequest).1 = true
    else hostCommTxQueueWriteRequest s.tx.queue ackRequest = (false, s.tx.queue) :=
  writeRequest_eq s.tx.queue ackRequest

theorem ack_first_of_room (env : Env) {s : HostSys} {e : HostEvent} (hs : ∃ L, Ordered s.tx L)
    (henter : Enters s.rx.handle (hostStep env s e).rx.handle) (hroom : ResponseRoom s) :
    AckFirst env s (hostStep env s e) := by
  intro wait r rest hfit later final n _ hn
  have htx : (hostStep env s e).tx = writeRequest s.tx ackRequest := tx_enters env henter
  have hok : (hostCommTxQueueWriteRequest s.tx.queue ackRequest).1 = true := by
    have hwrite := writeAck s
    rwa [if_pos hroom] at hwrite
  have haccepted : acceptedOf (hostStep env s e).tx.trace = acceptedOf s.tx.trace ++ [ackRequest] := by
    rw [htx, writeRequest, hok]
    rfl
  have hlen : (acceptedOf (hostStep env s e).tx.trace).length =
      (acceptedOf s.tx.trace).length + 1 := by
    rw [haccepted, List.length_append, List.length_singleton]
  have hlater : (acceptedOf (hostStep env s e).tx.trace).length ≤ n :=
    (accepted_host env _ wait).length_le
  obtain ⟨L, hL⟩ := ordered_host env (s := hostStep env s e)
    (htx ▸ ordered_write hs.choose_spec (noPayload_fits ..)) hfit
  obtain ⟨M, hM, hsame⟩ := hL.order
  -- the position of the acknowledge among the accepted requests
  let k := (acceptedOf s.tx.trace).length
  have hk : k < M.length := by
    rw [hsame.length_eq]
    exact (Nat.lt_of_lt_of_le (hlen ▸ Nat.lt_succ_self k) hlater).trans hn
  have hget : M[k]? = some ackRequest := by
    obtain ⟨t, ht⟩ := accepted_host env (hostStep env s e) (wait ++ .tx (.request r) :: rest)
    rw [haccepted, List.append_assoc, hM] at ht
    rw [← List.getElem?_append_left hk, ← ht, List.getElem?_append_right (Nat.le_refl k), Nat.sub_self]
    rfl
  refine ⟨k, by omega, Nat.le_refl k, by omega, _, List.getElem?_eq_getElem (hsame.length_eq ▸ hk), ?_⟩
  have hrel := hsame.get hk (hsame.length_eq ▸ hk)
  rw [List.getElem?_eq_getElem hk, Option.some_inj] at hget
  rwa [List.get_eq_getElem, hget] at hrel

def appRequest (payloadLen : UInt16) : TxRequest :=
  ⟨txSrcFwUser, ⟨⟨targetToHostEvtPrintDbgMsg, targetToHostDir, payloadLen⟩, .zero⟩, false⟩

theorem ack_lost_of_full (env : Env) {s : HostSys} {e : HostEvent} (hs : ∃ L, Ordered s.tx L)
    (henter : Enters s.rx.handle (hostStep env s e).rx.handle) (hfull : ¬ ResponseRoom s) :
    ¬ AckFirst env s (hostStep env s e) := by
  have hrefused : hostCommTxQueueWriteRequest s.tx.queue ackRequest = (false, s.tx.queue) := by
    have hwrite := writeAck s
    rwa [if_neg hfull] at hwrite
  have htx : (hostStep env s e).tx = s.tx := by
    rw [tx_enters env henter, writeRequest, hrefused]
    rfl
  obtain ⟨es, es', hquiet, hquiet', hok, hlt⟩ :=
    comes_through env hs (r := appRequest 0) (Nat.zero_le 251)
  have hsplit : es.map HostEvent.tx ++ .tx (.request (appRequest 0)) :: es'.map HostEvent.tx =
      (es ++ .request (appRequest 0) :: es').map .tx := by
    rw [List.map_append, List.map_cons]
  have hfits : AppFits ((es ++ .request (appRequest 0) :: es').map .tx) := by
    intro r hr
    obtain ⟨event, hmem, heq⟩ := List.mem_map.mp hr
    obtain rfl : event = .request r := HostEvent.tx.inj heq
    rcases List.mem_append.mp hmem with hmem | hmem
    · exact absurd hmem (hquiet r)
    · rcases List.mem_cons.mp hmem with hmem | hmem
      · rw [TxEvent.request.inj hmem]
        exact Nat.zero_le 251
      · exact absurd hmem (hquiet' r)
  intro h
  obtain ⟨k, -, hge, hlt', -⟩ := h (es.map .tx) (appRequest 0) (es'.map .tx)
    (by rw [hsplit]; exact hfits) (by rw [run_tx, htx]; exact hok)
    (by rw [hsplit, run_tx, run_tx, htx]; exact hlt)
  rw [htx] at hlt'
  exact absurd hge (Nat.not_le_of_lt hlt')

/-- The requests are handed over in the order of acceptance, and behind a
received frame the acknowledge is first exactly when the queue has space for it. -/
theorem ack_first (env : Env) (rx : HostCommRxFsm) (tx : HostCommTxFsm) (uart : Uart)
    (before : List HostEvent) (e : HostEvent) (hfit : AppFits before) :
    let s := run (hostStep env) (hostInit rx tx uart) before
    let ready := hostStep env s e
    (∃ M L, acceptedOf s.tx.trace = M ++ L ∧ List.Forall₂ SameRequest M (handedOf s.tx.trace)) ∧
    (Enters s.rx.handle ready.rx.handle → (AckFirst env s ready ↔ ResponseRoom s)) := by
  intro s ready
  have hs : ∃ L, Ordered s.tx L := ordered_host env ⟨[], ordered_init tx uart⟩ hfit
  refine ⟨?_, fun henter => ⟨fun hfirst => ?_, ack_first_of_room env hs henter⟩⟩
  · obtain ⟨L, hL⟩ := hs
    obtain ⟨M, hM⟩ := hL.order
    exact ⟨M, L, hM⟩
  · by_contra hfull
    exact ack_lost_of_full env hs henter hfull hfirst

def emptyFrame : List HostEvent := (emptyFrameRun protocolPostamble).dropLast.map .rx

theorem emptyFrame_fits : AppFits emptyFrame := by
  intro r hr
  obtain ⟨event, -, heq⟩ := List.mem_map.mp hr
  cases heq

theorem ack_first_empty_frame :
    let env : Env := ⟨fun _ => 0, 0⟩
    let s := run (hostStep env) (hostInit idle.handle idleTx uartInit) emptyFrame
    AckFirst env s (hostStep env s (.rx (.run []))) := by
  intro env s
  obtain ⟨-, hfirst⟩ :=
    ack_first env idle.handle idleTx uartInit emptyFrame (.rx (.run [])) emptyFrame_fits
  exact (hfirst (by decide +kernel)).mpr (by decide +kernel)

/-- Four requests that leave five bytes of the queue. -/
def crowded : List HostEvent :=
  [appRequest 251, appRequest 251, appRequest 251, appRequest 242].map fun r => .tx (.request r)

theorem crowded_fits : AppFits crowded := by
  intro r hr
  obtain ⟨q, hq, heq⟩ := List.mem_map.mp hr
  obtain rfl : q = r := TxEvent.request.inj (HostEvent.tx.inj heq)
  simp only [List.mem_cons, List.not_mem_nil, or_false] at hq
  rcases hq with rfl | rfl | rfl | rfl
  all_goals
    rw [Fits]
    decide

/-- The acknowledge of a frame that is received now is lost. -/
theorem ack_lost :
    let env : Env := ⟨fun _ => 0, 0⟩
    let s := run (hostStep env) (hostInit idle.handle idleTx uartInit) (crowded ++ emptyFrame)
    AppFits (crowded ++ emptyFrame) ∧
      Enters s.rx.handle (hostStep env s (.rx (.run []))).rx.handle ∧
      ¬ AckFirst env s (hostStep env s (.rx (.run []))) := by
  intro env s
  have hfits : AppFits (crowded ++ emptyFrame) := by
    intro r hr
    rcases List.mem_append.mp hr with hr | hr
    · exact crowded_fits r hr
    · exact emptyFrame_fits r hr
  have henter : Enters s.rx.handle (hostStep env s (.rx (.run []))).rx.handle := by decide +kernel
  have hfull : ¬ ResponseRoom s := by decide +kernel
  have hs : ∃ L, Ordered s.tx L := ordered_host env ⟨[], ordered_init idleTx uartInit⟩ hfits
  exact ⟨hfits, henter, ack_lost_of_full env hs henter hfull⟩

end HostComm.AckOrder
