import HostComm.RxResponses
import HostComm.TxOrder

namespace HostComm.HostSystem

open Protocol UartDriver TxQueue TxSend TxFsm TxDiscipline RxFsm RxStream RxMoves RxResponses TxOrder Runs

/-- Both machines. The queue between them is the one of the transmitter. -/
structure HostSys where
  rx : RxSys
  tx : TxSys

inductive HostEvent
  | rx (event : RxEvent)
  | tx (event : TxEvent)

def hostInit (rx : HostCommRxFsm) (tx : HostCommTxFsm) (uart : Uart) : HostSys :=
  let tx := hostCommTxFsmInit tx uart
  { rx := hostCommRxFsmInit (.start rx tx.queue), tx }

def writeResponses (s : TxSys) (responses : List RxResponse) : TxSys :=
  responses.foldl (fun s r => writeRequest s r.request) s

/-- A step of one machine. The receiver works on the queue of the transmitter,
and the history gets the responses that the queue accepts. -/
def hostStep (env : Env) (s : HostSys) : HostEvent → HostSys
  | .rx event =>
      let rx := rxStep env { s.rx with queue := s.tx.queue } event
      let issued := rx.responses.drop s.rx.responses.length
      { rx, tx := { s.tx with queue := rx.queue, trace := (writeResponses s.tx issued).trace } }
  | .tx event => { s with tx := txStep env s.tx event }

/-- What the transmitter notices of a step: the responses of the receiver are
requests to it. -/
def seenByTx (env : Env) (s : HostSys) : HostEvent → List TxEvent
  | .rx event => (answer s.rx.handle (rxStep env { s.rx with queue := s.tx.queue } event).handle).map
      fun r => .request r.request
  | .tx event => [event]

theorem writeResponses_eq (s : TxSys) (responses : List RxResponse) :
    writeResponses s responses =
      { s with queue := writeAll s.queue responses, trace := (writeResponses s responses).trace } := by
  induction responses generalizing s with
  | nil => rfl
  | cons r responses ih => exact ih (writeRequest s r.request)

theorem writeResponses_run (env : Env) (s : TxSys) (responses : List RxResponse) :
    writeResponses s responses =
      run (txStep env) s (responses.map fun r => .request r.request) := by
  induction responses generalizing s with
  | nil => rfl
  | cons r responses ih => exact ih (writeRequest s r.request)

theorem tx_step (env : Env) (s : HostSys) (e : HostEvent) :
    (hostStep env s e).tx = run (txStep env) s.tx (seenByTx env s e) := by
  cases e with
  | rx event =>
      rw [seenByTx, ← writeResponses_run, writeResponses_eq]
      simp only [hostStep]
      rw [answer_step, queue_step, List.drop_left]
  | tx event => rfl

def AppFits (events : List HostEvent) : Prop := ∀ r, HostEvent.tx (.request r) ∈ events → Fits r

theorem AppFits.cons {e : HostEvent} {events : List HostEvent} (h : AppFits (e :: events)) :
    AppFits [e] ∧ AppFits events := by
  refine ⟨fun r hr => h r ?_, fun r hr => h r (List.mem_cons_of_mem e hr)⟩
  rw [List.mem_singleton.mp hr]
  exact List.mem_cons_self

theorem noPayload_fits (type : UInt8) (ackExpected : Bool) :
    Fits (noPayloadRequest type ackExpected) := Nat.zero_le 251

theorem answer_fits {h h' : HostCommRxFsm} {r : RxResponse} (hr : r ∈ answer h h') :
    Fits r.request := by
  rw [answer] at hr
  split_ifs at hr
  · rw [List.mem_singleton.mp hr]
    exact noPayload_fits ..
  · rw [List.mem_singleton.mp hr]
    exact noPayload_fits ..
  · cases hr

theorem seen_fits (env : Env) (s : HostSys) {e : HostEvent} (h : AppFits [e]) (r : TxRequest)
    (hr : TxEvent.request r ∈ seenByTx env s e) : Fits r := by
  cases e with
  | rx event =>
      obtain ⟨response, hmem, heq⟩ := List.mem_map.mp hr
      cases heq
      exact answer_fits hmem
  | tx event =>
      obtain rfl : TxEvent.request r = event := List.mem_singleton.mp hr
      exact h r List.mem_cons_self

/-- A run of the system is a run of the transmitter, so all that holds of the
transmitter alone holds in the system. -/
theorem tx_run (env : Env) (s : HostSys) {events : List HostEvent} (h : AppFits events) :
    ∃ es, (run (hostStep env) s events).tx = run (txStep env) s.tx es ∧
      ∀ r, TxEvent.request r ∈ es → Fits r := by
  induction events generalizing s with
  | nil => exact ⟨[], rfl, by simp⟩
  | cons e events ih =>
      obtain ⟨hhead, htail⟩ := h.cons
      obtain ⟨es, hrun, hfit⟩ := ih (hostStep env s e) htail
      refine ⟨seenByTx env s e ++ es, ?_, fun r hr => ?_⟩
      · rw [run_cons, hrun, tx_step, run_append]
      · rcases List.mem_append.mp hr with hr | hr
        · exact seen_fits env s hhead r hr
        · exact hfit r hr

theorem ordered_host (env : Env) {s : HostSys} (h : ∃ L, Ordered s.tx L) {events : List HostEvent}
    (hfit : AppFits events) : ∃ L, Ordered (run (hostStep env) s events).tx L := by
  obtain ⟨es, hrun, hes⟩ := tx_run env s hfit
  rw [hrun]
  exact ordered_reachable env h es hes

theorem accepted_host (env : Env) (s : HostSys) (events : List HostEvent) :
    acceptedOf s.tx.trace <+: acceptedOf (run (hostStep env) s events).tx.trace :=
  run_preserves (I := fun s' : HostSys => acceptedOf s.tx.trace <+: acceptedOf s'.tx.trace)
    (fun s' e h => h.trans (tx_step env s' e ▸ accepted_mono env s'.tx _)) List.prefix_rfl events

theorem run_tx (env : Env) (s : HostSys) (es : List TxEvent) :
    run (hostStep env) s (es.map .tx) = { s with tx := run (txStep env) s.tx es } := by
  induction es generalizing s with
  | nil => rfl
  | cons e es ih => exact ih (hostStep env s (.tx e))

end HostComm.HostSystem
