import HostComm.AckOrder
import HostComm.TxService

namespace HostComm.AckService

open Protocol UartDriver TxQueue TxSend TxFsm TxDiscipline RxFsm RxResponses TxOrder TxRetries TxService
open HostSystem AckOrder TimerDiscipline RxSound Runs Rounds

def hostTick : HostEvent → Bool
  | .tx event => txTick event
  | .rx _ => false

def hostCall : HostEvent → Bool
  | .tx event => txCall event
  | .rx _ => false

def HostNack (s : HostSys) : HostEvent → Prop
  | .tx event => NackFound s.tx event
  | .rx _ => False

instance (s : HostSys) : ∀ e, Decidable (HostNack s e)
  | .tx event => inferInstanceAs (Decidable (NackFound s.tx event))
  | .rx _ => .isFalse id

/-- What the transmitter notices of a run. -/
def seenInRun (env : Env) : HostSys → List HostEvent → List TxEvent
  | _, [] => []
  | s, e :: events => seenByTx env s e ++ seenInRun env (hostStep env s e) events

theorem tx_seen (env : Env) (s : HostSys) (events : List HostEvent) :
    (run (hostStep env) s events).tx = run (txStep env) s.tx (seenInRun env s events) := by
  induction events generalizing s with
  | nil => rfl
  | cons e events ih => rw [run_cons, ih, seenInRun, run_append, tx_step]

theorem fits_seen (env : Env) (s : HostSys) {events : List HostEvent} (h : AppFits events)
    (r : TxRequest) (hr : TxEvent.request r ∈ seenInRun env s events) : Fits r := by
  induction events generalizing s with
  | nil => cases hr
  | cons e events ih =>
      obtain ⟨hhead, htail⟩ := h.cons
      rcases List.mem_append.mp hr with hr | hr
      · exact seen_fits env s hhead r hr
      · exact ih (hostStep env s e) htail hr

theorem seen_rx (env : Env) (s : HostSys) (event : RxEvent) :
    ∀ e ∈ seenByTx env s (.rx event), ∃ r, e = .request r := by
  intro e he
  obtain ⟨response, -, rfl⟩ := List.mem_map.mp he
  exact ⟨response.request, rfl⟩

theorem rounds_seen (env : Env) (s : HostSys) (events : List HostEvent) (flag : Bool) :
    rounds txTick txCall flag (seenInRun env s events) = rounds hostTick hostCall flag events := by
  induction events generalizing s flag with
  | nil => rfl
  | cons e events ih =>
      rw [seenInRun]
      cases e with
      | tx event =>
          rw [seenByTx, List.singleton_append]
          cases flag with
          | true => rw [rounds, rounds, ih, ih, hostCall]
          | false => rw [rounds, rounds, ih, hostTick]
      | rx event =>
          have hskip : ∀ e ∈ seenByTx env s (.rx event), txTick e = false ∧ txCall e = false := by
            intro e he
            obtain ⟨r, rfl⟩ := seen_rx env s event e he
            exact ⟨rfl, rfl⟩
          rw [rounds_skip hskip, ih]
          cases flag with
          | true => rfl
          | false => rfl

theorem along_seen (env : Env) {s : HostSys} {events : List HostEvent}
    (h : Along (fun s e => ¬ HostNack s e) (hostStep env) s events) :
    Along (fun s e => ¬ NackFound s e) (txStep env) s.tx (seenInRun env s events) := by
  induction events generalizing s with
  | nil => trivial
  | cons e events ih =>
      rw [seenInRun, along_append, ← tx_step]
      refine ⟨?_, ih h.2⟩
      cases e with
      | tx event => exact ⟨h.1, trivial⟩
      | rx event =>
          refine along_of_mem (fun _ e he => ?_) s.tx
          obtain ⟨r, rfl⟩ := seen_rx env s event e he
          exact id

theorem appFits_append {before after : List HostEvent} (h : AppFits (before ++ after)) :
    AppFits before ∧ AppFits after :=
  ⟨fun r hr => h r (List.mem_append_left _ hr), fun r hr => h r (List.mem_append_right _ hr)⟩

theorem accepted_enters (env : Env) {s : HostSys} {e : HostEvent}
    (henter : Enters s.rx.handle (hostStep env s e).rx.handle) (hroom : ResponseRoom s) :
    acceptedOf (hostStep env s e).tx.trace = acceptedOf s.tx.trace ++ [ackRequest] := by
  have hok := writeAck s
  rw [if_pos hroom] at hok
  rw [tx_enters env henter, writeRequest, hok]
  rfl

theorem host_served (env : Env) (rx : HostCommRxFsm) (tx : HostCommTxFsm) (uart : Uart)
    {before events : List HostEvent} (hfit : AppFits (before ++ events)) {k : Nat} :
    let s := run (hostStep env) (hostInit rx tx uart) before
    k < (acceptedOf s.tx.trace).length →
      Along (fun s e => ¬ HostNack s e) (hostStep env) s events →
      (k + 1 - (handedOf s.tx.trace).length) * requestRounds ≤ rounds hostTick hostCall false events →
      ∃ a r, (acceptedOf s.tx.trace)[k]? = some a ∧
        (handedOf (run (hostStep env) s events).tx.trace)[k]? = some r ∧ SameRequest a r := by
  intro s hk hnack hrounds
  obtain ⟨hbefore, hevents⟩ := appFits_append hfit
  have hseen : s.tx = run (txStep env) (hostCommTxFsmInit tx uart)
      (seenInRun env (hostInit rx tx uart) before) := tx_seen env (hostInit rx tx uart) before
  have hkept := @kept_init env tx uart _ (fits_seen env (hostInit rx tx uart) hbefore) k
    (by rw [← hseen]; exact hk)
  have hsame : (run (clockedStep env) (hostCommTxFsmInit tx uart, 0)
      (seenInRun env (hostInit rx tx uart) before)).1 = s.tx := by
    rw [hseen]
    exact run_timed ..
  have hserved := Kept.served env hkept (fits_seen env s hevents)
  rw [hsame, ← tx_seen env s events, rounds_seen] at hserved
  exact hserved (along_seen env hnack) hrounds

/-- Where the acknowledge stands among the accepted requests. -/
structure AckPlace (s ready : HostSys) : Prop where
  accepted : acceptedOf ready.tx.trace = acceptedOf s.tx.trace ++ [ackRequest]
  ahead : (handedOf ready.tx.trace).length ≤ (acceptedOf s.tx.trace).length
  pending : (acceptedOf s.tx.trace).length + 1 - (handedOf ready.tx.trace).length =
    s.tx.queue.packetCnt + 1

theorem AckPlace.inside {s ready : HostSys} (h : AckPlace s ready) :
    (acceptedOf s.tx.trace).length < (acceptedOf ready.tx.trace).length := by
  rw [h.accepted, List.length_append, List.length_singleton]
  exact Nat.lt_succ_self _

theorem ack_place (env : Env) {rx : HostCommRxFsm} {tx : HostCommTxFsm} {uart : Uart}
    {before : List HostEvent} (hfit : AppFits before) (e : HostEvent) :
    let s := run (hostStep env) (hostInit rx tx uart) before
    Enters s.rx.handle (hostStep env s e).rx.handle → ResponseRoom s →
      AckPlace s (hostStep env s e) := by
  intro s henter hroom
  obtain ⟨L, hL⟩ : ∃ L, Ordered s.tx L := ordered_host env ⟨[], ordered_init tx uart⟩ hfit
  have hhanded : handedOf (hostStep env s e).tx.trace = handedOf s.tx.trace := by
    rw [tx_enters env henter]
    exact writeRequest_keeps handedOf rfl
  have hcount := hL.handed_length
  refine ⟨accepted_enters env henter hroom, ?_, ?_⟩
  · rw [hhanded]
    omega
  · rw [hhanded]
    omega

theorem ack_handed (env : Env) {rx : HostCommRxFsm} {tx : HostCommTxFsm} {uart : Uart}
    {before events : List HostEvent} {e : HostEvent} (hfit : AppFits (before ++ e :: events)) :
    let s := run (hostStep env) (hostInit rx tx uart) before
    let ready := hostStep env s e
    AckPlace s ready → Along (fun s e => ¬ HostNack s e) (hostStep env) ready events →
      (s.tx.queue.packetCnt + 1) * requestRounds ≤ rounds hostTick hostCall false events →
      ∃ r, (handedOf (run (hostStep env) ready events).tx.trace)[(acceptedOf s.tx.trace).length]? =
        some r ∧ SameRequest ackRequest r := by
  intro s ready hplace hnack hrounds
  have hready : run (hostStep env) (hostInit rx tx uart) (before ++ [e]) = ready := run_append ..
  have hserved := @host_served env rx tx uart (before ++ [e]) events (by simpa using hfit)
    (acceptedOf s.tx.trace).length
  rw [hready] at hserved
  obtain ⟨a, r, ha, hr, hsame⟩ := hserved hplace.inside hnack (by rw [hplace.pending]; exact hrounds)
  rw [hplace.accepted, List.getElem?_append_right (Nat.le_refl _), Nat.sub_self] at ha
  exact ⟨r, hr, Option.some.inj ha ▸ hsame⟩

theorem emptyFrame_calls_fits (n : Nat) :
    AppFits (emptyFrame ++ .rx (.run []) :: (List.replicate n [.tx .tick, .tx .run]).flatten) := by
  intro r hr
  rcases List.mem_append.mp hr with hr | hr
  · exact emptyFrame_fits r hr
  · rcases List.mem_cons.mp hr with hr | hr
    · cases hr
    · obtain ⟨round, hround, hmem⟩ := List.mem_flatten.mp hr
      rw [List.eq_of_mem_replicate hround] at hmem
      simp at hmem

end HostComm.AckService
