import HostComm.HostSystem
import HostComm.RxSound
import HostComm.TxConservation
import HostComm.TxRetries
import HostComm.TxWhole

namespace HostComm.TxWire

open Protocol TimeEvents UartDriver ByteRings TxQueue TxSend TxFsm TxDiscipline TxMoves TxOrder TxWhole
open UartSteps TxConservation RxFsm HostSystem Runs RxSound TxRetries

/-- The transmit path between two calls of the driver. -/
abbrev Flowing (u : Uart) : Prop := Conserving ⟨u, .idle⟩

theorem pc_mainStep (junk : UInt8) (m : UartSys) : (mainStep junk m).pc ≠ .test := by
  rw [mainStep]
  cases hpc : m.pc with
  | idle => simp [hpc]
  | test =>
      dsimp only
      split_ifs
      all_goals simp
  | checkState byte =>
      dsimp only
      split_ifs
      all_goals simp
  | checkLock byte =>
      dsimp only
      split_ifs
      all_goals simp
  | _ => simp [setHuart]

theorem conserving_iterate (junk : UInt8) (k : Nat) {m : UartSys} (h : Conserving m)
    (hpop : m.pc = .test → m.uart.tx.contents ≠ []) : Conserving ((mainStep junk)^[k] m) := by
  induction k generalizing m with
  | zero => exact h
  | succ k ih =>
      rw [Function.iterate_succ_apply]
      exact ih (conserving_main junk h fun hpc _ => hpop hpc)
        fun hpc => absurd hpc (pc_mainStep junk m)

theorem flowing_transmit (junk : UInt8) {u : Uart} (h : Flowing u) {data : List UInt8}
    (hne : data ≠ []) : Flowing (uartTransmitIt junk u data).2 := by
  obtain ⟨k, hk⟩ := call_refines junk u data
  rw [Flowing, ← hk]
  refine conserving_iterate junk k (conserving_call h rfl data) fun hpc => ?_
  rw [callTransmit] at hpc ⊢
  by_cases hok : (u.tx.write data).1 = .ok
  · have hroom := (u.tx.write_ok_iff data).mp hok
    simp only [if_pos hok, (u.tx.write_of_room data hroom).2]
    exact List.append_ne_nil_of_right_ne_nil _ hne
  · simp only [if_neg hok] at hpc
    cases hpc

theorem flowing_sendAll (junk : UInt8) {parts : List (List UInt8)} (hne : ∀ d ∈ parts, d ≠ [])
    {u : Uart} (h : Flowing u) : Flowing (sendAll junk u parts).2 := by
  induction parts generalizing u with
  | nil => exact h
  | cons data rest ih =>
      have hnext := flowing_transmit junk h (hne data List.mem_cons_self)
      rw [sendAll]
      split_ifs
      · exact hnext
      · exact ih (fun d hd => hne d (List.mem_cons_of_mem data hd)) hnext

theorem flowing_txComplete {u : Uart} (h : Flowing u) : Flowing (txComplete u) := by
  rw [txComplete]
  split_ifs with hit
  · exact conserving_txComplete h hit
  · exact h

theorem Flowing.stream_eq {u : Uart} (h : Flowing u) :
    u.chunks.flatten ++ u.tx.contents = u.accepted := h.stream

theorem Flowing.idle_empty {u : Uart} (h : Flowing u) (hready : u.huart.gState = .ready) :
    u.tx.contents = [] := by
  by_contra hne
  rw [h.facts.2 hne] at hready
  cases hready

section room

theorem allRoom_busy {l : Level} (hbusy : l.ready = false) (hle : l.stored ≤ txDataBuffSize)
    {lens : List Nat} (hpos : ∀ n ∈ lens, 0 < n) :
    Level.AllRoom (fun _ => 0) l lens ↔ l.stored + lens.sum ≤ txDataBuffSize := by
  induction lens generalizing l with
  | nil => exact iff_of_true trivial hle
  | cons n lens ih =>
      obtain ⟨hn, hrest⟩ := List.forall_mem_cons.mp hpos
      have hwrite : l.write n = { l with stored := l.stored + n } := by
        rw [Level.write, if_neg (by simp [hbusy])]
      rw [Level.AllRoom, Function.iterate_zero, id_eq, List.sum_cons, hwrite]
      constructor
      · rintro ⟨hroom, hall⟩
        rw [ih (l := { l with stored := l.stored + n }) hbusy hroom.2 hrest] at hall
        rw [← Nat.add_assoc]
        exact hall
      · intro hsum
        refine ⟨⟨by omega, by omega⟩, ?_⟩
        rw [ih (l := { l with stored := l.stored + n }) hbusy (by dsimp only; omega) hrest]
        dsimp only
        omega

theorem frameLens_pos {n k : Nat} (h : n ∈ frameLens k) : 0 < n := by
  simp only [frameLens, List.mem_append, List.mem_cons, List.not_mem_nil, or_false] at h
  rcases h with ((rfl | rfl) | h) | (rfl | rfl)
  · decide
  · decide
  · split_ifs at h with hk
    · rw [List.mem_singleton.mp h]
      exact Nat.pos_of_ne_zero hk
    · exact absurd h List.not_mem_nil
  · decide
  · decide

theorem frameLens_sum (k : Nat) : (frameLens k).sum = 16 + k := by
  rw [frameLens]
  split_ifs with hk
  · simp only [List.sum_append, List.sum_cons, List.sum_nil, preambleSizeBytes, headerSizeBytes,
      crcSizeBytes, postambleSizeBytes]
    omega
  · rw [not_not.mp hk]
    rfl

def FrameRoom (u : Uart) (k : Nat) : Prop := u.tx.contents.length + (16 + k) ≤ txDataBuffSize

instance (u : Uart) (k : Nat) : Decidable (FrameRoom u k) := inferInstanceAs (Decidable (_ ≤ _))

theorem send_accepted (env : Env) {u : Uart} (h : Flowing u) {r : TxRequest} (hr : Fits r) :
    ∃ taken refused, frameParts env r.packet = taken ++ refused ∧
      (txSendPacket env u r.packet).2.accepted = u.accepted ++ taken.flatten ∧
      (refused = [] ↔ FrameRoom u r.packet.header.payloadLen.toNat) := by
  have hle : r.packet.header.payloadLen.toNat ≤ 251 := hr
  have hlt : r.packet.header.payloadLen.toNat < maxPayloadSize := Nat.lt_of_le_of_lt hle (by decide)
  obtain ⟨hall, taken, refused, hparts, haccept, hdone⟩ :=
    sendBetween_accepted env.junk (fun _ => 0) u (frameParts env r.packet)
  rw [sendBetween_zero, ← txSendPacket_eq] at hall haccept hdone
  refine ⟨taken, refused, hparts, haccept, hdone.symm.trans ⟨fun hok => ?_, fun hroom => ?_⟩⟩
  · by_cases hready : u.huart.gState = .ready
    · rw [FrameRoom, h.idle_empty hready, List.length_nil]
      exact Nat.le_trans (by omega : 0 + (16 + r.packet.header.payloadLen.toNat) ≤ 267) (by decide)
    · have hroom := hall.mp hok
      rw [frameParts_lens env hlt,
        allRoom_busy (by simp [levelOf, hready]) u.tx.contents_le fun n hn => frameLens_pos hn,
        frameLens_sum] at hroom
      exact hroom
  · exact (txSendPacket_handed env u hlt hroom).1

theorem flowing_send (env : Env) {u : Uart} (h : Flowing u) {r : TxRequest} (hr : Fits r) :
    Flowing (txSendPacket env u r.packet).2 := by
  have hle : r.packet.header.payloadLen.toNat ≤ 251 := hr
  rw [txSendPacket_eq]
  exact flowing_sendAll env.junk
    (frameParts_ne_nil env (Nat.lt_of_le_of_lt hle (by decide))) h

end room

section machine

def nextSend (s : TxSys) : Option TxRequest :=
  match s.handle.state with
  | .pollPendingTransfer =>
      if s.handle.internal = .pendingPacket then some (exitActionPollPendingTransfers s).handle.request
      else none
  | .transmitPacket =>
      if s.handle.external = .ackReceived ∨ s.handle.internal = .noAckExpected then none
      else if s.handle.external = .nackReceived then some s.handle.request
      else if timeEventIsRaised s.handle.ackTimeout ∧ s.handle.retryCnt < maxNumOfTransferRetries then
        some s.handle.request
      else none
  | _ => none

structure Sends (env : Env) (s : TxSys) (next : Option TxRequest) (s' : TxSys) : Prop where
  uart : s'.uart = match next with
    | none => s.uart
    | some r => (txSendPacket (env.behind r.ackExpected) s.uart r.packet).2
  sent : sentOf s'.trace = sentOf s.trace ++ next.toList

theorem sends_run (env : Env) (s : TxSys) : Sends env s (nextSend s) (hostCommTxFsmRun env s) := by
  have hnone {s' : TxSys} (huart : s'.uart = s.uart) (hsent : sentOf s'.trace = sentOf s.trace) :
      Sends env s none s' := ⟨huart, hsent.trans (List.append_nil _).symm⟩
  rw [hostCommTxFsmRun, nextSend]
  cases hs : s.handle.state with
  | pollPendingTransfer =>
      simp only [pollPendingTransfersOnReact, duringActionPollPendingTransfers]
      split_ifs
      · exact ⟨rfl, rfl⟩
      · exact hnone rfl rfl
      · exact hnone rfl rfl
  | transmitPacket =>
      simp only [transmitPacketOnReact]
      split_ifs with hdone hnack hresend hraised hmax hraised hmax
      · exact hnone rfl rfl
      · exact ⟨rfl, rfl⟩
      · exact absurd hresend.2 (Nat.not_lt_of_le hmax)
      · exact ⟨rfl, rfl⟩
      · exact absurd hresend.1 hraised
      · exact hnone rfl rfl
      · exact absurd ⟨hraised, Nat.lt_of_not_le hmax⟩ hresend
      · exact hnone rfl rfl
  | _ => exact hnone rfl rfl

/-- The bytes a transmission puts on the wire: those of the first writes of
its frame. -/
def Begins (env : Env) (r : TxRequest) (bytes : List UInt8) : Prop :=
  ∃ taken refused, frameParts (env.behind r.ackExpected) r.packet = taken ++ refused ∧
    bytes = taken.flatten

structure Wired (env : Env) (s : TxSys) : Prop where
  queue : ∃ L, Ordered s L
  request : s.handle.state = .transmitPacket → Fits s.handle.request
  flowing : Flowing s.uart
  stream : ∃ pieces, List.Forall₂ (Begins env) (sentOf s.trace) pieces ∧
    s.uart.accepted = pieces.flatten

theorem wired_init (env : Env) (h : HostCommTxFsm) : Wired env (hostCommTxFsmInit h uartInit) :=
  ⟨⟨[], ordered_init h uartInit⟩, fun hs => (by cases hs), conserving_start, [], .nil, rfl⟩

theorem Wired.fits_exit {env : Env} {s : TxSys} (h : Wired env s)
    (hs : s.handle.state = .pollPendingTransfer) (hpend : s.handle.internal = .pendingPacket) :
    Fits (exitActionPollPendingTransfers s).handle.request := by
  obtain ⟨L, hL⟩ := h.queue
  obtain ⟨r, L', rfl⟩ := List.exists_cons_of_ne_nil (hL.pending hs hpend)
  obtain ⟨q', hread, -⟩ := holds_read hL.holds s.handle.request
  have hr : Fits r := hL.holds.fits r List.mem_cons_self
  simp only [exitActionPollPendingTransfers, hread]
  exact hr

theorem Wired.fits_next {env : Env} {s : TxSys} (h : Wired env s) {r : TxRequest}
    (hr : nextSend s = some r) : Fits r := by
  rw [nextSend] at hr
  cases hs : s.handle.state with
  | pollPendingTransfer =>
      simp only [hs] at hr
      split_ifs at hr with hpend
      rw [← Option.some.inj hr]
      exact h.fits_exit hs hpend
  | transmitPacket =>
      simp only [hs] at hr
      split_ifs at hr
      · rw [← Option.some.inj hr]
        exact h.request hs
      · rw [← Option.some.inj hr]
        exact h.request hs
  | _ => simp [hs] at hr

theorem Wired.fits_run {env : Env} {s : TxSys} (h : Wired env s)
    (hs : (hostCommTxFsmRun env s).handle.state = .transmitPacket) :
    Fits (hostCommTxFsmRun env s).handle.request := by
  cases moves_run env s with
  | poll state next pending =>
      rw [next] at hs
      exact absurd hs state
  | first state pending next =>
      rw [next, enterSeq_handle]
      exact h.fits_exit state pending
  | wait state quiet external internal next =>
      rw [next]
      exact h.request state
  | done state ack next =>
      rw [next] at hs
      cases hs
  | nack state internal raised next =>
      rw [next, enterSeq_handle]
      exact h.request state
  | retry state internal raised left next =>
      rw [next, enterSeq_handle]
      exact h.request state
  | giveUp state internal raised spent next =>
      rw [next] at hs
      cases hs

def FindsRoom (s : TxSys) : TxEvent → Prop
  | .run => ∀ r ∈ nextSend s, FrameRoom s.uart r.packet.header.payloadLen.toNat
  | _ => True

instance (s : TxSys) : ∀ e, Decidable (FindsRoom s e)
  | .run => inferInstanceAs (Decidable (∀ r ∈ nextSend s, _))
  | .request _ => isTrue trivial
  | .tick => isTrue trivial
  | .external _ => isTrue trivial
  | .txComplete => isTrue trivial

/-- What a step adds to the stream. -/
inductive Adds (env : Env) (s : TxSys) (e : TxEvent) (s' : TxSys) : Prop
  | nothing (sent : sentOf s'.trace = sentOf s.trace)
      (accepted : s'.uart.accepted = s.uart.accepted) (room : FindsRoom s e)
  | frame (r : TxRequest) (taken refused : List (List UInt8)) (fits : Fits r)
      (parts : frameParts (env.behind r.ackExpected) r.packet = taken ++ refused)
      (sent : sentOf s'.trace = sentOf s.trace ++ [r])
      (accepted : s'.uart.accepted = s.uart.accepted ++ taken.flatten)
      (whole : refused = [] ↔ FindsRoom s e)

theorem adds_step (env : Env) {s : TxSys} (h : Wired env s) (e : TxEvent) :
    Adds env s e (txStep env s e) ∧ Flowing (txStep env s e).uart := by
  cases e with
  | request r =>
      refine ⟨.nothing ?_ rfl trivial, h.flowing⟩
      exact writeRequest_keeps sentOf rfl
  | tick => exact ⟨.nothing rfl rfl trivial, h.flowing⟩
  | external event => exact ⟨.nothing rfl rfl trivial, h.flowing⟩
  | txComplete =>
      have hnext : txStep env s .txComplete = { s with uart := txComplete s.uart } := by
        rw [txStep, txComplete]
        split_ifs <;> rfl
      rw [hnext]
      exact ⟨.nothing rfl (accepted_txComplete s.uart) trivial, flowing_txComplete h.flowing⟩
  | run =>
      obtain ⟨huart, hsent⟩ := sends_run env s
      cases hnext : nextSend s with
      | none =>
          rw [hnext] at huart hsent
          have hsame : (txStep env s .run).uart = s.uart := huart
          rw [hsame]
          refine ⟨.nothing (hsent.trans (List.append_nil _)) (by rw [hsame]) ?_, h.flowing⟩
          intro r hr
          rw [hnext] at hr
          cases hr
      | some r =>
          rw [hnext] at huart hsent
          have hr := h.fits_next hnext
          have hsame : (txStep env s .run).uart =
              (txSendPacket (env.behind r.ackExpected) s.uart r.packet).2 := huart
          obtain ⟨taken, refused, hparts, haccept, hwhole⟩ :=
            send_accepted (env.behind r.ackExpected) h.flowing hr
          rw [hsame]
          refine ⟨.frame r taken refused hr hparts hsent (by rw [hsame, haccept]) ?_,
            flowing_send _ h.flowing hr⟩
          rw [hwhole, FindsRoom, hnext]
          exact ⟨fun hroom r' hr' => Option.some.inj hr' ▸ hroom, fun hall => hall r rfl⟩

theorem wired_step (env : Env) {s : TxSys} (h : Wired env s) (e : TxEvent)
    (hfit : ∀ r, e = .request r → Fits r) : Wired env (txStep env s e) := by
  obtain ⟨hadds, hflowing⟩ := adds_step env h e
  refine ⟨ordered_step env s e h.queue hfit, ?_, hflowing, ?_⟩
  · cases e with
    | run => exact h.fits_run
    | txComplete =>
        obtain ⟨uart, hnext⟩ := txComplete_uart env s
        rw [hnext]
        exact h.request
    | _ => exact h.request
  · obtain ⟨pieces, hpieces, haccepted⟩ := h.stream
    cases hadds with
    | nothing sent accepted room => exact ⟨pieces, sent ▸ hpieces, accepted.trans haccepted⟩
    | frame r taken refused fits parts sent accepted whole =>
        refine ⟨pieces ++ [taken.flatten], ?_, ?_⟩
        · rw [sent]
          exact List.rel_append hpieces (.cons ⟨taken, refused, parts, rfl⟩ .nil)
        · rw [accepted, haccepted, List.flatten_append, List.flatten_singleton]

def requestFrame (env : Env) (r : TxRequest) : List UInt8 :=
  frameBytes (env.behind r.ackExpected) r.packet

def sentFrames (env : Env) (s : TxSys) : List UInt8 :=
  (sentOf s.trace).flatMap (requestFrame env)

def Complete (env : Env) (s : TxSys) : Prop := s.uart.accepted = sentFrames env s

def Short (env : Env) (s : TxSys) : Prop := s.uart.accepted.length < (sentFrames env s).length

theorem requestFrame_parts (env : Env) {r : TxRequest} (hr : Fits r)
    {taken refused : List (List UInt8)}
    (hparts : frameParts (env.behind r.ackExpected) r.packet = taken ++ refused) :
    requestFrame env r = taken.flatten ++ refused.flatten ∧
      (refused ≠ [] → 0 < refused.flatten.length) := by
  have hle : r.packet.header.payloadLen.toNat ≤ 251 := hr
  have hlt : r.packet.header.payloadLen.toNat < maxPayloadSize := Nat.lt_of_le_of_lt hle (by decide)
  refine ⟨?_, fun hne => ?_⟩
  · rw [requestFrame, frameBytes, ← frameParts_flatten _ hlt, hparts, List.flatten_append]
  · obtain ⟨data, rest, rfl⟩ := List.exists_cons_of_ne_nil hne
    have hdata : data ≠ [] :=
      frameParts_ne_nil (env.behind r.ackExpected) hlt data (by simp [hparts])
    rw [List.flatten_cons, List.length_append]
    exact Nat.add_pos_left (List.length_pos_of_ne_nil hdata) _

theorem sentFrames_append (env : Env) {s s' : TxSys} {r : TxRequest}
    (h : sentOf s'.trace = sentOf s.trace ++ [r]) :
    sentFrames env s' = sentFrames env s ++ requestFrame env r := by
  rw [sentFrames, h, List.flatMap_append, List.flatMap_singleton, sentFrames]

theorem complete_step (env : Env) {s s' : TxSys} {e : TxEvent} (h : Adds env s e s')
    (hs : Complete env s) (hroom : FindsRoom s e) : Complete env s' := by
  cases h with
  | nothing sent accepted room => rw [Complete, accepted, hs, sentFrames, sentFrames, sent]
  | frame r taken refused fits parts sent accepted whole =>
      obtain ⟨hbytes, -⟩ := requestFrame_parts env fits parts
      rw [whole.mpr hroom, List.flatten_nil, List.append_nil] at hbytes
      rw [Complete, accepted, hs, sentFrames_append env sent, hbytes]

theorem short_step (env : Env) {s s' : TxSys} {e : TxEvent} (h : Adds env s e s')
    (hs : Complete env s ∧ ¬ FindsRoom s e ∨ Short env s) : Short env s' := by
  cases h with
  | nothing sent accepted room =>
      rcases hs with ⟨-, hno⟩ | hs
      · exact absurd room hno
      · rw [Short, accepted, sentFrames, sent]
        exact hs
  | frame r taken refused fits parts sent accepted whole =>
      obtain ⟨hbytes, hpos⟩ := requestFrame_parts env fits parts
      rw [Short, accepted, sentFrames_append env sent, hbytes, List.length_append, List.length_append,
        List.length_append]
      rcases hs with ⟨hs, hno⟩ | hs
      · have hrefused := hpos fun hnil => hno (whole.mp hnil)
        rw [Complete] at hs
        rw [hs]
        omega
      · rw [Short] at hs
        omega

end machine

section drain

def Working (l : Level) : Prop :=
  l.locked = false ∧ (l.running = true ∨ l = ⟨0, true, false, false⟩)

theorem complete_working {l : Level} (h : Working l) :
    Working l.complete ∧ l.complete.stored ≤ l.stored - (maxDataChunkSize - 1) := by
  obtain ⟨stored, ready, locked, running⟩ := l
  obtain ⟨rfl : locked = false, rfl | hidle⟩ := h
  · by_cases hs : stored = 0
    · subst hs
      exact ⟨⟨rfl, .inr rfl⟩, Nat.zero_le _⟩
    · have hnext : Level.complete ⟨stored, ready, false, true⟩ =
          ⟨stored - Level.chunk stored, false, false, true⟩ := by
        simp [Level.complete, Level.start, hs]
      rw [hnext]
      refine ⟨⟨rfl, .inl rfl⟩, ?_⟩
      simp only [Level.chunk, maxDataChunkSize]
      split_ifs <;> omega
  · obtain ⟨rfl, rfl, -, rfl⟩ := Level.mk.inj hidle
    exact ⟨⟨rfl, .inr rfl⟩, Nat.zero_le _⟩

theorem complete_iterate (n : Nat) {l : Level} (h : Working l)
    (hn : l.stored ≤ (maxDataChunkSize - 1) * n) :
    (Level.complete^[n + 1] l) = ⟨0, true, false, false⟩ := by
  induction n generalizing l with
  | zero =>
      obtain ⟨stored, ready, locked, running⟩ := l
      obtain rfl : stored = 0 := Nat.eq_zero_of_le_zero hn
      obtain ⟨rfl : locked = false, rfl | hidle⟩ := h
      · rfl
      · rw [hidle]
        rfl
  | succ n ih =>
      obtain ⟨hnext, hless⟩ := complete_working h
      rw [Function.iterate_succ_apply]
      refine ih hnext (hless.trans ?_)
      rw [Nat.mul_succ] at hn
      omega

theorem Flowing.working {u : Uart} (h : Flowing u) : Working (levelOf u) := by
  obtain ⟨⟨hlock, hstate⟩, -⟩ := h.facts
  refine ⟨hlock, ?_⟩
  rcases hstate with ⟨-, hit⟩ | ⟨hready, hit⟩
  · exact .inl hit
  · refine .inr ?_
    rw [levelOf, h.idle_empty hready, hready, hlock, hit]
    rfl

theorem flowing_iterate (n : Nat) {u : Uart} (h : Flowing u) : Flowing (txComplete^[n] u) := by
  induction n generalizing u with
  | zero => exact h
  | succ n ih => exact ih (flowing_txComplete h)

theorem drained {u : Uart} (h : Flowing u) :
    (txComplete^[7] u).chunks.flatten = u.accepted ∧ (txComplete^[7] u).huart.gState = .ready := by
  obtain ⟨hlevel, haccepted⟩ := level_iterate 7 u
  have hle : (levelOf u).stored ≤ (maxDataChunkSize - 1) * 6 := u.tx.contents_le.trans (by decide)
  rw [complete_iterate 6 h.working hle] at hlevel
  have hempty : (txComplete^[7] u).tx.contents = [] :=
    List.length_eq_zero_iff.mp (congrArg Level.stored hlevel)
  have hstream := (flowing_iterate 7 h).stream_eq
  rw [hempty, List.append_nil, haccepted] at hstream
  exact ⟨hstream, of_decide_eq_true (congrArg Level.ready hlevel)⟩

end drain

section system

def FrameFits (s : HostSys) : HostEvent → Prop
  | .tx event => FindsRoom s.tx event
  | .rx _ => True

instance (s : HostSys) : ∀ e, Decidable (FrameFits s e)
  | .tx event => inferInstanceAs (Decidable (FindsRoom s.tx event))
  | .rx _ => isTrue trivial

theorem seen_requests (env : Env) (s : HostSys) (event : RxEvent) :
    ∀ e ∈ seenByTx env s (.rx event), ∃ r, e = .request r ∧ Fits r := by
  intro e he
  obtain ⟨response, hmem, rfl⟩ := List.mem_map.mp he
  exact ⟨response.request, rfl, answer_fits hmem⟩

theorem host_preserves (env : Env) {I : TxSys → Prop}
    (hrequest : ∀ s r, I s → Fits r → I (writeRequest s r)) {s : HostSys} {e : HostEvent}
    (htx : ∀ event, e = .tx event → I (txStep env s.tx event)) (hs : I s.tx) :
    I (hostStep env s e).tx := by
  rw [tx_step]
  cases e with
  | tx event => exact htx event rfl
  | rx event =>
      refine run_preserves_mem (I := I) (fun s' e he hs' => ?_) hs
      obtain ⟨r, rfl, hr⟩ := seen_requests env s event e he
      exact hrequest s' r hs' hr

theorem wired_request (env : Env) (s : TxSys) (r : TxRequest) (h : Wired env s) (hr : Fits r) :
    Wired env (writeRequest s r) :=
  wired_step env h (.request r) fun _ he => TxEvent.request.inj he ▸ hr

theorem wired_host (env : Env) {s : HostSys} {e : HostEvent} (h : Wired env s.tx)
    (hfit : AppFits [e]) : Wired env (hostStep env s e).tx := by
  refine host_preserves env (wired_request env) ?_ h
  rintro event rfl
  refine wired_step env h event ?_
  rintro r rfl
  exact hfit r List.mem_cons_self

theorem along_fits (env : Env) {s : HostSys} {events : List HostEvent} (h : AppFits events) :
    Along (fun _ e => AppFits [e]) (hostStep env) s events := by
  refine along_of_mem (fun _ e he r hr => h r ?_) s
  rwa [List.mem_singleton.mp hr]

theorem complete_host (env : Env) {s : HostSys} {e : HostEvent} (h : Wired env s.tx)
    (hs : Complete env s.tx) (hfit : AppFits [e]) (hroom : FrameFits s e) :
    Wired env (hostStep env s e).tx ∧ Complete env (hostStep env s e).tx := by
  refine ⟨wired_host env h hfit, ?_⟩
  refine (host_preserves env (I := fun s => Wired env s ∧ Complete env s) ?_ ?_ ⟨h, hs⟩).2
  · intro s r ⟨hw, hc⟩ hr
    exact ⟨wired_request env s r hw hr, complete_step env (adds_step env hw (.request r)).1 hc trivial⟩
  · rintro event rfl
    refine ⟨wired_step env h event ?_, complete_step env (adds_step env h event).1 hs hroom⟩
    rintro r rfl
    exact hfit r List.mem_cons_self

theorem short_host (env : Env) {s : HostSys} {e : HostEvent} (h : Wired env s.tx)
    (hs : Short env s.tx) (hfit : AppFits [e]) :
    Wired env (hostStep env s e).tx ∧ Short env (hostStep env s e).tx := by
  refine ⟨wired_host env h hfit, ?_⟩
  refine (host_preserves env (I := fun s => Wired env s ∧ Short env s) ?_ ?_ ⟨h, hs⟩).2
  · intro s r ⟨hw, hc⟩ hr
    exact ⟨wired_request env s r hw hr, short_step env (adds_step env hw (.request r)).1 (.inr hc)⟩
  · rintro event rfl
    refine ⟨wired_step env h event ?_, short_step env (adds_step env h event).1 (.inr hs)⟩
    rintro r rfl
    exact hfit r List.mem_cons_self

theorem cut_host (env : Env) {s : HostSys} {e : HostEvent} (h : Wired env s.tx)
    (hs : Complete env s.tx) (hfit : AppFits [e]) (hno : ¬ FrameFits s e) :
    Wired env (hostStep env s e).tx ∧ Short env (hostStep env s e).tx := by
  refine ⟨wired_host env h hfit, ?_⟩
  cases e with
  | rx event => exact absurd trivial hno
  | tx event => exact short_step env (adds_step env h event).1 (.inl ⟨hs, hno⟩)

theorem complete_iff (env : Env) {s : HostSys} (hw : Wired env s.tx) (hs : Complete env s.tx)
    {events : List HostEvent} (hfit : AppFits events) :
    Along FrameFits (hostStep env) s events ↔ Complete env (run (hostStep env) s events).tx := by
  have hall := run_splits (A := fun _ e => AppFits [e]) (P := FrameFits)
    (G := fun s => Wired env s.tx ∧ Complete env s.tx)
    (B := fun s => Wired env s.tx ∧ Short env s.tx)
    (fun _ _ h hfit hroom => complete_host env h.1 h.2 hfit hroom)
    (fun _ _ h hfit hno => cut_host env h.1 h.2 hfit hno)
    (fun _ _ h hfit => short_host env h.1 h.2 hfit) ⟨hw, hs⟩ (along_fits env hfit)
  rcases hall with ⟨hroom, -, hcomplete⟩ | ⟨hno, -, hshort⟩
  · exact iff_of_true hroom hcomplete
  · refine iff_of_false hno fun hcomplete => ?_
    rw [Short, hcomplete] at hshort
    exact Nat.lt_irrefl _ hshort

end system

end HostComm.TxWire
