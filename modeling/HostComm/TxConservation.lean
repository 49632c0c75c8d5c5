import HostComm.UartSteps

namespace HostComm.TxConservation

open ByteRings UartDriver Runs UartSteps

def inFlight : MainPc → List UInt8
  | .idle => []
  | .test => []
  | .pop => []
  | .checkState byte => [byte]
  | .checkLock byte => [byte]
  | .takeLock byte => [byte]
  | .fillTx byte => [byte]
  | .setBusyTx byte => [byte]
  | .releaseLock byte => [byte]
  | .enableTxIt byte => [byte]

/-- The handle while the main loop is outside the HAL: unlocked, and busy
exactly while a transfer runs. -/
def Settled (h : UartHandle) : Prop :=
  h.lock = false ∧ (h.gState = .busyTx ∧ h.txIt = true ∨ h.gState = .ready ∧ h.txIt = false)

def PcFacts (u : Uart) : MainPc → Prop
  | .idle => Settled u.huart ∧ (u.tx.contents ≠ [] → u.huart.gState = .busyTx)
  | .test => Settled u.huart
  | .pop => u.huart.gState = .ready ∧ u.huart.txIt = false ∧ u.huart.lock = false ∧
      u.tx.contents ≠ []
  | .checkState _ => u.huart.gState = .ready ∧ u.huart.txIt = false ∧ u.huart.lock = false
  | .checkLock _ => u.huart.gState = .ready ∧ u.huart.txIt = false ∧ u.huart.lock = false
  | .takeLock _ => u.huart.gState = .ready ∧ u.huart.txIt = false ∧ u.huart.lock = false
  | .fillTx _ => u.huart.gState = .ready ∧ u.huart.txIt = false
  | .setBusyTx _ => u.huart.gState = .ready ∧ u.huart.txIt = false
  | .releaseLock _ => u.huart.gState = .busyTx ∧ u.huart.txIt = false
  | .enableTxIt _ => u.huart.gState = .busyTx ∧ u.huart.txIt = false ∧ u.huart.lock = false

structure Conserving (m : UartSys) : Prop where
  stream : m.uart.chunks.flatten ++ (inFlight m.pc ++ m.uart.tx.contents) = m.uart.accepted
  sizes : ∀ c ∈ m.uart.chunks, 1 ≤ c.length ∧ c.length < maxDataChunkSize
  facts : PcFacts m.uart m.pc

/-- The main loop pops from a ring that is not empty. -/
def PopsByte (m : UartSys) : UartEvent → Prop
  | .main => m.pc = .test → m.uart.huart.gState = .ready → m.uart.tx.contents ≠ []
  | _ => True

instance (m : UartSys) : ∀ e, Decidable (PopsByte m e)
  | .main => inferInstanceAs (Decidable (_ → _ → _))
  | .call _ => isTrue trivial
  | .txComplete => isTrue trivial
  | .rxByte _ => isTrue trivial

theorem contents_uartInit : uartInit.tx.contents = [] := ByteRing.contents_init _ (by decide)

theorem conserving_start : Conserving uartStart where
  stream := contents_uartInit
  sizes := by simp [uartStart, uartInit]
  facts := ⟨⟨rfl, .inr ⟨rfl, rfl⟩⟩, fun h => absurd contents_uartInit h⟩

theorem conserving_call {m : UartSys} (h : Conserving m) (hpc : m.pc = .idle) (data : List UInt8) :
    Conserving (callTransmit m data) := by
  have hfacts := h.facts
  have hstream := h.stream
  rw [hpc] at hfacts hstream
  rw [callTransmit]
  by_cases hok : (m.uart.tx.write data).1 = .ok
  · simp only [if_pos hok]
    have hroom := (m.uart.tx.write_ok_iff data).mp hok
    refine ⟨?_, h.sizes, hfacts.1⟩
    simp only [inFlight, List.nil_append, (m.uart.tx.write_of_room data hroom).2] at hstream ⊢
    rw [← List.append_assoc, hstream]
  · simp only [if_neg hok]
    exact ⟨hstream, h.sizes, hfacts⟩

theorem conserving_main (junk : UInt8) {m : UartSys} (h : Conserving m) (hgood : PopsByte m .main) :
    Conserving (mainStep junk m) := by
  obtain ⟨hstream, hsizes, hfacts⟩ := h
  rw [mainStep]
  cases hpc : m.pc with
  | idle => exact ⟨hstream, hsizes, hfacts⟩
  | test =>
      rw [hpc] at hstream hfacts
      obtain ⟨hlock, hbusy | hready⟩ := hfacts
      · simp only [hbusy.1, reduceCtorEq, if_false]
        exact ⟨hstream, hsizes, ⟨hlock, .inl hbusy⟩, fun _ => hbusy.1⟩
      · simp only [hready.1, if_true]
        exact ⟨hstream, hsizes, hready.1, hready.2, hlock, hgood hpc hready.1⟩
  | pop =>
      rw [hpc] at hstream hfacts
      obtain ⟨hready, hit, hlock, hne⟩ := hfacts
      obtain ⟨b, rest, hbr⟩ := List.exists_cons_of_ne_nil hne
      have hget : m.uart.tx.get.1 = some b := by rw [ByteRing.get_fst, hbr, List.head?_cons]
      refine ⟨?_, hsizes, hready, hit, hlock⟩
      simp only [inFlight, hget, Option.getD_some, ByteRing.contents_get, hbr, List.nil_append,
        List.tail_cons, List.singleton_append] at hstream ⊢
      exact hstream
  | checkState byte =>
      rw [hpc] at hstream hfacts
      simp only [hfacts.1, if_true]
      exact ⟨hstream, hsizes, hfacts⟩
  | checkLock byte =>
      rw [hpc] at hstream hfacts
      simp only [hfacts.2.2, Bool.false_eq_true, if_false]
      exact ⟨hstream, hsizes, hfacts⟩
  | takeLock byte =>
      rw [hpc] at hstream hfacts
      exact ⟨hstream, hsizes, hfacts.1, hfacts.2.1⟩
  | fillTx byte =>
      rw [hpc] at hstream hfacts
      exact ⟨hstream, hsizes, hfacts⟩
  | setBusyTx byte =>
      rw [hpc] at hstream hfacts
      exact ⟨hstream, hsizes, rfl, hfacts.2⟩
  | releaseLock byte =>
      rw [hpc] at hstream hfacts
      exact ⟨hstream, hsizes, hfacts.1, hfacts.2, rfl⟩
  | enableTxIt byte =>
      rw [hpc] at hstream hfacts
      obtain ⟨hbusy, hit, hlock⟩ := hfacts
      refine ⟨?_, ?_, ⟨hlock, .inl ⟨hbusy, rfl⟩⟩, fun _ => hbusy⟩
      · simp only [inFlight, List.flatten_append, List.flatten_singleton, List.nil_append,
          List.append_assoc] at hstream ⊢
        exact hstream
      · intro c hc
        rcases List.mem_append.mp hc with hc | hc
        · exact hsizes c hc
        · rw [List.mem_singleton.mp hc]
          exact ⟨Nat.le_refl 1, (by decide : 1 < 100)⟩

theorem txComplete_spec {u : Uart} (hlock : u.huart.lock = false) :
    let u' := uartEndTransmitIt u
    Settled u'.huart ∧ (u'.tx.contents ≠ [] → u'.huart.gState = .busyTx) ∧
      u'.accepted = u.accepted ∧
      u'.chunks.flatten ++ u'.tx.contents = u.chunks.flatten ++ u.tx.contents ∧
      ((∀ c ∈ u.chunks, 1 ≤ c.length ∧ c.length < maxDataChunkSize) →
        ∀ c ∈ u'.chunks, 1 ≤ c.length ∧ c.length < maxDataChunkSize) := by
  have hle : u.tx.contents.length ≤ 512 := u.tx.contents_le
  have hlen : u.tx.dataLen % 2 ^ 16 = u.tx.contents.length := by
    rw [ByteRing.dataLen_eq]
    omega
  simp only [uartEndTransmitIt, halUartTxCpltCallback, hlen]
  by_cases hempty : u.tx.contents.length = 0
  · have hnil : u.tx.contents = [] := List.length_eq_zero_iff.mp hempty
    simp only [hempty, ne_eq, not_true_eq_false, if_false]
    exact ⟨⟨hlock, .inr ⟨rfl, rfl⟩⟩, fun h => absurd hnil h, trivial, trivial, id⟩
  · obtain ⟨k, hk⟩ : ∃ k, k = if maxDataChunkSize ≤ u.tx.contents.length then maxDataChunkSize - 1
        else u.tx.contents.length := ⟨_, rfl⟩
    have hpos : 1 ≤ k ∧ k < maxDataChunkSize ∧ k ≤ u.tx.contents.length := by
      simp only [maxDataChunkSize] at hk ⊢
      split_ifs at hk <;> omega
    have hchunk : (u.tx.read k).2.1.length = k := by
      rw [ByteRing.read_bytes, List.length_take, Nat.min_eq_left hpos.2.2]
    rw [if_pos hempty, ← hk]
    have hne : ¬ (u.tx.read k).2.1.length = 0 := by omega
    simp only [startTx, halUartTransmitIt, if_true, if_neg hne, hlock, Bool.false_eq_true, if_false]
    refine ⟨⟨rfl, .inl ⟨rfl, rfl⟩⟩, fun _ => rfl, trivial, ?_, ?_⟩
    · rw [List.flatten_append, List.flatten_singleton, ByteRing.contents_read, ByteRing.read_bytes,
        List.append_assoc, List.take_append_drop]
    · intro hsizes c hc
      rcases List.mem_append.mp hc with hc | hc
      · exact hsizes c hc
      · rw [List.mem_singleton.mp hc, hchunk]
        exact ⟨hpos.1, hpos.2.1⟩

theorem settled_of_txIt {u : Uart} {pc : MainPc} (h : PcFacts u pc) (hit : u.huart.txIt = true) :
    (pc = .idle ∨ pc = .test) ∧ Settled u.huart := by
  have hoff : ¬ u.huart.txIt = false := by
    rw [hit]
    decide
  cases pc with
  | idle => exact ⟨.inl rfl, h.1⟩
  | test => exact ⟨.inr rfl, h⟩
  | pop | checkState _ | checkLock _ | takeLock _ | enableTxIt _ => exact absurd h.2.1 hoff
  | fillTx _ | setBusyTx _ | releaseLock _ => exact absurd h.2 hoff

theorem conserving_txComplete {m : UartSys} (h : Conserving m) (hit : m.uart.huart.txIt = true) :
    Conserving { m with uart := uartEndTransmitIt m.uart } := by
  obtain ⟨hstream, hsizes, hfacts⟩ := h
  obtain ⟨hpc, hsettled⟩ := settled_of_txIt hfacts hit
  obtain ⟨hsettled', hbusy, haccepted, hflow, hsmall⟩ := txComplete_spec hsettled.1
  have hnone : inFlight m.pc = [] := by rcases hpc with hpc | hpc <;> rw [hpc] <;> rfl
  refine ⟨?_, hsmall hsizes, ?_⟩
  · rw [hnone, List.nil_append] at hstream ⊢
    exact hflow.trans (hstream.trans haccepted.symm)
  · rcases hpc with hpc | hpc
    · rw [hpc]
      exact ⟨hsettled', hbusy⟩
    · rw [hpc]
      exact hsettled'

theorem conserving_rxByte {m : UartSys} (h : Conserving m) (byte : UInt8) :
    Conserving { m with uart := uartReceiveIt m.uart byte } := by
  obtain ⟨hstream, hsizes, hfacts⟩ := h
  have hkeep : (uartReceiveIt m.uart byte).tx = m.uart.tx ∧
      (uartReceiveIt m.uart byte).chunks = m.uart.chunks ∧
      (uartReceiveIt m.uart byte).accepted = m.uart.accepted ∧
      (uartReceiveIt m.uart byte).huart.gState = m.uart.huart.gState ∧
      (uartReceiveIt m.uart byte).huart.txIt = m.uart.huart.txIt ∧
      (uartReceiveIt m.uart byte).huart.lock = m.uart.huart.lock := by
    rw [uartReceiveIt]
    split_ifs
    · cases hlock : m.uart.huart.lock <;>
        simp [halUartRxCpltCallback, halUartReceiveIt, hlock, UartHandle.startReceive,
          UartHandle.takeLock, UartHandle.releaseLock]
    · exact ⟨rfl, rfl, rfl, rfl, rfl, rfl⟩
  obtain ⟨htx, hchunks, haccepted, hstate, hit, hlock⟩ := hkeep
  refine ⟨?_, ?_, ?_⟩
  · rw [hchunks, htx, haccepted]
    exact hstream
  · rw [hchunks]
    exact hsizes
  · cases hpc : m.pc <;> rw [hpc] at hfacts <;>
      simpa only [PcFacts, Settled, htx, hstate, hit, hlock] using hfacts

theorem conserving_step (junk : UInt8) (m : UartSys) (e : UartEvent) (h : Conserving m)
    (hgood : PopsByte m e) : Conserving (uartStep junk m e) := by
  cases e with
  | call data =>
      rw [uartStep]
      split_ifs with hpc
      · exact conserving_call h hpc data
      · exact h
  | main => exact conserving_main junk h hgood
  | txComplete =>
      rw [uartStep]
      split_ifs with hit
      · exact conserving_txComplete h hit
      · exact h
  | rxByte byte =>
      rw [uartStep]
      split_ifs
      · exact conserving_rxByte h byte
      · exact h

/-- The main loop that finds the transmitter ready pops a byte of the ring, or
one that nobody wrote. -/
theorem pops_iff (junk : UInt8) {m : UartSys} (h : Conserving m) (hpc : m.pc = .test)
    (hready : m.uart.huart.gState = .ready) :
    let next := run (uartStep junk) m [.main, .main]
    next.uart.chunks.flatten ++ (inFlight next.pc ++ next.uart.tx.contents) = next.uart.accepted ↔
      m.uart.tx.contents ≠ [] := by
  intro next
  have hpop : mainStep junk m = { m with pc := .pop } := by
    rw [mainStep]
    simp only [hpc, hready, if_true]
  constructor
  · intro hstream hempty
    have hnone : m.uart.tx.get.1 = none := by rw [ByteRing.get_fst, hempty, List.head?_nil]
    have hnext : next = { uart := { m.uart with tx := m.uart.tx.get.2 }, pc := .checkState junk } := by
      change mainStep junk (mainStep junk m) = _
      rw [hpop, mainStep, hnone]
      rfl
    have hbefore := h.stream
    rw [hpc, hempty] at hbefore
    rw [hnext] at hstream
    simp only [inFlight, ByteRing.contents_get, hempty, List.append_nil, List.tail_nil] at hstream hbefore
    have hlen := congrArg List.length (hstream.trans hbefore.symm)
    simp at hlen
  · intro hne
    have hfirst := conserving_main junk h fun _ _ => hne
    refine (conserving_main junk hfirst fun htest => ?_).stream
    rw [hpop] at htest
    cases htest

/-- Nothing is lost, duplicated, reordered or stranded on the transmit path,
as long as the main loop never pops from an emptied ring. Where it does, the
stream breaks at once. -/
theorem tx_path_conserves (junk : UInt8) (events : List UartEvent)
    (hgood : Along PopsByte (uartStep junk) uartStart events) :
    let m := run (uartStep junk) uartStart events
    m.uart.chunks.flatten ++ (inFlight m.pc ++ m.uart.tx.contents) = m.uart.accepted ∧
      (∀ c ∈ m.uart.chunks, 1 ≤ c.length ∧ c.length ≤ maxDataChunkSize - 1) ∧
      (m.pc = .idle → m.uart.tx.contents ≠ [] → m.uart.huart.gState = .busyTx) ∧
      (m.pc = .test → m.uart.huart.gState = .ready →
        let next := run (uartStep junk) m [.main, .main]
        (next.uart.chunks.flatten ++ (inFlight next.pc ++ next.uart.tx.contents) =
          next.uart.accepted ↔ m.uart.tx.contents ≠ [])) := by
  intro m
  have h : Conserving m := run_invariant (conserving_step junk) conserving_start hgood
  refine ⟨h.stream, fun c hc => ⟨(h.sizes c hc).1, Nat.le_sub_one_of_lt (h.sizes c hc).2⟩, ?_,
    pops_iff junk h⟩
  intro hpc
  have hfacts := h.facts
  rw [hpc] at hfacts
  exact hfacts.2

theorem tx_path_conserves_two_bytes :
    let m := run (uartStep 0) uartStart ([.call [7, 8]] ++ List.replicate 9 .main ++ [.txComplete])
    m.uart.chunks.flatten ++ (inFlight m.pc ++ m.uart.tx.contents) = m.uart.accepted := by
  have hgood : Along PopsByte (uartStep 0) uartStart
      ([.call [7, 8]] ++ List.replicate 9 .main ++ [.txComplete]) := by decide +kernel
  exact (tx_path_conserves 0 _ hgood).1

/-- Two completions between the write and the state test empty the ring, and a
byte nobody wrote is sent. -/
theorem tx_path_sends_junk :
    let m := run (uartStep 0) uartStart
      ([.call [7]] ++ List.replicate 9 .main ++ [.call [8], .txComplete, .txComplete] ++
        List.replicate 9 .main)
    m.pc = .idle ∧ m.uart.accepted = [7, 8] ∧
      m.uart.chunks.flatten ++ m.uart.tx.contents = [7, 8, 0] := by
  decide +kernel

end HostComm.TxConservation
