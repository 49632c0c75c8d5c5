import HostComm.HalUart
import HostComm.Runs

namespace HostComm.HalWire

open CircularBuffer ByteRings HalUart Runs
open UartDriver (HalUartState maxDataChunkSize rxDataBuffSize txDataBuffSize)

/-- What transmission reads and writes. -/
structure TxSide where
  tx : ByteRing txDataBuffSize
  accepted : List UInt8
  chunks : List (List UInt8)
  wire : List UInt8
  lost : Bool
  gState : HalUartState
  lock : Bool
  txFrom : TxSource
  txBuf : List UInt8
  txSent : Nat
  txXferCount : Nat
  txeie : Bool
  tcie : Bool

def txSide (u : Driver) : TxSide :=
  { tx := u.tx, accepted := u.accepted, chunks := u.chunks, wire := u.wire, lost := u.lost
    gState := u.huart.gState, lock := u.huart.lock, txFrom := u.huart.txFrom
    txBuf := u.huart.txBuf, txSent := u.huart.txSent, txXferCount := u.huart.txXferCount, txeie := u.huart.cr1.txeie, tcie := u.huart.cr1.tcie }

/-- What reception reads and writes, apart from the lock and the error code. -/
structure RxSide where
  rx : ByteRing rxDataBuffSize
  rxState : HalUartState
  rxneie : Bool
  peie : Bool
  eie : Bool

def rxSide (u : Driver) : RxSide :=
  { rx := u.rx, rxState := u.huart.rxState, rxneie := u.huart.cr1.rxneie, peie := u.huart.cr1.peie
    eie := u.huart.eie }

theorem txSide_receive (u : Driver) (dr : UInt8) : txSide (uartReceiveIt u dr) = txSide u := by
  rw [uartReceiveIt]
  split_ifs
  · cases hlock : u.huart.lock
    all_goals
      simp [halUartRxCpltCallback, halUartReceiveIt, uartStartReceiveIt, Driver.set, txSide, hlock,
        HalHandle.takeLock, HalHandle.releaseLock]
  · rfl

theorem txSide_error (u : Driver) (f : StatusFlags) (dr : UInt8) :
    txSide (errorIrq u f dr) = txSide u := by
  rw [errorIrq]
  dsimp only
  split_ifs
  · rfl
  · exact txSide_receive (u.set { u.huart with errorCode := collectErrors u.huart f }) dr
  · exact txSide_receive (u.set { u.huart with errorCode := collectErrors u.huart f }) dr
  · rfl
  · rfl

theorem rxSide_startTx (u : Driver) (chunk : List UInt8) : rxSide (startTx u chunk) = rxSide u := by
  simp only [startTx, halUartTransmitIt]
  split_ifs
  all_goals rfl

theorem rxSide_transmit (junk : UInt8) (u : Driver) : rxSide (uartTransmitIt junk u) = rxSide u := by
  rw [uartTransmitIt]
  dsimp only
  split_ifs
  all_goals rfl

theorem rxSide_endTransmit (u : Driver) : rxSide (uartEndTransmitIt u) = rxSide u := by
  simp only [uartEndTransmitIt, halUartTxCpltCallback]
  split_ifs
  · exact rxSide_startTx ..
  · exact rxSide_startTx ..
  · rfl

theorem rxSide_transmitIrq (junk : UInt8) (u : Driver) (f : StatusFlags) :
    rxSide (transmitIrq junk u f) = rxSide u := by
  rw [transmitIrq]
  split_ifs
  · exact rxSide_transmit junk u
  · exact rxSide_endTransmit u
  · rfl

inductive Irq (junk : UInt8) (u : Driver) (f : StatusFlags) (dr : UInt8) (u' : Driver) : Prop
  | received (on : u.huart.cr1.rxneie = true) (result : u' = uartReceiveIt u dr)
  | error (on : u.huart.eie = true ∨ u.huart.cr1.rxneie = true ∨ u.huart.cr1.peie = true)
      (result : u' = errorIrq u f dr)
  | transmit (result : u' = transmitIrq junk u f)

theorem irq_cases (junk : UInt8) (u : Driver) (f : StatusFlags) (dr : UInt8) :
    Irq junk u f dr (halUartIrqHandler junk u f dr) := by
  rw [halUartIrqHandler]
  split_ifs with hclean herror
  · simp only [Bool.and_eq_true] at hclean
    exact .received hclean.2.2 rfl
  · simp only [Bool.and_eq_true, Bool.or_eq_true] at herror
    exact .error herror.2 rfl
  · exact .transmit rfl

structure Sending (t : TxSide) : Prop where
  busy : t.gState = .busyTx
  on : t.txeie = true
  off : t.tcie = false
  left : 0 < t.txXferCount
  short : t.txXferCount < 2 ^ 16
  count : t.txSent + t.txXferCount = t.txBuf.length

structure Ending (t : TxSide) : Prop where
  busy : t.gState = .busyTx
  off : t.txeie = false
  on : t.tcie = true
  count : t.txSent = t.txBuf.length

structure Ready (t : TxSide) : Prop where
  ready : t.gState = .ready
  txe : t.txeie = false
  tc : t.tcie = false

/-- The main loop has written down its byte, and no interrupt is on yet. -/
structure Loaded (t : TxSide) (byte : UInt8) (gState : HalUartState) : Prop where
  state : t.gState = gState
  txe : t.txeie = false
  tc : t.tcie = false
  source : t.txFrom = .localByte
  buf : t.txBuf = [byte]
  sent : t.txSent = 0
  count : t.txXferCount = 1

def Served (t : TxSide) : Prop := t.lock = false ∧ (Sending t ∨ Ending t ∨ Ready t)

/-- What the transmit side looks like at each point of the main loop. -/
def TxPhase (t : TxSide) : HalPc → Prop
  | .idle => Served t
  | .test => Served t
  | .pop => t.lock = false ∧ Ready t
  | .checkState _ => t.lock = false ∧ Ready t
  | .checkLock _ => t.lock = false ∧ Ready t
  | .takeLock _ => t.lock = false ∧ Ready t
  | .fillTx _ => Ready t
  | .setBusyTx byte => Loaded t byte .ready
  | .releaseLock byte => Loaded t byte .busyTx
  | .loadCr1 byte => t.lock = false ∧ Loaded t byte .busyTx
  | .storeCr1 byte cr1 => t.lock = false ∧ Loaded t byte .busyTx ∧
      cr1.txeie = false ∧ cr1.tcie = false
  | .leave => Served t

theorem served_same {t : TxSide} (h : Served t) (tx : ByteRing txDataBuffSize)
    (accepted : List UInt8) (source : TxSource) :
    Served { t with tx, accepted, txFrom := source } :=
  ⟨h.1, h.2.imp (fun k => ⟨k.1, k.2, k.3, k.4, k.5, k.6⟩)
    (Or.imp (fun k => ⟨k.1, k.2, k.3, k.4⟩) fun k => ⟨k.1, k.2, k.3⟩)⟩

def unsent (t : TxSide) : List UInt8 := if t.txeie || t.tcie then t.txBuf.drop t.txSent else []

/-- The data register has got the chunks, up to the bytes that are left. -/
structure OnWire (t : TxSide) (pc : HalPc) : Prop where
  phase : TxPhase t pc
  stream : t.lost = false → t.wire ++ unsent t = t.chunks.flatten

theorem unsent_off {t : TxSide} (htxe : t.txeie = false) (htc : t.tcie = false) : unsent t = [] := by
  simp [unsent, htxe, htc]

theorem unsent_ending {t : TxSide} (h : Ending t) : unsent t = [] := by
  simp [unsent, h.on, h.count]

theorem served_of_on {t : TxSide} {pc : HalPc} (h : TxPhase t pc)
    (hon : t.txeie = true ∨ t.tcie = true) : Served t ∧ ∀ t', Served t' → TxPhase t' pc := by
  have hready (hr : Ready t) : False := by simp [hr.txe, hr.tc] at hon
  have hloaded {byte : UInt8} {state : HalUartState} (hl : Loaded t byte state) : False := by
    simp [hl.txe, hl.tc] at hon
  cases pc with
  | idle => exact ⟨h, fun _ ht => ht⟩
  | test => exact ⟨h, fun _ ht => ht⟩
  | leave => exact ⟨h, fun _ ht => ht⟩
  | pop => exact absurd h.2 hready
  | checkState byte => exact absurd h.2 hready
  | checkLock byte => exact absurd h.2 hready
  | takeLock byte => exact absurd h.2 hready
  | fillTx byte => exact absurd h hready
  | setBusyTx byte => exact absurd h hloaded
  | releaseLock byte => exact absurd h hloaded
  | loadCr1 byte => exact absurd h.2 hloaded
  | storeCr1 byte cr1 => exact absurd h.2.1 hloaded

theorem sending_of_on {t : TxSide} (h : Served t) (hon : t.txeie = true) : Sending t := by
  obtain ⟨-, hsending | hending | hready⟩ := h
  · exact hsending
  · exact absurd hon (by simp [hending.off])
  · exact absurd hon (by simp [hready.txe])

theorem ending_of_on {t : TxSide} (h : Served t) (hon : t.tcie = true) : Ending t := by
  obtain ⟨-, hsending | hending | hready⟩ := h
  · exact absurd hon (by simp [hsending.off])
  · exact hending
  · exact absurd hon (by simp [hready.tc])

theorem count_down {n : Nat} (hpos : 0 < n) (hlt : n < 2 ^ 16) : (n + (2 ^ 16 - 1)) % 2 ^ 16 = n - 1 := by
  omega

theorem sent_spec (junk : UInt8) {u : Driver} (h : Sending (txSide u)) (hlock : u.huart.lock = false) :
    Served (txSide (uartTransmitIt junk u)) ∧
      (txSide (uartTransmitIt junk u)).chunks = u.chunks ∧
      ((txSide (uartTransmitIt junk u)).lost = false → u.lost = false ∧
        (txSide (uartTransmitIt junk u)).wire ++ unsent (txSide (uartTransmitIt junk u)) =
          u.wire ++ unsent (txSide u)) := by
  obtain ⟨hbusy, hon, hoff, hleft, hshort, hcount⟩ := h
  simp only [txSide] at hbusy hon hoff hleft hshort hcount
  have hlt : u.huart.txSent < u.huart.txBuf.length := by omega
  have hnext : unsent (txSide u) =
      u.huart.txBuf.getD u.huart.txSent junk :: u.huart.txBuf.drop (u.huart.txSent + 1) := by
    simp only [unsent, txSide, hon, Bool.true_or, if_true, List.getD_eq_getElem?_getD,
      List.getElem?_eq_getElem hlt, Option.getD_some]
    exact List.drop_eq_getElem_cons hlt
  have hread (hkept : ¬ u.huart.txFrom = .gone) :
      readTx junk u.huart = u.huart.txBuf.getD u.huart.txSent junk := if_neg hkept
  rw [hnext, uartTransmitIt, if_pos hbusy]
  simp only [count_down hleft hshort]
  by_cases hlast : u.huart.txXferCount - 1 = 0
  · have hend : u.huart.txSent + 1 = u.huart.txBuf.length := by omega
    simp only [txSide, if_pos hlast]
    refine ⟨⟨hlock, .inr (.inl ⟨hbusy, rfl, rfl, hend⟩)⟩, trivial, fun hkept => ?_⟩
    simp only [Bool.or_eq_false_iff, decide_eq_false_iff_not] at hkept
    rw [hread hkept.2]
    simp [unsent, hend, hkept.1]
  · simp only [txSide, if_neg hlast]
    refine ⟨⟨hlock, .inl ⟨hbusy, hon, hoff, Nat.pos_of_ne_zero hlast, ?_, ?_⟩⟩, trivial,
      fun hkept => ?_⟩
    · exact Nat.lt_of_le_of_lt (Nat.sub_le _ _) hshort
    · dsimp only
      omega
    · simp only [Bool.or_eq_false_iff, decide_eq_false_iff_not] at hkept
      rw [hread hkept.2]
      simp [unsent, hon, hkept.1]

theorem txCplt_cases (u : Driver) :
    u.tx.contents = [] ∧ halUartTxCpltCallback u = u ∨
      ∃ chunk tx', chunk ≠ [] ∧ chunk.length < maxDataChunkSize ∧
        halUartTxCpltCallback u = startTx { u with tx := tx' } chunk := by
  have hle : u.tx.contents.length ≤ txDataBuffSize := u.tx.contents_le
  have hlen : u.tx.dataLen % 2 ^ 16 = u.tx.contents.length := by
    rw [ByteRing.dataLen_eq]
    simp only [txDataBuffSize] at hle
    omega
  simp only [halUartTxCpltCallback, hlen]
  by_cases hempty : u.tx.contents.length = 0
  · exact .inl ⟨List.length_eq_zero_iff.mp hempty, if_neg (not_not.mpr hempty)⟩
  · refine .inr ⟨_, _, ?_, ?_, if_pos hempty⟩
    · intro hnil
      have hzero := congrArg List.length hnil
      rw [ByteRing.read_bytes, List.length_take, List.length_nil] at hzero
      split_ifs at hzero
      · simp only [maxDataChunkSize] at *
        omega
      · omega
    · rw [ByteRing.read_bytes, List.length_take]
      refine Nat.lt_of_le_of_lt (Nat.min_le_left _ _) ?_
      split_ifs
      · decide
      · omega

theorem startTx_ready {u : Driver} {chunk : List UInt8} (hready : u.huart.gState = .ready)
    (hlock : u.huart.lock = false) (hne : chunk ≠ []) : startTx u chunk =
      { u with
        huart := ((u.huart.takeLock.fillTx .dataChunk chunk).setBusyTx.releaseLock).enableTxe
        chunks := u.chunks ++ [chunk] } := by
  have hlen : ¬ chunk.length = 0 := fun h => hne (List.length_eq_zero_iff.mp h)
  simp only [startTx, halUartTransmitIt, hready, hlock, if_true, if_neg hlen, Bool.false_eq_true,
    if_false]

theorem ended_spec {u : Driver} (h : Ending (txSide u)) (hlock : u.huart.lock = false)
    (hstream : u.lost = false → u.wire = u.chunks.flatten) :
    let t := txSide (uartEndTransmitIt u)
    Served t ∧ (t.lost = false → t.wire ++ unsent t = t.chunks.flatten) := by
  have hoff : u.huart.cr1.txeie = false := h.off
  rw [uartEndTransmitIt]
  generalize hv : u.set { u.huart with cr1 := { u.huart.cr1 with tcie := false }, gState := .ready } = v
  have hready : v.huart.gState = .ready ∧ v.huart.lock = false ∧ v.huart.cr1 = ⟨false, false,
      u.huart.cr1.rxneie, u.huart.cr1.peie⟩ ∧ (v.lost = false → v.wire = v.chunks.flatten) := by
    subst hv
    refine ⟨rfl, hlock, ?_, hstream⟩
    simp only [Driver.set, hoff]
  obtain ⟨hstate, hfree, hcr1, hsent⟩ := hready
  rcases txCplt_cases v with ⟨-, heq⟩ | ⟨chunk, tx', hne, hshort, heq⟩
  · rw [heq]
    have hidle : Ready (txSide v) := ⟨hstate, congrArg Cr1.txeie hcr1, congrArg Cr1.tcie hcr1⟩
    refine ⟨⟨hfree, .inr (.inr hidle)⟩, fun hkept => ?_⟩
    rw [unsent_off hidle.txe hidle.tc, List.append_nil]
    exact hsent hkept
  · have hstart := startTx_ready (u := { v with tx := tx' }) hstate hfree hne
    rw [heq, hstart]
    have hpos : 0 < chunk.length := List.length_pos_of_ne_nil hne
    refine ⟨⟨rfl, .inl ⟨rfl, rfl, congrArg Cr1.tcie hcr1, hpos, ?_, Nat.zero_add _⟩⟩, fun hkept => ?_⟩
    · exact Nat.lt_trans hshort (by decide)
    · change v.wire ++ chunk = (v.chunks ++ [chunk]).flatten
      rw [hsent hkept, List.flatten_append, List.flatten_singleton]

theorem wire_off {t : TxSide} {pc : HalPc} (h : OnWire t pc) (htxe : t.txeie = false)
    (htc : t.tcie = false) (hkept : t.lost = false) : t.wire = t.chunks.flatten := by
  have hstream := h.stream hkept
  rwa [unsent_off htxe htc, List.append_nil] at hstream

theorem onWire_call {m : HalSys} (h : OnWire (txSide m.uart) m.pc) (hpc : m.pc = .idle)
    (data : List UInt8) :
    OnWire (txSide (callTransmit m data).uart) (callTransmit m data).pc := by
  obtain ⟨hphase, hstream⟩ := h
  rw [hpc] at hphase
  have hserved : Served (txSide m.uart) := hphase
  rw [callTransmit]
  dsimp only
  split_ifs
  · exact ⟨served_same hserved _ _ _, hstream⟩
  · exact ⟨hserved, hstream⟩

theorem onWire_main (junk : UInt8) {m : HalSys} (h : OnWire (txSide m.uart) m.pc) :
    OnWire (txSide (mainStep junk m).uart) (mainStep junk m).pc := by
  have hoff (htxe : (txSide m.uart).txeie = false) (htc : (txSide m.uart).tcie = false)
      (hkept : m.uart.lost = false) : m.uart.wire = m.uart.chunks.flatten :=
    wire_off h htxe htc hkept
  obtain ⟨hphase, hstream⟩ := h
  obtain ⟨u, pc⟩ := m
  rw [mainStep]
  cases pc with
  | idle => exact ⟨hphase, hstream⟩
  | test =>
      dsimp only
      split_ifs with hready
      · refine ⟨⟨hphase.1, ?_⟩, hstream⟩
        rcases hphase.2 with hsending | hending | hidle
        · exact absurd (hsending.busy.symm.trans hready) (by decide)
        · exact absurd (hending.busy.symm.trans hready) (by decide)
        · exact hidle
      · exact ⟨hphase, hstream⟩
  | pop => exact ⟨⟨hphase.1, hphase.2.1, hphase.2.2, hphase.2.3⟩, hstream⟩
  | checkState byte =>
      dsimp only
      split_ifs
      · exact ⟨hphase, hstream⟩
      · exact ⟨⟨hphase.1, .inr (.inr hphase.2)⟩, hstream⟩
  | checkLock byte =>
      dsimp only
      split_ifs
      · exact ⟨⟨hphase.1, .inr (.inr hphase.2)⟩, hstream⟩
      · exact ⟨hphase, hstream⟩
  | takeLock byte => exact ⟨⟨hphase.2.1, hphase.2.2, hphase.2.3⟩, hstream⟩
  | fillTx byte =>
      refine ⟨⟨hphase.1, hphase.2, hphase.3, rfl, rfl, rfl, rfl⟩, fun hkept => ?_⟩
      have hnone : unsent (txSide (u.set (u.huart.fillTx .localByte [byte]))) = [] :=
        unsent_off hphase.2 hphase.3
      change u.wire ++ unsent (txSide (u.set (u.huart.fillTx .localByte [byte]))) = u.chunks.flatten
      rw [hnone, List.append_nil, hoff hphase.2 hphase.3 hkept]
  | setBusyTx byte =>
      exact ⟨⟨rfl, hphase.2, hphase.3, hphase.4, hphase.5, hphase.6, hphase.7⟩, hstream⟩
  | releaseLock byte =>
      exact ⟨⟨rfl, hphase.1, hphase.2, hphase.3, hphase.4, hphase.5, hphase.6, hphase.7⟩, hstream⟩
  | loadCr1 byte => exact ⟨⟨hphase.1, hphase.2, hphase.2.2, hphase.2.3⟩, hstream⟩
  | storeCr1 byte cr1 =>
      obtain ⟨hlock, hloaded, -, htc⟩ := hphase
      have hbuf : u.huart.txBuf = [byte] := hloaded.buf
      have hzero : u.huart.txSent = 0 := hloaded.sent
      have hone : u.huart.txXferCount = 1 := hloaded.count
      refine ⟨⟨hlock, .inl ⟨hloaded.state, rfl, htc, ?_, ?_, ?_⟩⟩, fun hkept => ?_⟩
      · exact Nat.lt_of_lt_of_eq Nat.one_pos hone.symm
      · exact Nat.lt_of_le_of_lt (Nat.le_of_eq hone) (by decide)
      · change u.huart.txSent + u.huart.txXferCount = u.huart.txBuf.length
        rw [hone, hzero, hbuf]
        rfl
      · change u.wire ++ u.huart.txBuf.drop u.huart.txSent = (u.chunks ++ [[byte]]).flatten
        rw [hoff hloaded.2 hloaded.3 hkept, hzero, hbuf, List.flatten_append]
        rfl
  | leave => exact ⟨served_same hphase _ _ _, hstream⟩

theorem onWire_transmit (junk : UInt8) {m : HalSys} (h : OnWire (txSide m.uart) m.pc)
    (f : StatusFlags) : OnWire (txSide (transmitIrq junk m.uart f)) m.pc := by
  rw [transmitIrq]
  split_ifs with htxe htc
  · simp only [Bool.and_eq_true] at htxe
    obtain ⟨hserved, hserve⟩ := served_of_on h.phase (.inl htxe.2)
    obtain ⟨hnext, hchunks, hwire⟩ := sent_spec junk (sending_of_on hserved htxe.2) hserved.1
    refine ⟨hserve _ hnext, fun hkept => ?_⟩
    obtain ⟨hbefore, hsame⟩ := hwire hkept
    exact hsame.trans ((h.stream hbefore).trans (congrArg List.flatten hchunks.symm))
  · simp only [Bool.and_eq_true] at htc
    obtain ⟨hserved, hserve⟩ := served_of_on h.phase (.inr htc.2)
    have hending := ending_of_on hserved htc.2
    have hsent (hkept : m.uart.lost = false) : m.uart.wire = m.uart.chunks.flatten := by
      have hstream := h.stream hkept
      rw [unsent_ending hending, List.append_nil] at hstream
      exact hstream
    obtain ⟨hnext, hwire⟩ := ended_spec hending hserved.1 hsent
    exact ⟨hserve _ hnext, hwire⟩
  · exact h

theorem onWire_irq (junk : UInt8) {m : HalSys} (h : OnWire (txSide m.uart) m.pc) (f : StatusFlags)
    (dr : UInt8) : OnWire (txSide (halUartIrqHandler junk m.uart f dr)) m.pc := by
  cases irq_cases junk m.uart f dr with
  | received on result =>
      rw [result, txSide_receive]
      exact h
  | error on result =>
      rw [result, txSide_error]
      exact h
  | transmit result =>
      rw [result]
      exact onWire_transmit junk h f

theorem onWire_step (junk : UInt8) (m : HalSys) (e : HalEvent) (h : OnWire (txSide m.uart) m.pc) :
    OnWire (txSide (halStep junk m e).uart) (halStep junk m e).pc := by
  cases e with
  | call data =>
      rw [halStep]
      split_ifs with hpc
      · exact onWire_call h hpc data
      · exact h
  | main => exact onWire_main junk h
  | irq f dr => exact onWire_irq junk h f dr

theorem onWire_start : OnWire (txSide halStart.uart) halStart.pc :=
  ⟨⟨rfl, .inr (.inr ⟨rfl, rfl, rfl⟩)⟩, fun _ => rfl⟩

end HostComm.HalWire
