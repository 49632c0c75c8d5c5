import HostComm.RxParser

namespace HostComm.FrameHistory

open Protocol LittleEndian XorWords Crc TimeEvents UartDriver ByteRings TxQueue TxSend RxFsm
open RxStream RxParser Runs

/-- What the receiver adds to the sum of the frame words. -/
def rxRest (env : Env) (p : PacketData) : UInt32 :=
  xorWords (payloadPtr p env.after) (frameWords p)
    (p.header.payloadLen.toNat + 3 - frameWords p)

/-- What the sender adds to the sums of frame words in its two calls. -/
def txRest (env : Env) (p : PacketData) : UInt32 :=
  xorWords (payloadPtr p env.after) (min (frameWords p) 3) (3 - min (frameWords p) 3) ^^^
    xorWords (payloadPtr p env.after) (frameWords p) (p.header.payloadLen.toNat - frameWords p)

theorem frameWords_le (p : PacketData) : frameWords p ≤ p.header.payloadLen.toNat := by
  unfold frameWords
  omega

theorem rxCrc_eq (env : Env) (p : PacketData) :
    rxCrc env p = headerPtr p env.after 0 ^^^
      xorWords (payloadPtr p env.after) 0 (p.header.payloadLen.toNat + 3) := by
  have hlt := p.header.payloadLen.toNat_lt
  have hlen : headerSizeBytes + p.header.payloadLen.toNat = p.header.payloadLen.toNat + 3 + 1 :=
    Nat.add_comm _ _
  rw [rxCrc, hlen, crc32Accumulate_eq _ (Nat.succ_pos _) (by omega), UInt32.zero_xor,
    xorWords_headerPtr]

theorem txCrc_eq (env : Env) (p : PacketData) :
    txCrc env p = headerPtr p env.after 0 ^^^ xorWords (payloadPtr p env.after) 0 3 ^^^
      xorWords (payloadPtr p env.after) 0 p.header.payloadLen.toNat := by
  have hlt := p.header.payloadLen.toNat_lt
  have hheader : crc32Accumulate (headerPtr p env.after) headerSizeBytes 0 =
      headerPtr p env.after 0 ^^^ xorWords (payloadPtr p env.after) 0 3 := by
    rw [crc32Accumulate_eq _ (by decide) (by decide), UInt32.zero_xor, ← xorWords_headerPtr]
  rw [txCrc, hheader]
  split_ifs with hlen
  · rw [crc32Accumulate_eq _ (Nat.pos_of_ne_zero hlen) (by omega)]
  · rw [Nat.eq_zero_of_not_pos (Nat.pos_iff_ne_zero.not.mpr hlen), xorWords_zero, UInt32.xor_zero]

theorem rxCrc_split (env : Env) (p : PacketData) :
    rxCrc env p = (headerPtr p env.after 0 ^^^ xorWords (payloadPtr p env.after) 0 (frameWords p)) ^^^
      rxRest env p := by
  have hle := frameWords_le p
  have hsum := xorWords_append (payloadPtr p env.after) 0 (frameWords p)
    (p.header.payloadLen.toNat + 3 - frameWords p)
  rw [Nat.zero_add, Nat.add_sub_cancel' (Nat.le_add_right_of_le hle)] at hsum
  rw [rxCrc_eq, hsum, UInt32.xor_assoc]
  rfl

theorem txCrc_split (env : Env) (p : PacketData) :
    txCrc env p = (headerPtr p env.after 0 ^^^
        xorWords (payloadPtr p env.after) 0 (min (frameWords p) 3) ^^^
        xorWords (payloadPtr p env.after) 0 (frameWords p)) ^^^ txRest env p := by
  have hle := frameWords_le p
  have hthree : xorWords (payloadPtr p env.after) 0 3 =
      xorWords (payloadPtr p env.after) 0 (min (frameWords p) 3) ^^^
        xorWords (payloadPtr p env.after) (min (frameWords p) 3) (3 - min (frameWords p) 3) := by
    have h := xorWords_append (payloadPtr p env.after) 0 (min (frameWords p) 3)
      (3 - min (frameWords p) 3)
    rwa [Nat.zero_add, Nat.add_sub_cancel' (Nat.min_le_right _ _)] at h
  have hlen : xorWords (payloadPtr p env.after) 0 p.header.payloadLen.toNat =
      xorWords (payloadPtr p env.after) 0 (frameWords p) ^^^
        xorWords (payloadPtr p env.after) (frameWords p)
          (p.header.payloadLen.toNat - frameWords p) := by
    have h := xorWords_append (payloadPtr p env.after) 0 (frameWords p)
      (p.header.payloadLen.toNat - frameWords p)
    rwa [Nat.zero_add, Nat.add_sub_cancel' hle] at h
  rw [txCrc_eq, hthree, hlen, txRest]
  ac_rfl

theorem rxCrc_eq_iff (env env' : Env) {p q : PacketData} (hh : p.header = q.header)
    (hb : p.body = q.body) : rxCrc env p = rxCrc env' q ↔ rxRest env p = rxRest env' q := by
  rw [rxCrc_split, rxCrc_split, headerPtr_zero env.after env'.after hh,
    xorWords_frame env.after env'.after hh hb (Nat.le_refl _), frameWords_congr hh,
    xor_prefix_eq_iff]

theorem txCrc_eq_iff (env env' : Env) {p q : PacketData} (hh : p.header = q.header)
    (hb : p.body = q.body) : txCrc env p = txCrc env' q ↔ txRest env p = txRest env' q := by
  rw [txCrc_split, txCrc_split, headerPtr_zero env.after env'.after hh,
    xorWords_frame env.after env'.after hh hb (Nat.le_refl _),
    xorWords_frame env.after env'.after hh hb (Nat.min_le_left _ _), frameWords_congr hh,
    xor_prefix_eq_iff]

theorem interrupts_nil {s : RxSys} (h : s.irqs = []) : interrupts s = s := by
  rw [interrupts, h]

theorem crc_internal (env : Env) {s : RxSys} (hirqs : s.irqs = [])
    (hguard : 8 ≤ uartGetRxDataLen s.rx) :
    (duringActionCrcAndPostambleProc env s).handle.internal =
      if rxCrc env s.handle.packet = word32 (s.rx.contents.take 4) then .crcAndPostambleOk
      else .crcError := by
  have hlen : getRxDataLen s = (uartGetRxDataLen s.rx, s) := by
    rw [getRxDataLen, interrupts_nil hirqs]
  have hstored : 8 ≤ s.rx.contents.length := le_contents_of_guard hguard
  have htook := (took_readRxData s crcSizeBytes).trans
    (took_readRxData (readRxData s crcSizeBytes).2 postambleSizeBytes)
  have hroom := htook.room (by rw [hirqs]; exact s.rx.contents_le)
  have hread := (read_twice (j := crcSizeBytes) (k := postambleSizeBytes) (by decide) (by decide)
    hstored hroom.1).1
  have hword : readWord env.junk (readRxData s crcSizeBytes).1 =
      word32 (s.rx.contents.take 4) := by
    rw [readWord_of_length, hread]
    rw [hread, List.length_take]
    exact Nat.min_eq_left (Nat.le_trans (by decide) hstored)
  have henough : crcSizeBytes + postambleSizeBytes ≤ (uartGetRxDataLen s.rx, s).1 := hguard
  rw [duringActionCrcAndPostambleProc, hlen]
  simp only [if_pos henough]
  rw [crc_event, internal_setInternal, hword, handle_readRxData, handle_readRxData]

theorem exists_ring {data : List UInt8} (h : data.length ≤ rxDataBuffSize) :
    ∃ r : ByteRing rxDataBuffSize, r.contents = data := by
  let r : ByteRing rxDataBuffSize := .init (fun _ => 0) (by decide)
  have hempty : r.contents = [] := ByteRing.contents_init _ (by decide)
  have hroom : r.Room data.length := by
    rw [ByteRing.Room, hempty, List.length_nil, Nat.zero_add]
    exact ⟨by decide, h⟩
  refine ⟨(r.write data).2, ?_⟩
  rw [(r.write_of_room data hroom).2, hempty, List.nil_append]

theorem rx_event_iff (env env' : Env) {s s' : RxSys} (hirqs : s.irqs = []) (hirqs' : s'.irqs = [])
    (hh : s.handle.packet.header = s'.handle.packet.header)
    (hb : s.handle.packet.body = s'.handle.packet.body) :
    (∀ r r' : ByteRing rxDataBuffSize, 8 ≤ uartGetRxDataLen r → 8 ≤ uartGetRxDataLen r' →
      r.contents.take 8 = r'.contents.take 8 →
      (duringActionCrcAndPostambleProc env { s with rx := r }).handle.internal =
        (duringActionCrcAndPostambleProc env' { s' with rx := r' }).handle.internal) ↔
      rxRest env s.handle.packet = rxRest env' s'.handle.packet := by
  rw [← rxCrc_eq_iff env env' hh hb]
  constructor
  · intro h
    have height : (bytes32 (rxCrc env s.handle.packet) ++ [0, 0, 0, 0]).length = 8 := by simp
    obtain ⟨r, hr⟩ := exists_ring (height.trans_le (by decide))
    have hguard : 8 ≤ uartGetRxDataLen r := by
      rw [uartGetRxDataLen_eq, hr, height]
    have hfront : word32 (r.contents.take 4) = rxCrc env s.handle.packet := by
      rw [hr, List.take_left' (bytes32_length _), word32_bytes32]
    have hsame := h r r hguard hguard rfl
    rw [crc_internal env (s := { s with rx := r }) hirqs hguard,
      crc_internal env' (s := { s' with rx := r }) hirqs' hguard] at hsame
    simp only [hfront, if_true] at hsame
    split_ifs at hsame with heq
    exact heq.symm
  · intro hcrc r r' hguard hguard' hsame
    have hfront : r.contents.take 4 = r'.contents.take 4 := by
      have h := congrArg (List.take 4) hsame
      rwa [List.take_take, List.take_take] at h
    rw [crc_internal env (s := { s with rx := r }) hirqs hguard,
      crc_internal env' (s := { s' with rx := r' }) hirqs' hguard']
    simp only [hcrc, hfront]

def frameFront (p : PacketData) : List (List UInt8) :=
  [protocolPreamble, p.header.bytes] ++
    if p.header.payloadLen.toNat ≠ 0
      then [p.payload.bytes.take (p.header.payloadLen.toNat % 256)] else []

theorem frameParts_eq (env : Env) (p : PacketData) :
    frameParts env p = frameFront p ++ [bytes32 (txCrc env p), protocolPostamble] := rfl

theorem frameFront_congr {p q : PacketData} (hh : p.header = q.header) (hb : p.body = q.body) :
    frameFront p = frameFront q := by
  have htake (r : PacketData) : r.payload.bytes.take (r.header.payloadLen.toNat % 256) =
      r.body.take (r.header.payloadLen.toNat % 256) := by
    rw [PacketData.body, List.take_take, Nat.min_eq_left (Nat.mod_le _ _)]
  rw [frameFront, frameFront, htake, htake, hb, hh]

theorem sendAll_space (junk : UInt8) (parts : List (List UInt8)) (u : Uart)
    (h : u.tx.contents.length + (parts.map List.length).sum < txDataBuffSize) :
    (sendAll junk u parts).2.handed = u.handed ++ parts := by
  induction parts generalizing u with
  | nil => exact (List.append_nil _).symm
  | cons data rest ih =>
      simp only [List.map_cons, List.sum_cons] at h
      have hroom : u.tx.Room data.length := ⟨by omega, by omega⟩
      obtain ⟨hok, hlen⟩ := transmit_room junk u hroom
      have hrest := ih (uartTransmitIt junk u data).2 (by omega)
      simp only [sendAll, hok, Bool.true_eq_false, if_false, hrest, handed_transmit,
        List.append_assoc, List.singleton_append]

theorem handed_from_empty (env : Env) (p : PacketData) :
    (txSendPacket env uartInit p).2.handed = frameParts env p := by
  have hempty : uartInit.tx.contents = [] := ByteRing.contents_init _ (by decide)
  have hlt := Nat.mod_lt p.header.payloadLen.toNat (show 0 < 256 by decide)
  have hpre : protocolPreamble.length = 4 := bytes32_length _
  have hpost : protocolPostamble.length = 4 := bytes32_length _
  have hsum : ((frameParts env p).map List.length).sum ≤ 271 := by
    rw [frameParts_eq, frameFront]
    split_ifs
    · simp [hpre, hpost, List.length_take, Nat.min_eq_left hlt.le]
      omega
    · simp [hpre, hpost]
  have hspace : uartInit.tx.contents.length + ((frameParts env p).map List.length).sum <
      txDataBuffSize := by
    rw [hempty, List.length_nil, Nat.zero_add]
    exact Nat.lt_of_le_of_lt hsum (by decide)
  have hnone : uartInit.handed = [] := rfl
  rw [txSendPacket_eq, sendAll_space _ _ _ hspace, hnone, List.nil_append]

/-- Driver states that differ in the bytes given to the HAL only. -/
def SameButChunks (u v : Uart) : Prop :=
  ∃ buf chunks, v = { u with huart := u.huart.fillTx buf, chunks }

theorem transmitIt_byte (h : UartHandle) (buf : List UInt8) (byte byte' : UInt8) :
    ∃ buf', halUartTransmitIt (h.fillTx buf) [byte'] =
      ((halUartTransmitIt h [byte]).1, (halUartTransmitIt h [byte]).2.fillTx buf') := by
  have hready : (h.fillTx buf).gState = h.gState := rfl
  have hlock : (h.fillTx buf).lock = h.lock := rfl
  simp only [halUartTransmitIt, hready, hlock, List.length_singleton, Nat.one_ne_zero, if_false]
  split_ifs
  · exact ⟨buf, rfl⟩
  · exact ⟨[byte'], rfl⟩
  · exact ⟨buf, rfl⟩

theorem sameButChunks_startTx (u : Uart) (buf : List UInt8) (chunks : List (List UInt8))
    (byte byte' : UInt8) :
    SameButChunks (startTx u [byte])
      (startTx { u with huart := u.huart.fillTx buf, chunks } [byte']) := by
  obtain ⟨buf', hnext⟩ := transmitIt_byte u.huart buf byte byte'
  exact ⟨buf', _, by rw [startTx, hnext, startTx]⟩

theorem sameButChunks_transmit (junk junk' : UInt8) {u v : Uart} (h : SameButChunks u v)
    (data : List UInt8) :
    (uartTransmitIt junk' v data).1 = (uartTransmitIt junk u data).1 ∧
      SameButChunks (uartTransmitIt junk u data).2 (uartTransmitIt junk' v data).2 := by
  obtain ⟨buf, chunks, rfl⟩ := h
  have hready : (u.huart.fillTx buf).gState = u.huart.gState := rfl
  simp only [uartTransmitIt, hready]
  by_cases hw : (u.tx.write data).1 = .ok
  · by_cases hg : u.huart.gState = .ready
    · simp only [if_pos hw, if_pos hg]
      exact ⟨trivial, sameButChunks_startTx ..⟩
    · simp only [if_pos hw, if_neg hg]
      exact ⟨trivial, buf, chunks, rfl⟩
  · simp only [if_neg hw]
    exact ⟨trivial, buf, chunks, rfl⟩

theorem sendAll_junk (junk junk' : UInt8) (parts : List (List UInt8)) {u v : Uart}
    (h : SameButChunks u v) : (sendAll junk' v parts).2.handed = (sendAll junk u parts).2.handed := by
  induction parts generalizing u v with
  | nil =>
      obtain ⟨buf, chunks, rfl⟩ := h
      rfl
  | cons data rest ih =>
      obtain ⟨hok, hnext⟩ := sameButChunks_transmit junk junk' h data
      simp only [sendAll, hok]
      split_ifs
      · obtain ⟨buf, chunks, hv⟩ := hnext
        rw [hv]
      · exact ih hnext

theorem tx_handed_iff (env env' : Env) {p q : PacketData} (hh : p.header = q.header)
    (hb : p.body = q.body) :
    (∀ u, (txSendPacket env u p).2.handed.flatten = (txSendPacket env' u q).2.handed.flatten) ↔
      txRest env p = txRest env' q := by
  rw [← txCrc_eq_iff env env' hh hb]
  constructor
  · intro h
    have hflat := h uartInit
    rw [handed_from_empty, handed_from_empty, frameParts_eq, frameParts_eq,
      frameFront_congr hh hb, List.flatten_append, List.flatten_append] at hflat
    have hcrc : bytes32 (txCrc env p) ++ protocolPostamble =
        bytes32 (txCrc env' q) ++ protocolPostamble := by
      simpa using hflat
    rw [← word32_bytes32 (txCrc env p), List.append_cancel_right hcrc, word32_bytes32]
  · intro hcrc u
    have hparts : frameParts env p = frameParts env' q := by
      rw [frameParts_eq, frameParts_eq, frameFront_congr hh hb, hcrc]
    rw [txSendPacket_eq, txSendPacket_eq, hparts,
      sendAll_junk env'.junk env.junk _ (u := u) (v := u) ⟨u.huart.txBuf, u.chunks, rfl⟩]

/-- The check values depend on the frame only, for two states with equal
frames, exactly when the words outside the frame sum to the same value. The
bytes behind the two packets are not the same either: the sender finds the
acknowledge flag of each request there. -/
theorem check_value_history (env env' : Env) :
    (∀ s s' : RxSys, s.irqs = [] → s'.irqs = [] →
      s.handle.packet.header = s'.handle.packet.header →
      s.handle.packet.body = s'.handle.packet.body →
      ((∀ r r' : ByteRing rxDataBuffSize, 8 ≤ uartGetRxDataLen r → 8 ≤ uartGetRxDataLen r' →
        r.contents.take 8 = r'.contents.take 8 →
        (duringActionCrcAndPostambleProc env { s with rx := r }).handle.internal =
          (duringActionCrcAndPostambleProc env' { s' with rx := r' }).handle.internal) ↔
        rxRest env s.handle.packet = rxRest env' s'.handle.packet)) ∧
    (∀ p q : PacketData, p.header = q.header → p.body = q.body →
      ((∀ u, (txSendPacket env u p).2.handed.flatten = (txSendPacket env' u q).2.handed.flatten) ↔
        txRest env p = txRest env' q)) :=
  ⟨fun _ _ hirqs hirqs' hh hb => rx_event_iff env env' hirqs hirqs' hh hb,
    fun _ _ hh hb => tx_handed_iff env env' hh hb⟩

/-- A response sent after a request that left a byte in the buffer, and one
packet of 65 payload bytes in a request without and one with an acknowledge. -/
theorem check_value_history_response :
    let env : Env := ⟨fun _ => 0, 0⟩
    let acked : Env := env.behind true
    let header : PacketHeader := ⟨targetToHostResAck, targetToHostDir, 0⟩
    let long : PacketData := ⟨⟨targetToHostEvtPrintDbgMsg, targetToHostDir, 65⟩, .zero⟩
    (¬ ∀ u, (txSendPacket env u ⟨header, .zero⟩).2.handed.flatten =
      (txSendPacket env u ⟨header, PacketPayload.zero.load [1]⟩).2.handed.flatten) ∧
    ¬ ∀ u, (txSendPacket env u long).2.handed.flatten =
      (txSendPacket acked u long).2.handed.flatten := by
  intro env acked header long
  have hbody : (⟨header, .zero⟩ : PacketData).body =
      (⟨header, PacketPayload.zero.load [1]⟩ : PacketData).body := by decide +kernel
  rw [(check_value_history env env).2 ⟨header, .zero⟩ ⟨header, PacketPayload.zero.load [1]⟩ rfl hbody,
    (check_value_history env acked).2 long long rfl rfl]
  decide +kernel

def usedBufferRun : List RxEvent :=
  (protocolPreamble ++ [1, 0xBB, 4, 0] ++ [1, 2, 3, 4] ++ [0, 0, 0, 0] ++ protocolPostamble).map
      .rxByte ++ List.replicate 8 (.run [])

def emptyHeaderRun : List RxEvent :=
  (protocolPreamble ++ [1, 0xBB, 0, 0]).map .rxByte ++ List.replicate 4 (.run []) ++
    ([1, 0xBB, 0, 0] ++ protocolPostamble).map .rxByte

theorem check_value_history_fails :
    let env : Env := ⟨fun _ => 0, 0⟩
    let h : HostCommRxFsm := ⟨.invalid, .invalid, .invalid, timeEventStop, timeEventStop,
      timeEventStop, ⟨⟨0, 0, 0⟩, .zero⟩⟩
    let s₀ := hostCommRxFsmInit (.start h hostCommTxQueueInit)
    let s := run (rxStep env) s₀ emptyHeaderRun
    let s' := run (rxStep env) s₀ (usedBufferRun ++ emptyHeaderRun)
    (s.handle.state = .crcAndPostambleProc ∧ s'.handle.state = .crcAndPostambleProc) ∧
      s.handle.packet.header = s'.handle.packet.header ∧
      s.handle.packet.body = s'.handle.packet.body ∧
      s.rx.contents = s'.rx.contents ∧ s.rx.contents.length = 8 ∧
      (duringActionCrcAndPostambleProc env s).handle.internal = .crcAndPostambleOk ∧
      (duringActionCrcAndPostambleProc env s').handle.internal = .crcError := by
  decide +kernel

end HostComm.FrameHistory
