import HostComm.TxSend
import Mathlib.Logic.Function.Iterate

namespace HostComm.TxWhole

open CircularBuffer ByteRings Protocol LittleEndian UartDriver TxSend

def txComplete (u : Uart) : Uart := if u.huart.txIt then uartEndTransmitIt u else u

/-- Hand over a list of writes until one is refused, with `gaps i` callbacks
before write `i`. -/
def sendBetween (junk : UInt8) (gaps : Nat → Nat) (u : Uart) : List (List UInt8) → Bool × Uart
  | [] => (true, u)
  | data :: rest =>
      let t := uartTransmitIt junk (txComplete^[gaps 0] u) data
      if t.1 = false then (false, t.2) else sendBetween junk (fun i => gaps (i + 1)) t.2 rest

def txSendPacketBetween (env : Env) (gaps : Nat → Nat) (u : Uart) (packet : PacketData) : Bool × Uart :=
  sendBetween env.junk gaps u (frameParts env packet)

theorem sendBetween_zero (junk : UInt8) (parts : List (List UInt8)) (u : Uart) :
    sendBetween junk (fun _ => 0) u parts = sendAll junk u parts := by
  induction parts generalizing u with
  | nil => rfl
  | cons data rest ih =>
      rw [sendBetween, sendAll, Function.iterate_zero, id_eq, ih]

theorem txSendPacketBetween_zero (env : Env) (u : Uart) (p : PacketData) :
    txSendPacketBetween env (fun _ => 0) u p = txSendPacket env u p := by
  rw [txSendPacketBetween, sendBetween_zero, txSendPacket_eq]

/-- The numbers that decide which writes find room: the stored bytes and the
flags of the transmitter. -/
structure Level where
  stored : Nat
  ready : Bool
  locked : Bool
  running : Bool
  deriving DecidableEq, Repr

namespace Level

def start (l : Level) : Level :=
  if l.ready = true ∧ l.locked = false then { l with ready := false, running := true } else l

def Room (l : Level) (len : Nat) : Prop := l.stored < txDataBuffSize ∧ l.stored + len ≤ txDataBuffSize

instance (l : Level) (len : Nat) : Decidable (l.Room len) := inferInstanceAs (Decidable (_ ∧ _))

def write (l : Level) (len : Nat) : Level :=
  if l.ready = true then { l with stored := l.stored + len - 1 }.start
  else { l with stored := l.stored + len }

def chunk (stored : Nat) : Nat := if maxDataChunkSize ≤ stored then maxDataChunkSize - 1 else stored

def complete (l : Level) : Level :=
  if l.running = true then
    if l.stored ≠ 0 then
      { l with stored := l.stored - chunk l.stored, ready := true, running := false }.start
    else { l with ready := true, running := false }
  else l

def AllRoom (gaps : Nat → Nat) (l : Level) : List Nat → Prop
  | [] => True
  | len :: rest =>
      (complete^[gaps 0] l).Room len ∧
        AllRoom (fun i => gaps (i + 1)) ((complete^[gaps 0] l).write len) rest

instance : ∀ (lens : List Nat) (gaps : Nat → Nat) (l : Level), Decidable (AllRoom gaps l lens)
  | [], _, _ => isTrue trivial
  | len :: rest, gaps, l =>
      have := instDecidableAllRoom rest (fun i => gaps (i + 1)) ((complete^[gaps 0] l).write len)
      inferInstanceAs (Decidable (_ ∧ _))

end Level

def levelOf (u : Uart) : Level :=
  ⟨u.tx.contents.length, u.huart.gState = .ready, u.huart.lock, u.huart.txIt⟩

theorem level_startTx (u : Uart) {chunk : List UInt8} (h : chunk.length ≠ 0) :
    levelOf (startTx u chunk) = (levelOf u).start := by
  by_cases hready : u.huart.gState = .ready
  · cases hlock : u.huart.lock with
    | true => simp [levelOf, startTx, halUartTransmitIt, Level.start, hready, h, hlock]
    | false =>
        simp [levelOf, startTx, halUartTransmitIt, Level.start, hready, h, hlock,
          UartHandle.takeLock, UartHandle.fillTx, UartHandle.setBusyTx, UartHandle.releaseLock,
          UartHandle.enableTxIt]
  · simp [levelOf, startTx, halUartTransmitIt, Level.start, hready]

theorem accepted_txComplete (u : Uart) : (txComplete u).accepted = u.accepted := by
  rw [txComplete]
  split_ifs
  · simp only [uartEndTransmitIt, halUartTxCpltCallback]
    split_ifs <;> rfl
  · rfl

theorem level_txComplete (u : Uart) : levelOf (txComplete u) = (levelOf u).complete := by
  rw [txComplete, Level.complete]
  by_cases hrun : u.huart.txIt = true
  · have hlen : u.tx.dataLen % 2 ^ 16 = u.tx.contents.length := by
      have hle : u.tx.contents.length ≤ 512 := u.tx.contents_le
      rw [ByteRing.dataLen_eq]
      omega
    have hsame : (levelOf u).running = true := hrun
    rw [if_pos hrun, if_pos hsame]
    simp only [uartEndTransmitIt, halUartTxCpltCallback, hlen]
    by_cases hempty : u.tx.contents.length ≠ 0
    · have hstored : (levelOf u).stored ≠ 0 := hempty
      rw [if_pos hempty, if_pos hstored, level_startTx]
      · simp only [levelOf, ByteRing.contents_read, List.length_drop, decide_true]
        rfl
      · rw [ByteRing.read_bytes, List.length_take]
        change min (if 100 ≤ u.tx.contents.length then 99 else u.tx.contents.length) _ ≠ 0
        split_ifs <;> omega
    · have hstored : ¬ (levelOf u).stored ≠ 0 := hempty
      rw [if_neg hempty, if_neg hstored]
      simp [levelOf]
  · have hsame : ¬ (levelOf u).running = true := hrun
    rw [if_neg hrun, if_neg hsame]

theorem level_iterate (n : Nat) (u : Uart) :
    levelOf (txComplete^[n] u) = Level.complete^[n] (levelOf u) ∧
      (txComplete^[n] u).accepted = u.accepted := by
  induction n generalizing u with
  | zero => exact ⟨rfl, rfl⟩
  | succ n ih =>
      obtain ⟨hlevel, hacc⟩ := ih (txComplete u)
      rw [Function.iterate_succ_apply, Function.iterate_succ_apply]
      exact ⟨hlevel.trans (by rw [level_txComplete]), hacc.trans (accepted_txComplete u)⟩

theorem write_room (junk : UInt8) (u : Uart) {data : List UInt8} (h : (levelOf u).Room data.length) :
    (uartTransmitIt junk u data).1 = true ∧
      (uartTransmitIt junk u data).2.accepted = u.accepted ++ data ∧
      levelOf (uartTransmitIt junk u data).2 = (levelOf u).write data.length := by
  obtain ⟨hok, hc⟩ := u.tx.write_of_room data h
  simp only [uartTransmitIt, if_pos hok, Level.write]
  by_cases hready : u.huart.gState = .ready
  · have hlevel : (levelOf u).ready = true := decide_eq_true hready
    rw [if_pos hready, if_pos hlevel]
    refine ⟨rfl, rfl, ?_⟩
    rw [level_startTx _ (by simp)]
    simp only [levelOf, ByteRing.contents_get, hc, List.length_tail, List.length_append]
  · have hlevel : ¬ (levelOf u).ready = true := by simp [levelOf, hready]
    rw [if_neg hready, if_neg hlevel]
    refine ⟨rfl, rfl, ?_⟩
    simp only [levelOf, hc, List.length_append]

theorem write_no_room (junk : UInt8) (u : Uart) {data : List UInt8}
    (h : ¬ (levelOf u).Room data.length) :
    (uartTransmitIt junk u data).1 = false ∧
      (uartTransmitIt junk u data).2.accepted = u.accepted := by
  obtain ⟨hno, -⟩ := u.tx.write_of_no_room data h
  rw [uartTransmitIt]
  simp only [if_neg hno]
  exact ⟨trivial, trivial⟩

theorem sendBetween_accepted (junk : UInt8) (gaps : Nat → Nat) (u : Uart) (parts : List (List UInt8)) :
    ((sendBetween junk gaps u parts).1 = true ↔ Level.AllRoom gaps (levelOf u) (parts.map List.length)) ∧
      ∃ taken refused, parts = taken ++ refused ∧
        (sendBetween junk gaps u parts).2.accepted = u.accepted ++ taken.flatten ∧
        ((sendBetween junk gaps u parts).1 = true ↔ refused = []) := by
  induction parts generalizing gaps u with
  | nil => exact ⟨iff_of_true rfl trivial, [], [], rfl, (List.append_nil _).symm, iff_of_true rfl rfl⟩
  | cons data rest ih =>
      obtain ⟨hlevel, hacc⟩ := level_iterate (gaps 0) u
      rw [sendBetween, List.map_cons, Level.AllRoom, ← hlevel]
      by_cases hroom : (levelOf (txComplete^[gaps 0] u)).Room data.length
      · obtain ⟨hok, haccept, hnext⟩ := write_room junk (txComplete^[gaps 0] u) hroom
        obtain ⟨hall, taken, refused, hparts, hrest, hdone⟩ :=
          ih (fun i => gaps (i + 1)) (uartTransmitIt junk (txComplete^[gaps 0] u) data).2
        simp only [hok, Bool.true_eq_false, if_false]
        refine ⟨?_, data :: taken, refused, ?_, ?_, hdone⟩
        · rw [hall, hnext, and_iff_right hroom]
        · rw [hparts, List.cons_append]
        · rw [hrest, haccept, hacc, List.flatten_cons, List.append_assoc]
      · obtain ⟨hno, haccept⟩ := write_no_room junk (txComplete^[gaps 0] u) hroom
        simp only [hno, if_true]
        refine ⟨iff_of_false Bool.false_ne_true fun h => hroom h.1, [], data :: rest, rfl, ?_, ?_⟩
        · rw [haccept, hacc]
          exact (List.append_nil _).symm
        · exact iff_of_false Bool.false_ne_true (List.cons_ne_nil _ _)

def frameBytes (env : Env) (p : PacketData) : List UInt8 :=
  protocolPreamble ++ p.header.bytes ++ p.body ++ bytes32 (txCrc env p) ++ protocolPostamble

def frameLens (payloadLen : Nat) : List Nat :=
  [preambleSizeBytes, headerSizeBytes] ++ (if payloadLen ≠ 0 then [payloadLen] else []) ++
    [crcSizeBytes, postambleSizeBytes]

theorem frameBytes_length (env : Env) {p : PacketData}
    (h : p.header.payloadLen.toNat < maxPayloadSize) :
    (frameBytes env p).length = 16 + p.header.payloadLen.toNat := by
  have hpre : protocolPreamble.length = 4 := bytes32_length _
  have hpost : protocolPostamble.length = 4 := bytes32_length _
  simp only [frameBytes, List.length_append, PacketHeader.bytes_length, body_length h.le,
    bytes32_length, hpre, hpost]
  omega

theorem frameParts_lens (env : Env) {p : PacketData}
    (h : p.header.payloadLen.toNat < maxPayloadSize) :
    (frameParts env p).map List.length = frameLens p.header.payloadLen.toNat := by
  have hpre : protocolPreamble.length = 4 := bytes32_length _
  have hpost : protocolPostamble.length = 4 := bytes32_length _
  have hmod : p.header.payloadLen.toNat % 256 = p.header.payloadLen.toNat := Nat.mod_eq_of_lt h
  have hpay : (p.payload.bytes.take p.header.payloadLen.toNat).length = p.header.payloadLen.toNat := by
    rw [List.length_take, PacketPayload.bytes_length, Nat.min_eq_left h.le]
  by_cases hz : p.header.payloadLen.toNat ≠ 0
  · simp only [frameParts, frameLens, if_pos hz, List.map_append, List.map_cons, List.map_nil, hmod,
      hpre, hpost, hpay, PacketHeader.bytes_length, bytes32_length]
  · simp only [frameParts, frameLens, if_neg hz, List.map_append, List.map_cons, List.map_nil,
      hpre, hpost, PacketHeader.bytes_length, bytes32_length]

/-- All bytes of the frame were accepted one after the other, or none was. -/
def Whole (env : Env) (gaps : Nat → Nat) (u : Uart) (p : PacketData) : Prop :=
  let t := txSendPacketBetween env gaps u p
  t.1 = true ∧ t.2.accepted = u.accepted ++ frameBytes env p ∨ t.1 = false ∧ t.2.accepted = u.accepted

def Level.FirstRefused (gaps : Nat → Nat) (l : Level) : Prop :=
  ¬ (Level.complete^[gaps 0] l).Room preambleSizeBytes

theorem frameParts_cons (env : Env) (p : PacketData) :
    frameParts env p = protocolPreamble :: (frameParts env p).tail := rfl

theorem sendBetween_first (junk : UInt8) (gaps : Nat → Nat) (u : Uart) (data : List UInt8)
    (rest : List (List UInt8)) :
    if (Level.complete^[gaps 0] (levelOf u)).Room data.length then
      ∃ later, (sendBetween junk gaps u (data :: rest)).2.accepted = u.accepted ++ (data ++ later)
    else (sendBetween junk gaps u (data :: rest)).1 = false ∧
      (sendBetween junk gaps u (data :: rest)).2.accepted = u.accepted := by
  obtain ⟨hlevel, hacc⟩ := level_iterate (gaps 0) u
  rw [← hlevel]
  split_ifs with hroom
  · obtain ⟨hok, haccept, -⟩ := write_room junk (txComplete^[gaps 0] u) hroom
    obtain ⟨-, taken, refused, -, hrest, -⟩ := sendBetween_accepted junk (fun i => gaps (i + 1))
      (uartTransmitIt junk (txComplete^[gaps 0] u) data).2 rest
    refine ⟨taken.flatten, ?_⟩
    simp only [sendBetween, hok, Bool.true_eq_false, if_false]
    rw [hrest, haccept, hacc, List.append_assoc]
  · obtain ⟨hno, haccept⟩ := write_no_room junk (txComplete^[gaps 0] u) hroom
    simp only [sendBetween, hno, if_true]
    exact ⟨trivial, haccept.trans hacc⟩

theorem whole_iff (env : Env) (gaps : Nat → Nat) (u : Uart) {p : PacketData}
    (h : p.header.payloadLen.toNat < maxPayloadSize) :
    Whole env gaps u p ↔ (levelOf u).FirstRefused gaps ∨
      Level.AllRoom gaps (levelOf u) (frameLens p.header.payloadLen.toNat) := by
  have hfirst := sendBetween_first env.junk gaps u protocolPreamble (frameParts env p).tail
  rw [← frameParts_cons] at hfirst
  obtain ⟨hall, taken, refused, hparts, haccept, hdone⟩ :=
    sendBetween_accepted env.junk gaps u (frameParts env p)
  rw [frameParts_lens env h] at hall
  rw [Whole, txSendPacketBetween, ← hall, frameBytes, ← frameParts_flatten env h]
  by_cases hroom : (Level.complete^[gaps 0] (levelOf u)).Room protocolPreamble.length
  · rw [if_pos hroom] at hfirst
    obtain ⟨later, hlater⟩ := hfirst
    have hgrown : (sendBetween env.junk gaps u (frameParts env p)).2.accepted ≠ u.accepted := by
      intro hsame
      have hlen := congrArg List.length (hlater.symm.trans hsame)
      have hfour : protocolPreamble.length = 4 := bytes32_length _
      simp only [List.length_append] at hlen
      omega
    constructor
    · rintro (⟨hok, -⟩ | ⟨-, hsame⟩)
      · exact .inr hok
      · exact absurd hsame hgrown
    · rintro (hrefused | hok)
      · exact absurd hroom hrefused
      · refine .inl ⟨hok, ?_⟩
        rw [haccept, hparts, hdone.mp hok, List.append_nil]
  · rw [if_neg hroom] at hfirst
    exact iff_of_true (.inr hfirst) (.inl hroom)

/-- A frame is handed over whole or not at all exactly when its first write is
refused or none is. -/
theorem frame_whole (env : Env) (gaps : Nat → Nat) (u : Uart) {p : PacketData}
    (h : p.header.payloadLen.toNat < maxPayloadSize) :
    (frameBytes env p).length = 16 + p.header.payloadLen.toNat ∧
      (Whole env gaps u p ↔ (levelOf u).FirstRefused gaps ∨
        Level.AllRoom gaps (levelOf u) (frameLens p.header.payloadLen.toNat)) :=
  ⟨frameBytes_length env h, whole_iff env gaps u h⟩

theorem level_uartInit : levelOf uartInit = ⟨0, true, false, false⟩ := by
  simp only [levelOf, uartInit, ByteRing.contents_init]
  rfl

/-- A frame of 19 bytes on an idle transmitter, with a callback before each write. -/
theorem frame_whole_idle :
    let env : Env := ⟨fun _ => 0, 0⟩
    Whole env (fun _ => 1) uartInit ⟨⟨targetToHostEvtPrintDbgMsg, targetToHostDir, 3⟩, .zero⟩ := by
  intro env
  refine (frame_whole env (fun _ => 1) uartInit (by decide)).2.mpr (.inr ?_)
  rw [level_uartInit]
  decide

def filledUart : Uart :=
  (uartTransmitIt 0 (uartTransmitIt 0 uartInit (List.replicate 255 0)).2 (List.replicate 252 0)).2

theorem level_write_zeros {u : Uart} {l : Level} (hl : levelOf u = l) (len : Nat) (h : l.Room len) :
    levelOf (uartTransmitIt 0 u (List.replicate len 0)).2 = l.write len := by
  subst hl
  have hroom : (levelOf u).Room (List.replicate len (0 : UInt8)).length := by
    rwa [List.length_replicate]
  rw [(write_room 0 u hroom).2.2, List.length_replicate]

theorem level_filledUart : levelOf filledUart = ⟨506, false, false, true⟩ :=
  level_write_zeros (level_write_zeros level_uartInit 255 (by decide)) 252 (by decide)

/-- The preamble is accepted and the header refused. -/
theorem frame_cut :
    let env : Env := ⟨fun _ => 0, 0⟩
    ¬ Whole env (fun _ => 0) filledUart ⟨⟨targetToHostResAck, targetToHostDir, 0⟩, .zero⟩ := by
  intro env
  rw [whole_iff env (fun _ => 0) filledUart (by decide), level_filledUart, not_or]
  exact ⟨not_not_intro (by decide), by decide⟩

end HostComm.TxWhole
