import HostComm.RoundTrip
import HostComm.RxChunk
import HostComm.RxResync

namespace HostComm.RxFrames

open Protocol LittleEndian TimeEvents UartDriver ByteRings TxQueue TxSend RxFsm RxStream RxParser
open RxChunk RxResync RoundTrip Runs

/-- The receiver takes bytes off a stream until it gets to `c'` with `t'` left. -/
inductive Feeds (env : Env) : RxCore → List UInt8 → List RxOutcome → RxCore → List UInt8 → Prop
  | stop (c : RxCore) (t : List UInt8) : Feeds env c t [] c t
  | step {c c' c'' : RxCore} {w t t'' : List UInt8} {out outs : List RxOutcome}
      (next : advance env c (w ++ t) = some (c', w, out)) (rest : Feeds env c' t outs c'' t'') :
      Feeds env c (w ++ t) (out ++ outs) c'' t''

theorem Feeds.trans {env : Env} {c c' c'' : RxCore} {t t' t'' : List UInt8}
    {out out' : List RxOutcome} (h : Feeds env c t out c' t') (k : Feeds env c' t' out' c'' t'') :
    Feeds env c t (out ++ out') c'' t'' := by
  induction h with
  | stop c t => exact k
  | step next rest ih =>
      rw [List.append_assoc]
      exact .step next (ih k)

section stages

variable (env : Env) (pk : PacketData) (t : List UInt8)

theorem feeds_react {c c' : RxCore} {out : List RxOutcome} (h : react c = some (c', out)) :
    Feeds env c t out c' t := by
  have hnext : advance env c ([] ++ t) = some (c', [], out) := by
    rw [advance]
    simp only [h]
  have hstep : Feeds env c ([] ++ t) (out ++ []) c' t := .step hnext (.stop c' t)
  rwa [List.append_nil] at hstep

theorem feeds_during {c c' : RxCore} {w : List UInt8} (hreact : react c = none)
    (hneed : need c ≤ (w ++ t).length) (h : during env c (w ++ t) = (c', w)) :
    Feeds env c (w ++ t) [] c' t := by
  have hnext : advance env c (w ++ t) = some (c', w, []) := by
    rw [advance]
    simp only [hreact, if_pos hneed, h]
  exact .step hnext (.stop c' t)

theorem feeds_mismatch {c : RxCore} (hs : c.state = .preambleProc) (hi : c.internal ≠ .preambleOk)
    {w : List UInt8} (hw : Mismatch protocolPreamble w) (hlen : 4 ≤ (w ++ t).length) :
    Feeds env c (w ++ t) [] c t := by
  have hscan := scan_mismatch hw t
  have hne : w ≠ protocolPreamble := by
    obtain ⟨matched, bit, later, b, hbits, hb, rfl⟩ := hw
    intro he
    rw [hbits] at he
    exact hb (List.cons.inj (List.append_cancel_left he)).1
  refine feeds_during env t ((react_preamble hs).mpr hi) (by simpa only [need, hs] using hlen) ?_
  simp only [during, hs, hscan, if_neg hne]
  rw [← hs]

theorem feeds_noise {c : RxCore} (hs : c.state = .preambleProc) (hi : c.internal ≠ .preambleOk)
    {noise : List UInt8} (hnoise : Blocks protocolPreamble noise) (hlen : 4 ≤ t.length) :
    Feeds env c (noise ++ t) [] c t := by
  obtain ⟨blocks, rfl, hall⟩ := hnoise
  induction blocks with
  | nil => exact .stop c t
  | cons w blocks ih =>
      obtain ⟨hw, hrest⟩ := List.forall_mem_cons.mp hall
      rw [List.flatten_cons, List.append_assoc]
      have hroom : 4 ≤ (w ++ (blocks.flatten ++ t)).length := by
        rw [List.length_append, List.length_append]
        omega
      exact (feeds_mismatch env _ hs hi hw hroom).trans (ih hrest)

theorem feeds_preamble {c : RxCore} (hs : c.state = .preambleProc) (hi : c.internal ≠ .preambleOk) :
    Feeds env c (protocolPreamble ++ t) [] ⟨.headerProc, .invalid, c.packet⟩ t := by
  have hfound : Feeds env c (protocolPreamble ++ t) [] ⟨.preambleProc, .preambleOk, c.packet⟩ t := by
    refine feeds_during env t ((react_preamble hs).mpr hi) ?_ ?_
    · rw [List.length_append, preamble_length]
      simp only [need, hs]
      omega
    · simp only [during, hs, scan_pattern, if_true]
  exact hfound.trans (feeds_react env t rfl)

theorem feeds_header (header : PacketHeader) :
    Feeds env ⟨.headerProc, .invalid, pk⟩ (header.bytes ++ t) []
      ⟨.headerProc, if protocolCheckValidHeader ⟨header, pk.payload⟩ then .headerOk else .headerError,
        ⟨header, pk.payload⟩⟩ t := by
  have htake : (header.bytes ++ t).take 4 = header.bytes :=
    List.take_left' (PacketHeader.bytes_length header)
  refine feeds_during env t rfl ?_ ?_
  · rw [List.length_append, PacketHeader.bytes_length]
    exact Nat.le_add_right 4 _
  · simp only [during, htake, PacketHeader.ofBytes_bytes]

theorem feeds_payload {w : List UInt8} (hw : w.length = pk.header.payloadLen.toNat)
    (hlt : pk.header.payloadLen.toNat < 256) :
    Feeds env ⟨.payloadProc, .invalid, pk⟩ (w ++ t) []
      ⟨.crcAndPostambleProc, .invalid, { pk with payload := pk.payload.load w }⟩ t := by
  have hmod := Nat.mod_eq_of_lt hlt
  have htake : (w ++ t).take (pk.header.payloadLen.toNat % 256) = w := by
    rw [hmod]
    exact List.take_left' hw
  have hstored : Feeds env ⟨.payloadProc, .invalid, pk⟩ (w ++ t) []
      ⟨.payloadProc, .payloadOk, { pk with payload := pk.payload.load w }⟩ t := by
    refine feeds_during env t rfl ?_ ?_
    · rw [List.length_append, hw]
      simp only [need, hmod]
      exact Nat.le_add_right _ _
    · simp only [during, htake]
  exact hstored.trans (feeds_react env t rfl)

/-- The last bytes of a frame. The machine looks at the first four only, and
gives the packet back at once. -/
theorem feeds_crc (crc : UInt32) {tail : List UInt8} (htail : tail.length = 4) :
    Feeds env ⟨.crcAndPostambleProc, .invalid, pk⟩ (bytes32 crc ++ tail ++ t)
      [if rxCrc env pk = crc then .ack pk.header pk.body else .nack]
      ⟨.preambleProc, .invalid, pk⟩ t := by
  have hlen : (bytes32 crc ++ tail).length = 8 := by rw [List.length_append, bytes32_length, htail]
  have hfour : (bytes32 crc ++ tail ++ t).take 4 = bytes32 crc := by
    rw [List.append_assoc]
    exact List.take_left' (bytes32_length crc)
  have hall : (bytes32 crc ++ tail ++ t).take 8 = bytes32 crc ++ tail := List.take_left' hlen
  have hread : Feeds env ⟨.crcAndPostambleProc, .invalid, pk⟩ (bytes32 crc ++ tail ++ t) []
      ⟨.crcAndPostambleProc, if rxCrc env pk = crc then .crcAndPostambleOk else .crcError, pk⟩ t := by
    refine feeds_during env t rfl ?_ ?_
    · rw [List.length_append, hlen]
      exact Nat.le_add_right 8 _
    · simp only [during, hfour, hall, word32_bytes32]
  refine hread.trans ?_
  split_ifs
  · have hready : Feeds env ⟨.crcAndPostambleProc, .crcAndPostambleOk, pk⟩ t
        [.ack pk.header pk.body] ⟨.packetReady, .invalid, pk⟩ t := feeds_react env t rfl
    exact hready.trans (feeds_react env t rfl)
  · exact feeds_react env t rfl

end stages

/-- A frame as it may stand in a stream: noise without a preamble in it, a
valid header, and any check value and last four bytes. -/
structure Frame where
  noise : List UInt8
  packet : PacketData
  crc : UInt32
  tail : List UInt8
  quiet : Blocks protocolPreamble noise
  valid : protocolCheckValidHeader packet = true
  four : tail.length = postambleSizeBytes

/-- A preamble with a header that is refused. What follows it is noise again. -/
structure BadHeader where
  noise : List UInt8
  header : PacketHeader
  quiet : Blocks protocolPreamble noise
  invalid : ∀ payload, protocolCheckValidHeader ⟨header, payload⟩ = false

inductive Piece
  | frame (f : Frame)
  | badHeader (b : BadHeader)

def Frame.bytes (f : Frame) : List UInt8 :=
  f.noise ++ (protocolPreamble ++ (f.packet.header.bytes ++ (f.packet.body ++
    (bytes32 f.crc ++ f.tail))))

def BadHeader.bytes (b : BadHeader) : List UInt8 :=
  b.noise ++ (protocolPreamble ++ b.header.bytes)

def Piece.bytes : Piece → List UInt8
  | .frame f => f.bytes
  | .badHeader b => b.bytes

def Piece.outcome (env : Env) (old : PacketPayload) : Piece → RxOutcome
  | .frame f =>
      if rxCrc env (received f.packet old) = f.crc then .ack f.packet.header f.packet.body else .nack
  | .badHeader _ => .nack

/-- The payload buffer after a piece, which the next check value may depend on. -/
def Piece.payload (old : PacketPayload) : Piece → PacketPayload
  | .frame f => old.load f.packet.body
  | .badHeader _ => old

def expected (env : Env) : PacketPayload → List Piece → List RxOutcome
  | _, [] => []
  | old, x :: pieces => x.outcome env old :: expected env (x.payload old) pieces

section pieces

variable (env : Env) (pk : PacketData) (t : List UInt8)

theorem feeds_frame (f : Frame) :
    Feeds env ⟨.preambleProc, .invalid, pk⟩ (f.bytes ++ t)
      [if rxCrc env (received f.packet pk.payload) = f.crc
        then .ack f.packet.header f.packet.body else .nack]
      ⟨.preambleProc, .invalid, received f.packet pk.payload⟩ t := by
  obtain ⟨noise, p, crc, tail, hnoise, hvalid, htail⟩ := f
  have hbody := received_body hvalid pk.payload
  have hlen := body_length_of_valid hvalid
  have hok : protocolCheckValidHeader ⟨p.header, pk.payload⟩ = true := valid_any hvalid pk.payload
  have hcrc : Feeds env ⟨.crcAndPostambleProc, .invalid, received p pk.payload⟩
      (bytes32 crc ++ tail ++ t)
      [if rxCrc env (received p pk.payload) = crc
        then .ack p.header (received p pk.payload).body else .nack]
      ⟨.preambleProc, .invalid, received p pk.payload⟩ t := feeds_crc env _ t crc htail
  rw [hbody] at hcrc
  have hrest : Feeds env ⟨.headerProc, .headerOk, ⟨p.header, pk.payload⟩⟩
      (p.body ++ (bytes32 crc ++ tail ++ t)) []
      ⟨.crcAndPostambleProc, .invalid, received p pk.payload⟩ (bytes32 crc ++ tail ++ t) := by
    by_cases hpos : 0 < p.header.payloadLen.toNat
    · have hnext : react ⟨.headerProc, .headerOk, ⟨p.header, pk.payload⟩⟩ =
          some (⟨.payloadProc, .invalid, ⟨p.header, pk.payload⟩⟩, []) := by
        simp only [react, if_pos hpos]
      exact (feeds_react env _ hnext).trans
        (feeds_payload env ⟨p.header, pk.payload⟩ _ hlen (valid_len hvalid))
    · have hnext : react ⟨.headerProc, .headerOk, ⟨p.header, pk.payload⟩⟩ =
          some (⟨.crcAndPostambleProc, .invalid, ⟨p.header, pk.payload⟩⟩, []) := by
        simp only [react, if_neg hpos]
      have hnil : p.body = [] :=
        List.length_eq_zero_iff.mp (hlen.trans (Nat.eq_zero_of_not_pos hpos))
      rw [received, hnil]
      exact feeds_react env _ hnext
  have hheader := feeds_header env pk (p.body ++ (bytes32 crc ++ tail ++ t)) p.header
  rw [hok, if_pos rfl] at hheader
  have hpreamble := feeds_preamble env (c := ⟨.preambleProc, .invalid, pk⟩)
    (p.header.bytes ++ (p.body ++ (bytes32 crc ++ tail ++ t))) rfl (by simp)
  have hfront := feeds_noise env (c := ⟨.preambleProc, .invalid, pk⟩)
    (protocolPreamble ++ (p.header.bytes ++ (p.body ++ (bytes32 crc ++ tail ++ t)))) rfl (by simp)
    hnoise (by
      rw [List.length_append, preamble_length]
      exact Nat.le_add_right 4 _)
  have hall := hfront.trans (hpreamble.trans (hheader.trans (hrest.trans hcrc)))
  simpa only [Frame.bytes, List.append_assoc, List.nil_append] using hall

theorem feeds_badHeader (b : BadHeader) :
    Feeds env ⟨.preambleProc, .invalid, pk⟩ (b.bytes ++ t) [.nack]
      ⟨.preambleProc, .invalid, ⟨b.header, pk.payload⟩⟩ t := by
  obtain ⟨noise, header, hnoise, hinvalid⟩ := b
  have hheader := feeds_header env pk t header
  rw [hinvalid, if_neg (by simp)] at hheader
  have hpreamble := feeds_preamble env (c := ⟨.preambleProc, .invalid, pk⟩) (header.bytes ++ t) rfl
    (by simp)
  have hfront := feeds_noise env (c := ⟨.preambleProc, .invalid, pk⟩)
    (protocolPreamble ++ (header.bytes ++ t)) rfl (by simp) hnoise (by
      rw [List.length_append, preamble_length]
      exact Nat.le_add_right 4 _)
  have hall := hfront.trans (hpreamble.trans (hheader.trans (feeds_react env t rfl)))
  simpa only [BadHeader.bytes, List.append_assoc, List.nil_append] using hall

theorem feeds_piece (x : Piece) :
    ∃ header, Feeds env ⟨.preambleProc, .invalid, pk⟩ (x.bytes ++ t) [x.outcome env pk.payload]
      ⟨.preambleProc, .invalid, ⟨header, x.payload pk.payload⟩⟩ t := by
  cases x with
  | frame f => exact ⟨_, feeds_frame env pk t f⟩
  | badHeader b => exact ⟨_, feeds_badHeader env pk t b⟩

theorem feeds_pieces (pieces : List Piece) :
    ∃ pk', Feeds env ⟨.preambleProc, .invalid, pk⟩ (pieces.flatMap Piece.bytes ++ t)
      (expected env pk.payload pieces) ⟨.preambleProc, .invalid, pk'⟩ t := by
  induction pieces generalizing pk with
  | nil => exact ⟨pk, .stop _ t⟩
  | cons x pieces ih =>
      obtain ⟨header, hone⟩ := feeds_piece env pk (pieces.flatMap Piece.bytes ++ t) x
      obtain ⟨pk', hrest⟩ := ih ⟨header, x.payload pk.payload⟩
      refine ⟨pk', ?_⟩
      rw [List.flatMap_cons, List.append_assoc]
      exact hone.trans hrest

end pieces

theorem next_of_feeds {env : Env} {c c' : RxCore} {t t' : List UInt8} {out : List RxOutcome}
    (h : Feeds env c t out c' t') {stream : List UInt8} {taken : Nat} (ht : stream.drop taken = t)
    (before : List RxOutcome) :
    ∃ taken', stream.drop taken' = t' ∧
      Relation.ReflTransGen (Next env stream) ⟨c, taken, before⟩ ⟨c', taken', before ++ out⟩ := by
  induction h generalizing taken before with
  | stop c t => exact ⟨taken, ht, by rw [List.append_nil]⟩
  | @step c c₁ c₂ w t t₂ out outs next rest ih =>
      have hdrop : stream.drop (taken + w.length) = t := by
        rw [← List.drop_drop, ht, List.drop_left]
      obtain ⟨taken', hleft, hwalk⟩ := ih hdrop (before ++ out)
      refine ⟨taken', hleft, ?_⟩
      rw [← List.append_assoc]
      exact .head ⟨w, out, ht ▸ next, rfl, rfl⟩ hwalk

/-- No event is pending, and the bytes in the ring are too few to go on. -/
def Settled (env : Env) (s : RxSys) : Prop := advance env (coreOf s.handle) s.rx.contents = none

instance (env : Env) (s : RxSys) : Decidable (Settled env s) := Option.decidableEqNone _

theorem intact_run (env : Env) {s : RxSys} {events : List RxEvent} (h : Intact s)
    (hu : Along (Undisturbed env) (rxStep env) s events) :
    Intact (run (rxStep env) s events) :=
  run_invariant (I := Intact) (fun _ _ h hu => (chunk_step env h hu List.prefix_rfl).1) h hu

theorem arrived_run (env : Env) (s : RxSys) (events : List RxEvent) :
    (run (rxStep env) s events).arrived = s.arrived ++ arrivals events := by
  induction events generalizing s with
  | nil => exact (List.append_nil _).symm
  | cons e events ih => rw [run_cons, ih, arrived_step, arrivals_cons e events, List.append_assoc]

theorem outcomes_mono (env : Env) {stream : List UInt8} {a b : Position}
    (h : Relation.ReflTransGen (Next env stream) a b) : a.outcomes <+: b.outcomes := by
  induction h with
  | refl => exact List.prefix_rfl
  | tail _ hstep ih => exact ih.trans (next_grows env stream _ _ hstep)

section stream

variable (env : Env) (h : HostCommRxFsm) (q : HostCommTxQueue) (pieces : List Piece)
variable {rest : List UInt8} (hrest : rest.length < 4) {events : List RxEvent}
variable (hu : Along (Undisturbed env) (rxStep env) (hostCommRxFsmInit (.start h q)) events)

include hrest hu

theorem walk_to_end (hs : arrivals events <+: pieces.flatMap Piece.bytes ++ rest) :
    let stream := pieces.flatMap Piece.bytes ++ rest
    ∃ pk taken, stream.drop taken = rest ∧
      Relation.ReflTransGen (Next env stream)
        (positionOf (run (rxStep env) (hostCommRxFsmInit (.start h q)) events))
        ⟨⟨.preambleProc, .invalid, pk⟩, taken, expected env .zero pieces⟩ := by
  intro stream
  have hintact : Intact (hostCommRxFsmInit (.start h q)) := (contents_start h q).symm
  obtain ⟨pk, hfeeds⟩ := feeds_pieces env ⟨⟨0, 0, 0⟩, .zero⟩ rest pieces
  have hzero : stream.drop 0 = stream := rfl
  obtain ⟨taken, hleft, hwalk⟩ := next_of_feeds hfeeds hzero []
  rw [List.nil_append] at hwalk
  refine ⟨pk, taken, hleft, ?_⟩
  have hend (y : Position) : ¬ Next env stream ⟨⟨.preambleProc, .invalid, pk⟩, taken,
      expected env .zero pieces⟩ y := by
    rintro ⟨w, out, hnext, -⟩
    rw [hleft, advance] at hnext
    have hshort : ¬ need ⟨.preambleProc, .invalid, pk⟩ ≤ rest.length := Nat.not_le_of_lt hrest
    simp [react, if_neg hshort] at hnext
  exact reaches_end (next_rightUnique env stream) hend hwalk (chunk_run env hintact hu hs)

theorem settled_at_end (hall : arrivals events = pieces.flatMap Piece.bytes ++ rest)
    (hsettled : Settled env (run (rxStep env) (hostCommRxFsmInit (.start h q)) events)) :
    let s := run (rxStep env) (hostCommRxFsmInit (.start h q)) events
    outcomes s = expected env .zero pieces ∧ s.rx.contents = rest ∧
      s.handle.state = .preambleProc ∧ s.handle.internal = .invalid := by
  intro s
  have hintact : Intact (hostCommRxFsmInit (.start h q)) := (contents_start h q).symm
  obtain ⟨pk, taken, hleft, hwalk⟩ := walk_to_end env h q pieces hrest hu (hall ▸ List.prefix_rfl)
  have hleftover : (pieces.flatMap Piece.bytes ++ rest).drop s.consumed.length = s.rx.contents := by
    have harrived : s.arrived = pieces.flatMap Piece.bytes ++ rest :=
      (arrived_run env _ events).trans hall
    have hparts : s.arrived = s.consumed ++ s.rx.contents := intact_run env hintact hu
    rw [← harrived, hparts, List.drop_left]
  rcases hwalk.cases_head with heq | ⟨y, ⟨w, out, hnext, -⟩, -⟩
  · have hcore := congrArg Position.core heq
    have htaken : s.consumed.length = taken := congrArg Position.taken heq
    refine ⟨congrArg Position.outcomes heq, ?_, congrArg RxCore.state hcore,
      congrArg RxCore.internal hcore⟩
    rw [← hleftover, htaken, hleft]
  · have hnone : advance env (coreOf s.handle)
        ((pieces.flatMap Piece.bytes ++ rest).drop s.consumed.length) = none := by
      rw [hleftover]
      exact hsettled
    rw [positionOf, hnone] at hnext
    cases hnext

end stream

end HostComm.RxFrames
