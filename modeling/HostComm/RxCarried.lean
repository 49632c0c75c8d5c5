import HostComm.RxChecked

namespace HostComm.RxCarried

open Protocol UartDriver ByteRings TxSend RxFsm RxParser RxSound RxHeader RxChecked Runs

theorem roomFor_quiet {stored : Nat} {sizes : List Nat} (lens : List Nat)
    (hstored : stored ≤ rxDataBuffSize) (hquiet : ∀ k ∈ sizes, k = 0) :
    RoomFor stored lens sizes := by
  induction lens generalizing stored sizes with
  | nil => trivial
  | cons len lens ih =>
      have hhead : sizes.headD 0 = 0 := by
        cases sizes with
        | nil => rfl
        | cons k rest => exact hquiet k List.mem_cons_self
      rw [RoomFor, hhead]
      refine ⟨hstored, ih (Nat.le_trans (Nat.sub_le ..) hstored) fun k hk => ?_⟩
      exact hquiet k (List.mem_of_mem_tail hk)

def Between : RxEvent → Prop
  | .run irqs => irqs.flatten = []
  | _ => True

instance : DecidablePred Between
  | .run _ => inferInstanceAs (Decidable (_ = _))
  | .rxByte _ => isTrue trivial
  | .tick => isTrue trivial
  | .external _ => isTrue trivial

theorem room_of_between (s : RxSys) {e : RxEvent} (h : Between e) : RoomAtReads s e := by
  cases e with
  | run irqs =>
      intro _
      refine roomFor_quiet _ (interrupts { s with irqs }).rx.contents_le fun k hk => ?_
      obtain ⟨batch, hbatch, rfl⟩ := List.mem_map.mp hk
      have hnil : batch = [] := List.flatten_eq_nil_iff.mp h batch (List.mem_of_mem_tail hbatch)
      rw [hnil, List.length_nil]
  | _ => trivial

/-- The header that was checked is valid as long as the frame lasts, and the
length it gives is good for every read. -/
theorem header_carried (env : Env) (s₀ : RxSys) (events : List RxEvent)
    (hbetween : ∀ e ∈ events, Between e) :
    let s := run (rxStep env) (hostCommRxFsmInit s₀) events
    (s.handle.state = .payloadProc ∨ s.handle.state = .crcAndPostambleProc ∨
        s.handle.state = .packetReady ∨
        s.handle.state = .headerProc ∧ s.handle.internal = .headerOk →
      protocolCheckValidHeader s.handle.packet = true) ∧
    (s.handle.state = .payloadProc → 0 < s.handle.packet.header.payloadLen.toNat ∧
      s.handle.packet.header.payloadLen.toNat % 256 = s.handle.packet.header.payloadLen.toNat) ∧
    ∃ rs, s.reads = s₀.reads ++ rs ∧ ∀ r ∈ rs, r.ok = true ∧ r.len % 256 = r.len ∧
      r.bytes.length = r.len ∧ r.bytes.length ≤ maxPayloadSize := by
  intro s
  have hroom : Along RoomAtReads (rxStep env) (hostCommRxFsmInit s₀) events :=
    along_of_mem (fun s e he => room_of_between s (hbetween e he)) _
  have hdelivered : Along (ReadsDelivered env) (rxStep env) (hostCommRxFsmInit s₀) events :=
    along_mono (I := fun s => Carried s.handle) (carried_step env) (delivered_step env)
      (carried_init s₀) hroom
  have hcarried : Carried s.handle :=
    run_preserves (I := fun s : RxSys => Carried s.handle) (carried_step env) (carried_init s₀) events
  obtain ⟨rs, hrs, hwhole⟩ := reads_whole env hdelivered
  refine ⟨hcarried.valid, fun hs => ⟨hcarried.nonempty hs, payloadLen_mod hcarried hs⟩, rs, hrs, ?_⟩
  intro r hr
  obtain ⟨hok, hlen, hfits⟩ := hwhole r hr
  exact ⟨hok, Nat.mod_eq_of_lt hfits, hlen, hlen.trans_le hfits.le⟩

def headerRun : List RxEvent :=
  (protocolPreamble ++ [1, 0xBB, 3, 0]).map .rxByte ++ List.replicate 4 (.run [])

theorem header_carried_payload :
    let s := run (rxStep ⟨fun _ => 0, 0⟩) (hostCommRxFsmInit idle) headerRun
    s.handle.state = .payloadProc ∧ protocolCheckValidHeader s.handle.packet = true := by
  have hstate : (run (rxStep ⟨fun _ => 0, 0⟩) (hostCommRxFsmInit idle) headerRun).handle.state =
      .payloadProc := by decide +kernel
  exact ⟨hstate, (header_carried ⟨fun _ => 0, 0⟩ idle headerRun (by decide)).1 (.inl hstate)⟩

end HostComm.RxCarried
