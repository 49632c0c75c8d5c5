import HostComm.AckService
import HostComm.TxWire

namespace HostComm.AckWire

open Protocol UartDriver TxQueue TxSend TxFsm TxDiscipline TxMoves TxOrder TxService TxWhole TxWire
open TxRetries RxFsm RxSound RxResponses HostSystem AckOrder AckService TimerDiscipline Runs Rounds

theorem sentOf_append (t u : List TxObs) : sentOf (t ++ u) = sentOf u ++ sentOf t := by
  induction t with
  | nil => exact (List.append_nil _).symm
  | cons o t ih =>
      cases o with
      | sent cause r => rw [List.cons_append, sentOf, sentOf, ih, List.append_assoc]
      | _ => exact ih

theorem handed_sublist (t : List TxObs) : (handedOf t).Sublist (sentOf t) := by
  induction t with
  | nil => exact .slnil
  | cons o t ih =>
      cases o with
      | sent cause r =>
          cases cause with
          | first => exact ih.append (List.Sublist.refl [r])
          | _ => exact ih.trans (List.sublist_append_left (sentOf t) [r])
      | _ => exact ih

/-- The driver has taken the frames of all transmissions since `base`, whole. -/
structure Since (env : Env) (base s : TxSys) : Prop where
  trace : base.trace <:+ s.trace
  stream : ∃ new, sentOf s.trace = sentOf base.trace ++ new ∧
    s.uart.accepted = base.uart.accepted ++ new.flatMap (requestFrame env)

theorem since_refl (env : Env) (s : TxSys) : Since env s s :=
  ⟨List.suffix_rfl, [], (List.append_nil _).symm, (List.append_nil _).symm⟩

theorem since_step (env : Env) {base s : TxSys} (h : Since env base s) (hw : Wired env s)
    {e : TxEvent} (hroom : FindsRoom s e) : Since env base (txStep env s e) := by
  refine ⟨h.trace.trans (trace_step env s e), ?_⟩
  obtain ⟨new, hsent, haccepted⟩ := h.stream
  cases (adds_step env hw e).1 with
  | nothing sent accepted room => exact ⟨new, sent.trans hsent, accepted.trans haccepted⟩
  | frame r taken refused fits parts sent accepted whole =>
      obtain ⟨hbytes, -⟩ := requestFrame_parts env fits parts
      rw [whole.mpr hroom, List.flatten_nil, List.append_nil] at hbytes
      refine ⟨new ++ [r], ?_, ?_⟩
      · rw [sent, hsent, List.append_assoc]
      · rw [accepted, haccepted, List.flatMap_append, List.flatMap_singleton, hbytes, List.append_assoc]

theorem since_host (env : Env) {base : TxSys} {s : HostSys} {e : HostEvent} (hw : Wired env s.tx)
    (h : Since env base s.tx) (hfit : AppFits [e]) (hroom : FrameFits s e) :
    Wired env (hostStep env s e).tx ∧ Since env base (hostStep env s e).tx := by
  refine host_preserves env (I := fun s => Wired env s ∧ Since env base s) ?_ ?_ ⟨hw, h⟩
  · intro s r ⟨hw, hc⟩ hr
    exact ⟨wired_request env s r hw hr, since_step env hc hw (e := .request r) trivial⟩
  · rintro event rfl
    refine ⟨wired_step env hw event ?_, since_step env h hw hroom⟩
    rintro r rfl
    exact hfit r List.mem_cons_self

theorem since_run (env : Env) {s : HostSys} (hw : Wired env s.tx) {events : List HostEvent}
    (hfit : AppFits events) (hroom : Along FrameFits (hostStep env) s events) :
    Wired env (run (hostStep env) s events).tx ∧ Since env s.tx (run (hostStep env) s events).tx := by
  have hall := run_splits (A := fun _ e => AppFits [e]) (P := FrameFits)
    (G := fun s' => Wired env s'.tx ∧ Since env s.tx s'.tx) (B := fun _ => True)
    (fun _ _ h hfit hroom => since_host env h.1 h.2 hfit hroom) (fun _ _ _ _ _ => trivial)
    (fun _ _ _ _ => trivial) ⟨hw, since_refl env s.tx⟩ (along_fits env hfit)
  rcases hall with ⟨-, hgood⟩ | ⟨hno, -⟩
  · exact hgood
  · exact absurd hroom hno

end HostComm.AckWire
