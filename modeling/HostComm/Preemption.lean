import HostComm.Runs
import Mathlib.Algebra.BigOperators.Group.List.Basic
import Mathlib.Algebra.GroupWithZero.Nat
import Mathlib.Data.Prod.Basic

namespace HostComm.Preemption

open Runs

/-- A call as the main loop executes it. A statement changes the state, and
what comes after it depends on the state it finds. -/
inductive Code (σ : Type) : Type
  | done
  | step (f : σ → σ) (next : σ → Code σ)

variable {σ τ β : Type}

namespace Code

def assign (f : σ → σ) (rest : Code σ) : Code σ := .step f fun _ => rest

def look {α : Type} (v : σ → α) (rest : α → Code σ) : Code σ := .step id fun s => rest (v s)

def branch (c : σ → Prop) [DecidablePred c] (yes no : Code σ) : Code σ :=
  .step id fun s => if c s then yes else no

def call {α : Type} (op : σ → α × σ) (rest : α → Code σ) : Code σ :=
  .step (fun s => (op s).2) fun s => rest (op s).1

def exec : Code σ → σ → σ
  | .done, s => s
  | .step f next, s => exec (next s) (f s)

/-- The call with one entry of the schedule taken before each statement. What
is left of the schedule is taken after the last one. -/
def execWith (isr : σ → β → σ) : Code σ → σ → List β → σ
  | .done, s, sched => run isr s sched
  | .step f next, s, [] => execWith isr (next s) (f s) []
  | .step f next, s, b :: sched => execWith isr (next (isr s b)) (f (isr s b)) sched

def onFst : Code σ → Code (σ × τ)
  | .done => .done
  | .step f next => .step (fun x => (f x.1, x.2)) fun x => onFst (next x.1)

@[simp] theorem exec_done (s : σ) : exec .done s = s := rfl

@[simp] theorem exec_assign (f : σ → σ) (rest : Code σ) (s : σ) :
    exec (.assign f rest) s = exec rest (f s) := rfl

@[simp] theorem exec_look {α : Type} (v : σ → α) (rest : α → Code σ) (s : σ) :
    exec (.look v rest) s = exec (rest (v s)) s := rfl

@[simp] theorem exec_branch (c : σ → Prop) [DecidablePred c] (yes no : Code σ) (s : σ) :
    exec (.branch c yes no) s = if c s then exec yes s else exec no s :=
  apply_ite (fun code => exec code s) (c s) yes no

@[simp] theorem exec_call {α : Type} (op : σ → α × σ) (rest : α → Code σ) (s : σ) :
    exec (.call op rest) s = exec (rest (op s).1) (op s).2 := rfl

theorem exec_ite (c : Prop) [Decidable c] (yes no : Code σ) (s : σ) :
    exec (if c then yes else no) s = if c then exec yes s else exec no s :=
  apply_ite (fun code => exec code s) c yes no

theorem execWith_nil (isr : σ → β → σ) (c : Code σ) (s : σ) : execWith isr c s [] = exec c s := by
  induction c generalizing s with
  | done => rfl
  | step f next ih => exact ih s (f s)

end Code

theorem iterate_keeps {α : Type} {g : σ → σ} {v : σ → α} (hv : ∀ s, v (g s) = v s) (s : σ) (k : Nat) :
    v (g^[k] s) = v s :=
  congrFun (Function.iterate_invariant (funext hv) k) s

def ticks (g : σ → σ) (s : σ) (k : Nat) : σ := g^[k] s

theorem run_ticks (g : σ → σ) (s : σ) (sched : List Nat) : run (ticks g) s sched = g^[sched.sum] s := by
  induction sched generalizing s with
  | nil => rfl
  | cons k sched ih =>
      rw [run_cons, ih, ticks, ← Function.iterate_add_apply, List.sum_cons, Nat.add_comm]

theorem execWith_onFst (g : σ → σ) (h : τ → τ) (c : Code σ) (s : σ) (t : τ) (sched : List Nat) :
    (c.onFst).execWith (ticks (Prod.map g h)) (s, t) sched =
      (c.execWith (ticks g) s sched, h^[sched.sum] t) := by
  induction c generalizing s t sched with
  | done =>
      rw [Code.onFst, Code.execWith, run_ticks, Code.execWith, run_ticks, Prod.map_iterate]
      rfl
  | step f next ih =>
      cases sched with
      | nil => exact ih s (f s) t []
      | cons k sched =>
          have hticks : ticks (Prod.map g h) (s, t) k = (g^[k] s, h^[k] t) := by
            rw [ticks, Prod.map_iterate]
            rfl
          rw [Code.onFst, Code.execWith, hticks, ih, List.sum_cons, Nat.add_comm,
            Function.iterate_add_apply]
          rfl

/-- The call ends in `s'` when `n` ticks come in it or right after it. -/
def Ends (g : σ → σ) (c : Code σ) (s : σ) (n : Nat) (s' : σ) : Prop :=
  ∃ sched : List Nat, sched.sum = n ∧ c.execWith (ticks g) s sched = s'

namespace Ends

variable {g : σ → σ} {c : Code σ} {f : σ → σ} {next : σ → Code σ} {s s' : σ} {k m n : Nat}

theorem done (h : Ends g .done s n s') : s' = g^[n] s := by
  obtain ⟨sched, rfl, rfl⟩ := h
  exact run_ticks g s sched

theorem step (h : Ends g (.step f next) s n s') :
    ∃ k m, k + m = n ∧ Ends g (next (g^[k] s)) (f (g^[k] s)) m s' := by
  obtain ⟨sched, rfl, rfl⟩ := h
  cases sched with
  | nil => exact ⟨0, 0, rfl, [], rfl, rfl⟩
  | cons k sched => exact ⟨k, sched.sum, rfl, sched, rfl, rfl⟩

theorem delay (h : Ends g c (g^[k] s) m s') : Ends g c s (k + m) s' := by
  obtain ⟨sched, rfl, rfl⟩ := h
  cases sched with
  | nil =>
      refine ⟨[k], by simp, ?_⟩
      cases c <;> rfl
  | cons j sched =>
      refine ⟨(j + k) :: sched, by simp only [List.sum_cons]; omega, ?_⟩
      have hjoin : ticks g s (j + k) = ticks g (g^[k] s) j := Function.iterate_add_apply g j k s
      cases c with
      | done =>
          rw [Code.execWith, run_cons, hjoin]
          rfl
      | step f next =>
          rw [Code.execWith, hjoin]
          rfl

theorem skip (h : Ends g (.step f next) s n s') (hf : ∀ s, f (g s) = g (f s))
    (hnext : ∀ s, next (g s) = next s) : Ends g (next s) (f s) n s' := by
  obtain ⟨k, m, rfl, hrest⟩ := h.step
  have hstate : f (g^[k] s) = g^[k] (f s) := Function.Commute.iterate_right (g := g) hf k s
  have hcode : next (g^[k] s) = next s := iterate_keeps hnext s k
  rw [hstate, hcode] at hrest
  exact hrest.delay

theorem assign {rest : Code σ} (h : Ends g (.assign f rest) s n s') (hf : ∀ s, f (g s) = g (f s)) :
    Ends g rest (f s) n s' :=
  h.skip hf fun _ => rfl

theorem look {α : Type} {v : σ → α} {rest : α → Code σ} (h : Ends g (.look v rest) s n s')
    (hv : ∀ s, v (g s) = v s) : Ends g (rest (v s)) s n s' :=
  h.skip (fun _ => rfl) fun s => by rw [hv]

theorem branch {c : σ → Prop} [DecidablePred c] {yes no : Code σ}
    (h : Ends g (.branch c yes no) s n s') (hc : ∀ s, c (g s) ↔ c s) :
    Ends g (if c s then yes else no) s n s' :=
  h.skip (fun _ => rfl) fun s => by simp only [hc]

theorem branch_late {c : σ → Prop} [DecidablePred c] {yes no : Code σ}
    (h : Ends g (.branch c yes no) s n s') :
    ∃ k m, k + m = n ∧ Ends g (if c (g^[k] s) then yes else no) (g^[k] s) m s' := h.step

end Ends

inductive Blind (g : σ → σ) : Code σ → Prop
  | done : Blind g .done
  | step {f : σ → σ} {next : σ → Code σ} (state : ∀ s, f (g s) = g (f s))
      (code : ∀ s, next (g s) = next s) (rest : ∀ s, Blind g (next s)) : Blind g (.step f next)

namespace Blind

variable {g : σ → σ}

theorem ends {c : Code σ} (h : Blind g c) {s s' : σ} {n : Nat} (hc : Ends g c s n s') :
    s' = g^[n] (c.exec s) := by
  induction h generalizing s with
  | done => exact hc.done
  | step state code rest ih => exact ih s (hc.skip state code)

theorem assign {f : σ → σ} {rest : Code σ} (hf : ∀ s, f (g s) = g (f s)) (h : Blind g rest) :
    Blind g (.assign f rest) :=
  .step hf (fun _ => rfl) fun _ => h

theorem look {α : Type} {v : σ → α} {rest : α → Code σ} (hv : ∀ s, v (g s) = v s)
    (h : ∀ a, Blind g (rest a)) : Blind g (.look v rest) :=
  .step (fun _ => rfl) (fun s => by rw [hv]) fun s => h (v s)

theorem branch {c : σ → Prop} [DecidablePred c] {yes no : Code σ} (hc : ∀ s, c (g s) ↔ c s)
    (hyes : Blind g yes) (hno : Blind g no) : Blind g (.branch c yes no) := by
  refine .step (fun _ => rfl) (fun s => ?_) fun s => ?_
  · simp only [hc]
  · split_ifs
    · exact hyes
    · exact hno

theorem call {α : Type} {op : σ → α × σ} {rest : α → Code σ}
    (hop : ∀ s, op (g s) = ((op s).1, g (op s).2)) (h : ∀ a, Blind g (rest a)) :
    Blind g (.call op rest) :=
  .step (fun s => by rw [hop]) (fun s => by rw [hop]) fun s => h (op s).1

end Blind

/-- Ticks in the call leave the state that some of them leave when they come
after it. -/
def Late (g : σ → σ) (c : Code σ) (s : σ) : Prop :=
  ∀ n s', Ends g c s n s' → ∃ m, m ≤ n ∧ s' = g^[m] (c.exec s)

namespace Late

variable {g : σ → σ} {s : σ}

theorem of_blind {c : Code σ} (h : Blind g c) : Late g c s :=
  fun n _ he => ⟨n, Nat.le_refl n, h.ends he⟩

theorem done : Late g .done s := of_blind .done

theorem assign {f : σ → σ} {rest : Code σ} (hf : ∀ s, f (g s) = g (f s)) (h : Late g rest (f s)) :
    Late g (.assign f rest) s :=
  fun n s' he => h n s' (he.assign hf)

theorem look {α : Type} {v : σ → α} {rest : α → Code σ} (hv : ∀ s, v (g s) = v s)
    (h : Late g (rest (v s)) s) : Late g (.look v rest) s :=
  fun n s' he => h n s' (he.look hv)

theorem branch {c : σ → Prop} [DecidablePred c] {yes no : Code σ} (hc : ∀ s, c (g s) ↔ c s)
    (hyes : c s → Late g yes s) (hno : ¬ c s → Late g no s) : Late g (.branch c yes no) s := by
  intro n s' he
  have hrest := he.branch hc
  rw [Code.exec_branch]
  split_ifs at hrest ⊢ with h
  · exact hyes h n s' hrest
  · exact hno h n s' hrest

end Late

/-- The call is one step that has some of its ticks before it and some after
it. None is lost when the step does not change what `v` shows. -/
def Serial {α : Type} (g : σ → σ) (v : σ → α) (c : Code σ) (s : σ) (n : Nat) (s' : σ) : Prop :=
  ∃ a b : Nat, a + b ≤ n ∧ s' = g^[b] (c.exec (g^[a] s)) ∧ (v (c.exec (g^[a] s)) = v s → a + b = n)

namespace Serial

variable {α : Type} {g : σ → σ} {v : σ → α} {c rest : Code σ} {s s' : σ} {a m n : Nat}

theorem of_late (hsum : a + m = n) (he : Ends g rest (g^[a] s) m s') (h : Late g rest (g^[a] s))
    (hexec : c.exec (g^[a] s) = rest.exec (g^[a] s)) (hv : v (rest.exec (g^[a] s)) ≠ v s) :
    Serial g v c s n s' := by
  obtain ⟨b, hb, hs⟩ := h m s' he
  refine ⟨a, b, by omega, ?_, fun hsame => ?_⟩
  · rw [hexec, hs]
  · rw [hexec] at hsame
    exact absurd hsame hv

theorem of_blind (hsum : a + m = n) (he : Ends g rest (g^[a] s) m s') (h : Blind g rest)
    (hexec : c.exec (g^[a] s) = rest.exec (g^[a] s)) : Serial g v c s n s' :=
  ⟨a, m, Nat.le_of_eq hsum, by rw [hexec, h.ends he], fun _ => hsum⟩

theorem look {β : Type} {u : σ → β} {code : β → Code σ} (hu : ∀ s, u (g s) = u s)
    (h : Serial g v (code (u s)) s n s') : Serial g v (.look u code) s n s' := by
  obtain ⟨a, b, hsum, hs, hkept⟩ := h
  have hexec : (Code.look u code).exec (g^[a] s) = (code (u s)).exec (g^[a] s) := by
    rw [Code.exec_look, iterate_keeps hu]
  exact ⟨a, b, hsum, hexec ▸ hs, hexec ▸ hkept⟩

theorem branch {p : σ → Prop} [DecidablePred p] {yes no : Code σ} (hp : ∀ s, p (g s) ↔ p s)
    (h : Serial g v (if p s then yes else no) s n s') : Serial g v (.branch p yes no) s n s' := by
  obtain ⟨a, b, hsum, hs, hkept⟩ := h
  have hkeep : p (g^[a] s) ↔ p s := iff_of_eq (iterate_keeps (fun s => propext (hp s)) s a)
  have hexec : (Code.branch p yes no).exec (g^[a] s) =
      (if p s then yes else no).exec (g^[a] s) := by
    rw [Code.exec_branch, Code.exec_ite]
    simp only [hkeep]
  exact ⟨a, b, hsum, hexec ▸ hs, hexec ▸ hkept⟩

end Serial

end HostComm.Preemption
