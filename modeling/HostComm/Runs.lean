import Mathlib.Data.List.Basic
import Mathlib.Data.List.Induction
import Mathlib.Logic.Function.Iterate
import Mathlib.Logic.Relation
import Mathlib.Tactic.Common

namespace HostComm.Runs

variable {σ ε : Type}

def run (step : σ → ε → σ) (s : σ) (events : List ε) : σ := events.foldl step s

@[simp] theorem run_nil (step : σ → ε → σ) (s : σ) : run step s [] = s := rfl

@[simp] theorem run_cons (step : σ → ε → σ) (s : σ) (e : ε) (events : List ε) :
    run step s (e :: events) = run step (step s e) events := rfl

theorem run_append (step : σ → ε → σ) (s : σ) (before after : List ε) :
    run step s (before ++ after) = run step (run step s before) after := List.foldl_append

def trail (step : σ → ε → σ) : σ → List ε → List (σ × σ)
  | _, [] => []
  | s, e :: events => (s, step s e) :: trail step (step s e) events

/-- Every step of the run meets the condition `P` in the state it is taken
from. -/
def Along (P : σ → ε → Prop) (step : σ → ε → σ) : σ → List ε → Prop
  | _, [] => True
  | s, e :: events => P s e ∧ Along P step (step s e) events

instance (P : σ → ε → Prop) [∀ s e, Decidable (P s e)] (step : σ → ε → σ) :
    ∀ s events, Decidable (Along P step s events)
  | _, [] => isTrue trivial
  | s, e :: events =>
      have := instDecidableAlong P step (step s e) events
      inferInstanceAs (Decidable (P s e ∧ Along P step (step s e) events))

theorem along_append {P : σ → ε → Prop} {step : σ → ε → σ} {s : σ} {before after : List ε} :
    Along P step s (before ++ after) ↔
      Along P step s before ∧ Along P step (run step s before) after := by
  induction before generalizing s with
  | nil => exact (and_iff_right trivial).symm
  | cons e before ih =>
      rw [List.cons_append, Along, ih, run_cons, Along, and_assoc]

/-- A run whose steps all meet `P` keeps what such a step keeps. -/
theorem run_invariant {P : σ → ε → Prop} {step : σ → ε → σ} {I : σ → Prop}
    (hstep : ∀ s e, I s → P s e → I (step s e)) {s : σ} {events : List ε}
    (hs : I s) (hrun : Along P step s events) : I (run step s events) := by
  induction events generalizing s with
  | nil => exact hs
  | cons e events ih => exact ih (hstep s e hs hrun.1) hrun.2

theorem along_mono {P Q : σ → ε → Prop} {step : σ → ε → σ} {I : σ → Prop}
    (hstep : ∀ s e, I s → I (step s e)) (himp : ∀ s e, I s → P s e → Q s e) {s : σ}
    {events : List ε} (hs : I s) (hrun : Along P step s events) : Along Q step s events := by
  induction events generalizing s with
  | nil => trivial
  | cons e events ih => exact ⟨himp s e hs hrun.1, ih (hstep s e hs) hrun.2⟩

theorem count_run {step : σ → ε → σ} {f : σ → Nat} {P : σ × σ → Bool}
    (hstep : ∀ s e, f (step s e) = f s + if P (s, step s e) then 1 else 0) (s : σ)
    (events : List ε) : f (run step s events) = f s + (trail step s events).countP P := by
  induction events generalizing s with
  | nil => rfl
  | cons e events ih =>
      rw [run_cons, ih (step s e), hstep, trail, List.countP_cons]
      omega

theorem trail_forall {step : σ → ε → σ} {P : σ × σ → Prop} (hstep : ∀ s e, P (s, step s e)) (s : σ)
    (events : List ε) : ∀ p ∈ trail step s events, P p := by
  induction events generalizing s with
  | nil => simp [trail]
  | cons e events ih =>
      intro p hp
      rw [trail, List.mem_cons] at hp
      rcases hp with rfl | hp
      · exact hstep s e
      · exact ih (step s e) p hp

/-- A machine with a clock that counts ticks and is set to zero by the steps
that start it. -/
def timed (step : σ → ε → σ) (Started : σ → σ → Prop) [∀ s s', Decidable (Started s s')]
    (tick : ε → Bool) (x : σ × Nat) (e : ε) : σ × Nat :=
  (step x.1 e, if Started x.1 (step x.1 e) then 0 else if tick e then x.2 + 1 else x.2)

theorem run_timed (step : σ → ε → σ) (Started : σ → σ → Prop) [∀ s s', Decidable (Started s s')]
    (tick : ε → Bool) (x : σ × Nat) (events : List ε) :
    (run (timed step Started tick) x events).1 = run step x.1 events := by
  induction events generalizing x with
  | nil => rfl
  | cons e events ih => exact ih (timed step Started tick x e)

theorem along_timed {P : σ → ε → Prop} {step : σ → ε → σ} {Started : σ → σ → Prop}
    [∀ s s', Decidable (Started s s')] {tick : ε → Bool} {x : σ × Nat} {events : List ε}
    (h : Along P step x.1 events) :
    Along (fun x e => P x.1 e) (timed step Started tick) x events := by
  induction events generalizing x with
  | nil => trivial
  | cons e events ih => exact ⟨h.1, ih (x := timed step Started tick x e) h.2⟩

def Throughout (A : σ → Prop) (step : σ → ε → σ) (s : σ) (events : List ε) : Prop :=
  ∀ before, before <+: events → A (run step s before)

theorem throughout_or_exit {A : σ → Prop} {step : σ → ε → σ} {s : σ} (hs : A s) (events : List ε) :
    Throughout A step s events ∨ ∃ before e after, events = before ++ e :: after ∧
      Throughout A step s before ∧ ¬ A (step (run step s before) e) := by
  induction events using List.reverseRecOn with
  | nil =>
      refine .inl fun before hbefore => ?_
      rw [List.prefix_nil.mp hbefore]
      exact hs
  | append_singleton events e ih =>
      rcases ih with hall | ⟨before, e', after, rfl, hbefore, hexit⟩
      · by_cases hnext : A (step (run step s events) e)
        · refine .inl fun before hbefore => ?_
          rcases List.prefix_concat_iff.mp hbefore with rfl | hbefore
          · rw [run_append]
            exact hnext
          · exact hall before hbefore
        · exact .inr ⟨events, e, [], rfl, hall, hnext⟩
      · exact .inr ⟨before, e', after ++ [e], by simp, hbefore, hexit⟩

theorem along_of_mem {P : σ → ε → Prop} {step : σ → ε → σ} {events : List ε}
    (h : ∀ s, ∀ e ∈ events, P s e) (s : σ) : Along P step s events := by
  induction events generalizing s with
  | nil => trivial
  | cons e events ih =>
      exact ⟨h s e List.mem_cons_self, ih (fun s' e' he' => h s' e' (List.mem_cons_of_mem e he')) _⟩

theorem along_true (step : σ → ε → σ) (s : σ) (events : List ε) :
    Along (fun _ _ => True) step s events :=
  along_of_mem (fun _ _ _ => trivial) s

/-- A condition `P` whose first violation does damage that no later step
repairs: a run ends well exactly when all its steps meet the condition. -/
theorem run_splits {A P : σ → ε → Prop} {step : σ → ε → σ} {G B : σ → Prop}
    (hkeep : ∀ s e, G s → A s e → P s e → G (step s e))
    (hbreak : ∀ s e, G s → A s e → ¬ P s e → B (step s e))
    (hstay : ∀ s e, B s → A s e → B (step s e)) {s : σ} {events : List ε}
    (hs : G s) (hrun : Along A step s events) :
    Along P step s events ∧ G (run step s events) ∨
      ¬ Along P step s events ∧ B (run step s events) := by
  induction events generalizing s with
  | nil => exact .inl ⟨trivial, hs⟩
  | cons e events ih =>
      by_cases he : P s e
      · rcases ih (hkeep s e hs hrun.1 he) hrun.2 with ⟨hall, hgood⟩ | ⟨hnot, hbad⟩
        · exact .inl ⟨⟨he, hall⟩, hgood⟩
        · exact .inr ⟨fun h => hnot h.2, hbad⟩
      · have hbad : B (step s e) := hbreak s e hs hrun.1 he
        refine .inr ⟨fun h => he h.1, ?_⟩
        rw [run_cons]
        exact run_invariant hstay hbad hrun.2

theorem run_preserves_mem {step : σ → ε → σ} {I : σ → Prop} {events : List ε}
    (hstep : ∀ s, ∀ e ∈ events, I s → I (step s e)) {s : σ} (hs : I s) :
    I (run step s events) := by
  induction events generalizing s with
  | nil => exact hs
  | cons e events ih =>
      have hnext : I (step s e) := hstep s e List.mem_cons_self hs
      exact ih (fun s' e' he' => hstep s' e' (List.mem_cons_of_mem e he')) hnext

theorem run_preserves {step : σ → ε → σ} {I : σ → Prop}
    (hstep : ∀ s e, I s → I (step s e)) {s : σ} (hs : I s) (events : List ε) :
    I (run step s events) :=
  run_preserves_mem (fun s e _ => hstep s e) hs

/-- What a deterministic relation reaches from one point lies on one chain, so
observations that only grow along it can be compared. -/
theorem comparable_of_reaches {β : Type} {r : σ → σ → Prop} {obs : σ → List β}
    (hdet : Relator.RightUnique r) (hgrow : ∀ a b, r a b → obs a <+: obs b) {a b c : σ}
    (hb : Relation.ReflTransGen r a b) (hc : Relation.ReflTransGen r a c) :
    obs b <+: obs c ∨ obs c <+: obs b := by
  have hmono {x y : σ} (h : Relation.ReflTransGen r x y) : obs x <+: obs y := by
    induction h with
    | refl => exact List.prefix_rfl
    | tail _ hstep ih => exact ih.trans (hgrow _ _ hstep)
  rcases Relation.ReflTransGen.total_of_right_unique hdet hb hc with h | h
  · exact .inl (hmono h)
  · exact .inr (hmono h)

theorem reaches_end {r : σ → σ → Prop} (hr : Relator.RightUnique r) {a b z : σ}
    (hend : ∀ y, ¬ r z y) (hz : Relation.ReflTransGen r a z) (hb : Relation.ReflTransGen r a b) :
    Relation.ReflTransGen r b z := by
  rcases Relation.ReflTransGen.total_of_right_unique hr hb hz with h | h
  · exact h
  · rcases h.cases_head with rfl | ⟨y, hy, -⟩
    · exact .refl
    · exact absurd hy (hend y)

theorem iterate_cons {f : σ → σ} {x y z : σ} (h : f x = y) (hz : ∃ m, f^[m] y = z) :
    ∃ m, f^[m] x = z := by
  obtain ⟨m, hm⟩ := hz
  exact ⟨m + 1, by rw [Function.iterate_succ_apply, h, hm]⟩

theorem iterate_trans {f : σ → σ} {x y z : σ} (hy : ∃ m, f^[m] x = y) (hz : ∃ m, f^[m] y = z) :
    ∃ m, f^[m] x = z := by
  obtain ⟨k, hk⟩ := hy
  obtain ⟨m, hm⟩ := hz
  exact ⟨m + k, by rw [Function.iterate_add_apply, hk, hm]⟩

theorem exists_iterate_succ {f : σ → σ} {x : σ} {R : σ → Prop} (h : ¬ R x) :
    (∃ k, R (f^[k] x)) ↔ ∃ k, R (f^[k] (f x)) := by
  constructor
  · rintro ⟨k, hk⟩
    cases k with
    | zero => exact absurd hk h
    | succ k => exact ⟨k, hk⟩
  · rintro ⟨k, hk⟩
    exact ⟨k + 1, hk⟩

theorem exists_iterate_iff {f : σ → σ} {x y : σ} (hy : ∃ m, f^[m] x = y) (hfix : f y = y)
    {R : σ → Prop} (habs : ∀ z, R z → f z = z) : (∃ k, R (f^[k] x)) ↔ R y := by
  obtain ⟨m, hm⟩ := hy
  constructor
  · rintro ⟨k, hk⟩
    rcases Nat.le_total k m with hle | hle
    · obtain ⟨j, rfl⟩ := Nat.exists_eq_add_of_le' hle
      rw [Function.iterate_add_apply, Function.iterate_fixed (habs _ hk)] at hm
      exact hm ▸ hk
    · obtain ⟨j, rfl⟩ := Nat.exists_eq_add_of_le' hle
      rwa [Function.iterate_add_apply, hm, Function.iterate_fixed hfix] at hk
  · intro h
    exact ⟨m, hm.symm ▸ h⟩

end HostComm.Runs
