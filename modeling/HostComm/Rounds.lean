import HostComm.Runs

namespace HostComm.Rounds

open Runs

variable {σ ε : Type}

/-- The number of calls that come after a tick, where a call uses up all ticks
before it. The flag says that an unused tick is there. -/
def rounds (tick call : ε → Bool) : Bool → List ε → Nat
  | _, [] => 0
  | true, e :: events =>
      if call e then rounds tick call false events + 1 else rounds tick call true events
  | false, e :: events => rounds tick call (tick e) events

theorem rounds_flag (tick call : ε → Bool) (events : List ε) :
    rounds tick call false events ≤ rounds tick call true events ∧
      rounds tick call true events ≤ rounds tick call false events + 1 := by
  induction events with
  | nil => exact ⟨Nat.le_refl _, Nat.zero_le _⟩
  | cons e events ih =>
      rw [rounds, rounds]
      cases tick e
      all_goals
        split_ifs
        · omega
        · omega

theorem rounds_skip {tick call : ε → Bool} {before : List ε}
    (h : ∀ e ∈ before, tick e = false ∧ call e = false) (flag : Bool) (events : List ε) :
    rounds tick call flag (before ++ events) = rounds tick call flag events := by
  induction before with
  | nil => rfl
  | cons e before ih =>
      obtain ⟨⟨htick, hcall⟩, hrest⟩ := List.forall_mem_cons.mp h
      rw [List.cons_append]
      cases flag with
      | true => rw [rounds, if_neg (by simp [hcall]), ih hrest]
      | false => rw [rounds, htick, ih hrest]

/-- A number that no step raises while the machine stays in `A`. A tick lowers
it or makes a call due, and the call that is due lowers it. -/
structure Ranking (step : σ → ε → σ) (tick call : ε → Bool) (I A : σ → Prop) (P : σ → ε → Prop) where
  rank : σ → Nat
  due : σ → Prop
  keep : ∀ s e, I s → P s e → I (step s e)
  falls : ∀ s e, I s → P s e → A s → A (step s e) → rank (step s e) ≤ rank s
  ticks : ∀ s e, I s → P s e → A s → A (step s e) → tick e = true →
    rank (step s e) < rank s ∨ due (step s e)
  waits : ∀ s e, I s → P s e → A s → A (step s e) → due s → call e = false →
    rank (step s e) < rank s ∨ due (step s e)
  calls : ∀ s e, I s → P s e → A s → A (step s e) → due s → call e = true →
    rank (step s e) < rank s

theorem Throughout.head {A : σ → Prop} {step : σ → ε → σ} {s : σ} {e : ε} {events : List ε}
    (h : Throughout A step s (e :: events)) :
    A s ∧ A (step s e) ∧ Throughout A step (step s e) events := by
  have htail : Throughout A step (step s e) events :=
    fun before hbefore => h (e :: before) (List.cons_prefix_cons.mpr ⟨rfl, hbefore⟩)
  exact ⟨h [] List.nil_prefix, htail [] List.nil_prefix, htail⟩

namespace Ranking

variable {step : σ → ε → σ} {tick call : ε → Bool} {I A : σ → Prop} {P : σ → ε → Prop}

theorem bounds_both (R : Ranking step tick call I A P) {events : List ε} {s : σ} (hs : I s)
    (hrun : Along P step s events) (hA : Throughout A step s events) :
    rounds tick call false events ≤ R.rank s ∧
      (R.due s → rounds tick call true events ≤ R.rank s) := by
  induction events generalizing s with
  | nil => exact ⟨Nat.zero_le _, fun _ => Nat.zero_le _⟩
  | cons e events ih =>
      obtain ⟨he, hrest⟩ := hrun
      obtain ⟨hhere, hnext, htail⟩ := Throughout.head hA
      obtain ⟨hall, hdue⟩ := ih (R.keep s e hs he) hrest htail
      have hfalls := R.falls s e hs he hhere hnext
      have hflag := (rounds_flag tick call events).2
      -- a lower rank pays for the round that has begun
      have hpaid (h : R.rank (step s e) < R.rank s ∨ R.due (step s e)) :
          rounds tick call true events ≤ R.rank s := by
        rcases h with hless | hlater
        · omega
        · exact Nat.le_trans (hdue hlater) hfalls
      constructor
      · rw [rounds]
        cases htick : tick e with
        | false => exact Nat.le_trans hall hfalls
        | true => exact hpaid (R.ticks s e hs he hhere hnext htick)
      · intro hnow
        rw [rounds]
        cases hcall : call e with
        | true =>
            have hless := R.calls s e hs he hhere hnext hnow hcall
            rw [if_pos rfl]
            omega
        | false =>
            rw [if_neg Bool.false_ne_true]
            exact hpaid (R.waits s e hs he hhere hnext hnow hcall)

theorem bounds (R : Ranking step tick call I A P) {events : List ε} {s : σ} (hs : I s)
    (hrun : Along P step s events) (hA : Throughout A step s events) :
    rounds tick call false events ≤ R.rank s := (R.bounds_both hs hrun hA).1

/-- With more rounds than that it has a first step out of `A`. -/
theorem leaves (R : Ranking step tick call I A P) {events : List ε} {s : σ} (hs : I s) (ha : A s)
    (hrun : Along P step s events) (h : R.rank s < rounds tick call false events) :
    ∃ before e after, events = before ++ e :: after ∧ Throughout A step s before ∧
      ¬ A (step (run step s before) e) := by
  rcases throughout_or_exit ha events with hall | hexit
  · exact absurd (R.bounds hs hrun hall) (Nat.not_le_of_lt h)
  · exact hexit

end Ranking

end HostComm.Rounds
