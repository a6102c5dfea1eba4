import Mathlib.Order.Basic
import Tmms.Library.Runs

/-!
# Machines that go through stages

Some machines go through one sequence of states whatever order events come in: in every state at
most one event has an effect, and that leads to the next state.  `reached` is how far a run comes,
and a run that has the events due among its own comes as far as they lead
(`add_length_le_reached`).
-/

universe u v

open Runs

namespace Stages

variable {σ : Type u} {ε : Type v} [DecidableEq ε] (due : Nat → Option ε)

/-- The stage behind an event. -/
def next (n : Nat) (e : ε) : Nat := if due n = some e then n + 1 else n

/-- The stage a run reaches. -/
def reached (n : Nat) (es : List ε) : Nat := es.foldl (next due) n

/-- Every stage is left for the next one by the event that is due. -/
def Advances (step : σ → ε → σ) (stage : Nat → σ) : Prop :=
  ∀ n e, step (stage n) e = stage (next due n e)

/-- The events are those that are due one after the other. -/
def Due : Nat → List ε → Prop
  | _, [] => True
  | n, e :: es => due n = some e ∧ Due (n + 1) es

variable {due} {step : σ → ε → σ} {stage : Nat → σ} {P : σ → Prop} {n : Nat} {es : List ε}

/-- What holds in all stages holds in every state of a run. -/
theorem Advances.throughout (h : Advances due step stage) (hP : ∀ n, P (stage n)) (n : Nat)
    (es : List ε) :
  Throughout step P (stage n) es
  := by
  have hsteps : Steps step (fun _ _ => True) (stage n) es := steps_true
  have hrun : Throughout step (fun s => ∃ n, s = stage n) (stage n) es
    := by
    apply hsteps.throughout ⟨n, rfl⟩
    rintro _ e ⟨n, rfl⟩ -
    exact ⟨_, h n e⟩
  apply hrun.mono
  rintro _ ⟨n, rfl⟩
  apply hP n

theorem Advances.run_eq (h : Advances due step stage) (n : Nat) (es : List ε) :
  run step (stage n) es = stage (reached due n es)
  := by
  induction es generalizing n with
  | nil => rfl
  | cons e es ih =>
      rw [run, List.foldl_cons, h n e, ← run, ih]
      rfl

theorem le_next (n : Nat) (e : ε) :
  n ≤ next due n e
  := by
  rw [next]
  split
  · apply Nat.le_succ
  · apply Nat.le_refl

theorem next_mono {m : Nat} (h : n ≤ m) (e : ε) :
  next due n e ≤ next due m e
  := by
  rcases Nat.eq_or_lt_of_le h with rfl | hlt
  · apply Nat.le_refl
  · apply Nat.le_trans _ (le_next m e)
    rw [next]
    split
    · exact hlt
    · exact h

theorem reached_mono {m : Nat} (h : n ≤ m) (es : List ε) :
  reached due n es ≤ reached due m es
  := by
  induction es generalizing n m with
  | nil => exact h
  | cons e es ih => apply ih (next_mono h e)

/-- A run that has the events due among its own comes as far as they lead. -/
theorem add_length_le_reached {es' : List ε} (h : Due due n es') (hsub : es'.Sublist es) :
  n + es'.length ≤ reached due n es
  := by
  induction hsub generalizing n with
  | slnil => apply Nat.le_refl
  | cons e _ ih =>
      apply Nat.le_trans (ih h)
      apply reached_mono (le_next n e)
  | cons_cons e _ ih =>
      have hrest := ih h.2
      rw [reached, List.foldl_cons, next, if_pos h.1, ← reached, List.length_cons]
      omega

end Stages
