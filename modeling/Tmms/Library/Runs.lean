import Mathlib.Init

/-!
# Runs

A machine is a function from states and events to states.  A run is a list of events;
`Throughout` says that a property holds in every state of it, and `Steps` that every event is
as it should be where it happens.  An invariant is carried through a run by the events that
keep it (`Steps.throughout`).  When an event keeps a property exactly if it is good, the
property holds throughout exactly if every event is good (`throughout_iff_steps`).
-/

universe u v

namespace Runs

variable {σ : Type u} {ε : Type v} (step : σ → ε → σ)

/-- The state a run ends in. -/
def run (s : σ) (es : List ε) : σ := es.foldl step s

/-- A property holds in every state of a run. -/
def Throughout (P : σ → Prop) : σ → List ε → Prop
  | s, [] => P s
  | s, e :: es => P s ∧ Throughout P (step s e) es

/-- The events of a run are all as `ok` asks where they happen. -/
def Steps (ok : σ → ε → Prop) : σ → List ε → Prop
  | _, [] => True
  | s, e :: es => ok s e ∧ Steps ok (step s e) es

/-- Whether the events of a run are as they should be can be computed. -/
instance decidableSteps (ok : σ → ε → Prop) [∀ s e, Decidable (ok s e)] (s : σ) (es : List ε) :
    Decidable (Steps step ok s es) :=
  match es with
  | [] => isTrue trivial
  | e :: es =>
      have := decidableSteps ok (step s e) es
      inferInstanceAs (Decidable (ok s e ∧ Steps step ok (step s e) es))

variable {step} {P Q I : σ → Prop} {ok ok' good : σ → ε → Prop} {s : σ} {es : List ε}

theorem run_append (s : σ) (es es' : List ε) :
  run step s (es ++ es') = run step (run step s es) es'
  := List.foldl_append

/-- A state that no event changes. -/
theorem run_of_stuck (h : ∀ e, step s e = s) (es : List ε) :
  run step s es = s
  := by
  induction es with
  | nil => rfl
  | cons e es ih =>
      rw [run, List.foldl_cons, h e, ← run]
      exact ih

theorem steps_append {es' : List ε} :
  Steps step ok s (es ++ es') ↔ Steps step ok s es ∧ Steps step ok (run step s es) es'
  := by
  induction es generalizing s with
  | nil => exact (and_iff_right trivial).symm
  | cons e es ih =>
      rw [List.cons_append, Steps, Steps, ih, and_assoc]
      rfl

theorem Throughout.head (h : Throughout step P s es) :
  P s
  := by
  cases es with
  | nil => apply h
  | cons e es => apply h.1

theorem Throughout.last (h : Throughout step P s es) :
  P (run step s es)
  := by
  induction es generalizing s with
  | nil => apply h
  | cons e es ih => apply ih h.2

theorem Throughout.mono (h : Throughout step P s es) (hPQ : ∀ s, P s → Q s) :
  Throughout step Q s es
  := by
  induction es generalizing s with
  | nil => apply hPQ s h
  | cons e es ih => exact ⟨hPQ s h.1, ih h.2⟩

theorem steps_true : Steps step (fun _ _ => True) s es
  := by
  induction es generalizing s with
  | nil => trivial
  | cons e es ih => exact ⟨trivial, ih⟩

/-- Events of which all are as they should be anywhere are so in a run. -/
theorem steps_of_forall {good : ε → Prop} (h : ∀ e ∈ es, good e) :
  Steps step (fun _ e => good e) s es
  := by
  induction es generalizing s with
  | nil => trivial
  | cons e es ih =>
      rw [List.forall_mem_cons] at h
      exact ⟨h.1, ih h.2⟩

theorem Steps.mono (h : Steps step ok s es) (hok : ∀ s e, ok s e → ok' s e) :
  Steps step ok' s es
  := by
  induction es generalizing s with
  | nil => trivial
  | cons e es ih => exact ⟨hok s e h.1, ih h.2⟩

theorem Steps.and (h : Steps step ok s es) (h' : Steps step ok' s es) :
  Steps step (fun s e => ok s e ∧ ok' s e) s es
  := by
  induction es generalizing s with
  | nil => trivial
  | cons e es ih => exact ⟨⟨h.1, h'.1⟩, ih h.2 h'.2⟩

/-- An invariant holds in every state of a run whose events keep it. -/
theorem Steps.throughout (h : Steps step ok s es) (hI : I s)
    (hstep : ∀ s e, I s → ok s e → I (step s e)) :
  Throughout step I s es
  := by
  induction es generalizing s with
  | nil => apply hI
  | cons e es ih => exact ⟨hI, ih h.2 (hstep s e hI h.1)⟩

/-- Under an invariant that events keep, they are also as `good` asks. -/
theorem Steps.of_invariant (h : Steps step ok s es) (hI : I s)
    (hstep : ∀ s e, I s → ok s e → I (step s e) ∧ good s e) :
  Steps step good s es
  := by
  induction es generalizing s with
  | nil => trivial
  | cons e es ih =>
      obtain ⟨hI', hgood⟩ := hstep s e hI h.1
      exact ⟨hgood, ih h.2 hI'⟩

/-- A property that no event takes away from a state that lacks it holds throughout a run if it
holds at its end. -/
theorem throughout_of_last (hP : P (run step s es)) (hback : ∀ s e, P (step s e) → P s) :
  Throughout step P s es
  := by
  induction es generalizing s with
  | nil => exact hP
  | cons e es ih =>
      have hrest := ih hP
      exact ⟨hback s e hrest.head, hrest⟩

/-- Every event of a run leads to a state of it. -/
theorem Throughout.steps (h : Throughout step P s es) :
  Steps step (fun s e => P (step s e)) s es
  := by
  induction es generalizing s with
  | nil => trivial
  | cons e es ih => exact ⟨h.2.head, ih h.2⟩

/-- When, under an invariant, two properties of events say the same and good events keep the
invariant, the events of a run have the one exactly if they have the other. -/
theorem steps_iff_steps (h : Steps step ok s es) (hI : I s)
    (hstep : ∀ s e, I s → ok s e → (ok' s e ↔ good s e) ∧ (good s e → I (step s e))) :
  Steps step ok' s es ↔ Steps step good s es
  := by
  induction es generalizing s with
  | nil => exact Iff.rfl
  | cons e es ih =>
      obtain ⟨hiff, hkeep⟩ := hstep s e hI h.1
      rw [Steps, Steps, hiff]
      exact and_congr_right fun hgood => ih h.2 (hkeep hgood)

/-- When the events keep an invariant, and under it keep a property exactly if they are good,
the property holds in every state exactly if all events are good. -/
theorem throughout_iff_steps (h : Steps step ok s es) (hI : I s) (hP : P s)
    (hstep : ∀ s e, I s → P s → ok s e → I (step s e) ∧ (P (step s e) ↔ good s e)) :
  Throughout step P s es ↔ Steps step good s es
  := by
  induction es generalizing s with
  | nil => exact iff_of_true hP trivial
  | cons e es ih =>
      obtain ⟨hI', hgood⟩ := hstep s e hI hP h.1
      rw [Throughout, Steps, and_iff_right hP, ← hgood]
      constructor
      · intro hrest
        have hP' := hrest.head
        exact ⟨hP', (ih h.2 hI' hP').mp hrest⟩
      · rintro ⟨hP', hrest⟩
        apply (ih h.2 hI' hP').mpr hrest

end Runs
