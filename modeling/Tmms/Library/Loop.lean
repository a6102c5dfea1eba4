import Mathlib.Order.RelClasses
import Mathlib.Tactic.Use

/-!
# Loops

A loop is given by what one turn does in a state: it leaves the loop, or goes on in another
state and gives outputs, or fails.  `Ends` relates a state to the state in which the loop is
left, with the outputs on the way; a loop that fails or goes on for ever does not end.

`Progress` says which states are bad, that badness stays, and that in a state that is not bad
the loop is left or something well founded gets smaller.  Then the loop ends exactly when it
reaches no bad state (`Progress.terminates_iff_not_bad`).
-/

universe u v w x

/-- What a turn of a loop does. -/
inductive Turn (σ : Type u) (β : Type v) (ε : Type w) where
  | leave
  | next (s : σ) (out : List β)
  | fault (e : ε)

namespace Loop

variable {σ : Type u} {β : Type v} {ε : Type w} (turn : σ → Turn σ β ε)

/-- The loop is left in a state, with the outputs in order. -/
inductive Ends : σ → σ → List β → Prop where
  | leave {s : σ} (h : turn s = .leave) : Ends s s []
  | next {s s' t : σ} {out outs : List β} (h : turn s = .next s' out) (rest : Ends s' t outs) :
      Ends s t (out ++ outs)

/-- The loop is left at some time. -/
def Terminates (s : σ) : Prop := ∃ t outs, Ends turn s t outs

/-- Turns lead from one state to another. -/
inductive Reaches : σ → σ → Prop where
  | refl (s : σ) : Reaches s s
  | next {s s' t : σ} {out : List β} (h : turn s = .next s' out) (rest : Reaches s' t) :
      Reaches s t

/-- Bad states stay bad and are not left, and from any other state the loop is left or makes
progress. -/
structure Progress {α : Type x} (r : α → α → Prop) (μ : σ → α) (I Bad : σ → Prop) : Prop where
  invariant : ∀ {s s' out}, I s → turn s = .next s' out → I s'
  stays : ∀ {s}, I s → Bad s → turn s ≠ .leave ∧ ∀ s' out, turn s = .next s' out → Bad s'
  goes : ∀ {s}, I s → ¬ Bad s →
    turn s = .leave ∨ ∃ s' out, turn s = .next s' out ∧ r (μ s') (μ s)

variable {turn}

/-! ### Ends -/

/-- A loop ends in one state, with one list of outputs. -/
theorem Ends.unique {s t t' : σ} {outs outs' : List β} (h : Ends turn s t outs)
    (h' : Ends turn s t' outs') :
  t = t' ∧ outs = outs'
  := by
  induction h generalizing outs' with
  | leave hleave =>
      cases h' with
      | leave => exact ⟨rfl, rfl⟩
      | next hnext _ => cases hleave.symm.trans hnext
  | next hnext _ ih =>
      cases h' with
      | leave hleave => cases hleave.symm.trans hnext
      | next hnext' rest =>
          cases hnext.symm.trans hnext'
          obtain ⟨rfl, rfl⟩ := ih rest
          exact ⟨rfl, rfl⟩

/-- A turn that leads back to where it began is made for ever. -/
theorem not_terminates_of_fixed {s : σ} {out : List β} (h : turn s = .next s out) :
  ¬ Terminates turn s
  := by
  rintro ⟨t, outs, hends⟩
  induction hends with
  | leave hleave => cases h.symm.trans hleave
  | next hnext _ ih =>
      cases h.symm.trans hnext
      apply ih h

/-! ### Termination -/

section Progress

variable {α : Type x} {r : α → α → Prop} {μ : σ → α} {I Bad : σ → Prop}

/-- A loop that ends begins in no bad state. -/
theorem Progress.not_bad (hp : Progress turn r μ I Bad) {s t : σ} {outs : List β}
    (h : Ends turn s t outs) (hs : I s) :
  ¬ Bad s
  := by
  induction h with
  | leave hleave =>
      intro hbad
      apply (hp.stays hs hbad).1 hleave
  | next hnext _ ih =>
      intro hbad
      apply ih (hp.invariant hs hnext)
      apply (hp.stays hs hbad).2 _ _ hnext

/-- A loop that ends reaches no bad state. -/
theorem Progress.not_bad_of_reaches (hp : Progress turn r μ I Bad) {s t : σ}
    (h : Terminates turn s) (hs : I s) (hr : Reaches turn s t) :
  ¬ Bad t
  := by
  induction hr with
  | refl =>
      obtain ⟨t, outs, hends⟩ := h
      apply hp.not_bad hends hs
  | next hnext _ ih =>
      obtain ⟨t, outs, hends⟩ := h
      cases hends with
      | leave hleave => cases hleave.symm.trans hnext
      | next hnext' rest =>
          cases hnext.symm.trans hnext'
          apply ih ⟨_, _, rest⟩ (hp.invariant hs hnext)

/-- A loop that reaches no bad state ends. -/
theorem Progress.terminates [IsWellFounded α r] (hp : Progress turn r μ I Bad) {s : σ} (hs : I s)
    (h : ∀ t, Reaches turn s t → ¬ Bad t) :
  Terminates turn s
  := by
  induction hm : μ s using IsWellFounded.induction r generalizing s with
  | _ m ih =>
      subst hm
      obtain hleave | ⟨s', out, hnext, hless⟩ := hp.goes hs (h s (.refl s))
      · use s, [], .leave hleave
      · obtain ⟨t, outs, hends⟩ := ih (μ s') hless (hp.invariant hs hnext)
          (fun t hr => h t (.next hnext hr)) rfl
        use t, out ++ outs, .next hnext hends

/-- A loop ends exactly when it reaches no bad state. -/
theorem Progress.terminates_iff_not_bad [IsWellFounded α r] (hp : Progress turn r μ I Bad) {s : σ}
    (hs : I s) :
  Terminates turn s ↔ ∀ t, Reaches turn s t → ¬ Bad t
  := by
  constructor
  · intro h t hr
    apply hp.not_bad_of_reaches h hs hr
  · apply hp.terminates hs

end Progress

end Loop
