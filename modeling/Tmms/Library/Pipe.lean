import Mathlib.Algebra.Ring.Int.Defs
import Mathlib.Algebra.Ring.Nat
import Mathlib.Data.List.Infix
import Mathlib.Tactic.Use

/-!
# Pipes

A pipe is given symbols and passes them on, and says from time to time that it has passed on
all of them.  A history lists what was seen of it.  `Moves` is a pipe that keeps what it was
given and did not pass on yet, in order; its histories are `Faithful`: at every moment what
was passed on is the beginning of what was given, and a pipe that says it is done is.
-/

universe u v

namespace Pipe

variable {α : Type u}

/-- What is seen of a pipe. -/
inductive Obs (α : Type u) where
  | given (xs : List α)
  | passed (xs : List α)
  | done
  deriving DecidableEq

/-- The symbols given, in order. -/
def givenOf : List (Obs α) → List α
  | [] => []
  | .given xs :: h => xs ++ givenOf h
  | .passed _ :: h => givenOf h
  | .done :: h => givenOf h

/-- The symbols passed on, in order. -/
def passedOf : List (Obs α) → List α
  | [] => []
  | .given _ :: h => passedOf h
  | .passed xs :: h => xs ++ passedOf h
  | .done :: h => passedOf h

/-- At every moment of a history what was passed on is the beginning of what was given, and
is all of it when the pipe says it is done. -/
structure Faithful (h : List (Obs α)) : Prop where
  prefix_given : ∀ h', h' <+: h → passedOf h' <+: givenOf h'
  done_all : ∀ h', h' ++ [Obs.done] <+: h → passedOf h' = givenOf h'

/-- From pending symbols, through a history, to pending symbols. -/
inductive Moves : List α → List (Obs α) → List α → Prop where
  | nil (p : List α) : Moves p [] p
  | given {p q : List α} {h : List (Obs α)} (xs : List α) (rest : Moves (p ++ xs) h q) :
      Moves p (.given xs :: h) q
  | passed {p q : List α} {h : List (Obs α)} (xs : List α) (rest : Moves p h q) :
      Moves (xs ++ p) (.passed xs :: h) q
  | done {q : List α} {h : List (Obs α)} (rest : Moves [] h q) : Moves [] (.done :: h) q

/-- Histories follow one another. -/
theorem Moves.append {p q r : List α} {h h' : List (Obs α)} (hp : Moves p h q)
    (hq : Moves q h' r) :
  Moves p (h ++ h') r
  := by
  induction hp with
  | nil => apply hq
  | given xs _ ih => apply Moves.given xs (ih hq)
  | passed xs _ ih => apply Moves.passed xs (ih hq)
  | done _ ih => apply Moves.done (ih hq)

/-- A history can be cut anywhere. -/
theorem Moves.split {h h' : List (Obs α)} {p r : List α} (hm : Moves p (h ++ h') r) :
  ∃ q, Moves p h q ∧ Moves q h' r
  := by
  induction h generalizing p with
  | nil => use p, .nil p, hm
  | cons o h ih =>
      cases hm with
      | given xs rest =>
          obtain ⟨q, hq, hr⟩ := ih rest
          use q, .given xs hq
      | passed xs rest =>
          obtain ⟨q, hq, hr⟩ := ih rest
          use q, .passed xs hq
      | done rest =>
          obtain ⟨q, hq, hr⟩ := ih rest
          use q, .done hq

/-- No symbol is lost or made: those pending before and those given are those passed on and
those pending after. -/
theorem Moves.conserved {p q : List α} {h : List (Obs α)} (hm : Moves p h q) :
  p ++ givenOf h = passedOf h ++ q
  := by
  induction hm with
  | nil p => rw [givenOf, passedOf, List.append_nil, List.nil_append]
  | given xs _ ih => rw [givenOf, passedOf, ← List.append_assoc, ih]
  | passed xs _ ih => rw [givenOf, passedOf, List.append_assoc, ih, List.append_assoc]
  | done _ ih => rw [givenOf, passedOf, ih]

/-- The histories of a pipe that starts with nothing pending are faithful. -/
theorem Moves.faithful {q : List α} {h : List (Obs α)} (hm : Moves [] h q) :
  Faithful h
  := by
  constructor
  · rintro h' ⟨h'', rfl⟩
    obtain ⟨r, hr, -⟩ := hm.split
    have hall := hr.conserved
    rw [List.nil_append] at hall
    use r, hall.symm
  · rintro h' ⟨h'', rfl⟩
    obtain ⟨r, hr, -⟩ := hm.split
    obtain ⟨t, ht, hdone⟩ := hr.split
    have hall := ht.conserved
    cases hdone with
    | done _ =>
        rw [List.nil_append, List.append_nil] at hall
        apply hall.symm

/-! ### Machines that are pipes -/

variable {σ : Type u} {ε : Type v}

/-- The history of a run. -/
def history (step : σ → ε → σ × List (Obs α)) : σ → List ε → List (Obs α)
  | _, [] => []
  | s, e :: es => (step s e).2 ++ history step (step s e).1 es

/-- The events of a run are all as `ok` asks where they happen. -/
def AllOk (step : σ → ε → σ × List (Obs α)) (ok : σ → ε → Prop) : σ → List ε → Prop
  | _, [] => True
  | s, e :: es => ok s e ∧ AllOk step ok (step s e).1 es

theorem AllOk.and {step : σ → ε → σ × List (Obs α)} {ok ok' : σ → ε → Prop} {s : σ}
    {es : List ε} (h : AllOk step ok s es) (h' : AllOk step ok' s es) :
  AllOk step (fun s e => ok s e ∧ ok' s e) s es
  := by
  induction es generalizing s with
  | nil => trivial
  | cons e es ih =>
      use ⟨h.1, h'.1⟩
      apply ih h.2 h'.2

theorem allOk_true {step : σ → ε → σ × List (Obs α)} {s : σ} {es : List ε} :
  AllOk step (fun _ _ => True) s es
  := by
  induction es generalizing s with
  | nil => trivial
  | cons e es ih => exact ⟨trivial, ih⟩

/-- The state a run ends in. -/
def after (step : σ → ε → σ × List (Obs α)) : σ → List ε → σ
  | s, [] => s
  | s, e :: es => after step (step s e).1 es

theorem history_append (step : σ → ε → σ × List (Obs α)) (s : σ) (es es' : List ε) :
  history step s (es ++ es') = history step s es ++ history step (after step s es) es'
  := by
  induction es generalizing s with
  | nil => rfl
  | cons e es ih => rw [List.cons_append, history, history, ih, after, List.append_assoc]

/-- A machine whose steps move the pending symbols a relation gives its states moves them in
its runs. -/
theorem moves_run {step : σ → ε → σ × List (Obs α)} {ok : σ → ε → Prop}
    (pending : σ → List α → Prop)
    (hstep : ∀ s e p, pending s p → ok s e → ∃ q, Moves p (step s e).2 q ∧ pending (step s e).1 q)
    {s : σ} {es : List ε} {p : List α} (hp : pending s p) (hok : AllOk step ok s es) :
  ∃ q, Moves p (history step s es) q ∧ pending (after step s es) q
  := by
  induction es generalizing s p with
  | nil => use p, .nil p, hp
  | cons e es ih =>
      obtain ⟨q, hq, hpending⟩ := hstep s e p hp hok.1
      obtain ⟨r, hr, hend⟩ := ih hpending hok.2
      use r, hq.append hr, hend

/-- Its histories are faithful, when it starts with nothing pending. -/
theorem faithful_history {step : σ → ε → σ × List (Obs α)} {ok : σ → ε → Prop}
    (pending : σ → List α → Prop)
    (hstep : ∀ s e p, pending s p → ok s e → ∃ q, Moves p (step s e).2 q ∧ pending (step s e).1 q)
    {s : σ} {es : List ε} (hs : pending s []) (hok : AllOk step ok s es) :
  Faithful (history step s es)
  := by
  obtain ⟨q, hq, -⟩ := moves_run pending hstep hs hok
  apply hq.faithful

end Pipe
