import Mathlib.Data.List.Induction
import Mathlib.Tactic.Use
import Mathlib.Tactic.Cases

/-!
# Incremental parsers

A parser is given the symbols that arrived so far and makes passes at the head of
them.  A pass either waits, with a state that may have changed already, or takes some
symbols and gives outputs.  `run` makes passes until one waits; `feed` is `run` on the
symbols left unread followed by the ones that just arrived.

`Incremental pass` says what makes the result independent of how the symbols arrive: a
pass that takes is not changed by symbols behind the ones it takes, and a pass that waits
can be made again, from the state it left, as if it had not been made.  Then feeding the
pieces of a stream one after another is one run on the stream (`feedAll_eq_run`).
-/

universe u v w

/-- What a pass does: wait in a state, or take `n` symbols, give outputs and go to a
state. -/
inductive Pass (σ : Type u) (β : Type w) where
  | wait (s : σ)
  | take (s : σ) (n : Nat) (out : List β)
  deriving DecidableEq

namespace Pass

/-- The state after a run, the symbols left unread and the outputs in order. -/
@[ext]
structure Result (σ : Type u) (α : Type v) (β : Type w) where
  state : σ
  unread : List α
  out : List β
  deriving DecidableEq

variable {σ : Type u} {α : Type v} {β : Type w}

/-- The result with earlier outputs put in front. -/
def Result.after (out : List β) (r : Result σ α β) : Result σ α β :=
  ⟨r.state, r.unread, out ++ r.out⟩

@[simp]
theorem Result.after_state (out : List β) (r : Result σ α β) :
  (r.after out).state = r.state
  := rfl

@[simp]
theorem Result.after_out (out : List β) (r : Result σ α β) :
  (r.after out).out = out ++ r.out
  := rfl

variable (pass : σ → List α → Pass σ β)

/-- At most `fuel` passes. -/
def runFuel : Nat → σ → List α → Result σ α β
  | 0, s, b => ⟨s, b, []⟩
  | fuel + 1, s, b =>
    match pass s b with
    | .wait s' => ⟨s', b, []⟩
    | .take s' n out => (runFuel fuel s' (b.drop n)).after out

/-- Passes until one waits. Every pass that takes makes the input shorter, so one pass
more than there are symbols is enough. -/
def run (s : σ) (b : List α) : Result σ α β :=
  runFuel pass (b.length + 1) s b

/-- One arrival of symbols: a run on what was left unread followed by them. -/
def feed (r : Result σ α β) (b : List α) : Result σ α β :=
  (run pass r.state (r.unread ++ b)).after r.out

/-- Successive arrivals from the state `s`, with nothing unread. -/
def feedAll (s : σ) (bs : List (List α)) : Result σ α β :=
  bs.foldl (feed pass) ⟨s, [], []⟩

/-- The passes that take lead from one state and input to another. -/
inductive Reaches : σ → List α → σ → List α → Prop where
  | refl (s : σ) (b : List α) : Reaches s b s b
  | take {s s' t : σ} {b c : List α} {n : Nat} {out : List β}
      (h : pass s b = .take s' n out) (rest : Reaches s' (b.drop n) t c) : Reaches s b t c

/-- A parser whose result does not depend on how its input is cut. -/
structure Incremental : Prop where
  idle : ∀ s, pass s [] = .wait s
  progress : ∀ {s s' b n out}, pass s b = .take s' n out → 0 < n ∧ n ≤ b.length
  take_append : ∀ {s s' b n out}, pass s b = .take s' n out →
    ∀ c, pass s (b ++ c) = .take s' n out
  wait_append : ∀ {s s' b}, pass s b = .wait s' → ∀ c, pass s' (b ++ c) = pass s (b ++ c)

variable {pass}

/-! ### Runs -/

/-- A run that begins with a pass that waits is that pass. -/
theorem run_of_wait {s s' : σ} {b : List α} (h : pass s b = .wait s') :
  run pass s b = ⟨s', b, []⟩
  := by
  rw [run, runFuel, h]

/-- Fuel beyond the length of the input changes nothing. -/
theorem Incremental.runFuel_eq_run (hp : Incremental pass) :
    ∀ (fuel : Nat) (s : σ) (b : List α), b.length < fuel →
      runFuel pass fuel s b = run pass s b
  | 0, _, _, h => absurd h (Nat.not_lt_zero _)
  | fuel + 1, s, b, h => by
      rw [run, runFuel, runFuel]
      cases hs : pass s b with
      | wait s' => rfl
      | take s' n out =>
          obtain ⟨hn, hle⟩ := hp.progress hs
          have hlen : (b.drop n).length < b.length := by
            rw [List.length_drop]
            omega
          dsimp only
          rw [hp.runFuel_eq_run fuel s' (b.drop n) (by omega)]
          rw [hp.runFuel_eq_run b.length s' (b.drop n) hlen]

/-- A run that begins with a pass that takes goes on behind what it took. -/
theorem Incremental.run_of_take (hp : Incremental pass) {s s' : σ} {b : List α} {n : Nat}
    {out : List β} (h : pass s b = .take s' n out) :
  run pass s b = (run pass s' (b.drop n)).after out
  := by
  obtain ⟨hn, hle⟩ := hp.progress h
  rw [run, runFuel, h]
  dsimp only
  rw [hp.runFuel_eq_run]
  rw [List.length_drop]
  omega

/-- A pass that takes all of `b` leaves the rest of the input to the run. -/
theorem Incremental.run_append_of_take (hp : Incremental pass) {s s' : σ} {b : List α}
    {out : List β} (h : pass s b = .take s' b.length out) (c : List α) :
  run pass s (b ++ c) = (run pass s' c).after out
  := by
  rw [hp.run_of_take (hp.take_append h c), List.drop_left]

/-- Induction along a run: a property of states and inputs at which a pass waits, carried
backwards over the passes that take, holds of every state and input. -/
theorem Incremental.induction (hp : Incremental pass) {motive : σ → List α → Prop}
    (wait : ∀ s s' b, pass s b = .wait s' → motive s b)
    (take : ∀ s s' b n out, pass s b = .take s' n out → motive s' (b.drop n) → motive s b)
    (s : σ) (b : List α) :
  motive s b
  := by
  induction hb : b.length using Nat.strongRecOn generalizing s b with
  | _ len ih =>
      cases h : pass s b with
      | wait s' => apply wait s s' b h
      | take s' n out =>
          obtain ⟨hn, hle⟩ := hp.progress h
          apply take s s' b n out h
          apply ih (b.drop n).length _ s' (b.drop n) rfl
          rw [List.length_drop]
          omega

/-- A run on a longer input is the run on its first part, fed the rest. -/
theorem Incremental.run_append (hp : Incremental pass) (s : σ) (b c : List α) :
  run pass s (b ++ c) = feed pass (run pass s b) c
  := by
  induction s, b using hp.induction with
  | wait s s' b h =>
      rw [run_of_wait h, feed]
      have hw := hp.wait_append h c
      cases hs : pass s (b ++ c) with
      | wait t =>
          rw [run_of_wait hs, run_of_wait (hw.trans hs)]
          rfl
      | take t n out =>
          rw [hp.run_of_take hs, hp.run_of_take (hw.trans hs)]
          rfl
  | take s s' b n out h ih =>
      obtain ⟨_, hle⟩ := hp.progress h
      rw [hp.run_of_take (hp.take_append h c), List.drop_append_of_le_length hle, ih,
        hp.run_of_take h]
      simp only [feed, Result.after, List.append_assoc]

/-- What is fed in two parts is fed at once. -/
theorem Incremental.feed_feed (hp : Incremental pass) (r : Result σ α β) (b c : List α) :
  feed pass (feed pass r b) c = feed pass r (b ++ c)
  := by
  have hrun := hp.run_append r.state (r.unread ++ b) c
  rw [List.append_assoc] at hrun
  rw [feed, feed, feed, hrun]
  simp only [feed, Result.after, List.append_assoc]

/-- Feeding the pieces of a stream one after another is one run on the stream. -/
theorem Incremental.feedAll_eq_run (hp : Incremental pass) (s : σ) (bs : List (List α)) :
  feedAll pass s bs = run pass s bs.flatten
  := by
  induction bs using List.reverseRecOn with
  | nil =>
      rw [List.flatten_nil, run_of_wait (hp.idle s)]
      rfl
  | append_singleton bs b ih =>
      rw [feedAll, List.foldl_append, List.flatten_append, List.flatten_singleton, hp.run_append,
        ← ih]
      rfl

/-- Earlier outputs stay in front of what is fed. -/
theorem foldl_feed_after (out : List β) (r : Result σ α β) (bs : List (List α)) :
  bs.foldl (feed pass) (r.after out) = (bs.foldl (feed pass) r).after out
  := by
  induction bs generalizing r with
  | nil => rfl
  | cons b bs ih =>
      have hb : feed pass (r.after out) b = (feed pass r b).after out := by
        simp only [feed, Result.after, List.append_assoc]
      rw [List.foldl_cons, List.foldl_cons, hb, ih]

/-! ### What a run keeps -/

/-- The state a pass leaves has a property, as long as what it gives has another. -/
def Leaves (I : σ → Prop) (ok : β → Prop) : Pass σ β → Prop
  | .wait s => I s
  | .take s _ out => (∀ x ∈ out, ok x) → I s

/-- A property that every pass keeps is kept by a run. -/
theorem Incremental.keeps_run (hp : Incremental pass) {I : σ → Prop} {ok : β → Prop}
    (hpass : ∀ s b, I s → Leaves I ok (pass s b)) {s : σ} {b : List α} (hs : I s)
    (hout : ∀ x ∈ (run pass s b).out, ok x) :
  I (run pass s b).state
  := by
  induction s, b using hp.induction with
  | wait s s' b h =>
      have hleaves := hpass s b hs
      rw [h] at hleaves
      rw [run_of_wait h]
      exact hleaves
  | take s s' b n out h ih =>
      have hleaves := hpass s b hs
      rw [h] at hleaves
      rw [hp.run_of_take h, Result.after_out] at hout
      rw [hp.run_of_take h, Result.after_state]
      apply ih
      · exact hleaves fun x hx => hout x (List.mem_append_left _ hx)
      · exact fun x hx => hout x (List.mem_append_right _ hx)

/-! ### Outputs of a run -/

/-- The outputs of a run are the outputs of the passes it makes. -/
theorem Incremental.mem_run_out (hp : Incremental pass) (s : σ) (b : List α) (x : β) :
  x ∈ (run pass s b).out ↔
    ∃ t c t' n out, Reaches pass s b t c ∧ pass t c = .take t' n out ∧ x ∈ out
  := by
  induction s, b using hp.induction with
  | wait s s' b h =>
      rw [run_of_wait h]
      constructor
      · intro hx
        cases hx
      · rintro ⟨t, c, t', n, out, hr, ht, -⟩
        cases hr with
        | refl => cases h.symm.trans ht
        | take h' _ => cases h.symm.trans h'
  | take s s' b n out h ih =>
      rw [hp.run_of_take h, Result.after_out, List.mem_append, ih]
      constructor
      · rintro (hx | ⟨t, c, t', m, out', hr, ht, hx⟩)
        · use s, b, s', n, out, .refl s b, h, hx
        · use t, c, t', m, out', .take h hr, ht, hx
      · rintro ⟨t, c, t', m, out', hr, ht, hx⟩
        cases hr with
        | refl =>
            obtain ⟨-, -, rfl⟩ := Pass.take.inj (h.symm.trans ht)
            left
            apply hx
        | take h' hr =>
            obtain ⟨rfl, rfl, -⟩ := Pass.take.inj (h.symm.trans h')
            right
            use t, c, t', m, out', hr, ht, hx

end Pass
