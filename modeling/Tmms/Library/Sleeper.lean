import Mathlib.Algebra.Ring.Int.Defs
import Tmms.Library.Runs

/-!
# Consumers that sleep

A producer adds items, and a consumer of another thread takes what there is when it looks.  The
consumer is not told of every item: the producer announces some of them, and then wakes the
consumer unless its flag `active` is set.  The flag is cleared when a look finds nothing, but not
in the same moment: what comes in between is taken for something the consumer will still see.

`Sleeper` is both threads with the tasks that wake the consumer, at any point of their code.
Beside the state it has how many items there were at the last look (`looked`) and how many came
while the consumer was about to clear the flag (`missed`).  At rest the consumer has looked after
every announced item but these (`Watchful.caughtUp`).
-/

universe u v w x

open Runs

/-- A consumer with its items.  `look` also tells whether nothing was found, and `call`, which is
anything else that happens to the consumer, whether it looked and then whether nothing was
found. -/
structure Consumer (σ : Type u) (ι : Type v) (τ : Type w) (κ : Type x) where
  count : σ → Int
  busy : σ → Bool
  add : σ → ι → σ
  look : σ → τ → σ × Bool
  call : σ → κ → σ × Option Bool

/-- A consumer that found something is busy until it looks again. -/
structure Consumer.Lawful {σ : Type u} {ι : Type v} {τ : Type w} {κ : Type x}
    (c : Consumer σ ι τ κ) (Inv : σ → Prop) : Prop where
  inv_add : ∀ s i, Inv s → Inv (c.add s i)
  inv_look : ∀ s t, Inv s → Inv (c.look s t).1
  inv_call : ∀ s k, Inv s → Inv (c.call s k).1
  count_add : ∀ s i, Inv s → c.count (c.add s i) = c.count s + 1
  count_look : ∀ s t, Inv s → c.count (c.look s t).1 = c.count s
  count_call : ∀ s k, Inv s → c.count (c.call s k).1 = c.count s
  busy_add : ∀ s i, Inv s → c.busy (c.add s i) = c.busy s
  busy_look : ∀ s t, Inv s → (c.look s t).2 = false → c.busy (c.look s t).1 = true
  busy_call : ∀ s k, Inv s → (c.call s k).2 = some false → c.busy (c.call s k).1 = true
  busy_none : ∀ s k, Inv s → (c.call s k).2 = none → c.busy s = true →
    c.busy (c.call s k).1 = true

/-- Where the producer is: it has added an announced item, or seen the flag cleared as well. -/
inductive Producer where
  | idle
  | announcing
  | activating
  deriving DecidableEq, Repr

/-- Both threads.  `tasks` is how often the consumer is still to be woken, and `leaving` says that
it looked and found nothing but has not cleared its flag yet; `asleep` is what the last look
found. -/
structure Sleeper (σ : Type u) where
  state : σ
  active : Bool := false
  tasks : Nat := 0
  leaving : Bool := false
  producer : Producer := .idle
  looked : Int := 0
  missed : Nat := 0
  asleep : Bool := false

/-- A step of one of the threads.  `request` is a wake-up from elsewhere, and `activateHere` one
by a producer that runs in the thread of the consumer. -/
inductive SleeperEvent (ι : Type v) (τ : Type w) (κ : Type x) where
  | add (i : ι)
  | check
  | activate
  | activateHere (t : τ)
  | request
  | run (t : τ)
  | call (k : κ)
  | leave

namespace Sleeper

section

variable {σ : Type u} {ι : Type v} {τ : Type w} {κ : Type x} (c : Consumer σ ι τ κ)
  (announced : Int → Bool)

/-- The consumer has looked, with what came of it. -/
def seen (s : Sleeper σ) (r : σ × Bool) : Sleeper σ :=
  { s with
    state := r.1
    leaving := r.2
    looked := c.count r.1
    missed := 0
    asleep := r.2 }

/-- A task that wakes the consumer sets the flag, and the consumer looks. -/
def wake (s : Sleeper σ) (t : τ) : Sleeper σ :=
  { s with active := true }.seen c (c.look s.state t)

/-- One step.  What cannot happen in a state changes nothing. -/
def step (s : Sleeper σ) : SleeperEvent ι τ κ → Sleeper σ
  | .add i =>
      if s.producer = .idle then
        let state := c.add s.state i
        { s with
          state := state
          producer := if announced (c.count state) then .announcing else .idle
          missed := if s.leaving then s.missed + 1 else s.missed }
      else
        s
  | .check =>
      if s.producer = .announcing then
        { s with producer := if s.active then .idle else .activating }
      else
        s
  | .activate =>
      if s.producer = .activating then
        { s with
          producer := .idle
          tasks := s.tasks + 1 }
      else
        s
  | .activateHere t =>
      if s.producer = .activating ∧ s.leaving = false then
        { s with producer := .idle }.wake c t
      else
        s
  | .request => { s with tasks := s.tasks + 1 }
  | .run t =>
      if 0 < s.tasks ∧ s.leaving = false then
        { s with tasks := s.tasks - 1 }.wake c t
      else
        s
  | .call k =>
      if s.leaving then
        s
      else
        match c.call s.state k with
        | (state, none) => { s with state := state }
        | (state, some nothing) => s.seen c (state, nothing)
  | .leave =>
      if s.leaving then
        { s with
          leaving := false
          active := false }
      else
        s

/-- A consumer that comes while a producer may be anywhere, and is to be woken. -/
def start (state : σ) (producer : Producer) : Sleeper σ where
  state := state
  tasks := 1
  producer := producer
  looked := c.count state

/-- Nothing goes on: the producer is not about to wake anyone, and the consumer has no task, has
cleared its flag and is not busy. -/
structure AtRest (s : Sleeper σ) : Prop where
  producer : s.producer = .idle
  tasks : s.tasks = 0
  leaving : s.leaving = false
  busy : c.busy s.state = false

/-- The last look found nothing, and no item was announced since, but for those that came while
the flag still stood. -/
structure CaughtUp (s : Sleeper σ) : Prop where
  asleep : s.asleep = true
  le_count : s.looked + s.missed ≤ c.count s.state
  silent : ∀ n, s.looked + s.missed < n → n ≤ c.count s.state → announced n = false

/-- What holds in every state: the flag stands only for a consumer that will look again, and an
item it does not stand for is being announced, or a task is there. -/
structure Watchful (Inv : σ → Prop) (s : Sleeper σ) : Prop where
  inv : Inv s.state
  le_count : s.looked + s.missed ≤ c.count s.state
  leaving : s.leaving = true → s.looked + s.missed = c.count s.state
  active : s.active = true → s.leaving = true ∨ c.busy s.state = true
  told : s.active = false → s.tasks = 0 → ∀ n, s.looked + s.missed < n →
    n ≤ c.count s.state → announced n = true → s.producer ≠ .idle ∧ n = c.count s.state
  asleep : s.asleep = true ∨ c.busy s.state = true ∨ 0 < s.tasks

end

/-! ### Steps -/

variable {σ : Type u} {ι : Type v} {τ : Type w} {κ : Type x} {c : Consumer σ ι τ κ}
  {announced : Int → Bool} {Inv : σ → Prop} {s : Sleeper σ}

/-- A consumer that has just looked has missed nothing. -/
theorem watchful_seen {r : σ × Bool} (hinv : Inv r.1)
    (hbusy : r.2 = false → c.busy r.1 = true) :
  (s.seen c r).Watchful c announced Inv
  where
  inv := hinv
  le_count := Int.le_of_eq (Int.add_zero _)
  leaving _ := Int.add_zero _
  active _ := by
    cases h : r.2 with
    | true => exact .inl h
    | false => exact .inr (hbusy h)
  told _ _ n hlt hle _ := by
    have hlooked : c.count r.1 + 0 < n := hlt
    have hcount : n ≤ c.count r.1 := hle
    omega
  asleep := by
    cases h : r.2 with
    | true => exact .inl h
    | false => exact .inr (.inl (hbusy h))

theorem Watchful.wake (hc : c.Lawful Inv) (h : Inv s.state) (t : τ) :
  (s.wake c t).Watchful c announced Inv
  := watchful_seen (hc.inv_look _ t h) (hc.busy_look _ t h)

theorem Watchful.add (hc : c.Lawful Inv) (h : s.Watchful c announced Inv) (i : ι) :
  (step c announced s (.add i : SleeperEvent ι τ κ)).Watchful c announced Inv
  := by
  rw [step]
  split
  next hidle =>
    have hcount := hc.count_add _ i h.inv
    have hbusy := hc.busy_add _ i h.inv
    have hle := h.le_count
    constructor
    · apply hc.inv_add _ i h.inv
    · dsimp only
      rw [hcount]
      split <;> omega
    · intro hleaving
      have heq := h.leaving hleaving
      dsimp only
      rw [hcount, if_pos hleaving]
      omega
    · intro hactive
      dsimp only
      rw [hbusy]
      apply h.active hactive
    · -- an announced item is the last one: one before it had been announced before
      intro hactive htasks n hlt hn hannounced
      dsimp only at hlt hn ⊢
      rw [hcount] at hn ⊢
      cases hleaving : s.leaving with
      | true =>
          have heq := h.leaving hleaving
          rw [if_pos hleaving] at hlt
          omega
      | false =>
          rw [hleaving, if_neg Bool.false_ne_true] at hlt
          by_cases hlast : n = c.count s.state + 1
          · rw [← hlast, hannounced, if_pos rfl]
            exact ⟨by rintro ⟨⟩, rfl⟩
          · have hold := h.told hactive htasks n hlt (by omega) hannounced
            exact absurd hidle hold.1
    · dsimp only
      rw [hbusy]
      apply h.asleep
  next => exact h

theorem Watchful.call (hc : c.Lawful Inv) (h : s.Watchful c announced Inv) (k : κ) :
  (step c announced s (.call k : SleeperEvent ι τ κ)).Watchful c announced Inv
  := by
  rw [step]
  split
  · exact h
  next hleaving =>
    rw [Bool.not_eq_true] at hleaving
    have hinv := hc.inv_call _ k h.inv
    have hcount := hc.count_call _ k h.inv
    have hfound := hc.busy_call _ k h.inv
    have hnone := hc.busy_none _ k h.inv
    split
    next state heq =>
      rw [heq] at hinv hcount hnone
      dsimp only at hinv hcount hnone
      constructor
      · exact hinv
      · dsimp only
        rw [hcount]
        exact h.le_count
      · dsimp only
        rw [hcount]
        exact h.leaving
      · intro hactive
        rcases h.active hactive with hleaving' | hbusy
        · exact .inl hleaving'
        · exact .inr (hnone rfl hbusy)
      · dsimp only
        rw [hcount]
        exact h.told
      · rcases h.asleep with hasleep | hbusy | htasks
        · exact .inl hasleep
        · exact .inr (.inl (hnone rfl hbusy))
        · exact .inr (.inr htasks)
    next state nothing heq =>
      rw [heq] at hinv hfound
      apply watchful_seen hinv
      intro hnothing
      apply hfound
      rw [← hnothing]

/-- Every step of the two threads keeps the consumer watchful. -/
theorem Watchful.step (hc : c.Lawful Inv) (h : s.Watchful c announced Inv)
    (e : SleeperEvent ι τ κ) :
  (step c announced s e).Watchful c announced Inv
  := by
  cases e with
  | add i => apply h.add hc
  | call k => apply h.call hc
  | request =>
      refine { h with told := ?_, asleep := .inr (.inr (Nat.succ_pos _)) }
      rintro - ⟨⟩
  | check =>
      rw [Sleeper.step]
      split
      · refine { h with told := ?_ }
        intro hactive htasks n hlt hle hannounced
        have hlast := (h.told hactive htasks n hlt hle hannounced).2
        dsimp only at hactive ⊢
        rw [hactive]
        exact ⟨by rintro ⟨⟩, hlast⟩
      · exact h
  | activate =>
      rw [Sleeper.step]
      split
      · refine { h with told := ?_, asleep := .inr (.inr (Nat.succ_pos _)) }
        rintro - ⟨⟩
      · exact h
  | activateHere t =>
      rw [Sleeper.step]
      split
      · apply Watchful.wake hc
        exact h.inv
      · exact h
  | run t =>
      rw [Sleeper.step]
      split
      · apply Watchful.wake hc
        exact h.inv
      · exact h
  | leave =>
      rw [Sleeper.step]
      split
      next hleaving =>
        refine { h with leaving := ?_, active := ?_, told := ?_ }
        · rintro ⟨⟩
        · rintro ⟨⟩
        · intro _ _ n hlt hle
          have heq := h.leaving hleaving
          dsimp only at hlt hle
          omega
      next => exact h

/-! ### Runs -/

theorem watchful_start {state : σ} (h : Inv state) (producer : Producer) :
  (start c state producer).Watchful c announced Inv
  where
  inv := h
  le_count := Int.le_of_eq (Int.add_zero _)
  leaving := by rintro ⟨⟩
  active := by rintro ⟨⟩
  told := by rintro - ⟨⟩
  asleep := .inr (.inr Nat.one_pos)

/-- A consumer is watchful in every state of a run. -/
theorem watchful_throughout (hc : c.Lawful Inv) {state : σ} (h : Inv state)
    (producer : Producer) (events : List (SleeperEvent ι τ κ)) :
  Throughout (step c announced) (·.Watchful c announced Inv) (start c state producer) events
  := by
  apply steps_true.throughout (watchful_start h producer)
  intro s e hs _
  apply hs.step hc

/-- At rest a watchful consumer has caught up. -/
theorem Watchful.caughtUp (h : s.Watchful c announced Inv) (hrest : s.AtRest c) :
  s.CaughtUp c announced
  := by
  have hactive : s.active = false
    := by
    rw [← Bool.not_eq_true]
    intro hactive
    rcases h.active hactive with hleaving | hbusy
    · exact Bool.false_ne_true (hrest.leaving.symm.trans hleaving)
    · exact Bool.false_ne_true (hrest.busy.symm.trans hbusy)
  constructor
  · rcases h.asleep with hasleep | hbusy | htasks
    · exact hasleep
    · exact absurd (hrest.busy.symm.trans hbusy) Bool.false_ne_true
    · exact absurd htasks (hrest.tasks ▸ Nat.lt_irrefl 0)
  · exact h.le_count
  · intro n hlt hle
    rw [← Bool.not_eq_true]
    intro hannounced
    exact (h.told hactive hrest.tasks n hlt hle hannounced).1 hrest.producer

end Sleeper
