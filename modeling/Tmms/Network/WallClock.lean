import Tmms.Network.Punctuality
import Tmms.Network.WheelSteps

/-!
# Ticks and seconds

`OnTimer` ticks at most once in a call, and not before a second has passed since the call of the
last tick.  So the ticks are the seconds since the first call exactly when the calls are paced:
from one second to the next, with the first call of a second at least 1000 milliseconds after
the first one of the second before.
-/

namespace TimingWheel

/-- The times of the calls of `OnTimer`. -/
def timesOf (events : List WheelEvent) : List Int :=
  events.filterMap fun
    | .timer now => some now
    | .call _ => none

/-- The clock of a wheel: `last_ts_` and `tick_`. -/
def clockOf (w : TimingWheel) : Int × Nat := (w.lastTs, w.tick)

/-- What a call of `OnTimer` does to the clock. -/
def clockStep (clock : Int × Nat) (now : Int) : Int × Nat :=
  let lastTs := if clock.1 = 0 then now else clock.1
  if now - lastTs < 1000 then (lastTs, clock.2) else (now, clock.2 + 1)

/-- The seconds from a first call to a later one. -/
def secondsSince (first now : Int) : Int := (now - first) / 1000

/-- Calls of which each is in the second of the one before, or in the next second and at least
1000 milliseconds behind `ref`, the first call in the second of the one before. -/
def Paced (first : Int) : Int → List Int → Prop
  | _, [] => True
  | ref, now :: times =>
    (secondsSince first now = secondsSince first ref ∧ Paced first ref times) ∨
      (secondsSince first now = secondsSince first ref + 1 ∧ ref + 1000 ≤ now ∧
        Paced first now times)

/-- After every call of `OnTimer` in a run, the wheel has ticked once for every second. -/
def TicksSeconds (env : Callbacks) (events : List WheelEvent) (first : Int) : Prop :=
  ∀ before now w, before ++ [.timer now] <+: events → run env (before ++ [.timer now]) = .ok w →
    (w.tick : Int) = secondsSince first now

/-! ### What moves the clock -/

/-- Only a tick moves the clock, and it moves it when it begins. -/
theorem kept_clockOf (clock : Int × Nat) : Kept fun w => clockOf w = clock where
  setWheel := fun _ _ h => h
  markInserted := fun _ _ h => h
  markReleased := fun _ h => h

/-- One event. -/
theorem clockOf_step {env : Callbacks} {w w' : TimingWheel} {e : WheelEvent}
    (h : step env w e = .ok w') :
  clockOf w' = (timesOf [e]).foldl clockStep (clockOf w)
  := by
  cases e with
  | call c => exact (kept_clockOf (clockOf w)).call rfl false c w' h
  | timer now =>
      change _ = clockStep (w.lastTs, w.tick) now
      by_cases hshort : now - (if w.lastTs = 0 then now else w.lastTs) < 1000
      · simp only [step, onTimer, if_pos hshort] at h
        cases h
        simp only [clockStep, if_pos hshort, clockOf]
      · simp only [step, onTimer, if_neg hshort] at h
        simp only [clockStep, if_neg hshort]
        exact (kept_clockOf (now, w.tick + 1)).advance env rfl w' h

theorem clockOf_foldlM {env : Callbacks} {events : List WheelEvent} {w w' : TimingWheel}
    (h : events.foldlM (step env) w = .ok w') :
  clockOf w' = (timesOf events).foldl clockStep (clockOf w)
  := by
  induction events generalizing w with
  | nil =>
      cases h
      rfl
  | cons e events ih =>
      rw [List.foldlM_cons] at h
      obtain ⟨w₁, hfirst, hrest⟩ := exists_of_bind h
      have htimes : timesOf (e :: events) = timesOf [e] ++ timesOf events
        := List.filterMap_append (l := [e])
      rw [htimes, List.foldl_append, ← clockOf_step hfirst]
      exact ih hrest

/-- The clock of a run depends on nothing but the times of the calls. -/
theorem clockOf_run {env : Callbacks} {events : List WheelEvent} {w : TimingWheel}
    (h : run env events = .ok w) :
  clockOf w = (timesOf events).foldl clockStep (0, 0)
  := clockOf_foldlM h

/-! ### Paced calls -/

/-- The ways to cut a list behind one of its members: behind the first one, or later. -/
theorem forall_prefix_cons {α : Type} {p : List α → α → Prop} {a : α} {l : List α} :
  (∀ before now, before ++ [now] <+: a :: l → p before now) ↔
    p [] a ∧ ∀ before now, before ++ [now] <+: l → p (a :: before) now
  := by
  constructor
  · intro h
    constructor
    · apply h
      exact List.prefix_iff_eq_take.mpr rfl
    · intro before now hbefore
      apply h
      exact List.cons_prefix_cons.mpr ⟨rfl, hbefore⟩
  · rintro ⟨hfirst, hlater⟩ (_ | ⟨b, before⟩) now hbefore
    · obtain ⟨rfl, -⟩ := List.cons_prefix_cons.mp hbefore
      exact hfirst
    · obtain ⟨rfl, hrest⟩ := List.cons_prefix_cons.mp hbefore
      exact hlater before now hrest

/-- From a call that ticked, the ticks are the seconds exactly when the calls are paced. The
induction is on the calls. -/
theorem ticks_iff_paced {first ref : Int} {k : Nat} {times : List Int} (hpos : 0 < ref)
    (hsorted : (ref :: times).Pairwise (· ≤ ·)) (hk : (k : Int) = secondsSince first ref) :
  (∀ before now, before ++ [now] <+: times →
      (((before ++ [now]).foldl clockStep (ref, k)).2 : Int) = secondsSince first now) ↔
    Paced first ref times
  := by
  induction times generalizing ref k with
  | nil =>
      constructor
      · intro _
        trivial
      · intro _ before now hnone
        cases before <;> cases List.prefix_nil.mp hnone
  | cons now times ih =>
      obtain ⟨hle, hrest⟩ := List.pairwise_cons.mp hsorted
      have hnow := hle now List.mem_cons_self
      rw [forall_prefix_cons (p := fun before now =>
        (((before ++ [now]).foldl clockStep (ref, k)).2 : Int) = secondsSince first now), Paced]
      simp only [List.nil_append, List.foldl_cons, List.foldl_nil, List.cons_append]
      have hstep : clockStep (ref, k) now = if now - ref < 1000 then (ref, k) else (now, k + 1)
        := by rw [clockStep, if_neg (Int.ne_of_gt hpos)]
      rw [hstep]
      by_cases hshort : now - ref < 1000
      · -- the wheel does not tick, so the second has to be the same
        have hstays : (ref :: times).Pairwise (· ≤ ·)
          := List.pairwise_cons.mpr
            ⟨fun t ht => hle t (List.mem_cons_of_mem _ ht), (List.pairwise_cons.mp hrest).2⟩
        rw [if_pos hshort, ih hpos hstays hk, hk]
        constructor
        · rintro ⟨hsame, hpaced⟩
          exact .inl ⟨hsame.symm, hpaced⟩
        · rintro (⟨hsame, hpaced⟩ | ⟨-, hlong, -⟩)
          · exact ⟨hsame.symm, hpaced⟩
          · omega
      · -- the wheel ticks once, so the second has to be the next one
        rw [if_neg hshort]
        constructor
        · rintro ⟨hnext, hlater⟩
          have hticked : secondsSince first now = secondsSince first ref + 1
            := by
            rw [← hnext, ← hk]
            rfl
          refine .inr ⟨hticked, by omega, ?_⟩
          exact (ih (by omega) hrest hnext).mp hlater
        · rintro (⟨hsame, -⟩ | ⟨hnext, -, hpaced⟩)
          · rw [secondsSince, secondsSince] at hsame
            omega
          · have hticked : ((k + 1 : Nat) : Int) = secondsSince first now
              := by
              rw [hnext, ← hk]
              rfl
            exact ⟨hticked, (ih (by omega) hrest hticked).mpr hpaced⟩

/-! ### Runs -/

/-- The beginnings of the times of a run that end with a call are those of beginnings of the
run. -/
theorem exists_prefix_of_times {events : List WheelEvent} {before : List Int} {now : Int}
    (h : before ++ [now] <+: timesOf events) :
  ∃ events', events' ++ [.timer now] <+: events ∧ timesOf events' = before
  := by
  obtain ⟨later, hlater⟩ := h
  rw [List.append_assoc] at hlater
  obtain ⟨front, rest, rfl, hfront, hrest⟩ := List.filterMap_eq_append_iff.mp hlater.symm
  obtain ⟨calls, e, behind, rfl, hcalls, he, -⟩ := List.filterMap_eq_cons_iff.mp hrest
  cases e with
  | call c => cases he
  | timer t =>
      cases he
      use front ++ calls
      constructor
      · use behind
        simp only [List.append_assoc, List.singleton_append]
      · rw [timesOf, List.filterMap_append, hfront, List.filterMap_eq_nil_iff.mpr hcalls,
          List.append_nil]

/-- A run that succeeds succeeds up to every event. -/
theorem run_of_prefix {env : Callbacks} {events events' : List WheelEvent} {w : TimingWheel}
    (hrun : run env events = .ok w) (h : events' <+: events) :
  ∃ w', run env events' = .ok w'
  := by
  obtain ⟨later, rfl⟩ := h
  rw [run, List.foldlM_append] at hrun
  obtain ⟨w', hfront, -⟩ := exists_of_bind hrun
  exact ⟨w', hfront⟩

/-- The ticks after a call. -/
theorem tick_of_run {env : Callbacks} {events : List WheelEvent} {now : Int} {w : TimingWheel}
    (h : run env (events ++ [.timer now]) = .ok w) :
  w.tick = ((timesOf events ++ [now]).foldl clockStep (0, 0)).2
  := by
  have hclock := clockOf_run h
  rw [timesOf, List.filterMap_append] at hclock
  exact congrArg Prod.snd hclock

/-- In every run, with entries or without, the wheel has ticked once for every second since the
first call of `OnTimer` after each of its calls exactly when these are paced. -/
theorem ticksSeconds_iff_paced {env : Callbacks} {events : List WheelEvent} {w : TimingWheel}
    (hrun : run env events = .ok w) {first : Int} {later : List Int}
    (htimes : timesOf events = first :: later) (hpos : 0 < first)
    (hsorted : (first :: later).Pairwise (· ≤ ·)) :
  TicksSeconds env events first ↔ Paced first first later
  := by
  have hzero : secondsSince first first = 0
    := by rw [secondsSince, Int.sub_self, Int.zero_ediv]
  have hfirst : clockStep (0, 0) first = (first, 0)
    := by rw [clockStep, if_pos rfl, Int.sub_self, if_pos (by decide)]
  have htick {before : List Int} {now : Int} {events' : List WheelEvent} {w' : TimingWheel}
      (hbefore : timesOf events' = first :: before)
      (hw' : run env (events' ++ [.timer now]) = .ok w') :
      w'.tick = ((before ++ [now]).foldl clockStep (first, 0)).2
    := by rw [tick_of_run hw', hbefore, List.cons_append, List.foldl_cons, hfirst]
  rw [← ticks_iff_paced (k := 0) hpos hsorted hzero.symm]
  constructor
  · intro hticks before now hbefore
    have hcut : first :: before ++ [now] <+: timesOf events
      := by
      rw [htimes]
      exact List.cons_prefix_cons.mpr ⟨rfl, hbefore⟩
    obtain ⟨events', hprefix, hevents⟩ := exists_prefix_of_times hcut
    obtain ⟨w', hw'⟩ := run_of_prefix hrun hprefix
    rw [← htick hevents hw']
    exact hticks events' now w' hprefix hw'
  · intro hticks events' now w' hprefix hw'
    have hbefore : timesOf events' ++ [now] <+: first :: later
      := by
      have hcut := hprefix.filterMap fun
        | .timer now => some now
        | .call _ => none
      rw [← htimes, timesOf, timesOf]
      rw [List.filterMap_append] at hcut
      exact hcut
    cases hevents : timesOf events' with
    | nil =>
        rw [hevents] at hbefore
        obtain ⟨rfl, -⟩ := List.cons_prefix_cons.mp hbefore
        rw [tick_of_run hw', hevents, List.nil_append, List.foldl_cons, hfirst, List.foldl_nil,
          hzero]
        rfl
    | cons t before =>
        rw [hevents] at hbefore
        obtain ⟨rfl, hlater⟩ := List.cons_prefix_cons.mp hbefore
        rw [htick hevents hw']
        exact hticks before now hlater

/-- Calls at the milliseconds 1, 1001, 1501 and 2001, and an entry. -/
theorem ticksSeconds_halves :
  TicksSeconds quiet [.timer 1, .call (.runAfter 5), .timer 1001, .timer 1501, .timer 2001] 1 ↔
    Paced 1 1 [1001, 1501, 2001]
  := by
  have hok : ∃ w, run quiet
      [.timer 1, .call (.runAfter 5), .timer 1001, .timer 1501, .timer 2001] = .ok w
    := ⟨_, rfl⟩
  obtain ⟨w, hw⟩ := hok
  exact ticksSeconds_iff_paced hw rfl (by decide) (by decide)

/-- With calls at the milliseconds 1, 1501 and 2001 there is one tick in two seconds. -/
theorem not_ticksSeconds_drift :
  ¬ ∀ (env : Callbacks) (events : List WheelEvent) (w : TimingWheel),
    run env events = .ok w → ∀ (first : Int) (later : List Int),
      timesOf events = first :: later → 0 < first → (first :: later).Pairwise (· ≤ ·) →
      TicksSeconds env events first
  := by
  intro h
  have hrun : ∃ w, run quiet [.timer 1, .timer 1501, .timer 2001] = .ok w ∧ w.tick = 1
    := ⟨_, rfl, rfl⟩
  obtain ⟨w, hw, hone⟩ := hrun
  have hticks := h quiet _ w hw 1 [1501, 2001] rfl (by decide) (by decide) [.timer 1, .timer 1501]
    2001 w (List.prefix_refl _) hw
  rw [hone] at hticks
  exact absurd hticks (by decide)

end TimingWheel
