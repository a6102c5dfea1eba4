import Tmms.Network.WheelHistory

/-!
# When timers run

An entry with a delay below a minute runs on time.  One with a delay of minutes runs on time if
it is inserted just after the wheel of minutes has turned, and early otherwise, as the part of a
minute that has passed is not added (`notEarly`).  It never runs late, and it runs once unless
the delay is of whole minutes, where the rest of 0 leads to a slot that does not exist.  From an
hour on, entries do not run (`runOnce_iff`).
-/

namespace TimingWheel

/-- An entry is not released before the tick of its delay, and the wheel does not fail over it
before that. -/
def NotEarly (o : WheelOutcome) (r : Insertion) : Prop :=
  (∀ p ∈ o.wheel.released, p.2 = r.token → r.tick + r.delay.toNat ≤ p.1) ∧
    ∀ f, o = .error f → f.token = r.token → r.tick + r.delay.toNat ≤ f.wheel.tick

/-- An entry was released once, by the tick of its delay. -/
def RunOnce (w : TimingWheel) (r : Insertion) : Prop :=
  ∃ tick ≤ r.tick + r.delay.toNat,
    w.released.filter (fun p => p.2 == r.token) = [(tick, r.token)]

/-- Inserted between two ticks, the first of which was a multiple of 60. -/
def AtTurn (r : Insertion) : Prop := r.tick % 60 = 0 ∧ r.inside = false

instance (r : Insertion) : Decidable (AtTurn r) := inferInstanceAs (Decidable (_ ∧ _))

/-! ### Due times -/

theorem due_of_second {r : Insertion} (h : r.delay.toNat < 60) :
  r.due = some (r.tick + r.delay.toNat)
  := if_pos h

theorem due_of_minute {r : Insertion} (hle : 60 ≤ r.delay.toNat) (hlt : r.delay.toNat < 3600) :
  r.due = some (60 * (r.turn + r.delay.toNat / 60) + r.delay.toNat % 60)
  := by rw [Insertion.due, if_neg (Nat.not_lt_of_le hle), if_pos hlt]

theorem due_of_hour {r : Insertion} (hle : 3600 ≤ r.delay.toNat)
    (hmonth : r.delay.toNat ≤ 30 * 86400) :
  r.due = none
  := by
  have hlong : ¬ tooLong r.delay = true
    := by
    rw [tooLong_iff]
    omega
  rw [Insertion.due, if_neg (by omega), if_neg (Nat.not_lt_of_le hle), if_neg hlong]

/-- The wheel of minutes has not turned since the tick of an insertion at most. -/
theorem turn_le (r : Insertion) :
  60 * r.turn ≤ r.tick
  := by
  rw [Insertion.turn]
  split
  · omega
  · omega

/-- No part of a minute has passed exactly when the insertion is at a turn. -/
theorem le_turn_iff {r : Insertion} (hpos : r.inside = true → 0 < r.tick) :
  r.tick ≤ 60 * r.turn ↔ AtTurn r
  := by
  rw [Insertion.turn, AtTurn]
  cases hinside : r.inside with
  | false =>
      rw [if_neg Bool.false_ne_true, eq_self, and_true]
      omega
  | true =>
      have htick := hpos hinside
      rw [if_pos rfl]
      constructor
      · omega
      · rintro ⟨_, ⟨⟩⟩

/-- An entry is due before the tick of its delay only if its delay is of minutes and it is not
inserted at a turn. -/
theorem le_due {r : Insertion} {due : Nat} (hpos : r.inside = true → 0 < r.tick)
    (hmonth : r.delay.toNat ≤ 30 * 86400) (hdue : r.due = some due)
    (h : r.delay.toNat < 60 ∨ 3600 ≤ r.delay.toNat ∨ AtTurn r) :
  r.tick + r.delay.toNat ≤ due
  := by
  by_cases hsecond : r.delay.toNat < 60
  · cases (due_of_second hsecond).symm.trans hdue
    exact Nat.le_refl _
  · by_cases hminute : r.delay.toNat < 3600
    · cases (due_of_minute (Nat.le_of_not_lt hsecond) hminute).symm.trans hdue
      rcases h with hlt | hle | hturn
      · exact absurd hlt hsecond
      · exact absurd hminute (Nat.not_lt_of_le hle)
      · have := (le_turn_iff hpos).mpr hturn
        omega
    · cases (due_of_hour (Nat.le_of_not_lt hminute) hmonth).symm.trans hdue

/-! ### Early -/

/-- Between ticks, what is pending is due later. -/
theorem lt_of_mem_agenda {w : TimingWheel} {p : Nat × Nat}
    (hp : p ∈ w.agenda (w.tick / 60)) :
  w.tick < p.1
  := by
  rcases List.mem_append.mp hp with hsecond | hminute
  · obtain ⟨q, hq, rfl⟩ := List.mem_map.mp hsecond
    have hlt := RotatingWheel.lt_of_mem_schedule hq
    exact hlt
  · obtain ⟨q, hq, rfl⟩ := List.mem_map.mp hminute
    have := RotatingWheel.lt_of_mem_schedule hq
    dsimp only
    omega

/-- Whatever was due by now was released. -/
theorem Steady.mem_released {w : TimingWheel} (h : w.Steady) {r : Insertion}
    (hr : r ∈ w.inserted) {due : Nat} (hdue : r.due = some due) (hle : due ≤ w.tick) :
  (due, r.token) ∈ w.released
  := by
  have hexpected : (due, r.token) ∈ w.expected := mem_expected.mpr ⟨r, hr, hdue, rfl⟩
  rw [h.accounted.mem_iff] at hexpected
  rw [List.append_nil] at hexpected
  rcases List.mem_append.mp hexpected with hreleased | hpending
  · exact hreleased
  · exact absurd (lt_of_mem_agenda hpending) (Nat.not_lt_of_le hle)

/-- The tokens of a run are of one insertion each, and what was released was due. -/
theorem run_sound (env : Callbacks) (events : List WheelEvent) :
  (run env events).wheel.inserted.map Insertion.token =
      List.range (run env events).wheel.inserted.length ∧
    (∀ r ∈ (run env events).wheel.inserted, r.inside = true → 0 < r.tick) ∧
    ∀ p ∈ (run env events).wheel.released, p ∈ (run env events).wheel.expected
  := by
  have h := holds_run env events
  cases hrun : run env events with
  | ok w =>
      rw [hrun] at h
      have hsteady : w.Steady := h
      exact ⟨hsteady.tokens, hsteady.inside_pos, hsteady.released_due⟩
  | error f =>
      rw [hrun] at h
      have hfaulty : Faulty f := h
      exact ⟨hfaulty.tokens, hfaulty.inside_pos, hfaulty.released_due⟩

/-- In every run, an entry with a delay of 30 days at most is not released early if its delay is
below a minute or not below an hour or it is inserted at a turn; and in every run that gets to
the tick of its delay it is released early otherwise. -/
theorem notEarly (env : Callbacks) (events : List WheelEvent) (r : Insertion)
    (hr : r ∈ (run env events).wheel.inserted) (hmonth : r.delay.toNat ≤ 30 * 86400) :
  ((r.delay.toNat < 60 ∨ 3600 ≤ r.delay.toNat ∨ AtTurn r) → NotEarly (run env events) r) ∧
    ∀ w, run env events = .ok w → r.tick + r.delay.toNat ≤ w.tick →
      NotEarly (run env events) r →
      r.delay.toNat < 60 ∨ 3600 ≤ r.delay.toNat ∨ AtTurn r
  := by
  obtain ⟨htokens, hpos, hreleased⟩ := run_sound env events
  constructor
  · intro hcondition
    constructor
    · intro p hp htoken
      obtain ⟨r', hr', hdue, htoken'⟩ := mem_expected.mp (hreleased p hp)
      cases token_inj htokens hr' hr (htoken'.trans htoken)
      exact le_due (hpos r hr) hmonth hdue hcondition
    · intro f hf htoken
      have hfaulty := holds_run env events
      rw [hf] at hfaulty htokens hr
      obtain ⟨r', hr', htoken', hdue, _⟩ := hfaulty.cause
      cases token_inj htokens hr' hr (htoken'.trans htoken)
      rw [hf] at hpos
      exact le_due (hpos r hr) hmonth hdue hcondition
  · intro w hrun hreach hearly
    have hsteady := holds_run env events
    rw [hrun] at hsteady hr hearly hpos
    by_contra hcondition
    rw [not_or, not_or] at hcondition
    obtain ⟨hsecond, hhour, hturn⟩ := hcondition
    rw [← le_turn_iff (hpos r hr)] at hturn
    have hdue := due_of_minute (r := r) (by omega) (by omega)
    have hmem := Steady.mem_released hsteady hr hdue (by omega)
    have hlate := hearly.1 _ hmem rfl
    dsimp only at hlate
    omega

/-- Callbacks that call nothing, and slots that are released as they were filled. -/
def quiet : Callbacks where
  order := id
  order_perm _ := List.Perm.refl _
  calls _ := []

/-- `OnTimer` once every second. -/
def clock (first n : Nat) : List WheelEvent :=
  (List.range n).map fun i => .timer (1000 * (first + i : Nat))

/-- Five seconds before the first tick, and five ticks. -/
def callLater : List WheelEvent := clock 1 1 ++ .call (.runAfter 5) :: clock 2 5

theorem notEarly_callLater :
  ((5 < 60 ∨ 3600 ≤ 5 ∨ AtTurn ⟨0, 5, 0, false⟩) →
      NotEarly (run quiet callLater) ⟨0, 5, 0, false⟩) ∧
    ∀ w, run quiet callLater = .ok w → 0 + 5 ≤ w.tick →
      NotEarly (run quiet callLater) ⟨0, 5, 0, false⟩ →
      5 < 60 ∨ 3600 ≤ 5 ∨ AtTurn ⟨0, 5, 0, false⟩
  := notEarly quiet callLater ⟨0, 5, 0, false⟩ (by decide +kernel) (by decide)

/-- A minute and a second, after 59 ticks. -/
def callInMinute : List WheelEvent :=
  clock 1 60 ++ .call (.runAfter 61) :: clock 61 2

/-- The entry runs at the tick 61, two ticks later. -/
theorem not_notEarly_callInMinute :
  ¬ ∀ (env : Callbacks) (events : List WheelEvent), ∀ r ∈ (run env events).wheel.inserted,
      r.delay.toNat ≤ 30 * 86400 → NotEarly (run env events) r
  := by
  intro h
  have hearly := (h quiet callInMinute ⟨0, 61, 59, false⟩ (by decide +kernel) (by decide)).1
    (61, 0) (by decide +kernel) rfl
  exact absurd hearly (by decide)

/-! ### Once -/

/-- A list without repetition of which every member is the same. -/
theorem eq_singleton_of_nodup {α : Type} {l : List α} (h : l.Nodup) {a : α} (ha : a ∈ l)
    (hall : ∀ b ∈ l, b = a) :
  l = [a]
  := by
  cases l with
  | nil => cases ha
  | cons b l =>
      cases hall b List.mem_cons_self
      cases l with
      | nil => rfl
      | cons c l =>
          cases hall c (List.mem_cons_of_mem _ List.mem_cons_self)
          exact absurd List.mem_cons_self (List.nodup_cons.mp h).1

/-- What is due under the token of an insertion. -/
theorem Steady.filter_expected {w : TimingWheel} (h : w.Steady) {r : Insertion}
    (hr : r ∈ w.inserted) :
  w.expected.filter (fun p => p.2 == r.token) = r.dueEntry.toList
  := by
  have hnodup : w.inserted.Nodup
    := by
    apply List.Nodup.of_map Insertion.token
    rw [h.tokens]
    exact List.nodup_range
  have hone : w.inserted.filter (fun r' => r'.token == r.token) = [r]
    := by
    apply eq_singleton_of_nodup (hnodup.filter _)
    · exact List.mem_filter.mpr ⟨hr, beq_self_eq_true _⟩
    · intro r' hr'
      obtain ⟨hmem, htoken⟩ := List.mem_filter.mp hr'
      exact token_inj h.tokens hmem hr (beq_iff_eq.mp htoken)
  have hswap : w.expected.filter (fun p => p.2 == r.token) =
      (w.inserted.filter fun r' => r'.token == r.token).filterMap Insertion.dueEntry
    := by
    rw [expected, List.filter_filterMap, List.filterMap_filter]
    congr 1
    funext r'
    rw [Insertion.dueEntry]
    cases r'.due with
    | none =>
        split
        · rfl
        · rfl
    | some due =>
        simp only [Option.map_some, Option.filter_some]
  rw [hswap, hone]
  cases hdue : r.dueEntry with
  | none => rw [List.filterMap_cons_none hdue]; rfl
  | some p => rw [List.filterMap_cons_some hdue]; rfl

/-- An entry that was due by now was released once. -/
theorem Steady.filter_released {w : TimingWheel} (h : w.Steady) {r : Insertion}
    (hr : r ∈ w.inserted) {due : Nat} (hdue : r.due = some due) (hle : due ≤ w.tick) :
  w.released.filter (fun p => p.2 == r.token) = [(due, r.token)]
  := by
  have hperm := h.accounted.filter fun p => p.2 == r.token
  rw [h.filter_expected hr, Insertion.dueEntry, hdue, List.append_nil, List.filter_append] at hperm
  have hmem : (due, r.token) ∈ w.released.filter (fun p => p.2 == r.token)
    := List.mem_filter.mpr ⟨h.mem_released hr hdue hle, beq_self_eq_true _⟩
  have hlength := hperm.length_eq
  change 1 = _ at hlength
  rw [List.length_append] at hlength
  obtain ⟨p, hp⟩ := List.length_eq_one_iff.mp
    (Nat.le_antisymm (by omega) (List.length_pos_of_mem hmem))
  rw [hp] at hmem ⊢
  rw [List.mem_singleton.mp hmem]

/-- In every run in which no other entry is harmful, an entry with a delay of 1 second to 30
days was run once by the tick of its delay exactly if its delay is below a minute, or below an
hour and not of whole minutes. -/
theorem runOnce_iff (env : Callbacks) (events : List WheelEvent) (r : Insertion)
    (hr : r ∈ (run env events).wheel.inserted) (hdelay : 1 ≤ r.delay.toNat)
    (hmonth : r.delay.toNat ≤ 30 * 86400)
    (hothers : ∀ r' ∈ (run env events).wheel.inserted, r' ≠ r → ¬ Harmful r'.delay)
    (hreach : ∀ w, run env events = .ok w → r.tick + r.delay.toNat ≤ w.tick) :
  (∃ w, run env events = .ok w ∧ RunOnce w r) ↔
    r.delay.toNat < 60 ∨ (r.delay.toNat < 3600 ∧ r.delay.toNat % 60 ≠ 0)
  := by
  have hholds := holds_run env events
  have hlong : ¬ tooLong r.delay = true
    := by
    rw [tooLong_iff]
    omega
  cases hrun : run env events with
  | error f =>
      rw [hrun] at hholds hr hothers
      obtain ⟨r', hr', _, _, hharm⟩ := hholds.cause
      have hsame : r' = r
        := by
        by_contra hne
        exact hothers r' hr' hne hharm
      subst hsame
      constructor
      · rintro ⟨w, hw, _⟩
        cases hw
      · intro hcondition
        rcases hharm with hzero | hwhole | htoo
        · omega
        · omega
        · exact absurd htoo hlong
  | ok w =>
      rw [hrun] at hholds hr
      have hsteady : w.Steady := hholds
      have htick := hreach w hrun
      have hturn := turn_le r
      constructor
      · rintro ⟨w', hw', tick, _, hfilter⟩
        cases hw'
        have hmem : (tick, r.token) ∈ w.released
          := by
          apply List.mem_of_mem_filter (p := fun p => p.2 == r.token)
          rw [hfilter]
          exact List.mem_singleton_self _
        obtain ⟨r', hr', hdue, htoken⟩ := mem_expected.mp (hsteady.released_due _ hmem)
        cases token_inj hsteady.tokens hr' hr htoken
        obtain ⟨r', hr'', htoken', hserved⟩ := hsteady.released_served _ hmem
        cases token_inj hsteady.tokens hr'' hr htoken'
        by_cases hhour : r.delay.toNat < 3600
        · by_contra hcondition
          rw [not_or, not_and_or, not_ne_iff] at hcondition
          exact hlong (hserved (.inr (.inl ⟨by omega, hhour, by omega⟩)))
        · rw [due_of_hour (Nat.le_of_not_lt hhour) hmonth] at hdue
          cases hdue
      · intro hcondition
        refine ⟨w, rfl, ?_⟩
        by_cases hsecond : r.delay.toNat < 60
        · exact ⟨_, Nat.le_refl _, hsteady.filter_released hr (due_of_second hsecond) htick⟩
        · have hdue := due_of_minute (r := r) (by omega) (by omega)
          exact ⟨_, by omega, hsteady.filter_released hr hdue (by omega)⟩

theorem runOnce_callLater :
  (∃ w, run quiet callLater = .ok w ∧ RunOnce w ⟨0, 5, 0, false⟩) ↔
    5 < 60 ∨ (5 < 3600 ∧ 5 % 60 ≠ 0)
  := by
  have hinserted : (run quiet callLater).wheel.inserted = [⟨0, 5, 0, false⟩] := by decide +kernel
  have htick : (run quiet callLater).wheel.tick = 5 := by decide +kernel
  apply runOnce_iff quiet callLater ⟨0, 5, 0, false⟩
  · rw [hinserted]
    exact List.mem_singleton_self _
  · decide
  · decide
  · rw [hinserted]
    intro r' hr' hne
    exact absurd (List.mem_singleton.mp hr') hne
  · intro w hw
    rw [hw] at htick
    exact Nat.le_of_eq htick.symm

/-- A minute before the first tick, and 60 ticks. -/
def callMinute : List WheelEvent := clock 1 1 ++ .call (.runAfter 60) :: clock 2 60

theorem not_ok_callMinute (w : TimingWheel) :
  run quiet callMinute ≠ .ok w
  := by
  intro hw
  have herror : (run quiet callMinute).isOk = false := by decide +kernel
  rw [hw] at herror
  cases herror

/-- The closure asks for a delay of 0 at the tick 60, for which there is no slot. -/
theorem not_runOnce_callMinute :
  ¬ ∀ (env : Callbacks) (events : List WheelEvent), ∀ r ∈ (run env events).wheel.inserted,
      1 ≤ r.delay.toNat → r.delay.toNat ≤ 30 * 86400 →
      (∀ w, run env events = .ok w → r.tick + r.delay.toNat ≤ w.tick) →
      ∃ w, run env events = .ok w ∧ RunOnce w r
  := by
  intro h
  obtain ⟨w, hw, _⟩ := h quiet callMinute ⟨0, 60, 0, false⟩ (by decide +kernel) (by decide)
    (by decide) (fun w hw => absurd hw (not_ok_callMinute w))
  exact not_ok_callMinute w hw

end TimingWheel
