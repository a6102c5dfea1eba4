import Tmms.Network.WallClock

/-!
# Idle connections

A connection that is watched has a `TimeoutEntry`.  Every insertion puts a copy of the pointer to
it into the wheel of seconds, and the connection itself only has a weak one: the entry is alive
as long as a slot has a copy, and `ExtendLife` inserts it again only then.  When the last copy
goes the destructor runs `OnTimeout`, if the connection still exists.

The wheel is that of the loop, with entries of others and whatever these call.  A copy is known
by the token of its insertion; two copies in one slot leave it together.
-/

open TimingWheel

namespace TimingWheel

/-- A slot of the wheel of seconds has the entry of a token. -/
def held (w : TimingWheel) (token : Nat) : Bool :=
  (w.wheels .second).flatten.any fun e => e.token == token

/-- What was released was released by now. -/
def Past (w : TimingWheel) : Prop := ∀ p ∈ w.released, p.1 ≤ w.tick

theorem kept_past : Kept Past where
  setWheel := fun _ _ h => h
  markInserted := fun _ _ h => h
  markReleased := by
    intro w token h p hp
    rcases List.mem_append.mp hp with hold | hnew
    · exact h p hold
    · cases List.mem_singleton.mp hnew
      exact Nat.le_refl _

/-- Insertions stay in the history. -/
theorem kept_mem_inserted (r : Insertion) : Kept fun w => r ∈ w.inserted where
  setWheel := fun _ _ h => h
  markInserted := fun _ _ h => List.mem_append_left _ h
  markReleased := fun _ h => h

variable {env : Callbacks} {w w' : TimingWheel}

theorem past_step (h : w.Past) {e : WheelEvent} (hstep : step env w e = .ok w') :
  w'.Past
  := kept_past.step (fun _ _ h => h) (fun _ h p hp => Nat.le_succ_of_le (h p hp)) env h e w' hstep

theorem mem_inserted_step {r : Insertion} (h : r ∈ w.inserted) {e : WheelEvent}
    (hstep : step env w e = .ok w') :
  r ∈ w'.inserted
  := (kept_mem_inserted r).step (fun _ _ h => h) (fun _ h => h) env h e w' hstep

theorem Steady.of_step (h : w.Steady) {e : WheelEvent} (hstep : step env w e = .ok w') :
  w'.Steady
  := by
  have hholds := steady_step env h e
  rw [hstep] at hholds
  exact hholds

theorem clockStep_snd (clock : Int × Nat) (now : Int) :
  (clockStep clock now).2 = clock.2 ∨ (clockStep clock now).2 = clock.2 + 1
  := by
  rw [clockStep]
  by_cases hshort : now - (if clock.1 = 0 then now else clock.1) < 1000
  · left
    rw [if_pos hshort]
  · right
    rw [if_neg hshort]

theorem past_run {events : List WheelEvent} (hrun : TimingWheel.run env events = .ok w) :
  w.Past
  := by
  have hempty : create.Past
    := by
    rintro p ⟨⟩
  apply succeeds_foldlM (fun w e hw => ?_) events hempty w hrun
  intro w' hw'
  exact past_step hw hw'

/-- There is at most one tick in an event. -/
theorem tick_step {e : WheelEvent} (h : step env w e = .ok w') :
  w'.tick = w.tick ∨ w'.tick = w.tick + 1
  := by
  have hclock := congrArg Prod.snd (clockOf_step h)
  cases e with
  | call c => exact .inl hclock
  | timer now =>
      rcases clockStep_snd (clockOf w) now with hsame | hnext
      · exact .inl (hclock.trans hsame)
      · exact .inr (hclock.trans hnext)

/-- A call is in the history when it succeeds, and there was no tick. -/
theorem mem_inserted_call {c : WheelCall} (h : step env w (.call c) = .ok w') :
  ⟨w.inserted.length, c.delay, w.tick, false⟩ ∈ w'.inserted ∧ w'.tick = w.tick
  := by
  constructor
  · have hmark : ⟨w.inserted.length, c.delay, w.tick, false⟩ ∈
        (w.markInserted false c.delay).inserted
      := List.mem_append_right _ (List.mem_singleton_self _)
    rw [step, call] at h
    split at h
    · split at h
      · cases h
      · cases h
        exact hmark
    · exact (kept_mem_inserted _).insertEntry hmark _ _ w' h
  · exact congrArg Prod.snd (clockOf_step h)

/-- A copy with a delay below a minute is in its slot until the tick of its delay, and no
longer. -/
theorem held_iff (h : w.Steady) (hpast : w.Past) {r : Insertion} (hr : r ∈ w.inserted)
    (hdelay : r.delay.toNat < 60) :
  w.held r.token = true ↔ w.tick < r.tick + r.delay.toNat
  := by
  have hdue := due_of_second hdelay
  rw [held, List.any_eq_true]
  constructor
  · rintro ⟨e, he, htoken⟩
    rw [← RotatingWheel.map_snd_schedule _ w.tick] at he
    obtain ⟨p, hp, rfl⟩ := List.mem_map.mp he
    have hagenda : (p.1, p.2.token) ∈ w.agenda (w.tick / 60)
      := List.mem_append_left _ (List.mem_map.mpr ⟨p, hp, rfl⟩)
    obtain ⟨r', hr', hdue', htoken'⟩ := mem_expected.mp (h.accounted.mem_iff.mpr
      (List.mem_append_right _ (List.mem_append_left _ hagenda)))
    cases token_inj h.tokens hr' hr (htoken'.trans (beq_iff_eq.mp htoken))
    have hturn : p.1 = r.tick + r.delay.toNat := Option.some.inj (hdue'.symm.trans hdue)
    rw [← hturn]
    exact RotatingWheel.lt_of_mem_schedule hp
  · intro hlt
    have hexpected : (r.tick + r.delay.toNat, r.token) ∈ w.expected
      := mem_expected.mpr ⟨r, hr, hdue, rfl⟩
    rw [h.accounted.mem_iff, List.append_nil, agenda] at hexpected
    rcases List.mem_append.mp hexpected with hreleased | hpending
    · exact absurd (hpast _ hreleased) (Nat.not_le_of_lt hlt)
    · rcases List.mem_append.mp hpending with hsecond | hminute
      · obtain ⟨p, hp, heq⟩ := List.mem_map.mp hsecond
        use p.2
        constructor
        · rw [← RotatingWheel.map_snd_schedule _ w.tick]
          exact List.mem_map.mpr ⟨p, hp, rfl⟩
        · exact beq_iff_eq.mpr (congrArg Prod.snd heq)
      · -- only closures of other entries are in the wheel of minutes
        obtain ⟨p, hp, heq⟩ := List.mem_map.mp hminute
        have hmem : p.2 ∈ (w.wheels .minute).flatten
          := by
          rw [← RotatingWheel.map_snd_schedule _ (w.tick / 60)]
          exact List.mem_map.mpr ⟨p, hp, rfl⟩
        obtain ⟨r', hr', t, hlater, htoken, hle, -⟩ := h.minute_origin p.2 hmem
        have hsame : p.2.token = r.token := congrArg Prod.snd heq
        rw [hlater] at hsame
        cases token_inj h.tokens hr' hr (htoken.symm.trans hsame)
        exact absurd hdelay (Nat.not_lt_of_le hle)

end TimingWheel

/-- A connection that is watched, at the loop with its wheel. `copies` are the tokens of the
insertions of its entry, and `lastInsertion` is the tick of the last one; `object` is whether the
connection exists. Of the ticks at which the entry was destroyed and `OnTimeout` ran there is a
history. -/
structure IdleConnection where
  wheel : TimingWheel
  maxIdleTime : UInt32 := 30
  copies : List Nat := []
  closed : Bool := false
  object : Bool := true
  lastInsertion : Nat := 0
  destroyed : List Nat := []
  timeouts : List Nat := []

/-- What happens at the loop: something to the wheel, `OnRead` or `OnWrite` of the connection,
its `OnClose`, and its end. -/
inductive IdleEvent where
  | wheel (e : WheelEvent)
  | activity
  | close
  | destroy

namespace IdleConnection

/-- `timeout_entry_.lock()` gives the entry. -/
def alive (c : IdleConnection) : Bool := c.copies.any c.wheel.held

/-- `InsertEntry` with the entry. -/
def insert (c : IdleConnection) : Except WheelFault IdleConnection := do
  let wheel ← c.wheel.call false (.insertEntry c.maxIdleTime)
  .ok { c with
    wheel := wheel
    copies := c.copies ++ [c.wheel.inserted.length]
    lastInsertion := c.wheel.tick }

/-- `EnableCheckIdleTimeout`. -/
def enableCheckIdleTimeout (wheel : TimingWheel) (maxTime : UInt32) :
    Except WheelFault IdleConnection :=
  insert { wheel := wheel, maxIdleTime := maxTime }

/-- `ExtendLife`. -/
def extendLife (c : IdleConnection) : Except WheelFault IdleConnection :=
  if c.alive then c.insert else .ok c

/-- The destructor of `TimeoutEntry`, with `OnTimeout`. -/
def entryDestroyed (c : IdleConnection) : IdleConnection :=
  let c := { c with destroyed := c.destroyed ++ [c.wheel.tick] }
  if c.object then { c with timeouts := c.timeouts ++ [c.wheel.tick], closed := true } else c

def step (env : Callbacks) (c : IdleConnection) : IdleEvent → Except WheelFault IdleConnection
  | .wheel e => do
      let wheel ← c.wheel.step env e
      let c' := { c with wheel := wheel }
      .ok (if c.alive && !c'.alive then c'.entryDestroyed else c')
  | .activity => if c.closed then .ok c else c.extendLife
  | .close => .ok { c with closed := true }
  | .destroy => .ok { c with closed := true, object := false }

/-- The loop runs, the connection is watched from some time on, and the loop goes on. -/
def run (env : Callbacks) (before : List WheelEvent) (maxTime : UInt32)
    (events : List IdleEvent) : Except WheelFault IdleConnection := do
  let wheel ← TimingWheel.run env before
  let c ← enableCheckIdleTimeout wheel maxTime
  events.foldlM (step env) c

/-- When the entry is due, unless it is inserted again. -/
def due (c : IdleConnection) : Nat := c.lastInsertion + c.maxIdleTime.toNat

/-- The copies of the entry are those of the insertions, the last one among them. -/
structure Copied (c : IdleConnection) : Prop where
  steady : c.wheel.Steady
  past : c.wheel.Past
  inserted : ∀ token ∈ c.copies, ∃ r ∈ c.wheel.inserted, r.token = token ∧
    r.delay = c.maxIdleTime ∧ r.tick ≤ c.lastInsertion
  last : ∃ r ∈ c.wheel.inserted, r.token ∈ c.copies ∧ r.delay = c.maxIdleTime ∧
    r.tick = c.lastInsertion
  last_le : c.lastInsertion ≤ c.wheel.tick

/-- The entry was destroyed when it was due, and no earlier, and then `OnTimeout` ran. -/
structure Watched (c : IdleConnection) : Prop extends Copied c where
  destroyed : c.destroyed = if c.wheel.tick < c.due then [] else [c.due]
  timeouts : c.object = true → c.timeouts = c.destroyed
  closed : c.timeouts ≠ [] → c.closed = true

variable {env : Callbacks} {c c' : IdleConnection}

/-- The entry is alive until it is due. -/
theorem Copied.alive_iff (h : c.Copied) (hlt : c.maxIdleTime.toNat < 60) :
  c.alive = true ↔ c.wheel.tick < c.due
  := by
  rw [alive, List.any_eq_true]
  constructor
  · rintro ⟨token, htoken, hheld⟩
    obtain ⟨r, hr, rfl, hdelay, htick⟩ := h.inserted token htoken
    rw [held_iff h.steady h.past hr (by rw [hdelay]; exact hlt), hdelay] at hheld
    exact Nat.lt_of_lt_of_le hheld (Nat.add_le_add_right htick _)
  · intro hdue
    obtain ⟨r, hr, hcopy, hdelay, htick⟩ := h.last
    use r.token, hcopy
    rw [held_iff h.steady h.past hr (by rw [hdelay]; exact hlt), hdelay, htick]
    exact hdue

theorem Copied.withWheel (h : c.Copied) {e : WheelEvent} {wheel : TimingWheel}
    (hstep : c.wheel.step env e = .ok wheel) :
  Copied { c with wheel := wheel }
  where
  steady := h.steady.of_step hstep
  past := past_step h.past hstep
  inserted := by
    intro token htoken
    obtain ⟨r, hr, hcopy⟩ := h.inserted token htoken
    exact ⟨r, mem_inserted_step hr hstep, hcopy⟩
  last := by
    obtain ⟨r, hr, hlast⟩ := h.last
    exact ⟨r, mem_inserted_step hr hstep, hlast⟩
  last_le := by
    have hlast := h.last_le
    rcases tick_step hstep with htick | htick
    · exact htick ▸ hlast
    · exact htick ▸ Nat.le_succ_of_le hlast

theorem maxIdleTime_entryDestroyed (c : IdleConnection) :
  c.entryDestroyed.maxIdleTime = c.maxIdleTime
  := by
  rw [IdleConnection.entryDestroyed]
  split
  · rfl
  · rfl

/-- The entry is destroyed when it is due. -/
theorem Copied.entryDestroyed (h : c.Copied) (hdue : c.wheel.tick = c.due)
    (hnone : c.destroyed = []) (htimeouts : c.object = true → c.timeouts = [])
    (hclosed : c.timeouts ≠ [] → c.closed = true) :
  Watched c.entryDestroyed
  := by
  have honce : c.destroyed ++ [c.wheel.tick] = if c.wheel.tick < c.due then [] else [c.due]
    := by rw [hnone, hdue, if_neg (Nat.lt_irrefl _), List.nil_append]
  cases hobject : c.object with
  | true =>
      simp only [IdleConnection.entryDestroyed, hobject, if_true]
      refine ⟨⟨h.steady, h.past, h.inserted, h.last, h.last_le⟩, honce, ?_, fun _ => rfl⟩
      intro _
      change c.timeouts ++ _ = c.destroyed ++ _
      rw [htimeouts hobject, hnone]
  | false =>
      simp only [IdleConnection.entryDestroyed, hobject, Bool.false_eq_true, if_false]
      exact ⟨⟨h.steady, h.past, h.inserted, h.last, h.last_le⟩, honce, nofun, hclosed⟩

/-- What happens to the wheel. -/
theorem Watched.withWheel (h : c.Watched) (hlt : c.maxIdleTime.toNat < 60) {e : WheelEvent}
    {wheel : TimingWheel} (hstep : c.wheel.step env e = .ok wheel) :
  Watched (if c.alive && !alive { c with wheel := wheel } then
    IdleConnection.entryDestroyed { c with wheel := wheel } else { c with wheel := wheel })
  := by
  have hcopied := h.toCopied.withWheel hstep
  have hbefore := h.alive_iff hlt
  have hafter := hcopied.alive_iff hlt
  have htick := tick_step hstep
  have hsame : { c with wheel := wheel }.due = c.due := rfl
  rw [hsame] at hafter
  dsimp only at hafter
  by_cases hdue : wheel.tick < c.due
  · -- the entry is alive, as before
    rw [hafter.mpr hdue, Bool.not_true, Bool.and_false, if_neg Bool.false_ne_true]
    refine ⟨hcopied, ?_, h.timeouts, h.closed⟩
    have hnone := h.destroyed
    rw [if_pos (by omega)] at hnone
    exact hnone.trans (if_pos hdue).symm
  · have hgone : alive { c with wheel := wheel } = false
      := Bool.eq_false_iff.mpr (mt hafter.mp hdue)
    by_cases hold : c.wheel.tick < c.due
    · -- this is the tick at which it is due
      have hnone := h.destroyed
      rw [if_pos hold] at hnone
      rw [hbefore.mpr hold, hgone, Bool.not_false, Bool.and_self, if_pos rfl]
      apply hcopied.entryDestroyed
      · change wheel.tick = c.due
        omega
      · exact hnone
      · intro hobject
        exact (h.timeouts hobject).trans hnone
      · exact h.closed
    · have hdead : c.alive = false := Bool.eq_false_iff.mpr (mt hbefore.mp hold)
      rw [hdead, Bool.false_and, if_neg Bool.false_ne_true]
      refine ⟨hcopied, ?_, h.timeouts, h.closed⟩
      have honce := h.destroyed
      rw [if_neg hold] at honce
      exact honce.trans (if_neg hdue).symm

/-- An insertion puts off when the entry is due. -/
theorem watched_insert (hsteady : c.wheel.Steady) (hpast : c.wheel.Past)
    (hinserted : ∀ token ∈ c.copies, ∃ r ∈ c.wheel.inserted, r.token = token ∧
      r.delay = c.maxIdleTime ∧ r.tick ≤ c.wheel.tick)
    (hpos : 0 < c.maxIdleTime.toNat) (hnone : c.destroyed = [])
    (htimeouts : c.object = true → c.timeouts = c.destroyed)
    (hclosed : c.timeouts ≠ [] → c.closed = true) (h : c.insert = .ok c') :
  c'.Watched ∧ c'.maxIdleTime = c.maxIdleTime
  := by
  rw [insert] at h
  obtain ⟨wheel, hcall, hset⟩ := exists_of_bind h
  cases hset
  have hstep : c.wheel.step quiet (.call (.insertEntry c.maxIdleTime)) = .ok wheel := hcall
  obtain ⟨hnew, htick⟩ := mem_inserted_call hstep
  refine ⟨⟨⟨hsteady.of_step hstep, past_step hpast hstep, ?_, ?_, ?_⟩, ?_, htimeouts, hclosed⟩,
    rfl⟩
  · intro token htoken
    rcases List.mem_append.mp htoken with hold | hlast
    · obtain ⟨r, hr, hcopy⟩ := hinserted token hold
      exact ⟨r, mem_inserted_step hr hstep, hcopy⟩
    · cases List.mem_singleton.mp hlast
      exact ⟨_, hnew, rfl, rfl, Nat.le_refl _⟩
  · exact ⟨_, hnew, List.mem_append_right _ (List.mem_singleton_self _), rfl, rfl⟩
  · exact Nat.le_of_eq htick.symm
  · have hlater : wheel.tick < c.wheel.tick + c.maxIdleTime.toNat
      := by omega
    exact hnone.trans (if_pos hlater).symm

/-- Nothing is inserted any more when the entry was destroyed. -/
def Settled (c c' : IdleConnection) : Prop :=
  c.destroyed ≠ [] → c'.copies = c.copies ∧ c'.destroyed = c.destroyed

theorem Watched.not_alive (h : c.Watched) (hlt : c.maxIdleTime.toNat < 60)
    (hgone : c.destroyed ≠ []) :
  c.alive = false
  := by
  apply Bool.eq_false_iff.mpr
  intro halive
  have hnone := h.destroyed
  rw [if_pos ((h.alive_iff hlt).mp halive)] at hnone
  exact hgone hnone

/-- One event. -/
theorem Watched.step (h : c.Watched) (hpos : 0 < c.maxIdleTime.toNat)
    (hlt : c.maxIdleTime.toNat < 60) {e : IdleEvent} (hstep : c.step env e = .ok c') :
  c'.Watched ∧ c'.maxIdleTime = c.maxIdleTime ∧ Settled c c'
  := by
  cases e with
  | wheel e =>
      rw [IdleConnection.step] at hstep
      obtain ⟨wheel, hwheel, hdone⟩ := exists_of_bind hstep
      have hwatched := h.withWheel hlt hwheel
      cases hdone
      refine ⟨hwatched, ?_, ?_⟩
      · split
        · apply maxIdleTime_entryDestroyed
        · rfl
      · intro hgone
        rw [h.not_alive hlt hgone, Bool.false_and, if_neg Bool.false_ne_true]
        exact ⟨rfl, rfl⟩
  | activity =>
      rw [IdleConnection.step] at hstep
      split at hstep
      next hclosed =>
        cases hstep
        exact ⟨h, rfl, fun _ => ⟨rfl, rfl⟩⟩
      next hopen =>
        rw [extendLife] at hstep
        split at hstep
        next halive =>
          have hnone := h.destroyed
          rw [if_pos ((h.alive_iff hlt).mp halive)] at hnone
          have hinserted : ∀ token ∈ c.copies, ∃ r ∈ c.wheel.inserted, r.token = token ∧
              r.delay = c.maxIdleTime ∧ r.tick ≤ c.wheel.tick
            := by
            intro token htoken
            obtain ⟨r, hr, hsame, hdelay, htick⟩ := h.inserted token htoken
            exact ⟨r, hr, hsame, hdelay, Nat.le_trans htick h.last_le⟩
          obtain ⟨hwatched, hidle⟩ := watched_insert h.steady h.past hinserted hpos hnone
            h.timeouts h.closed hstep
          exact ⟨hwatched, hidle, fun hgone => absurd hnone hgone⟩
        next =>
          cases hstep
          exact ⟨h, rfl, fun _ => ⟨rfl, rfl⟩⟩
  | close =>
      cases hstep
      exact ⟨⟨⟨h.steady, h.past, h.inserted, h.last, h.last_le⟩, h.destroyed, h.timeouts,
        fun _ => rfl⟩, rfl, fun _ => ⟨rfl, rfl⟩⟩
  | destroy =>
      cases hstep
      exact ⟨⟨⟨h.steady, h.past, h.inserted, h.last, h.last_le⟩, h.destroyed, nofun,
        fun _ => rfl⟩, rfl, fun _ => ⟨rfl, rfl⟩⟩

/-- All that happens from some time on. The induction is on the events. -/
theorem Watched.foldlM (h : c.Watched) (hpos : 0 < c.maxIdleTime.toNat)
    (hlt : c.maxIdleTime.toNat < 60) {events : List IdleEvent}
    (hrun : events.foldlM (IdleConnection.step env) c = .ok c') :
  c'.Watched ∧ c'.maxIdleTime = c.maxIdleTime ∧ Settled c c'
  := by
  induction events generalizing c with
  | nil =>
      cases hrun
      exact ⟨h, rfl, fun _ => ⟨rfl, rfl⟩⟩
  | cons e events ih =>
      rw [List.foldlM_cons] at hrun
      obtain ⟨c₁, hstep, hrest⟩ := exists_of_bind hrun
      obtain ⟨hwatched, hidle, hsettled⟩ := h.step hpos hlt hstep
      obtain ⟨hwatched', hidle', hsettled'⟩ := ih hwatched (by rw [hidle]; exact hpos)
        (by rw [hidle]; exact hlt) hrest
      refine ⟨hwatched', hidle'.trans hidle, ?_⟩
      intro hgone
      obtain ⟨hcopies, hdestroyed⟩ := hsettled hgone
      obtain ⟨hcopies', hdestroyed'⟩ := hsettled' (by rw [hdestroyed]; exact hgone)
      exact ⟨hcopies'.trans hcopies, hdestroyed'.trans hdestroyed⟩

/-- A connection is watched as soon as the check is enabled, whatever happened at the loop. -/
theorem watched_enable {before : List WheelEvent} {wheel : TimingWheel}
    (hbefore : TimingWheel.run env before = .ok wheel) {maxTime : UInt32}
    (hpos : 0 < maxTime.toNat) (h : enableCheckIdleTimeout wheel maxTime = .ok c) :
  c.Watched ∧ c.maxIdleTime = maxTime
  := by
  have hsteady := holds_run env before
  rw [hbefore] at hsteady
  apply watched_insert (c := { wheel := wheel, maxIdleTime := maxTime }) hsteady (past_run hbefore)
    _ hpos rfl (fun _ => rfl) (fun hnone => absurd rfl hnone) h
  rintro token ⟨⟩

/-- Whatever happened at the loop before the check was enabled and happens there from then on,
the entry of a connection is alive until `maxTime` ticks after the last insertion; at this tick
it is destroyed, and `OnTimeout` closes the connection if it still exists; and then the entry is
not inserted again. -/
theorem destroyed_of_run {before : List WheelEvent} {maxTime : UInt32} {events : List IdleEvent}
    (hpos : 1 ≤ maxTime.toNat) (hlt : maxTime.toNat ≤ 59)
    (hrun : run env before maxTime events = .ok c) :
  (c.alive = true ↔ c.wheel.tick < c.lastInsertion + maxTime.toNat) ∧
    c.destroyed = (if c.wheel.tick < c.lastInsertion + maxTime.toNat then []
      else [c.lastInsertion + maxTime.toNat]) ∧
    (c.object = true → c.timeouts = c.destroyed) ∧ (c.timeouts ≠ [] → c.closed = true) ∧
    ∀ (later : List IdleEvent) (c' : IdleConnection),
      later.foldlM (IdleConnection.step env) c = .ok c' → c.destroyed ≠ [] →
        c'.copies = c.copies ∧ c'.destroyed = c.destroyed
  := by
  rw [run] at hrun
  obtain ⟨wheel, hbefore, hrest⟩ := exists_of_bind hrun
  obtain ⟨c₀, henable, hevents⟩ := exists_of_bind hrest
  obtain ⟨hstart, hidle⟩ := watched_enable hbefore hpos henable
  obtain ⟨hwatched, hidle', -⟩ := hstart.foldlM (by rw [hidle]; exact hpos)
    (by rw [hidle]; omega) hevents
  have hmax : c.maxIdleTime = maxTime := hidle'.trans hidle
  rw [← hmax] at hpos hlt ⊢
  refine ⟨hwatched.alive_iff (by omega), hwatched.destroyed, hwatched.timeouts,
    hwatched.closed, ?_⟩
  intro later c' hlater
  exact (hwatched.foldlM hpos (by omega) hlater).2.2

/-- Reads at once and after one tick, and two more ticks. -/
def readTwice : List IdleEvent :=
  [.activity, .wheel (.timer 1001), .activity, .activity, .wheel (.timer 2001),
    .wheel (.timer 3001), .activity]

theorem destroyed_of_run_readTwice :
  ∃ c, run quiet [.timer 1] 2 readTwice = .ok c ∧ c.destroyed = [3] ∧ c.closed = true
  := by
  have hrun : ∃ c, run quiet [.timer 1] 2 readTwice = .ok c ∧ c.wheel.tick = 3 ∧
      c.lastInsertion = 1 ∧ c.object = true
    := ⟨_, rfl, rfl, rfl, rfl⟩
  obtain ⟨c, hc, htick, hlast, hobject⟩ := hrun
  obtain ⟨-, hdestroyed, htimeouts, hclosed, -⟩ :=
    @destroyed_of_run quiet _ _ 2 readTwice (by decide) (by decide) hc
  have hdue : (2 : UInt32).toNat = 2 := rfl
  rw [htick, hlast, hdue, if_neg (by decide)] at hdestroyed
  refine ⟨c, hc, hdestroyed, hclosed ?_⟩
  rw [htimeouts hobject, hdestroyed]
  exact List.cons_ne_nil _ _

end IdleConnection
