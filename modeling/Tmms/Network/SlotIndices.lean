import Tmms.Network.Punctuality

/-!
# The slots of an insertion

`InsertEntry` subtracts one from a number of seconds, minutes, hours or days, and looks for the
slot with that index in one of the wheels.  Of a delay of 0 it makes the largest 32-bit number.
A caller can give such a delay, and a closure of the wheel of minutes makes one of every delay
of whole minutes.
-/

namespace TimingWheel

/-- The wheel, and the index in it, that `InsertEntry` uses. -/
def slotOf (delay : UInt32) : Option (TimingType × UInt32) :=
  if delay < kTimingMinute then
    some (.second, delay - 1)
  else if delay < kTimingHour then
    some (.minute, delay / kTimingMinute - 1)
  else if delay < kTimingDay then
    some (.hour, delay / kTimingHour - 1)
  else if tooLong delay then
    none
  else
    some (.day, delay / kTimingDay - 1)

/-- The wheels are as large as the constructor makes them. -/
def FullSize (w : TimingWheel) : Prop :=
  ∀ type, (w.wheels type).length = (create.wheels type).length

/-- An insertion uses an index inside its wheel, and with a delay of 0 stores nothing. -/
def Inside (w : TimingWheel) (delay : UInt32) (t : Timer) : Prop :=
  (∀ type i, slotOf delay = some (type, i) → i.toNat < (w.wheels type).length) ∧
    ∃ w', w.insertEntry delay t = .ok w' ∧ (delay = 0 → w'.wheels = w.wheels)

/-- A delay of 0, or one of whole minutes below an hour, of which the wheel of minutes makes a
delay of 0. -/
def Vanishes (delay : UInt32) : Prop :=
  delay.toNat = 0 ∨ (60 ≤ delay.toNat ∧ delay.toNat < 3600 ∧ delay.toNat % 60 = 0)

/-- A run that ended with an entry of more than 30 days. It was dropped, for no slot was looked
for. -/
def Dropped (f : WheelFault) : Prop :=
  ∃ r ∈ f.wheel.inserted, r.token = f.token ∧ tooLong r.delay = true

theorem harmful_iff (delay : UInt32) :
  Harmful delay ↔ Vanishes delay ∨ tooLong delay = true
  := or_assoc.symm

/-- An entry is stored in this slot, or dropped if there is none. -/
theorem insertEntry_slotOf (w : TimingWheel) (delay : UInt32) (t : Timer) :
  match slotOf delay with
  | none => w.insertEntry delay t = .ok w
  | some (type, i) => ∃ entry, w.insertEntry delay t = w.emplace type i t entry
  := by
  rw [slotOf, insertEntry]
  by_cases hsecond : delay < kTimingMinute
  · rw [if_pos hsecond, if_pos hsecond]
    exact ⟨_, rfl⟩
  rw [if_neg hsecond, if_neg hsecond]
  by_cases hminute : delay < kTimingHour
  · rw [if_pos hminute, if_pos hminute]
    exact ⟨_, rfl⟩
  rw [if_neg hminute, if_neg hminute]
  by_cases hhour : delay < kTimingDay
  · rw [if_pos hhour, if_pos hhour]
    exact ⟨_, rfl⟩
  rw [if_neg hhour, if_neg hhour]
  by_cases hlong : tooLong delay = true
  · rw [if_pos hlong, if_pos hlong]
  · rw [if_neg hlong, if_neg hlong]
    exact ⟨_, rfl⟩

/-- The index is inside for every delay but 0. -/
theorem lt_length_of_slotOf {w : TimingWheel} (hsize : w.FullSize) {delay : UInt32}
    (hpos : delay ≠ 0) {type : TimingType} {i : UInt32} (h : slotOf delay = some (type, i)) :
  i.toNat < (w.wheels type).length
  := by
  have hpos' : 0 < delay.toNat
    := Nat.pos_of_ne_zero fun hzero => hpos (UInt32.toNat_inj.mp hzero)
  rw [hsize]
  rw [slotOf] at h
  split at h
  next hsecond =>
    cases h
    rw [lt_kTimingMinute] at hsecond
    rw [toNat_pred hpos', show (create.wheels .second).length = 60 from rfl]
    omega
  next hsecond =>
    rw [lt_kTimingMinute] at hsecond
    split at h
    next hminute =>
      cases h
      rw [lt_kTimingHour] at hminute
      rw [toNat_div_unit_pred (Nat.le_of_not_lt hsecond) (by decide),
        show (create.wheels .minute).length = 60 from rfl, show kTimingMinute.toNat = 60 from rfl]
      omega
    next hminute =>
      rw [lt_kTimingHour] at hminute
      split at h
      next hhour =>
        cases h
        have hlt : delay.toNat < 86400 := UInt32.lt_iff_toNat_lt.mp hhour
        rw [toNat_div_unit_pred (Nat.le_of_not_lt hminute) (by decide),
          show (create.wheels .hour).length = 24 from rfl, show kTimingHour.toNat = 3600 from rfl]
        omega
      next hhour =>
        have hle : 86400 ≤ delay.toNat
          := Nat.le_of_not_lt fun hlt => hhour (UInt32.lt_iff_toNat_lt.mpr hlt)
        split at h
        next => cases h
        next hlong =>
          cases h
          rw [tooLong_iff] at hlong
          rw [@toNat_div_unit_pred delay kTimingDay hle (by decide),
            show (create.wheels .day).length = 30 from rfl,
            show kTimingDay.toNat = 86400 from rfl]
          omega

/-- An insertion is inside for every delay but 0, whether a caller gives it or it is the rest of
one. -/
theorem inside_iff {w : TimingWheel} (hsize : w.FullSize) (delay : UInt32) (t : Timer) :
  Inside w delay t ↔ delay ≠ 0
  := by
  constructor
  · rintro ⟨hinside, -⟩ rfl
    have hlt := hinside .second (0 - 1) rfl
    rw [hsize] at hlt
    exact absurd hlt (by decide)
  · intro hpos
    constructor
    · intro type i h
      apply lt_length_of_slotOf hsize hpos h
    · have hinserted := w.insertEntry_slotOf delay t
      cases hslot : slotOf delay with
      | none =>
          rw [hslot] at hinserted
          use w, hinserted
          intro _
          rfl
      | some slot =>
          obtain ⟨type, i⟩ := slot
          rw [hslot] at hinserted
          obtain ⟨entry, hentry⟩ := hinserted
          obtain ⟨bq, -, hok⟩ := w.emplace_ok type t entry (lt_length_of_slotOf hsize hpos hslot)
          use w.setWheel type bq, hentry.trans hok
          intro hzero
          exact absurd hzero hpos

/-! ### Runs -/

theorem not_vanishes_of_tooLong {delay : UInt32} (h : tooLong delay = true) :
  ¬ Vanishes delay
  := by
  rw [tooLong_iff] at h
  rintro (hzero | ⟨-, hlt, -⟩)
  · omega
  · omega

/-- As long as a run goes on, the wheels are as large as they were, and nothing that vanishes
has come due. -/
theorem Steady.not_vanishes {w : TimingWheel} (h : w.Steady) {r : Insertion}
    (hr : r ∈ w.inserted) {due : Nat} (hdue : r.due = some due) (hle : due ≤ w.tick) :
  ¬ Vanishes r.delay
  := by
  intro hvanishes
  obtain ⟨r', hr', htoken, hserved⟩ := h.released_served _ (h.mem_released hr hdue hle)
  cases token_inj h.tokens hr' hr htoken
  exact not_vanishes_of_tooLong (hserved ((harmful_iff r.delay).mpr (.inl hvanishes))) hvanishes

/-- In a wheel of full size an insertion is inside exactly if the delay is not 0.  In every run
the wheels keep this size as long as it goes on, and it goes on until an entry comes due whose
delay vanishes, or one of more than 30 days makes `RunEvery` call itself. -/
theorem inside_of_run (env : Callbacks) (events : List WheelEvent) :
  (∀ w : TimingWheel, w.FullSize → ∀ delay t, Inside w delay t ↔ delay ≠ 0) ∧
    (∀ w, run env events = .ok w →
      w.FullSize ∧ ∀ r ∈ w.inserted, ∀ due ≤ w.tick, r.due = some due → ¬ Vanishes r.delay) ∧
    ((∀ r ∈ (run env events).wheel.inserted, ¬ Vanishes r.delay) →
      ∀ f, run env events = .error f → Dropped f)
  := by
  have hholds := holds_run env events
  refine ⟨fun w hsize delay t => inside_iff hsize delay t, ?_, ?_⟩
  · intro w hrun
    rw [hrun] at hholds
    have hsteady : w.Steady := hholds
    use hsteady.length_wheel
    intro r hr due hle hdue
    apply hsteady.not_vanishes hr hdue hle
  · intro hall f hrun
    rw [hrun] at hholds hall
    obtain ⟨r, hr, htoken, -, hharm⟩ := hholds.cause
    use r, hr, htoken
    apply ((harmful_iff r.delay).mp hharm).resolve_left
    apply hall r hr

/-- An entry that is run after a minute looks for a slot that does not exist. -/
theorem not_inside_callMinute :
  ¬ ∀ (env : Callbacks) (events : List WheelEvent), ∀ f, run env events = .error f → Dropped f
  := by
  intro h
  have hinserted : (run quiet callMinute).wheel.inserted = [⟨0, 60, 0, false⟩]
    := by decide +kernel
  cases hrun : run quiet callMinute with
  | ok w => exact absurd hrun (not_ok_callMinute w)
  | error f =>
      obtain ⟨r, hr, -, hlong⟩ := h quiet callMinute f hrun
      rw [hrun] at hinserted
      change f.wheel.inserted = _ at hinserted
      rw [hinserted] at hr
      cases List.mem_singleton.mp hr
      revert hlong
      decide

end TimingWheel
