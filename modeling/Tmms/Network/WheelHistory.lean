import Mathlib.Data.List.Nodup
import Tmms.Network.TimingWheel

/-!
# What a timing wheel has pending

An insertion says when its entry is due: the wheel of minutes turns at the multiples of 60, so
an entry with a delay of minutes is due as many turns later, and the rest of its delay after
that.  Entries in the wheels of hours and days are never due, since these do not turn.

Every entry that is due is accounted for once: it was released when it was due, or is in a slot
that is popped then (`Pending`).  A run keeps this up until it fails, and it fails only at the
due time of an entry with a delay that is harmful (`holds_run`).
-/

/-! ### Due times -/

namespace Insertion

/-- How often the wheel of minutes had turned. An entry that runs makes its calls before the
wheel of minutes turns. -/
def turn (r : Insertion) : Nat := (if r.inside then r.tick - 1 else r.tick) / 60

/-- The tick at which the entry is released, if it ever is. -/
def due (r : Insertion) : Option Nat :=
  if r.delay.toNat < 60 then
    some (r.tick + r.delay.toNat)
  else if r.delay.toNat < 3600 then
    some (60 * (r.turn + r.delay.toNat / 60) + r.delay.toNat % 60)
  else if TimingWheel.tooLong r.delay then
    some r.tick
  else
    none

/-- The due time with the token. -/
def dueEntry (r : Insertion) : Option (Nat × Nat) := r.due.map (·, r.token)

end Insertion

/-- A delay of 0, which leads to a slot that does not exist, one of whole minutes below an hour,
which leads to a delay of 0, or one that is too long. -/
def Harmful (delay : UInt32) : Prop :=
  delay.toNat = 0 ∨ (60 ≤ delay.toNat ∧ delay.toNat < 3600 ∧ delay.toNat % 60 = 0) ∨
    TimingWheel.tooLong delay = true

namespace WheelEntry

def token : WheelEntry → Nat
  | timer t => t.token
  | later _ t => t.token

/-- How long an entry stays after its slot was popped. -/
def rest : WheelEntry → Nat
  | timer _ => 0
  | later second _ => second.toNat

end WheelEntry

namespace TimingWheel

/-- What is due of the insertions so far. -/
def expected (w : TimingWheel) : List (Nat × Nat) := w.inserted.filterMap Insertion.dueEntry

/-- The due times of the entries in slots of the wheels that turn, after `m` turns of the wheel
of minutes. -/
def agenda (w : TimingWheel) (m : Nat) : List (Nat × Nat) :=
  ((w.wheels .second).schedule w.tick).map (fun p => (p.1, p.2.token)) ++
    ((w.wheels .minute).schedule m).map fun p => (60 * p.1 + p.2.rest, p.2.token)

/-- A token of an insertion that cannot fail, as its delay is not harmful or the entry was
released at once. -/
def Served (w : TimingWheel) (token : Nat) : Prop :=
  ∃ r ∈ w.inserted, r.token = token ∧ (Harmful r.delay → tooLong r.delay = true)

/-- A closure with the rest of a delay of minutes. -/
def Cascades (w : TimingWheel) (e : WheelEntry) : Prop :=
  ∃ r ∈ w.inserted, ∃ t : Timer, e = .later (r.delay % kTimingMinute) t ∧ t.token = r.token ∧
    60 ≤ r.delay.toNat ∧ r.delay.toNat < 3600

/-- The state of a wheel during a tick, with the insertions of a base. What is in flight was
popped, or inserted, and is not accounted for yet. -/
structure Pending (base : List Insertion) (tick m : Nat) (inflight : List (Nat × Nat))
    (w : TimingWheel) : Prop where
  kept : ∀ r ∈ base, r ∈ w.inserted
  tick_eq : w.tick = tick
  tokens : w.inserted.map Insertion.token = List.range w.inserted.length
  inside_pos : ∀ r ∈ w.inserted, r.inside = true → 0 < r.tick
  accounted : w.expected.Perm (w.released ++ (w.agenda m ++ inflight))
  length_wheel : ∀ type, (w.wheels type).length = (create.wheels type).length
  second_origin : ∀ e ∈ (w.wheels .second).flatten, ∃ t, e = .timer t ∧ w.Served t.token
  minute_origin : ∀ e ∈ (w.wheels .minute).flatten, w.Cascades e
  released_served : ∀ p ∈ w.released, w.Served p.2

/-- What holds where a run ends with a fault. -/
structure Faulty (f : WheelFault) : Prop where
  tokens : f.wheel.inserted.map Insertion.token = List.range f.wheel.inserted.length
  inside_pos : ∀ r ∈ f.wheel.inserted, r.inside = true → 0 < r.tick
  released_due : ∀ p ∈ f.wheel.released, p ∈ f.wheel.expected
  cause : ∃ r ∈ f.wheel.inserted, r.token = f.token ∧ r.due = some f.wheel.tick ∧
    Harmful r.delay

/-- What holds of a wheel, or of the fault that came before it. -/
def Holds (P : TimingWheel → Prop) : WheelOutcome → Prop
  | .ok w => P w
  | .error f => Faulty f

theorem Holds.bind {P Q : TimingWheel → Prop} {o : WheelOutcome}
    {f : TimingWheel → WheelOutcome} (h : Holds P o) (hf : ∀ w, P w → Holds Q (f w)) :
  Holds Q (o >>= f)
  := by
  cases o with
  | ok w => exact hf w h
  | error e => exact h

theorem mem_expected {w : TimingWheel} {p : Nat × Nat} :
  p ∈ w.expected ↔ ∃ r ∈ w.inserted, r.due = some p.1 ∧ r.token = p.2
  := by
  rw [expected, List.mem_filterMap]
  apply exists_congr
  intro r
  rw [Insertion.dueEntry, Option.map_eq_some_iff]
  constructor
  · rintro ⟨hr, _, hdue, rfl⟩
    exact ⟨hr, hdue, rfl⟩
  · rintro ⟨hr, hdue, htoken⟩
    exact ⟨hr, p.1, hdue, by rw [htoken]⟩

/-- A token is of one insertion. -/
theorem token_inj {inserted : List Insertion}
    (h : inserted.map Insertion.token = List.range inserted.length) {r r' : Insertion}
    (hr : r ∈ inserted) (hr' : r' ∈ inserted) (htoken : r.token = r'.token) :
  r = r'
  := by
  have hnodup : (inserted.map Insertion.token).Nodup
    := by
    rw [h]
    exact List.nodup_range
  exact List.inj_on_of_nodup_map hnodup hr hr' htoken

variable {base : List Insertion} {tick m : Nat} {inflight : List (Nat × Nat)} {w : TimingWheel}

theorem Pending.released_due (h : Pending base tick m inflight w) :
  ∀ p ∈ w.released, p ∈ w.expected
  := by
  intro p hp
  apply h.accounted.mem_iff.mpr
  exact List.mem_append_left _ hp

/-- A wheel fails at the due time of an entry with a harmful delay. -/
theorem Pending.faulty (h : Pending base tick m inflight w) {r : Insertion} (hr : r ∈ w.inserted)
    (hdue : r.due = some tick) (hharm : Harmful r.delay) :
  Faulty ⟨r.token, w⟩
  where
  tokens := h.tokens
  inside_pos := h.inside_pos
  released_due := h.released_due
  cause := ⟨r, hr, rfl, by rw [h.tick_eq]; exact hdue, hharm⟩

theorem Holds.imp {P Q : TimingWheel → Prop} {o : WheelOutcome} (h : Holds P o)
    (hpq : ∀ w, P w → Q w) :
  Holds Q o
  := by
  cases o with
  | ok w => exact hpq w h
  | error e => exact h

/-- The order of what is in flight does not matter. -/
theorem Pending.perm {inflight' : List (Nat × Nat)} (h : Pending base tick m inflight w)
    (hperm : inflight'.Perm inflight) :
  Pending base tick m inflight' w
  where
  kept := h.kept
  tick_eq := h.tick_eq
  tokens := h.tokens
  inside_pos := h.inside_pos
  accounted := h.accounted.trans ((hperm.symm.append_left _).append_left _)
  length_wheel := h.length_wheel
  second_origin := h.second_origin
  minute_origin := h.minute_origin
  released_served := h.released_served

/-! ### Delays -/

theorem lt_kTimingMinute (delay : UInt32) : delay < kTimingMinute ↔ delay.toNat < 60
  := UInt32.lt_iff_toNat_lt

theorem lt_kTimingHour (delay : UInt32) : delay < kTimingHour ↔ delay.toNat < 3600
  := UInt32.lt_iff_toNat_lt

theorem tooLong_iff (delay : UInt32) : tooLong delay = true ↔ 2678400 ≤ delay.toNat
  := by
  have hdiv : (delay / kTimingDay).toNat = delay.toNat / 86400 := UInt32.toNat_div _ _
  rw [tooLong, decide_eq_true_eq, gt_iff_lt, UInt32.lt_iff_toNat_lt, hdiv,
    show (30 : UInt32).toNat = 30 from rfl]
  omega

theorem toNat_pred {delay : UInt32} (h : 0 < delay.toNat) :
  (delay - 1).toNat = delay.toNat - 1
  := UInt32.toNat_sub_of_le _ _ (UInt32.le_iff_toNat_le.mpr h)

theorem toNat_div_unit_pred {delay unit : UInt32} (h : unit.toNat ≤ delay.toNat)
    (hunit : 0 < unit.toNat) :
  (delay / unit - 1).toNat = delay.toNat / unit.toNat - 1
  := by
  have hdiv : (delay / unit).toNat = delay.toNat / unit.toNat := UInt32.toNat_div _ _
  have hpos : 0 < (delay / unit).toNat
    := by
    rw [hdiv]
    exact Nat.div_pos h hunit
  rw [toNat_pred hpos, hdiv]

theorem toNat_mod_minute (delay : UInt32) :
  (delay % kTimingMinute).toNat = delay.toNat % 60
  := UInt32.toNat_mod _ _

/-! ### Inserting -/

/-- An entry goes into a slot that exists. -/
theorem emplace_ok (w : TimingWheel) (type : TimingType) {i : UInt32} (t : Timer)
    (entry : WheelEntry) (h : i.toNat < (w.wheels type).length) :
  ∃ bq, (w.wheels type).put i.toNat entry = some bq ∧
    w.emplace type i t entry = .ok (w.setWheel type bq)
  := by
  refine ⟨_, RotatingWheel.put_of_lt entry h, ?_⟩
  rw [emplace, RotatingWheel.put_of_lt entry h]

@[simp]
theorem setWheel_self (w : TimingWheel) (type : TimingType) (bq : RotatingWheel WheelEntry) :
  (w.setWheel type bq).wheels type = bq
  := Function.update_self _ _ _

theorem setWheel_other (w : TimingWheel) {type other : TimingType} (h : other ≠ type)
    (bq : RotatingWheel WheelEntry) :
  (w.setWheel type bq).wheels other = w.wheels other
  := Function.update_of_ne h _ _

theorem length_setWheel {w : TimingWheel}
    (h : ∀ type, (w.wheels type).length = (create.wheels type).length) {type : TimingType}
    {bq : RotatingWheel WheelEntry} (hbq : bq.length = (w.wheels type).length) :
  ∀ other, ((w.setWheel type bq).wheels other).length = (create.wheels other).length
  := by
  intro other
  by_cases hother : other = type
  · subst hother
    rw [setWheel_self, hbq, h]
  · rw [setWheel_other w hother, h]

/-- What was in flight is in the agenda. -/
theorem accounted_agenda {expected released agenda agenda' inflight : List (Nat × Nat)}
    {p : Nat × Nat} (h : expected.Perm (released ++ (agenda ++ p :: inflight)))
    (hagenda : agenda'.Perm (p :: agenda)) :
  expected.Perm (released ++ (agenda' ++ inflight))
  := by
  have hmoved : (agenda' ++ inflight).Perm (agenda ++ p :: inflight)
    := (hagenda.append_right inflight).trans List.perm_middle.symm
  exact h.trans (hmoved.symm.append_left released)

theorem agenda_second (w : TimingWheel) (m : Nat) {i : Nat} {t : Timer}
    {bq : RotatingWheel WheelEntry} (h : (w.wheels .second).put i (.timer t) = some bq) :
  ((w.setWheel .second bq).agenda m).Perm ((w.tick + i + 1, t.token) :: w.agenda m)
  := by
  have hput := (RotatingWheel.schedule_put w.tick h).map
    fun p : Nat × WheelEntry => (p.1, p.2.token)
  rw [agenda, setWheel_self, w.setWheel_other (by decide : TimingType.minute ≠ .second)]
  exact hput.append_right _

theorem agenda_minute (w : TimingWheel) (m : Nat) {i : Nat} {second : UInt32} {t : Timer}
    {bq : RotatingWheel WheelEntry} (h : (w.wheels .minute).put i (.later second t) = some bq) :
  ((w.setWheel .minute bq).agenda m).Perm
    ((60 * (m + i + 1) + second.toNat, t.token) :: w.agenda m)
  := by
  have hput := (RotatingWheel.schedule_put m h).map
    fun p : Nat × WheelEntry => (60 * p.1 + p.2.rest, p.2.token)
  rw [agenda, setWheel_self, w.setWheel_other (by decide : TimingType.second ≠ .minute)]
  exact (hput.append_left _).trans List.perm_middle

/-- An entry with a delay below a minute goes into the wheel of seconds. -/
theorem Pending.insertSecond {delay : UInt32} {t : Timer}
    (h : Pending base tick m ((tick + delay.toNat, t.token) :: inflight) w)
    (hpos : 0 < delay.toNat) (hlt : delay.toNat < 60) (ht : w.Served t.token) :
  ∃ w', w.insertEntry delay t = .ok w' ∧ Pending base tick m inflight w'
  := by
  have hindex : (delay - 1).toNat < (w.wheels .second).length
    := by
    rw [toNat_pred hpos, h.length_wheel, show (create.wheels .second).length = 60 from rfl]
    omega
  obtain ⟨bq, hput, hok⟩ := w.emplace_ok .second t (.timer t) hindex
  refine ⟨_, by rw [insertEntry, if_pos ((lt_kTimingMinute delay).mpr hlt)]; exact hok, ?_⟩
  have hminute : (w.setWheel .second bq).wheels .minute = w.wheels .minute
    := w.setWheel_other (by decide) bq
  constructor
  · exact h.kept
  · exact h.tick_eq
  · exact h.tokens
  · exact h.inside_pos
  · have hdue : w.tick + (delay - 1).toNat + 1 = tick + delay.toNat
      := by
      rw [toNat_pred hpos, h.tick_eq]
      omega
    apply accounted_agenda h.accounted
    rw [← hdue]
    exact w.agenda_second m hput
  · exact length_setWheel h.length_wheel (RotatingWheel.length_put hput)
  · intro e he
    rw [setWheel_self] at he
    rcases (RotatingWheel.mem_flatten_put hput e).mp he with rfl | hold
    · exact ⟨t, rfl, ht⟩
    · exact h.second_origin e hold
  · rw [hminute]
    exact h.minute_origin
  · exact h.released_served

/-- An entry with a delay of minutes goes into the wheel of minutes. -/
theorem Pending.insertMinute {delay : UInt32} {t : Timer}
    (h : Pending base tick m
      ((60 * (m + delay.toNat / 60) + delay.toNat % 60, t.token) :: inflight) w)
    (hle : 60 ≤ delay.toNat) (hlt : delay.toNat < 3600)
    (ht : w.Cascades (.later (delay % kTimingMinute) t)) :
  ∃ w', w.insertEntry delay t = .ok w' ∧ Pending base tick m inflight w'
  := by
  have hpred : (delay / kTimingMinute - 1).toNat = delay.toNat / 60 - 1
    := toNat_div_unit_pred hle (by decide)
  have hindex : (delay / kTimingMinute - 1).toNat < (w.wheels .minute).length
    := by
    rw [hpred, h.length_wheel, show (create.wheels .minute).length = 60 from rfl]
    omega
  obtain ⟨bq, hput, hok⟩ := w.emplace_ok .minute t (.later (delay % kTimingMinute) t) hindex
  have hnot : ¬ delay < kTimingMinute
    := by rw [lt_kTimingMinute]; exact Nat.not_lt_of_le hle
  refine ⟨_, by rw [insertEntry, if_neg hnot, if_pos ((lt_kTimingHour delay).mpr hlt)]; exact hok,
    ?_⟩
  have hsecond : (w.setWheel .minute bq).wheels .second = w.wheels .second
    := w.setWheel_other (by decide) bq
  constructor
  · exact h.kept
  · exact h.tick_eq
  · exact h.tokens
  · exact h.inside_pos
  · have hdue : m + (delay / kTimingMinute - 1).toNat + 1 = m + delay.toNat / 60
      := by
      rw [hpred]
      omega
    apply accounted_agenda h.accounted
    rw [← hdue, ← toNat_mod_minute]
    exact w.agenda_minute m hput
  · exact length_setWheel h.length_wheel (RotatingWheel.length_put hput)
  · rw [hsecond]
    exact h.second_origin
  · intro e he
    rw [setWheel_self] at he
    rcases (RotatingWheel.mem_flatten_put hput e).mp he with rfl | hold
    · exact ht
    · exact h.minute_origin e hold
  · exact h.released_served

/-- An entry with a delay of an hour or more goes into a wheel that does not turn. -/
theorem Pending.insertFar {delay : UInt32} (t : Timer) (h : Pending base tick m inflight w)
    (hle : 3600 ≤ delay.toNat) (hlong : ¬ tooLong delay = true) :
  ∃ w', w.insertEntry delay t = .ok w' ∧ Pending base tick m inflight w'
  := by
  have hnot : ¬ delay < kTimingMinute := by rw [lt_kTimingMinute]; omega
  have hnot' : ¬ delay < kTimingHour := by rw [lt_kTimingHour]; omega
  have houter : ∀ (type : TimingType) (bq : RotatingWheel WheelEntry), type ≠ .second →
      type ≠ .minute → bq.length = (w.wheels type).length →
      Pending base tick m inflight (w.setWheel type bq)
    := by
    intro type bq hsecond hminute hbq
    constructor
    · exact h.kept
    · exact h.tick_eq
    · exact h.tokens
    · exact h.inside_pos
    · rw [agenda, w.setWheel_other hsecond.symm, w.setWheel_other hminute.symm]
      exact h.accounted
    · exact length_setWheel h.length_wheel hbq
    · rw [w.setWheel_other hsecond.symm]
      exact h.second_origin
    · rw [w.setWheel_other hminute.symm]
      exact h.minute_origin
    · exact h.released_served
  by_cases hday : delay < kTimingDay
  · have hdelay : delay.toNat < 86400 := UInt32.lt_iff_toNat_lt.mp hday
    have hpred : (delay / kTimingHour - 1).toNat = delay.toNat / 3600 - 1
      := toNat_div_unit_pred hle (by decide)
    have hindex : (delay / kTimingHour - 1).toNat < (w.wheels .hour).length
      := by
      rw [hpred, h.length_wheel, show (create.wheels .hour).length = 24 from rfl]
      omega
    obtain ⟨bq, hput, hok⟩ := w.emplace_ok .hour t (.later (delay % kTimingHour) t) hindex
    refine ⟨_, by rw [insertEntry, if_neg hnot, if_neg hnot', if_pos hday]; exact hok, ?_⟩
    exact houter .hour bq (by decide) (by decide) (RotatingWheel.length_put hput)
  · have hdelay : 86400 ≤ delay.toNat
      := by
      rw [UInt32.lt_iff_toNat_lt] at hday
      exact Nat.le_of_not_lt hday
    have hpred : (delay / kTimingDay - 1).toNat = delay.toNat / 86400 - 1
      := toNat_div_unit_pred hdelay (by decide)
    have hindex : (delay / kTimingDay - 1).toNat < (w.wheels .day).length
      := by
      rw [tooLong_iff] at hlong
      rw [hpred, h.length_wheel, show (create.wheels .day).length = 30 from rfl]
      omega
    obtain ⟨bq, hput, hok⟩ := w.emplace_ok .day t (.later (delay % kTimingDay) t) hindex
    refine ⟨_, ?_, houter .day bq (by decide) (by decide) (RotatingWheel.length_put hput)⟩
    rw [insertEntry, if_neg hnot, if_neg hnot', if_neg hday, if_neg hlong]
    exact hok

/-- Without a delay there is no slot. -/
theorem Pending.insertZero {delay : UInt32} (t : Timer) (h : Pending base tick m inflight w)
    (hzero : delay.toNat = 0) :
  w.insertEntry delay t = .error ⟨t.token, w⟩
  := by
  have hdelay : delay = 0 := UInt32.toNat_inj.mp hzero
  have hnone : (w.wheels .second).put ((0 : UInt32) - 1).toNat (.timer t) = none
    := by
    apply RotatingWheel.put_of_le
    rw [h.length_wheel]
    decide
  rw [insertEntry, if_pos ((lt_kTimingMinute delay).mpr (by omega)), insertSecondEntry, hdelay,
    emplace, hnone]

/-! ### Calls -/

/-- An insertion is accounted for by what is in flight. -/
theorem Pending.markInserted (h : Pending base tick m inflight w) {inside : Bool}
    (hpos : inside = true → 0 < tick) (delay : UInt32) :
  Pending base tick m
    ((Insertion.dueEntry ⟨w.inserted.length, delay, tick, inside⟩).toList ++ inflight)
    (w.markInserted inside delay)
  := by
  have hsub : ∀ r ∈ w.inserted, r ∈ (w.markInserted inside delay).inserted
    := fun r hr => List.mem_append_left _ hr
  have hserved : ∀ token, w.Served token → (w.markInserted inside delay).Served token
    := by
    rintro token ⟨r, hr, hserved⟩
    exact ⟨r, hsub r hr, hserved⟩
  constructor
  · exact fun r hr => hsub r (h.kept r hr)
  · exact h.tick_eq
  · change List.map _ (w.inserted ++ _) = List.range (w.inserted ++ _).length
    rw [List.map_append, h.tokens, List.length_append, List.length_singleton, List.range_succ]
    rfl
  · intro r hr
    rcases List.mem_append.mp hr with hold | hnew
    · exact h.inside_pos r hold
    · cases List.mem_singleton.mp hnew
      rw [h.tick_eq]
      exact hpos
  · have hexpected : (w.markInserted inside delay).expected = w.expected ++
        (Insertion.dueEntry ⟨w.inserted.length, delay, tick, inside⟩).toList
      := by
      rw [expected, TimingWheel.markInserted, List.filterMap_append, h.tick_eq, expected]
      congr 1
    have hlast : (w.expected ++ _).Perm _ := h.accounted.append_right
      (Insertion.dueEntry ⟨w.inserted.length, delay, tick, inside⟩).toList
    rw [List.append_assoc, List.append_assoc] at hlast
    rw [hexpected]
    exact hlast.trans ((List.perm_append_comm.append_left _).append_left _)
  · exact h.length_wheel
  · intro e he
    obtain ⟨t, rfl, ht⟩ := h.second_origin e he
    exact ⟨t, rfl, hserved _ ht⟩
  · intro e he
    obtain ⟨r, hr, hlater⟩ := h.minute_origin e he
    exact ⟨r, hsub r hr, hlater⟩
  · intro p hp
    exact hserved _ (h.released_served p hp)

/-- A release at the due time. -/
theorem Pending.markReleased {token : Nat} (h : Pending base tick m ((tick, token) :: inflight) w)
    (ht : w.Served token) :
  Pending base tick m inflight (w.markReleased token)
  where
  kept := h.kept
  tick_eq := h.tick_eq
  tokens := h.tokens
  inside_pos := h.inside_pos
  accounted := by
    change w.expected.Perm ((w.released ++ [(w.tick, token)]) ++ (w.agenda m ++ inflight))
    have hmoved : (w.agenda m ++ (tick, token) :: inflight).Perm
        ((tick, token) :: (w.agenda m ++ inflight))
      := List.perm_middle
    rw [List.append_assoc, h.tick_eq]
    exact h.accounted.trans (hmoved.append_left _)
  length_wheel := h.length_wheel
  second_origin := h.second_origin
  minute_origin := h.minute_origin
  released_served := by
    intro p hp
    rcases List.mem_append.mp hp with hold | hnew
    · exact h.released_served p hold
    · cases List.mem_singleton.mp hnew
      exact ht

/-- A call keeps everything accounted for. -/
theorem Pending.call (h : Pending base tick m inflight w) (inside : Bool)
    (hpos : inside = true → 0 < tick) (hm : (if inside then tick - 1 else tick) / 60 = m)
    (c : WheelCall) :
  Holds (Pending base tick m inflight) (w.call inside c)
  := by
  have hmark := h.markInserted hpos c.delay
  have hmem : (⟨w.inserted.length, c.delay, tick, inside⟩ : Insertion) ∈
      (w.markInserted inside c.delay).inserted
    := by
    rw [TimingWheel.markInserted, h.tick_eq]
    exact List.mem_append_right _ (List.mem_singleton_self _)
  have hturn : Insertion.turn ⟨w.inserted.length, c.delay, tick, inside⟩ = m := hm
  rw [TimingWheel.call]
  by_cases hlong : tooLong c.delay = true
  · have hle := (tooLong_iff c.delay).mp hlong
    have hdue : Insertion.due ⟨w.inserted.length, c.delay, tick, inside⟩ = some tick
      := by
      rw [Insertion.due, if_neg (Nat.not_lt_of_le (Nat.le_trans (by decide) hle)),
        if_neg (Nat.not_lt_of_le (Nat.le_trans (by decide) hle)), if_pos hlong]
    rw [if_pos hlong]
    split
    · exact hmark.faulty hmem hdue (.inr (.inr hlong))
    · rw [Insertion.dueEntry, hdue] at hmark
      exact hmark.markReleased ⟨_, hmem, rfl, fun _ => hlong⟩
  · rw [if_neg hlong]
    by_cases hminute : c.delay.toNat < 60
    · have hdue : Insertion.due ⟨w.inserted.length, c.delay, tick, inside⟩ =
          some (tick + c.delay.toNat)
        := if_pos hminute
      rcases Nat.eq_zero_or_pos c.delay.toNat with hzero | hpos
      · rw [hmark.insertZero _ hzero]
        rw [hzero] at hdue
        exact hmark.faulty hmem hdue (.inl hzero)
      · rw [Insertion.dueEntry, hdue] at hmark
        have hserved : (w.markInserted inside c.delay).Served w.inserted.length
          := by
          refine ⟨_, hmem, rfl, ?_⟩
          rintro (hzero | hwhole | hlong')
          · exact absurd hzero (Nat.ne_of_gt hpos)
          · exact absurd hminute (Nat.not_lt_of_le hwhole.1)
          · exact hlong'
        obtain ⟨w', hok, hw'⟩ := hmark.insertSecond (t := ⟨_, c.interval⟩) hpos hminute hserved
        rw [hok]
        exact hw'
    · by_cases hhour : c.delay.toNat < 3600
      · have hle : 60 ≤ c.delay.toNat := Nat.le_of_not_lt hminute
        have hdue : Insertion.due ⟨w.inserted.length, c.delay, tick, inside⟩ =
            some (60 * (m + c.delay.toNat / 60) + c.delay.toNat % 60)
          := by rw [Insertion.due, if_neg hminute, if_pos hhour, hturn]
        rw [Insertion.dueEntry, hdue] at hmark
        obtain ⟨w', hok, hw'⟩ := hmark.insertMinute (t := ⟨_, c.interval⟩) hle hhour
          ⟨_, hmem, _, rfl, rfl, hle, hhour⟩
        rw [hok]
        exact hw'
      · have hdue : Insertion.due ⟨w.inserted.length, c.delay, tick, inside⟩ = none
          := by rw [Insertion.due, if_neg hminute, if_neg hhour, if_neg hlong]
        rw [Insertion.dueEntry, hdue] at hmark
        obtain ⟨w', hok, hw'⟩ := hmark.insertFar ⟨w.inserted.length, c.interval⟩
          (Nat.le_of_not_lt hhour) hlong
        rw [hok]
        exact hw'

/-! ### Releasing -/

theorem Pending.rebase (h : Pending base tick m inflight w) (base' : List Insertion)
    (hbase : ∀ r ∈ base', r ∈ w.inserted) :
  Pending base' tick m inflight w
  := { h with kept := hbase }

theorem Pending.calls (hpos : 0 < tick) (hm : (tick - 1) / 60 = m) (cs : List WheelCall)
    {w : TimingWheel} (h : Pending base tick m inflight w) :
  Holds (Pending base tick m inflight) (cs.foldlM (fun w c => w.call true c) w)
  := by
  induction cs generalizing w with
  | nil => exact h
  | cons c cs ih =>
      rw [List.foldlM_cons]
      have hcall : Holds (Pending base tick m inflight) (w.call true c)
        := h.call true (fun _ => hpos) hm c
      exact hcall.bind fun w' hw' => ih hw'

/-- The entries of a slot of seconds run one after the other. -/
theorem Pending.releaseSeconds (env : Callbacks) (hpos : 0 < tick) (hm : (tick - 1) / 60 = m)
    (es : List WheelEntry) {w : TimingWheel}
    (h : Pending base tick m (es.map fun e => (tick, e.token)) w)
    (hes : ∀ e ∈ es, ∃ t, e = .timer t ∧ ∃ r ∈ base, r.token = t.token ∧
      (Harmful r.delay → tooLong r.delay = true)) :
  Holds (Pending base tick m []) (es.foldlM (release env) w)
  := by
  induction es generalizing w with
  | nil => exact h
  | cons e es ih =>
      obtain ⟨t, rfl, r, hr, hserved⟩ := hes e List.mem_cons_self
      have hreleased := h.markReleased ⟨r, h.kept r hr, hserved⟩
      rw [List.foldlM_cons]
      apply (hreleased.calls hpos hm (callsOf env t)).bind
      intro w' hw'
      exact ih hw' fun e he => hes e (List.mem_cons_of_mem _ he)

/-- The closures of a slot of minutes insert their entries again. -/
theorem Pending.releaseMinutes (env : Callbacks) (es : List WheelEntry) {w : TimingWheel}
    (h : Pending base tick m (es.map fun e => (tick + e.rest, e.token)) w)
    (hes : ∀ e ∈ es, ∃ r ∈ base, ∃ t : Timer, e = .later (r.delay % kTimingMinute) t ∧
      t.token = r.token ∧ 60 ≤ r.delay.toNat ∧ r.delay.toNat < 3600) :
  Holds (Pending base tick m []) (es.foldlM (release env) w)
  := by
  induction es generalizing w with
  | nil => exact h
  | cons e es ih =>
      obtain ⟨r, hr, t, rfl, htoken, hle, hlt⟩ := hes e List.mem_cons_self
      have hrest := toNat_mod_minute r.delay
      have hpending : Pending base tick m ((tick + (r.delay % kTimingMinute).toNat, t.token) ::
          es.map fun e => (tick + e.rest, e.token)) w
        := h
      rw [List.foldlM_cons]
      rcases Nat.eq_zero_or_pos (r.delay.toNat % 60) with hzero | hpos
      · have hfail := h.insertZero t (hrest.trans hzero)
        have hdue : r.due = some tick
          := by
          obtain ⟨r', hr', hdue', htoken'⟩ := mem_expected.mp (hpending.accounted.mem_iff.mpr
            (List.mem_append_right _ (List.mem_append_right _ List.mem_cons_self)))
          have hsame := token_inj h.tokens hr' (h.kept r hr) (htoken'.trans htoken)
          rw [← hsame, hdue', hrest, hzero, Nat.add_zero]
        rw [release, hfail]
        change Faulty _
        rw [htoken]
        exact h.faulty (h.kept r hr) hdue (.inr (.inl ⟨hle, hlt, hzero⟩))
      · have hserved : w.Served t.token
          := by
          refine ⟨r, h.kept r hr, htoken.symm, ?_⟩
          rintro (hnone | hwhole | hlong)
          · omega
          · omega
          · exact hlong
        obtain ⟨w', hok, hw'⟩ := hpending.insertSecond (by omega) (by omega) hserved
        rw [release, hok]
        exact ih hw' fun e he => hes e (List.mem_cons_of_mem _ he)

/-! ### Ticks -/

/-- A tick begins with the wheel of seconds. -/
theorem Pending.popSecond (env : Callbacks) (h : Pending base tick m [] w) (hm : tick / 60 = m) :
  Holds (Pending base (tick + 1) m []) (popUp env { w with tick := w.tick + 1 } .second)
  := by
  have hrotate := RotatingWheel.schedule_rotate (w.wheels .second) w.tick
  have hpopped : Pending w.inserted (tick + 1) m
      ((w.wheels .second).front.map fun e => (tick + 1, e.token))
      (setWheel { w with tick := w.tick + 1 } .second (w.wheels .second).rotate)
    := by
    constructor
    · exact fun r hr => hr
    · exact congrArg (· + 1) h.tick_eq
    · exact h.tokens
    · exact h.inside_pos
    · have hmoved := h.accounted
      rw [agenda, hrotate, List.map_append, List.append_nil, List.append_assoc,
        h.tick_eq] at hmoved
      rw [agenda, setWheel_self, setWheel_other _ (by decide : TimingType.minute ≠ .second)]
      change w.expected.Perm (w.released ++ _)
      apply hmoved.trans
      rw [List.map_map]
      apply List.Perm.append_left
      change (List.map _ _ ++ (List.map _ ((w.wheels .second).rotate.schedule (tick + 1)) ++ _)).Perm
        ((List.map _ ((w.wheels .second).rotate.schedule (w.tick + 1)) ++ _) ++ _)
      rw [h.tick_eq]
      exact List.perm_append_comm
    · apply length_setWheel h.length_wheel
      apply RotatingWheel.length_rotate
      rw [h.length_wheel]
      decide
    · intro e he
      rw [setWheel_self] at he
      exact h.second_origin e ((RotatingWheel.mem_flatten_rotate _ e).mpr (.inr he))
    · rw [setWheel_other _ (by decide : TimingType.minute ≠ .second)]
      exact h.minute_origin
    · exact h.released_served
  have hordered := env.order_perm (w.wheels .second).front
  have hreleased := (hpopped.perm (hordered.map fun e => (tick + 1, e.token))).releaseSeconds env
    (Nat.succ_pos tick) hm (env.order (w.wheels .second).front)
  have horigin : ∀ e ∈ env.order (w.wheels .second).front,
      ∃ t, e = .timer t ∧ w.Served t.token
    := by
    intro e he
    apply h.second_origin
    exact (RotatingWheel.mem_flatten_rotate _ e).mpr (.inl (hordered.mem_iff.mp he))
  apply (hreleased horigin).imp
  intro w' hw'
  exact hw'.rebase base fun r hr => hw'.kept r (h.kept r hr)

/-- At a multiple of 60 the wheel of minutes follows. -/
theorem Pending.popMinute (env : Callbacks) (h : Pending base tick m [] w)
    (hm : 60 * (m + 1) = tick) :
  Holds (Pending base tick (m + 1) []) (popUp env w .minute)
  := by
  have hrotate := RotatingWheel.schedule_rotate (w.wheels .minute) m
  have hpopped : Pending w.inserted tick (m + 1)
      ((w.wheels .minute).front.map fun e => (tick + e.rest, e.token))
      (w.setWheel .minute (w.wheels .minute).rotate)
    := by
    constructor
    · exact fun r hr => hr
    · exact h.tick_eq
    · exact h.tokens
    · exact h.inside_pos
    · have hmoved := h.accounted
      rw [agenda, hrotate, List.map_append, List.append_nil, List.map_map] at hmoved
      rw [agenda, setWheel_self, setWheel_other _ (by decide : TimingType.second ≠ .minute)]
      change w.expected.Perm (w.released ++ _)
      apply hmoved.trans
      apply List.Perm.append_left
      rw [← hm, List.append_assoc]
      exact List.perm_append_comm.append_left _
    · apply length_setWheel h.length_wheel
      apply RotatingWheel.length_rotate
      rw [h.length_wheel]
      decide
    · rw [setWheel_other _ (by decide : TimingType.second ≠ .minute)]
      exact h.second_origin
    · intro e he
      rw [setWheel_self] at he
      exact h.minute_origin e ((RotatingWheel.mem_flatten_rotate _ e).mpr (.inr he))
    · exact h.released_served
  have hordered := env.order_perm (w.wheels .minute).front
  have hreleased := (hpopped.perm (hordered.map fun e => (tick + e.rest, e.token))).releaseMinutes
    env (env.order (w.wheels .minute).front)
  have horigin : ∀ e ∈ env.order (w.wheels .minute).front, w.Cascades e
    := by
    intro e he
    apply h.minute_origin
    exact (RotatingWheel.mem_flatten_rotate _ e).mpr (.inl (hordered.mem_iff.mp he))
  apply (hreleased horigin).imp
  intro w' hw'
  exact hw'.rebase base fun r hr => hw'.kept r (h.kept r hr)

/-- A wheel between two ticks. -/
def Steady (w : TimingWheel) : Prop := Pending [] w.tick (w.tick / 60) [] w

theorem steady_create : create.Steady
  := by
  have hempty : ∀ type, (create.wheels type).flatten = []
    := by
    intro type
    cases type with
    | second => rfl
    | minute => rfl
    | hour => rfl
    | day => rfl
  constructor
  · exact fun r hr => hr
  · rfl
  · rfl
  · exact fun r hr => nomatch hr
  · exact List.Perm.refl _
  · exact fun type => rfl
  · intro e he
    rw [hempty] at he
    cases he
  · intro e he
    rw [hempty] at he
    cases he
  · intro p hp
    cases hp

/-- A tick. -/
theorem Steady.advance {w : TimingWheel} (env : Callbacks) (h : w.Steady) :
  Holds (fun w' => w'.tick = w.tick + 1 ∧ w'.Steady) (w.advance env)
  := by
  apply (Pending.popSecond env h rfl).bind
  intro w' hw'
  have htick := hw'.tick_eq
  have hsteady : (w.tick + 1) / 60 = w.tick / 60 → w'.Steady
    := by
    intro hsame
    rw [Steady, htick, hsame]
    exact hw'
  split
  · rename_i hmultiple
    rw [htick] at hmultiple
    have hnext : w.tick / 60 + 1 = (w.tick + 1) / 60 := by omega
    apply (hw'.popMinute env (by omega)).imp
    intro w'' hw''
    have htick' := hw''.tick_eq
    refine ⟨htick', ?_⟩
    rw [Steady, htick', ← hnext]
    exact hw''
  · rename_i hmultiple
    rw [htick] at hmultiple
    have hsame : (w.tick + 1) / 60 = w.tick / 60 := by omega
    -- a multiple of 3600 or of 86400 is one of 60
    split
    · omega
    · split
      · omega
      · exact ⟨htick, hsteady hsame⟩

theorem Steady.withLastTs {w : TimingWheel} (h : w.Steady) (lastTs : Int) :
  Steady { w with lastTs := lastTs }
  := ⟨h.kept, h.tick_eq, h.tokens, h.inside_pos, h.accounted, h.length_wheel, h.second_origin,
    h.minute_origin, h.released_served⟩

theorem steady_step {w : TimingWheel} (env : Callbacks) (h : w.Steady) (e : WheelEvent) :
  Holds Steady (w.step env e)
  := by
  cases e with
  | timer now =>
      by_cases hshort : now - (if w.lastTs = 0 then now else w.lastTs) < 1000
      · simp only [step, onTimer, if_pos hshort]
        exact h.withLastTs _
      · simp only [step, onTimer, if_neg hshort]
        exact ((h.withLastTs now).advance env).imp fun w' hw' => hw'.2
  | call c =>
      have hcall : Holds (Pending [] w.tick (w.tick / 60) []) (w.call false c)
        := Pending.call h false nofun rfl c
      cases hok : w.call false c with
      | ok w' =>
          rw [hok] at hcall
          rw [step, hok]
          have htick : w'.tick = w.tick := hcall.tick_eq
          change w'.Steady
          rw [Steady, htick]
          exact hcall
      | error f =>
          rw [hok] at hcall
          rw [step, hok]
          exact hcall

/-- A run keeps every entry accounted for, until it fails. -/
theorem holds_run (env : Callbacks) (events : List WheelEvent) :
  Holds Steady (run env events)
  := by
  have hfrom : ∀ w : TimingWheel, w.Steady → Holds Steady (events.foldlM (step env) w)
    := by
    induction events with
    | nil => exact fun w h => h
    | cons e events ih =>
        intro w h
        rw [List.foldlM_cons]
        exact (steady_step env h e).bind ih
  exact hfrom create steady_create

end TimingWheel
