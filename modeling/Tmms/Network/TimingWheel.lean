import Mathlib.Logic.Function.Basic
import Tmms.Library.RotatingWheel

/-!
# The timing wheel

A `TimingWheel` has wheels for seconds, minutes, hours and days.  An entry with a delay of a
minute or more is put into an outer wheel as a closure, which inserts it again with the rest of
the delay when its slot is popped.  An entry runs when it is released, and what runs may insert
entries of its own.

Slots are sets of pointers, so what is in a slot is released in any order; the order, and what
the callbacks do, are parameters (`Callbacks`).  A delay that leads to a slot that does not
exist, and a callback that never returns, end the run with a `WheelFault`.

The model counts ticks without end, and keeps a history: every insertion makes a token, and
`released` has the tick of every release.
-/

/-- `TimingType`. -/
inductive TimingType where
  | second
  | minute
  | hour
  | day
  deriving DecidableEq, Repr

/-- `kTimingMinute`. -/
def kTimingMinute : UInt32 := 60

/-- `kTimingHour`. -/
def kTimingHour : UInt32 := 3600

/-- `kTimingDay`. -/
def kTimingDay : UInt32 := 86400

/-- An entry of a caller, with the interval if `RunEvery` made it. -/
structure Timer where
  token : Nat
  interval : Option UInt32
  deriving DecidableEq, Repr

/-- What is in a slot: an entry of a caller, or a closure that inserts one again. -/
inductive WheelEntry where
  | timer (t : Timer)
  | later (second : UInt32) (t : Timer)
  deriving DecidableEq, Repr

/-- A call of the wheel, with the delay as `InsertEntry` gets it. -/
inductive WheelCall where
  | insertEntry (delay : UInt32)
  | runAfter (delay : UInt32)
  | runEvery (interval : UInt32)
  deriving DecidableEq, Repr

/-- What the wheel does not decide: in which order a slot is released, and which calls an entry
makes when it runs.  The calls of an entry that is released within a call, because its delay is
too long, come next among them. -/
structure Callbacks where
  order : List WheelEntry → List WheelEntry
  order_perm : ∀ entries, (order entries).Perm entries
  calls : Nat → List WheelCall

/-- An insertion: when, and whether between ticks or by an entry that runs. -/
structure Insertion where
  token : Nat
  delay : UInt32
  tick : Nat
  inside : Bool
  deriving DecidableEq, Repr

structure TimingWheel where
  wheels : TimingType → RotatingWheel WheelEntry
  lastTs : Int
  tick : Nat
  inserted : List Insertion
  released : List (Nat × Nat)

/-- Where a run ended, and the entry it was about. -/
structure WheelFault where
  token : Nat
  wheel : TimingWheel

abbrev WheelOutcome := Except WheelFault TimingWheel

namespace WheelCall

/-- The delay that `InsertEntry` gets. -/
def delay : WheelCall → UInt32
  | insertEntry delay => delay
  | runAfter delay => delay
  | runEvery interval => interval

/-- The interval of `RunEvery`. -/
def interval : WheelCall → Option UInt32
  | insertEntry _ => none
  | runAfter _ => none
  | runEvery interval => some interval

end WheelCall

namespace TimingWheel

/-- The constructor. -/
def create : TimingWheel where
  wheels
    | .second => RotatingWheel.empty _ 60
    | .minute => RotatingWheel.empty _ 60
    | .hour => RotatingWheel.empty _ 24
    | .day => RotatingWheel.empty _ 30
  lastTs := 0
  tick := 0
  inserted := []
  released := []

/-! ### Inserting -/

/-- The wheels with one of them changed. -/
def setWheel (w : TimingWheel) (type : TimingType) (bq : RotatingWheel WheelEntry) :
    TimingWheel :=
  { w with wheels := Function.update w.wheels type bq }

/-- `wheels_[type][i].emplace(entry)`. -/
def emplace (w : TimingWheel) (type : TimingType) (i : UInt32) (t : Timer) (entry : WheelEntry) :
    WheelOutcome :=
  match (w.wheels type).put i.toNat entry with
  | some bq => .ok (w.setWheel type bq)
  | none => .error ⟨t.token, w⟩

def insertSecondEntry (w : TimingWheel) (delay : UInt32) (t : Timer) : WheelOutcome :=
  w.emplace .second (delay - 1) t (.timer t)

/-- The closure with the rest of the delay goes into an outer wheel. -/
def insertOuterEntry (type : TimingType) (unit : UInt32) (w : TimingWheel) (delay : UInt32)
    (t : Timer) : WheelOutcome :=
  w.emplace type (delay / unit - 1) t (.later (delay % unit) t)

def insertMinuteEntry : TimingWheel → UInt32 → Timer → WheelOutcome :=
  insertOuterEntry .minute kTimingMinute

def insertHourEntry : TimingWheel → UInt32 → Timer → WheelOutcome :=
  insertOuterEntry .hour kTimingHour

def insertDayEntry : TimingWheel → UInt32 → Timer → WheelOutcome :=
  insertOuterEntry .day kTimingDay

/-- Delays of more than 30 days are not supported. -/
def tooLong (delay : UInt32) : Bool := delay / kTimingDay > 30

/-- `InsertEntry`. With a delay of 0 the pointer is reset, but the slot is still looked for. -/
def insertEntry (w : TimingWheel) (delay : UInt32) (t : Timer) : WheelOutcome :=
  if delay < kTimingMinute then
    w.insertSecondEntry delay t
  else if delay < kTimingHour then
    w.insertMinuteEntry delay t
  else if delay < kTimingDay then
    w.insertHourEntry delay t
  else if tooLong delay then
    .ok w
  else
    w.insertDayEntry delay t

/-- An entry is released. -/
def markReleased (w : TimingWheel) (token : Nat) : TimingWheel :=
  { w with released := w.released ++ [(w.tick, token)] }

/-- An insertion goes into the history. -/
def markInserted (w : TimingWheel) (inside : Bool) (delay : UInt32) : TimingWheel :=
  { w with inserted := w.inserted ++ [⟨w.inserted.length, delay, w.tick, inside⟩] }

/-- A call. An entry with a delay that is too long is released when the call drops it, and one
of `RunEvery` then calls `RunEvery` again, without end. -/
def call (w : TimingWheel) (inside : Bool) (c : WheelCall) : WheelOutcome :=
  let t : Timer := ⟨w.inserted.length, c.interval⟩
  let w := w.markInserted inside c.delay
  if tooLong c.delay then
    if c.interval.isSome then .error ⟨t.token, w⟩ else .ok (w.markReleased t.token)
  else
    w.insertEntry c.delay t

/-! ### Releasing -/

/-- The calls an entry makes when it runs, the one of `RunEvery` last. -/
def callsOf (env : Callbacks) (t : Timer) : List WheelCall :=
  env.calls t.token ++ (t.interval.map WheelCall.runEvery).toList

/-- The destructor of `CallbackEntry`. -/
def release (env : Callbacks) (w : TimingWheel) : WheelEntry → WheelOutcome
  | .timer t => (callsOf env t).foldlM (fun w c => w.call true c) (w.markReleased t.token)
  | .later second t => w.insertEntry second t

/-- `PopUp`: the slot is destroyed at the end, when the wheel has turned. -/
def popUp (env : Callbacks) (w : TimingWheel) (type : TimingType) : WheelOutcome :=
  let tmp := (w.wheels type).front
  (env.order tmp).foldlM (release env) (w.setWheel type (w.wheels type).rotate)

/-- `OnTimer` from `++tick_` on. -/
def advance (env : Callbacks) (w : TimingWheel) : WheelOutcome := do
  let w ← popUp env { w with tick := w.tick + 1 } .second
  if w.tick % 60 = 0 then
    popUp env w .minute
  else if w.tick % 3600 = 0 then
    popUp env w .hour
  else if w.tick % 86400 = 0 then
    popUp env w .day
  else
    .ok w

def onTimer (env : Callbacks) (w : TimingWheel) (now : Int) : WheelOutcome :=
  let lastTs := if w.lastTs = 0 then now else w.lastTs
  if now - lastTs < 1000 then
    .ok { w with lastTs := lastTs }
  else
    advance env { w with lastTs := now }

/-! ### Runs -/

/-- What happens to a wheel: the loop calls `OnTimer`, or someone inserts an entry. -/
inductive WheelEvent where
  | timer (now : Int)
  | call (c : WheelCall)

def step (env : Callbacks) (w : TimingWheel) : WheelEvent → WheelOutcome
  | .timer now => onTimer env w now
  | .call c => w.call false c

def run (env : Callbacks) (events : List WheelEvent) : WheelOutcome :=
  events.foldlM (step env) create

end TimingWheel

/-- The wheel a run ended with. -/
def WheelOutcome.wheel : WheelOutcome → TimingWheel
  | .ok w => w
  | .error f => f.wheel
