import Tmms.Network.EventLoop

/-!
# Waking a loop up

`RunInLoop` writes to the pipe of the loop in case the loop is in `epoll_wait`.  `epoll` reports
the pipe once for all the wake-ups written since it was last reported, and `PipeEvent::OnRead`
reads only one of them, so that the pipe fills up; what does not fit is not written, and nobody
looks at the result.  No wake-up is lost all the same: the pipe only is full while it is on the
ready list.
-/

namespace EventLoop

variable {ι α : Type}

/-- The loop is in the handlers or in `RunFuctions`, and will look at its queue. -/
def looksAtQueue (l : EventLoop ι α) : Bool :=
  match l.place with
  | .handling _ => true
  | .running _ => true
  | _ => false

/-- A loop that can be woken up: `OnRead` of the pipe finds a wake-up whenever the pipe is
reported, and when functions are queued in `epoll_wait` the pipe is reported at once. -/
structure WakesUp (l : EventLoop ι α) : Prop where
  readable : l.ready = true → wakeUpSize ≤ l.pipe
  noticed : l.place = .waiting → l.functions ≠ [] → l.ready = true

/-- The invariant: a pipe that is not on the ready list has room for a wake-up, and functions
that the loop is not going to look at have put it there. -/
structure Awake (capacity : Nat) (l : EventLoop ι α) : Prop where
  bounded : l.pipe ≤ capacity
  readable : l.ready = true → wakeUpSize ≤ l.pipe
  room : l.ready = false → l.pipe + wakeUpSize ≤ capacity
  noticed : l.looksAtQueue = false → l.functions ≠ [] → l.ready = true

variable {capacity : Nat} {l : EventLoop ι α}

theorem Awake.wakesUp (h : l.Awake capacity) :
  l.WakesUp
  := by
  constructor
  · apply h.readable
  · intro hplace
    apply h.noticed
    rw [looksAtQueue, hplace]

/-- A step that leaves the pipe as it is. -/
theorem Awake.of_same {l' : EventLoop ι α} (h : l.Awake capacity) (hpipe : l'.pipe = l.pipe)
    (hready : l'.ready = l.ready)
    (hnoticed : l'.looksAtQueue = false → l'.functions ≠ [] → l.ready = true) :
  l'.Awake capacity
  := by
  constructor
  · rw [hpipe]
    apply h.bounded
  · rw [hpipe, hready]
    apply h.readable
  · rw [hpipe, hready]
    apply h.room
  · rw [hready]
    apply hnoticed

/-- A function is queued: when its wake-up does not fit, the pipe is on the ready list. -/
theorem Awake.push (h : l.Awake capacity) (f : Func ι α) :
  (l.push capacity f).Awake capacity
  := by
  rw [EventLoop.push, wakeUp]
  by_cases hfits : l.pipe + wakeUpSize ≤ capacity
  · rw [if_pos hfits]
    constructor
    · apply hfits
    · intro _
      apply Nat.le_add_left
    · rintro ⟨⟩
    · intro _ _
      rfl
  · rw [if_neg hfits]
    refine h.of_same rfl rfl ?_
    intro _ _
    by_contra hnot
    exact hfits (h.room (Bool.eq_false_iff.mpr hnot))

/-- `epoll_wait` returns; when it reports the pipe, `OnRead` makes room for the next wake-up. -/
theorem Awake.wake (h : l.Awake capacity) (pipe : Bool) (f : Func ι α) :
  (l.wake pipe f).Awake capacity
  := by
  rw [EventLoop.wake]
  split
  · split
    · next hreported =>
        have hreadable := h.readable (Bool.and_eq_true_iff.mp hreported).2
        have hbounded := h.bounded
        rw [onPipeRead, if_pos hreadable]
        constructor
        · apply Nat.le_trans (Nat.sub_le _ _) hbounded
        · rintro ⟨⟩
        · intro _
          rw [Nat.sub_add_cancel hreadable]
          apply hbounded
        · rintro ⟨⟩
    · refine h.of_same rfl rfl ?_
      rintro ⟨⟩
  · apply h

theorem Awake.onTimer (h : l.Awake capacity) (f : Func ι α) :
  (l.onTimer f).Awake capacity
  := by
  rw [EventLoop.onTimer]
  split
  · next hplace =>
      refine h.of_same rfl rfl ?_
      intro _
      apply h.noticed
      rw [looksAtQueue, hplace]
  · apply h

theorem Awake.quit (h : l.Awake capacity) :
  l.quit.Awake capacity
  := by
  refine h.of_same rfl rfl ?_
  apply h.noticed

/-- `RunFuctions` only ends when the queue is empty. -/
theorem Awake.nextFunction (h : l.Awake capacity) :
  l.nextFunction.Awake capacity
  := by
  rw [EventLoop.nextFunction]
  cases hfunctions : l.functions with
  | nil =>
      refine h.of_same rfl rfl ?_
      intro _ hnot
      exact absurd rfl hnot
  | cons f rest =>
      refine h.of_same rfl rfl ?_
      rintro ⟨⟩

theorem Awake.finish (h : l.Awake capacity) :
  l.finish.Awake capacity
  := by
  rw [EventLoop.finish]
  split
  · apply h.nextFunction
  · next rest hplace =>
      have htail : ({ l with functions := l.functions.tail } : EventLoop ι α).Awake capacity
        := by
        refine h.of_same rfl rfl ?_
        intro hlooks
        rw [looksAtQueue, hplace] at hlooks
        cases hlooks
      apply htail.nextFunction
  · next rest hplace =>
      refine h.of_same rfl rfl ?_
      intro _
      apply h.noticed
      rw [looksAtQueue, hplace]
  · apply h

theorem Awake.setRest (h : l.Awake capacity) (f : Func ι α) :
  (l.setRest f).Awake capacity
  := by
  rw [EventLoop.setRest]
  split
  · refine h.of_same rfl rfl ?_
    rintro ⟨⟩
  · refine h.of_same rfl rfl ?_
    rintro ⟨⟩
  · next hplace =>
      refine h.of_same rfl rfl ?_
      intro _
      apply h.noticed
      rw [looksAtQueue, hplace]
  · apply h

end EventLoop

namespace EventLoops

variable {ι α : Type} [DecidableEq ι] {capacity : Nat} {s : EventLoops ι α}

/-- Every loop of the process. -/
def Awake (capacity : Nat) (s : EventLoops ι α) : Prop := ∀ i, (s i).Awake capacity

theorem Awake.modify (h : s.Awake capacity) (i : ι) {g : EventLoop ι α → EventLoop ι α}
    (hg : (g (s i)).Awake capacity) :
  (s.modify i g).Awake capacity
  := by
  intro k
  by_cases hk : k = i
  · subst hk
    rw [modify_same]
    exact hg
  · rw [modify_other _ hk]
    apply h

theorem Awake.post (h : s.Awake capacity) (i : ι) (f : Func ι α) :
  (s.post capacity i f).Awake capacity
  := by
  rw [EventLoops.post]
  split
  · apply h
  · apply h.modify
    apply (h i).push

theorem Awake.go (h : s.Awake capacity) (i : ι) :
  (s.go capacity i).Awake capacity
  := by
  rw [EventLoops.go]
  split
  · apply h
  · apply h.modify
    apply (h i).finish
  · apply h.modify
    apply (h i).setRest
  · split
    · apply h.modify
      apply (h i).setRest
    · split
      · apply h
      · have hpost := h.post
        apply (hpost _ _).modify
        apply (hpost _ _ i).setRest

theorem Awake.step (h : s.Awake capacity) (e : LoopEvent ι α) :
  (s.step capacity e).Awake capacity
  := by
  rw [EventLoops.step.eq_def]
  cases e with
  | wake i pipe f =>
      apply h.modify
      apply (h i).wake
  | go i => apply h.go
  | onTimer i f =>
      apply h.modify
      apply (h i).onTimer
  | runInLoop i f => apply h.post
  | quit i =>
      apply h.modify
      apply (h i).quit

/-- No wake-up is lost: whatever threads call `RunInLoop` and whatever wake-ups are merged or do
not fit into the pipe, a loop that is in `epoll_wait` with functions in its queue has its pipe on
the ready list, and `OnRead` never finds the pipe empty. -/
theorem loops_wake_up (hcapacity : wakeUpSize ≤ capacity) (events : List (LoopEvent ι α)) :
  Runs.Throughout (step capacity) (fun s => ∀ i, (s i).WakesUp) start events
  := by
  have hstart : (start : EventLoops ι α).Awake capacity
    := by
    intro i
    constructor
    · apply Nat.zero_le
    · rintro ⟨⟩
    · intro _
      exact hcapacity
    · intro _ hfunctions
      exact absurd rfl hfunctions
  have hrun : Runs.Throughout (step capacity) (·.Awake capacity) start events
    := by
    apply Runs.steps_true.throughout hstart
    intro s e h _
    apply h.step e
  apply hrun.mono
  intro s h i
  apply (h i).wakesUp

/-- Three functions for a loop whose pipe has room for two wake-ups. -/
theorem loops_wake_up_full :
  wakeUpSize ≤ 16 ∧
    Runs.Throughout (step 16) (fun s => ∀ i, (s i).WakesUp) (start : EventLoops Unit Nat)
      [.runInLoop () (.call 1 .done), .runInLoop () (.call 2 .done),
        .runInLoop () (.call 3 .done), .wake () true .done, .go (), .go (), .go ()]
  := ⟨by decide, loops_wake_up (by decide) _⟩

end EventLoops
