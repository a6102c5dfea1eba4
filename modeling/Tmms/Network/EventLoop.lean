import Mathlib.Data.List.Basic
import Mathlib.Logic.Function.Basic
import Tmms.Library.Pipe
import Tmms.Library.Runs

/-!
# Event loops and the functions handed to them

`EventLoop::Loop`, `RunInLoop`, `RunFuctions`, `WakeUp`, `Quit` and `PipeEvent`, for a family of
loops that each run on a thread of their own.  A function called with `RunInLoop` on the thread
of the loop runs at once; on another thread it goes to the queue of the loop, under `lock_`, and
eight bytes are written to the pipe that wakes the loop up.  `RunFuctions` holds `lock_` while it
runs the functions of the queue.

The steps of a run are the pieces of these functions that nothing else comes between: the return
of `epoll_wait`, what the thread of a loop does up to its next call or its next `RunInLoop`, and
the `RunInLoop` of threads that have no loop.  A run is over a type `ι` of loops and a type `α` of
the calls that handlers, functions and timers make.
-/

open Pipe

/-- What the code of a handler, of a function or of a timer does: it makes calls of its own, and
it hands functions to loops. -/
inductive Func (ι α : Type) where
  | done
  | call (a : α) (rest : Func ι α)
  | runInLoop (loop : ι) (f rest : Func ι α)
  deriving DecidableEq, Repr

/-- Something a thread does that is seen outside of it: a call, or a function handed to another
loop. -/
inductive Act (ι α : Type) where
  | call (a : α)
  | post (loop : ι) (f : Func ι α)
  deriving DecidableEq, Repr

namespace Func

variable {ι α : Type}

/-- One piece of code after the other. -/
def andThen : Func ι α → Func ι α → Func ι α
  | .done, g => g
  | .call a rest, g => .call a (rest.andThen g)
  | .runInLoop j f rest, g => .runInLoop j f (rest.andThen g)

/-- What the thread of the loop `i` does when it runs this code: functions for the loop itself
are run where they are handed over. -/
def acts [DecidableEq ι] (i : ι) : Func ι α → List (Act ι α)
  | .done => []
  | .call a rest => .call a :: rest.acts i
  | .runInLoop j f rest =>
      if j = i then f.acts i ++ rest.acts i else .post j f :: rest.acts i

theorem acts_andThen [DecidableEq ι] (i : ι) (f g : Func ι α) :
  (f.andThen g).acts i = f.acts i ++ g.acts i
  := by
  induction f with
  | done => rfl
  | call a rest ih => rw [andThen, acts, acts, ih, List.cons_append]
  | runInLoop j f rest _ ih =>
      rw [andThen, acts, acts, ih]
      by_cases hj : j = i
      · rw [if_pos hj, if_pos hj, List.append_assoc]
      · rw [if_neg hj, if_neg hj, List.cons_append]

end Func

/-- The bytes of one wake-up: `sizeof(int64_t)`. -/
def wakeUpSize : Nat := 8

/-- Where the thread of a loop is: in `epoll_wait`, in the handlers of the ready events, in
`RunFuctions`, behind it, in `TimingWheel::OnTimer`, or behind the end of `Loop`.  With it is
what is left of the code it is in. -/
inductive LoopPlace (ι α : Type) where
  | waiting
  | handling (rest : Func ι α)
  | running (rest : Func ι α)
  | ran
  | timing (rest : Func ι α)
  | ended
  deriving DecidableEq, Repr

/-- The fields of an `EventLoop`; `pipe` is the number of unread bytes in the pipe of
`pipe_event_`, and `ready` whether `epoll` has that pipe on its ready list.  In `running` the
thread holds `lock_`, and the function it runs is still at the front of the queue. -/
structure EventLoop (ι α : Type) where
  looping : Bool := true
  functions : List (Func ι α) := []
  pipe : Nat := 0
  ready : Bool := false
  place : LoopPlace ι α := .waiting
  deriving DecidableEq, Repr

namespace EventLoop

variable {ι α : Type}

/-- `RunFuctions` holds `lock_`. -/
def locked (l : EventLoop ι α) : Bool :=
  match l.place with
  | .running _ => true
  | _ => false

/-- `WakeUp`: `PipeEvent::Write` on a pipe that does not block and has room for `capacity` bytes.
When the bytes fit they are written and `epoll` is told; otherwise nothing happens.  The first
`WakeUp` also makes the pipe and gives it to `AddEvent`, on the thread of the caller and without a
lock on `events_`; this is left out, and the pipe is there from the start. -/
def wakeUp (capacity : Nat) (l : EventLoop ι α) : EventLoop ι α :=
  if l.pipe + wakeUpSize ≤ capacity then
    { l with pipe := l.pipe + wakeUpSize, ready := true }
  else
    l

/-- `RunInLoop` on a thread that is not that of the loop, when `lock_` is free. -/
def push (capacity : Nat) (l : EventLoop ι α) (f : Func ι α) : EventLoop ι α :=
  wakeUp capacity { l with functions := l.functions ++ [f] }

/-- What `PipeEvent::OnRead` leaves in the pipe: it reads one wake-up, when there is one. -/
def onPipeRead (pipe : Nat) : Nat := if wakeUpSize ≤ pipe then pipe - wakeUpSize else pipe

/-- `epoll_wait` returns, with or without the pipe among its events, which is taken off the ready
list then; the handlers of the other events are the code `f`. -/
def wake (l : EventLoop ι α) (pipe : Bool) (f : Func ι α) : EventLoop ι α :=
  match l.place with
  | .waiting =>
      if pipe && l.ready then
        { l with pipe := onPipeRead l.pipe, ready := false, place := .handling f }
      else
        { l with place := .handling f }
  | _ => l

/-- The head of the loop of `RunFuctions`: the function at the front is run, if there is one. -/
def nextFunction (l : EventLoop ι α) : EventLoop ι α :=
  match l.functions with
  | [] => { l with place := .ran }
  | f :: _ => { l with place := .running f }

/-- The thread has come to the end of the code it is in: from the handlers to `RunFuctions`, from
a function to the next, which takes it off the queue, and from the timers to the head of the loop
of `Loop`. -/
def finish (l : EventLoop ι α) : EventLoop ι α :=
  match l.place with
  | .handling _ => l.nextFunction
  | .running _ => { l with functions := l.functions.tail }.nextFunction
  | .timing _ => { l with place := if l.looping then .waiting else .ended }
  | _ => l

/-- The thread is behind `RunFuctions`. -/
def behind (l : EventLoop ι α) : Bool :=
  match l.place with
  | .ran => true
  | _ => false

/-- The code the thread is in, when it is in some. -/
def rest (l : EventLoop ι α) : Option (Func ι α) :=
  match l.place with
  | .handling f => some f
  | .running f => some f
  | .timing f => some f
  | _ => none

/-- What is left of the code the thread is in becomes `f`. -/
def setRest (l : EventLoop ι α) (f : Func ι α) : EventLoop ι α :=
  match l.place with
  | .handling _ => { l with place := .handling f }
  | .running _ => { l with place := .running f }
  | .timing _ => { l with place := .timing f }
  | _ => l

/-- `TimingWheel::OnTimer` is called behind `RunFuctions`; its entries and tasks are the code
`f`. -/
def onTimer (l : EventLoop ι α) (f : Func ι α) : EventLoop ι α :=
  match l.place with
  | .ran => { l with place := .timing f }
  | _ => l

/-- `Quit`. -/
def quit (l : EventLoop ι α) : EventLoop ι α := { l with looping := false }

end EventLoop

/-- What happens: `epoll_wait` of a loop returns, the thread of a loop goes on, it comes to its
timers, a thread without a loop calls `RunInLoop`, or some thread calls `Quit`. -/
inductive LoopEvent (ι α : Type) where
  | wake (i : ι) (pipe : Bool) (f : Func ι α)
  | go (i : ι)
  | onTimer (i : ι) (f : Func ι α)
  | runInLoop (i : ι) (f : Func ι α)
  | quit (i : ι)
  deriving DecidableEq, Repr

/-- The loops of the process. -/
abbrev EventLoops (ι α : Type) := ι → EventLoop ι α

namespace EventLoops

variable {ι α : Type} [DecidableEq ι]

/-- One loop changes. -/
def modify (s : EventLoops ι α) (i : ι) (g : EventLoop ι α → EventLoop ι α) : EventLoops ι α :=
  Function.update s i (g (s i))

/-- `RunInLoop` on a thread that is not that of the loop: it waits as long as `lock_` is held. -/
def post (capacity : Nat) (s : EventLoops ι α) (i : ι) (f : Func ι α) : EventLoops ι α :=
  if (s i).locked then s else s.modify i (·.push capacity f)

/-- The thread of the loop `i` goes on in the code it is in.  A function for the loop itself is
run at once, `IsInLoopThread`; one for another loop is handed over when the lock of that loop is
free, and until then the thread is blocked. -/
def go (capacity : Nat) (s : EventLoops ι α) (i : ι) : EventLoops ι α :=
  match (s i).rest with
  | none => s
  | some .done => s.modify i .finish
  | some (.call _ rest) => s.modify i (·.setRest rest)
  | some (.runInLoop j f rest) =>
      if j = i then s.modify i (·.setRest (f.andThen rest))
      else if (s j).locked then s
      else (s.post capacity j f).modify i (·.setRest rest)

/-- One event; one that cannot happen changes nothing. -/
def step (capacity : Nat) (s : EventLoops ι α) : LoopEvent ι α → EventLoops ι α
  | .wake i pipe f => s.modify i (·.wake pipe f)
  | .go i => s.go capacity i
  | .onTimer i f => s.modify i (·.onTimer f)
  | .runInLoop i f => s.post capacity i f
  | .quit i => s.modify i .quit

/-- The loops at the start: in `epoll_wait`, with nothing to do. -/
def start : EventLoops ι α := fun _ => {}

/-! ### What is seen of one loop -/

/-- What a step shows of the queue of the loop `i`: what a function given to it will do, what the
thread of the loop does in `RunFuctions`, and that `RunFuctions` has found the queue empty. -/
def observe (i : ι) (s : EventLoops ι α) : LoopEvent ι α → List (Obs (Act ι α))
  | .runInLoop j f => if j = i ∧ ¬(s i).locked then [.given (f.acts i)] else []
  | .go k =>
      match (s k).rest with
      | some .done => if k = i ∧ (s i).finish.behind then [.done] else []
      | some (.call a _) => if k = i ∧ (s i).locked then [.passed [.call a]] else []
      | some (.runInLoop j f _) =>
          if j = k ∨ (s j).locked then []
          else if j = i then [.given (f.acts i)]
          else if k = i ∧ (s i).locked then [.passed [.post j f]]
          else []
      | none => []
  | _ => []

/-- The loops with what is seen of the loop `i`. -/
def watched (capacity : Nat) (i : ι) (s : EventLoops ι α) (e : LoopEvent ι α) :
    EventLoops ι α × List (Obs (Act ι α)) :=
  (s.step capacity e, s.observe i e)

variable {capacity : Nat} {s : EventLoops ι α} {i k : ι}

theorem modify_same (g : EventLoop ι α → EventLoop ι α) :
  (s.modify i g) i = g (s i)
  := Function.update_self i _ s

theorem modify_other (g : EventLoop ι α → EventLoop ι α) (h : i ≠ k) :
  (s.modify k g) i = s i
  := Function.update_of_ne h _ s

/-- A function handed over on another thread changes the loop it is for, when its lock is free. -/
theorem post_other (f : Func ι α) (h : i ≠ k) :
  (s.post capacity k f) i = s i
  := by
  rw [post]
  split
  · rfl
  · apply modify_other _ h

theorem post_free {f : Func ι α} (h : (s i).locked = false) :
  (s.post capacity i f) i = (s i).push capacity f
  := by
  rw [post, h, if_neg Bool.false_ne_true]
  apply modify_same

/-- A thread that goes on leaves another loop alone, or hands a function to it. -/
theorem go_other (h : i ≠ k) :
  (s.go capacity k) i = s i ∨
    (s i).locked = false ∧ ∃ f, (s.go capacity k) i = (s i).push capacity f
  := by
  rw [go.eq_def]
  cases (s k).rest with
  | none => exact .inl rfl
  | some code =>
      cases code with
      | done => exact .inl (modify_other _ h)
      | call a rest => exact .inl (modify_other _ h)
      | runInLoop j f rest =>
          by_cases hj : j = k
          · simp only [if_pos hj]
            exact .inl (modify_other _ h)
          · cases hlocked : (s j).locked with
            | true =>
                simp only [if_neg hj, hlocked, if_true]
                exact .inl trivial
            | false =>
                simp only [if_neg hj, hlocked, Bool.false_eq_true, if_false, modify_other _ h]
                by_cases hji : i = j
                · subst hji
                  exact .inr ⟨hlocked, f, post_free hlocked⟩
                · exact .inl (post_other f hji)

theorem post_locked {f : Func ι α} (h : (s i).locked = true) :
  s.post capacity i f = s
  := by
  rw [post, if_pos h]

end EventLoops

namespace EventLoop

variable {ι α : Type} [DecidableEq ι] {capacity : Nat} {l : EventLoop ι α} {i : ι}

omit [DecidableEq ι] in
theorem place_of_locked (h : l.locked = true) :
  ∃ f, l.place = .running f
  := by
  rw [locked] at h
  split at h
  · next f hplace => exact ⟨f, hplace⟩
  · cases h

omit [DecidableEq ι] in
theorem rest_of_locked (h : l.locked = true) :
  ∃ f, l.rest = some f
  := by
  obtain ⟨f, hplace⟩ := place_of_locked h
  exact ⟨f, by rw [rest, hplace]⟩

/-- What the functions of the queue will do on the loop `i`, less what the one in hand did. -/
def pending (i : ι) (l : EventLoop ι α) : List (Act ι α) :=
  match l.place with
  | .running rest => rest.acts i ++ l.functions.tail.flatMap (Func.acts i)
  | _ => l.functions.flatMap (Func.acts i)

theorem pending_free (h : l.locked = false) :
  l.pending i = l.functions.flatMap (Func.acts i)
  := by
  rw [pending]
  split
  · next rest hplace =>
      rw [locked, hplace] at h
      cases h
  · rfl

theorem pending_push (h : l.locked = false) (f : Func ι α) :
  (l.push capacity f).pending i = l.pending i ++ f.acts i
  := by
  have hplace : (l.push capacity f).locked = false ∧
      (l.push capacity f).functions = l.functions ++ [f]
    := by
    rw [push, wakeUp]
    split
    · exact ⟨h, rfl⟩
    · exact ⟨h, rfl⟩
  rw [pending_free hplace.1, pending_free h, hplace.2, List.flatMap_append]
  simp only [List.flatMap_cons, List.flatMap_nil, List.append_nil]

theorem pending_wake (pipe : Bool) (f : Func ι α) :
  (l.wake pipe f).pending i = l.pending i
  := by
  rw [wake]
  split
  · next hplace =>
      split
      · simp only [pending, hplace]
      · simp only [pending, hplace]
  · rfl

theorem pending_onTimer (f : Func ι α) :
  (l.onTimer f).pending i = l.pending i
  := by
  rw [onTimer]
  split
  · next hplace => simp only [pending, hplace]
  · rfl

/-- Behind the end of a function the next one is in hand, and behind the last one nothing is
left. -/
theorem moves_nextFunction (l : EventLoop ι α) :
  Moves (l.functions.flatMap (Func.acts i))
    (if l.nextFunction.behind then [.done] else []) (l.nextFunction.pending i)
  := by
  cases hfunctions : l.functions with
  | nil =>
      simp only [nextFunction, hfunctions, behind, pending, if_true, List.flatMap_nil]
      exact .done (.nil [])
  | cons f rest =>
      simp only [nextFunction, hfunctions, behind, pending, List.flatMap_cons, List.tail_cons]
      exact .nil _

theorem moves_finish (h : l.rest = some .done) :
  Moves (l.pending i) (if l.finish.behind then [.done] else []) (l.finish.pending i)
  := by
  cases hplace : l.place with
  | handling f =>
      simp only [finish, pending, hplace]
      apply moves_nextFunction
  | running f =>
      rw [rest, hplace] at h
      cases h
      simp only [finish, pending, hplace]
      apply moves_nextFunction { l with functions := l.functions.tail }
  | timing f =>
      simp only [finish, pending, hplace]
      cases l.looping
      · exact .nil _
      · exact .nil _
  | waiting =>
      rw [rest, hplace] at h
      cases h
  | ran =>
      rw [rest, hplace] at h
      cases h
  | ended =>
      rw [rest, hplace] at h
      cases h

/-- What is in hand changes, and nothing else. -/
theorem pending_setRest {f g : Func ι α} (xs : List (Act ι α)) (h : l.rest = some f)
    (hacts : f.acts i = xs ++ g.acts i) :
  l.pending i = (if l.locked then xs else []) ++ (l.setRest g).pending i
  := by
  cases hplace : l.place with
  | running rest =>
      rw [EventLoop.rest, hplace] at h
      cases h
      simp only [setRest, pending, locked, hplace, hacts, if_true, List.append_assoc]
  | handling rest => simp only [setRest, pending, locked, hplace, List.nil_append, if_neg,
      Bool.false_eq_true, not_false_eq_true]
  | timing rest => simp only [setRest, pending, locked, hplace, List.nil_append, if_neg,
      Bool.false_eq_true, not_false_eq_true]
  | waiting =>
      rw [rest, hplace] at h
      cases h
  | ran =>
      rw [rest, hplace] at h
      cases h
  | ended =>
      rw [rest, hplace] at h
      cases h

end EventLoop

namespace EventLoops

variable {ι α : Type} [DecidableEq ι] {capacity : Nat} {s : EventLoops ι α} {i : ι}

/-- A step of the thread of some loop, as the queue of the loop `i` sees it. -/
theorem moves_go (k : ι) :
  Moves ((s i).pending i) (s.observe i (.go k)) ((s.go capacity k i).pending i)
  := by
  rw [observe, go]
  cases hrest : (s k).rest with
  | none => exact .nil _
  | some code =>
      cases code with
      | done =>
          by_cases hk : k = i
          · subst hk
            simp only [modify_same, true_and]
            apply EventLoop.moves_finish hrest
          · simp only [modify_other _ (Ne.symm hk), hk, false_and, if_false]
            exact .nil _
      | call a rest =>
          by_cases hk : k = i
          · subst hk
            have hacts := EventLoop.pending_setRest (i := k) (g := rest) [.call a] hrest rfl
            simp only [modify_same, true_and]
            rw [hacts]
            cases (s k).locked
            · exact .nil _
            · exact .passed _ (.nil _)
          · simp only [modify_other _ (Ne.symm hk), hk, false_and, if_false]
            exact .nil _
      | runInLoop j f rest =>
          by_cases hjk : j = k
          · -- a function for the loop of the thread is put in front of what is left
            subst hjk
            simp only [true_or, if_true]
            by_cases hk : j = i
            · subst hk
              have hacts := EventLoop.pending_setRest (i := j) (g := f.andThen rest) []
                hrest (by rw [Func.acts, if_pos rfl, Func.acts_andThen, List.nil_append])
              rw [ite_self, List.nil_append] at hacts
              rw [modify_same, ← hacts]
              exact .nil _
            · rw [modify_other _ (Ne.symm hk)]
              exact .nil _
          · simp only [hjk, false_or, if_false]
            cases hlocked : (s j).locked with
            | true => exact .nil _
            | false =>
                simp only [Bool.false_eq_true, if_false]
                by_cases hji : j = i
                · subst hji
                  rw [if_pos rfl, modify_other _ hjk, post_free hlocked,
                    EventLoop.pending_push hlocked]
                  exact .given _ (.nil _)
                · rw [if_neg hji]
                  by_cases hk : k = i
                  · subst hk
                    have hacts := EventLoop.pending_setRest (i := k) (g := rest)
                      [.post j f] hrest (by rw [Func.acts, if_neg hjk]; rfl)
                    rw [modify_same, post_other _ (Ne.symm hjk), hacts]
                    simp only [true_and]
                    cases (s k).locked
                    · exact .nil _
                    · exact .passed _ (.nil _)
                  · rw [modify_other _ (Ne.symm hk), post_other _ (Ne.symm hji),
                      if_neg fun h => hk h.1]
                    exact .nil _

theorem moves_watched (e : LoopEvent ι α) :
  Moves ((s i).pending i) (s.watched capacity i e).2 ((s.watched capacity i e).1 i |>.pending i)
  := by
  cases e with
  | go k => apply moves_go k
  | wake k pipe f =>
      by_cases hk : i = k
      · subst hk
        simp only [watched, step, modify_same, EventLoop.pending_wake]
        exact .nil _
      · simp only [watched, step, modify_other _ hk]
        exact .nil _
  | onTimer k f =>
      by_cases hk : i = k
      · subst hk
        simp only [watched, step, modify_same, EventLoop.pending_onTimer]
        exact .nil _
      · simp only [watched, step, modify_other _ hk]
        exact .nil _
  | runInLoop k f =>
      simp only [watched, step, observe]
      by_cases hk : k = i
      · subst hk
        cases hlocked : (s k).locked with
        | true =>
            rw [post_locked hlocked, if_neg fun h => h.2 rfl]
            exact .nil _
        | false =>
            rw [post_free hlocked, EventLoop.pending_push hlocked,
              if_pos ⟨rfl, Bool.false_ne_true⟩]
            exact .given _ (.nil _)
      · rw [post_other _ (Ne.symm hk), if_neg fun h => hk h.1]
        exact .nil _
  | quit k =>
      by_cases hk : i = k
      · subst hk
        simp only [watched, step, modify_same]
        exact .nil _
      · simp only [watched, step, modify_other _ hk]
        exact .nil _

/-- What a loop does in `RunFuctions` is what the functions handed to it from other threads do,
in the order in which they were handed over: none is lost, run twice, or overtaken by another, and
whenever `RunFuctions` comes to its end all that were handed over have been run. -/
theorem functions_in_order (capacity : Nat) (i : ι) (events : List (LoopEvent ι α)) :
  Faithful (history (watched capacity i) start events)
  := by
  have hstep : ∀ (s : EventLoops ι α) e p, p = (s i).pending i → True →
      ∃ q, Moves p (watched capacity i s e).2 q ∧ q = ((watched capacity i s e).1 i).pending i
    := by
    rintro s e p rfl -
    exact ⟨_, moves_watched e, rfl⟩
  apply faithful_history _ hstep
  · rfl
  · apply allOk_true

end EventLoops
