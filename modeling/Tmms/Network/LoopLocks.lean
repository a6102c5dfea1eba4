import Mathlib.Algebra.BigOperators.Group.Finset.Piecewise
import Mathlib.Data.Fintype.EquivFin
import Mathlib.Order.WellFounded
import Tmms.Network.EventLoop

/-!
# The locks of the loops

`RunFuctions` holds the lock of its loop while it runs the functions, and `RunInLoop` needs the
lock of the loop it is for.  A thread that hands a function to a loop in `RunFuctions` waits for
the end of it, and threads that wait for each other do so for ever.  This cannot happen when the
functions that a loop gets only hand functions to loops above it in some order; handlers and
timers run without the lock and may use any loop.
-/

namespace Func

variable {ι α : Type}

/-- The steps the code takes, and those of the functions it hands over. -/
def size : Func ι α → Nat
  | .done => 0
  | .call _ rest => rest.size + 1
  | .runInLoop _ f rest => f.size + rest.size + 2

theorem size_andThen (f g : Func ι α) :
  (f.andThen g).size = f.size + g.size
  := by
  induction f with
  | done => rw [andThen, size, Nat.zero_add]
  | call a rest ih =>
      rw [andThen, size, size, ih]
      omega
  | runInLoop j f rest _ ih =>
      rw [andThen, size, size, ih]
      omega

variable [Preorder ι]

/-- Run by the loop `i` in `RunFuctions`, the function only hands functions to loops above, and
these functions do the same. -/
def Climbs : ι → Func ι α → Prop
  | _, .done => True
  | i, .call _ rest => rest.Climbs i
  | i, .runInLoop j f rest => (j = i ∨ i < j) ∧ f.Climbs j ∧ rest.Climbs i

/-- Run by the loop `i` without its lock, the code hands functions that climb to other loops. -/
def HandsOver (i : ι) : Func ι α → Prop
  | .done => True
  | .call _ rest => rest.HandsOver i
  | .runInLoop j f rest => (j = i → f.HandsOver i) ∧ (j ≠ i → f.Climbs j) ∧ rest.HandsOver i

theorem Climbs.andThen {i : ι} {f g : Func ι α} (hf : f.Climbs i) (hg : g.Climbs i) :
  (f.andThen g).Climbs i
  := by
  induction f with
  | done => exact hg
  | call a rest ih => exact ih hf
  | runInLoop j f rest _ ih => exact ⟨hf.1, hf.2.1, ih hf.2.2⟩

theorem HandsOver.andThen {i : ι} {f g : Func ι α} (hf : f.HandsOver i) (hg : g.HandsOver i) :
  (f.andThen g).HandsOver i
  := by
  induction f with
  | done => exact hg
  | call a rest ih => exact ih hf
  | runInLoop j f rest _ ih => exact ⟨hf.1, hf.2.1, ih hf.2.2⟩

end Func

namespace EventLoop

variable {ι α : Type} {capacity : Nat} {l : EventLoop ι α}

/-- The functions of the queue that `RunFuctions` has not started. -/
def queued (l : EventLoop ι α) : List (Func ι α) :=
  match l.place with
  | .running _ => l.functions.tail
  | _ => l.functions

/-- The steps left of the code in hand, with those between it and the head of `Loop`. -/
def placeWork (l : EventLoop ι α) : Nat :=
  match l.place with
  | .handling rest => rest.size + 2
  | .running rest => rest.size + 1
  | .timing rest => rest.size + 1
  | _ => 0

/-- What a queue of functions takes. -/
def queueWork (fs : List (Func ι α)) : Nat := (fs.map fun f => f.size + 1).sum

/-- What the loop has before it. -/
def work (l : EventLoop ι α) : Nat := l.placeWork + queueWork l.queued

theorem queueWork_cons (f : Func ι α) (fs : List (Func ι α)) :
  queueWork (f :: fs) = f.size + 1 + queueWork fs
  := by
  rw [queueWork, List.map_cons, List.sum_cons, ← queueWork]

theorem work_push (h : l.locked = false) (f : Func ι α) :
  (l.push capacity f).work = l.work + (f.size + 1)
  := by
  have hsame : (l.push capacity f).place = l.place ∧
      (l.push capacity f).functions = l.functions ++ [f]
    := by
    rw [push, wakeUp]
    split
    · exact ⟨rfl, rfl⟩
    · exact ⟨rfl, rfl⟩
  have hqueued : (l.push capacity f).queued = l.queued ++ [f]
    := by
    rw [queued, queued, hsame.1, hsame.2]
    cases hplace : l.place with
    | running rest =>
        rw [locked, hplace] at h
        cases h
    | waiting => rfl
    | handling rest => rfl
    | ran => rfl
    | timing rest => rfl
    | ended => rfl
  rw [work, work, placeWork, placeWork, hsame.1, hqueued, queueWork, queueWork, List.map_append,
    List.sum_append, List.map_singleton, List.sum_singleton, Nat.add_assoc]

theorem work_setRest {f g : Func ι α} (h : l.rest = some f) :
  (l.setRest g).work + f.size = l.work + g.size
  := by
  rw [rest] at h
  cases hplace : l.place with
  | handling rest =>
      rw [hplace] at h
      cases h
      simp only [work, placeWork, queued, setRest, hplace]
      omega
  | running rest =>
      rw [hplace] at h
      cases h
      simp only [work, placeWork, queued, setRest, hplace]
      omega
  | timing rest =>
      rw [hplace] at h
      cases h
      simp only [work, placeWork, queued, setRest, hplace]
      omega
  | waiting =>
      rw [hplace] at h
      cases h
  | ran =>
      rw [hplace] at h
      cases h
  | ended =>
      rw [hplace] at h
      cases h

theorem work_nextFunction (l : EventLoop ι α) :
  l.nextFunction.work ≤ queueWork l.functions
  := by
  cases hfunctions : l.functions with
  | nil =>
      simp only [nextFunction, hfunctions, work, placeWork, queued]
      omega
  | cons f fs =>
      simp only [nextFunction, hfunctions, work, placeWork, queued, List.tail_cons,
        queueWork_cons]
      omega

theorem work_finish (h : l.rest = some .done) :
  l.finish.work < l.work
  := by
  rw [rest] at h
  cases hplace : l.place with
  | handling rest =>
      have hnext := work_nextFunction l
      simp only [finish, work, placeWork, queued, hplace] at hnext ⊢
      omega
  | running rest =>
      have hnext := work_nextFunction { l with functions := l.functions.tail }
      simp only [finish, work, placeWork, queued, hplace] at hnext ⊢
      omega
  | timing rest =>
      simp only [finish, work, placeWork, queued, hplace]
      cases l.looping
      · simp only [Bool.false_eq_true, if_false]
        omega
      · simp only [if_true]
        omega
  | waiting =>
      rw [hplace] at h
      cases h
  | ran =>
      rw [hplace] at h
      cases h
  | ended =>
      rw [hplace] at h
      cases h

end EventLoop

namespace EventLoops

variable {ι α : Type} [DecidableEq ι] {capacity : Nat} {s : EventLoops ι α} {i j : ι}

/-- The thread of the loop `i` waits for the lock of the loop `j`. -/
def Waits (s : EventLoops ι α) (i j : ι) : Prop :=
  j ≠ i ∧ (s j).locked = true ∧ ∃ f rest, (s i).rest = some (.runInLoop j f rest)

/-- A set of loops whose threads hold their locks, each waiting for another of them. -/
structure Deadlock (s : EventLoops ι α) (S : Set ι) : Prop where
  holds : ∀ i ∈ S, (s i).locked = true
  waits : ∀ i ∈ S, ∃ j ∈ S, s.Waits i j

/-! ### Progress -/

/-- What all loops have before them. -/
def work [Fintype ι] (s : EventLoops ι α) : Nat := ∑ i, (s i).work

theorem work_modify [Fintype ι] (g : EventLoop ι α → EventLoop ι α) :
  (s.modify i g).work + (s i).work = s.work + (g (s i)).work
  := by
  have hmodify : (fun k => (s.modify i g k).work) =
      Function.update (fun k => (s k).work) i (g (s i)).work
    := by
    funext k
    by_cases hk : k = i
    · subst hk
      rw [modify_same, Function.update_self]
    · rw [modify_other _ hk, Function.update_of_ne hk]
  have hrest := Finset.add_sum_erase Finset.univ (fun k => (s k).work) (Finset.mem_univ i)
  rw [work, hmodify, Finset.sum_update_of_mem (Finset.mem_univ i), work, ← hrest,
    Finset.erase_eq]
  omega

/-- A thread that goes on has less before it; it goes on unless it is at rest or waits. -/
theorem work_go [Fintype ι] (capacity : Nat) (s : EventLoops ι α) (i : ι) :
  (s.go capacity i).work < s.work ∨
    s.go capacity i = s ∧ ((s i).rest = none ∨ ∃ j, s.Waits i j)
  := by
  rw [go]
  cases hrest : (s i).rest with
  | none => exact .inr ⟨rfl, .inl rfl⟩
  | some code =>
      cases code with
      | done =>
          left
          have hfinish := EventLoop.work_finish hrest
          have hmodify := work_modify (s := s) (i := i) .finish
          simp only
          omega
      | call a rest =>
          left
          have hcall := EventLoop.work_setRest (g := rest) hrest
          have hmodify := work_modify (s := s) (i := i) (·.setRest rest)
          simp only [Func.size] at hcall hmodify ⊢
          omega
      | runInLoop j f rest =>
          by_cases hj : j = i
          · left
            have hown := EventLoop.work_setRest (g := f.andThen rest) hrest
            have hmodify := work_modify (s := s) (i := i) (·.setRest (f.andThen rest))
            simp only [Func.size, Func.size_andThen, if_pos hj] at hown hmodify ⊢
            omega
          · cases hlocked : (s j).locked with
            | true =>
                right
                simp only [if_neg hj, hlocked, if_true]
                exact ⟨trivial, .inr ⟨j, hj, hlocked, f, rest, hrest⟩⟩
            | false =>
                left
                have hpush : ((s j).push capacity f).work = (s j).work + (f.size + 1)
                  := EventLoop.work_push hlocked f
                have hpost := work_modify (s := s) (i := j) (·.push capacity f)
                have hother : (s.post capacity j f) i = s i := post_other f (Ne.symm hj)
                have hset := EventLoop.work_setRest (g := rest) hrest
                have hmodify := work_modify (s := s.post capacity j f) (i := i) (·.setRest rest)
                rw [hother] at hmodify
                rw [post, hlocked, if_neg Bool.false_ne_true] at hmodify
                simp only [Func.size, if_neg hj, post, hlocked, Bool.false_eq_true, if_false]
                  at hset hmodify ⊢
                omega

/-- As long as threads go on, what is before them gets less. -/
theorem length_le_work [Fintype ι] (capacity : Nat) {s : EventLoops ι α} {is : List ι}
    (h : Runs.Steps (go capacity) (fun s i => s.go capacity i ≠ s) s is) :
  is.length ≤ s.work
  := by
  induction is generalizing s with
  | nil => apply Nat.zero_le
  | cons i is ih =>
      obtain ⟨hchanges, hrest⟩ := h
      have hlength := ih hrest
      rcases work_go capacity s i with hless | ⟨hsame, -⟩
      · rw [List.length_cons]
        omega
      · exact absurd hsame hchanges

/-- When no thread goes on and one is not at rest, the loops that hold their locks are a
deadlock. -/
theorem deadlock_of_stuck [Fintype ι] (h : ∀ i, s.go capacity i = s) (hi : (s i).rest ≠ none) :
  s.Deadlock {k | (s k).locked = true} ∧ ∃ k, (s k).locked = true
  := by
  have hwaits : ∀ k, (s k).rest ≠ none → ∃ j, s.Waits k j
    := by
    intro k hk
    rcases work_go capacity s k with hless | ⟨-, hrest | hwaits⟩
    · rw [h k] at hless
      exact absurd hless (Nat.lt_irrefl _)
    · exact absurd hrest hk
    · exact hwaits
  constructor
  · constructor
    · intro k hk
      exact hk
    · intro k hk
      obtain ⟨f, hf⟩ := EventLoop.rest_of_locked hk
      obtain ⟨j, hj⟩ := hwaits k (hf ▸ Option.some_ne_none f)
      exact ⟨j, hj.2.1, hj⟩
  · obtain ⟨j, hj⟩ := hwaits i hi
    exact ⟨j, hj.2.1⟩

/-! ### A deadlock stays -/

/-- No event changes a loop of a deadlock, but for `Quit`, which nobody looks at any more. -/
theorem Deadlock.same {S : Set ι} (h : s.Deadlock S) (hi : i ∈ S) (e : LoopEvent ι α) :
  (s.step capacity e) i = s i ∨ (s.step capacity e) i = (s i).quit
  := by
  obtain ⟨f, hplace⟩ := EventLoop.place_of_locked (h.holds i hi)
  cases e with
  | wake k pipe g =>
      left
      by_cases hk : i = k
      · subst hk
        rw [step, modify_same, EventLoop.wake, hplace]
      · rw [step, modify_other _ hk]
  | onTimer k g =>
      left
      by_cases hk : i = k
      · subst hk
        rw [step, modify_same, EventLoop.onTimer, hplace]
      · rw [step, modify_other _ hk]
  | runInLoop k g =>
      left
      by_cases hk : i = k
      · subst hk
        rw [step, post_locked (h.holds i hi)]
      · rw [step, post_other _ hk]
  | quit k =>
      by_cases hk : i = k
      · right
        subst hk
        rw [step, modify_same]
      · left
        rw [step, modify_other _ hk]
  | go k =>
      left
      rw [step]
      by_cases hk : i = k
      · subst hk
        obtain ⟨j, -, hne, hlocked, g, rest, hrest⟩ := h.waits i hi
        simp only [go, hrest, if_neg hne, hlocked, if_true]
      · rcases go_other hk with hsame | ⟨hfree, -⟩
        · exact hsame
        · rw [h.holds i hi] at hfree
          cases hfree

/-- It is a deadlock again. -/
theorem Deadlock.step {S : Set ι} (h : s.Deadlock S) (e : LoopEvent ι α) :
  (s.step capacity e).Deadlock S
  := by
  have hsame : ∀ i ∈ S, ((s.step capacity e) i).place = (s i).place
    := by
    intro i hi
    rcases h.same hi e with hsame | hquit
    · rw [hsame]
    · rw [hquit]
      rfl
  have hlocked : ∀ i ∈ S, ((s.step capacity e) i).locked = true
    := by
    intro i hi
    rw [EventLoop.locked, hsame i hi]
    apply h.holds i hi
  constructor
  · exact hlocked
  · intro i hi
    obtain ⟨j, hj, hne, -, f, rest, hrest⟩ := h.waits i hi
    refine ⟨j, hj, hne, hlocked j hj, f, rest, ?_⟩
    rw [EventLoop.rest, hsame i hi]
    exact hrest

/-- Threads that wait for each other's locks wait for ever: whatever happens, they run nothing of
what they had and nobody can hand them anything.  When the threads of a process cannot go on and
one of them is not at rest, it is because of that. -/
theorem deadlock_for_ever [Fintype ι] (capacity : Nat) (s : EventLoops ι α) :
  (∀ S, s.Deadlock S → ∀ events, ∀ i ∈ S,
    (Runs.run (step capacity) s events i).place = (s i).place ∧
      (Runs.run (step capacity) s events i).functions = (s i).functions) ∧
    ((∀ i, s.go capacity i = s) → (∃ i, (s i).rest ≠ none) →
      ∃ S, S.Nonempty ∧ s.Deadlock S)
  := by
  constructor
  · intro S h events
    induction events generalizing s with
    | nil =>
        intro i _
        exact ⟨rfl, rfl⟩
    | cons e events ih =>
        intro i hi
        obtain ⟨hplace, hfunctions⟩ := ih _ (h.step e) i hi
        rw [Runs.run, List.foldl_cons, ← Runs.run, hplace, hfunctions]
        rcases h.same hi e with hsame | hquit
        · rw [hsame]
          exact ⟨rfl, rfl⟩
        · rw [hquit]
          exact ⟨rfl, rfl⟩
  · rintro h ⟨i, hi⟩
    obtain ⟨hdeadlock, k, hk⟩ := deadlock_of_stuck h hi
    exact ⟨_, ⟨k, hk⟩, hdeadlock⟩

end EventLoops

/-! ### Locks in order -/

namespace EventLoop

variable {ι α : Type} [Preorder ι] {capacity : Nat} {l : EventLoop ι α} {i : ι}

/-- What is queued, and what is in hand, keeps to the order of the loops. -/
structure Ordered (i : ι) (l : EventLoop ι α) : Prop where
  queue : ∀ f ∈ l.functions, f.Climbs i
  locked : l.locked = true → ∀ f ∈ l.rest, f.Climbs i
  free : l.locked = false → ∀ f ∈ l.rest, f.HandsOver i

theorem Ordered.push (h : l.Ordered i) {f : Func ι α} (hf : f.Climbs i) :
  (l.push capacity f).Ordered i
  := by
  have hpush : ({ l with functions := l.functions ++ [f] } : EventLoop ι α).Ordered i
    := by
    constructor
    · intro g hg
      rcases List.mem_append.mp hg with hold | hnew
      · apply h.queue g hold
      · cases List.mem_singleton.mp hnew
        exact hf
    · apply h.locked
    · apply h.free
  rw [EventLoop.push, wakeUp]
  split
  · exact ⟨hpush.queue, hpush.locked, hpush.free⟩
  · exact hpush

theorem Ordered.handling (h : l.Ordered i) {f : Func ι α} (hf : f.HandsOver i) (pipe : Nat)
    (ready : Bool) :
  ({ l with pipe, ready, place := .handling f } : EventLoop ι α).Ordered i
  := by
  constructor
  · apply h.queue
  · rintro ⟨⟩
  · rintro - g ⟨⟩
    exact hf

theorem Ordered.wake (h : l.Ordered i) (pipe : Bool) {f : Func ι α} (hf : f.HandsOver i) :
  (l.wake pipe f).Ordered i
  := by
  rw [EventLoop.wake]
  split
  · split
    · apply h.handling hf
    · apply h.handling hf l.pipe l.ready
  · exact h

theorem Ordered.onTimer (h : l.Ordered i) {f : Func ι α} (hf : f.HandsOver i) :
  (l.onTimer f).Ordered i
  := by
  rw [EventLoop.onTimer]
  split
  · constructor
    · apply h.queue
    · rintro ⟨⟩
    · rintro - g ⟨⟩
      exact hf
  · exact h

theorem Ordered.nextFunction (h : ∀ f ∈ l.functions, f.Climbs i) :
  l.nextFunction.Ordered i
  := by
  cases hfunctions : l.functions with
  | nil =>
      simp only [EventLoop.nextFunction, hfunctions]
      constructor
      · rw [hfunctions] at h
        exact h
      · rintro ⟨⟩
      · rintro - g ⟨⟩
  | cons f fs =>
      simp only [EventLoop.nextFunction, hfunctions]
      rw [hfunctions] at h
      constructor
      · exact h
      · rintro - g ⟨⟩
        apply h f (List.mem_cons_self ..)
      · rintro ⟨⟩

theorem Ordered.finish (h : l.Ordered i) :
  l.finish.Ordered i
  := by
  rw [EventLoop.finish]
  split
  · apply Ordered.nextFunction h.queue
  · apply Ordered.nextFunction
    intro f hf
    apply h.queue f (List.mem_of_mem_tail hf)
  · constructor
    · apply h.queue
    · rw [EventLoop.locked]
      cases l.looping
      · rintro ⟨⟩
      · rintro ⟨⟩
    · rw [rest]
      cases l.looping
      · rintro - g ⟨⟩
      · rintro - g ⟨⟩
  · exact h

/-- The thread goes on with code that keeps to the order as the code before it did. -/
theorem Ordered.setRest (h : l.Ordered i) {f g : Func ι α} (hrest : l.rest = some f)
    (hclimbs : f.Climbs i → g.Climbs i) (hhands : f.HandsOver i → g.HandsOver i) :
  (l.setRest g).Ordered i
  := by
  rw [EventLoop.setRest]
  split
  · next k hplace =>
      constructor
      · apply h.queue
      · rintro ⟨⟩
      · rintro - _ ⟨⟩
        apply hhands
        apply h.free (by rw [EventLoop.locked, hplace]) f hrest
  · next k hplace =>
      constructor
      · apply h.queue
      · rintro - _ ⟨⟩
        apply hclimbs
        apply h.locked (by rw [EventLoop.locked, hplace]) f hrest
      · rintro ⟨⟩
  · next k hplace =>
      constructor
      · apply h.queue
      · rintro ⟨⟩
      · rintro - _ ⟨⟩
        apply hhands
        apply h.free (by rw [EventLoop.locked, hplace]) f hrest
  · exact h

end EventLoop

/-- What comes from outside keeps to the order of the loops. -/
def LoopEvent.InOrder {ι α : Type} [Preorder ι] : LoopEvent ι α → Prop
  | .wake i _ f => f.HandsOver i
  | .go _ => True
  | .onTimer i f => f.HandsOver i
  | .runInLoop i f => f.Climbs i
  | .quit _ => True

namespace EventLoops

variable {ι α : Type} [Preorder ι] {capacity : Nat} {s : EventLoops ι α} {i : ι}

/-- Every loop of the process. -/
def Ordered (s : EventLoops ι α) : Prop := ∀ i, (s i).Ordered i

theorem ordered_start : (start : EventLoops ι α).Ordered
  := by
  intro i
  constructor
  · apply List.forall_mem_nil
  · rintro ⟨⟩
  · rintro - f ⟨⟩

/-- A thread only waits for a loop above its own, so that finitely many cannot wait in a
circle. -/
theorem Ordered.not_deadlock [Finite ι] (h : s.Ordered) {S : Set ι} (hS : s.Deadlock S) :
  ∀ i, i ∉ S
  := by
  intro i
  have hwf : WellFounded ((· > ·) : ι → ι → Prop) := Finite.to_wellFoundedGT.wf
  induction i using hwf.induction with
  | _ i ih =>
      intro hi
      obtain ⟨j, hj, hne, -, f, rest, hrest⟩ := hS.waits i hi
      have hcode := (h i).locked (hS.holds i hi) _ hrest
      rcases hcode.1 with heq | habove
      · exact hne heq
      · exact ih j habove hj

variable [DecidableEq ι]

theorem Ordered.modify (h : s.Ordered) {g : EventLoop ι α → EventLoop ι α}
    (hg : (g (s i)).Ordered i) :
  (s.modify i g).Ordered
  := by
  intro k
  by_cases hk : k = i
  · subst hk
    rw [modify_same]
    exact hg
  · rw [modify_other _ hk]
    apply h

theorem Ordered.post (h : s.Ordered) {f : Func ι α} (hf : f.Climbs i) :
  (s.post capacity i f).Ordered
  := by
  rw [EventLoops.post]
  split
  · exact h
  · apply h.modify
    apply (h i).push hf

theorem Ordered.go (h : s.Ordered) (i : ι) :
  (s.go capacity i).Ordered
  := by
  rw [EventLoops.go]
  split
  · exact h
  · apply h.modify
    apply (h i).finish
  · next a rest hrest =>
      apply h.modify
      apply (h i).setRest hrest
      · intro hcode
        exact hcode
      · intro hcode
        exact hcode
  · next j f rest hrest =>
      split
      · next hj =>
          subst hj
          apply h.modify
          apply (h j).setRest hrest
          · intro hcode
            apply hcode.2.1.andThen hcode.2.2
          · intro hcode
            apply (hcode.1 rfl).andThen hcode.2.2
      · next hj =>
          split
          · exact h
          · have hf : f.Climbs j
              := by
              cases hlocked : (s i).locked with
              | true => apply ((h i).locked hlocked _ hrest).2.1
              | false => apply ((h i).free hlocked _ hrest).2.1 hj
            have hpost : (s.post capacity j f).Ordered := h.post hf
            apply hpost.modify
            apply (hpost i).setRest
            · rw [post_other f (Ne.symm hj)]
              exact hrest
            · intro hcode
              exact hcode.2.2
            · intro hcode
              exact hcode.2.2

theorem Ordered.step (h : s.Ordered) {e : LoopEvent ι α} (he : e.InOrder) :
  (s.step capacity e).Ordered
  := by
  rw [EventLoops.step.eq_def]
  cases e with
  | wake i pipe f =>
      apply h.modify
      apply (h i).wake pipe he
  | go i => apply h.go
  | onTimer i f =>
      apply h.modify
      apply (h i).onTimer he
  | runInLoop i f => apply h.post he
  | quit i =>
      apply h.modify
      exact ⟨(h i).queue, (h i).locked, (h i).free⟩

/-- When functions only hand functions to loops above their own, the threads come to rest from
every state that can be reached: they go on at most as often as there is work, and when none of
them can go on, all are at rest. -/
theorem loops_come_to_rest [Fintype ι] (capacity : Nat) {events : List (LoopEvent ι α)}
    (hevents : ∀ e ∈ events, e.InOrder) :
  (∀ is, Runs.Steps (go capacity) (fun s i => s.go capacity i ≠ s)
      (Runs.run (step capacity) start events) is →
      is.length ≤ (Runs.run (step capacity) start events).work) ∧
    ((∀ i, (Runs.run (step capacity) start events).go capacity i =
        Runs.run (step capacity) start events) →
      ∀ i, (Runs.run (step capacity) start events i).rest = none)
  := by
  constructor
  · intro is his
    apply length_le_work capacity his
  · intro hstuck i
    have hordered : (Runs.run (step capacity) start events).Ordered
      := by
      apply ((Runs.steps_of_forall hevents).throughout ordered_start ?_).last
      intro s e h he
      exact h.step he
    by_contra hi
    obtain ⟨hdeadlock, k, hk⟩ := deadlock_of_stuck hstuck hi
    exact hordered.not_deadlock hdeadlock k hk

/-- A function of the loop 0 hands a function to the loop 1, while it runs. -/
theorem loops_come_to_rest_upwards :
  (∀ is, Runs.Steps (go 64) (fun s i => s.go 64 i ≠ s)
      (Runs.run (step 64) (start : EventLoops (Fin 2) Nat)
        [.runInLoop 0 (.runInLoop 1 (.call 7 .done) .done), .wake 0 true .done, .go 0]) is →
      is.length ≤ (Runs.run (step 64) (start : EventLoops (Fin 2) Nat)
        [.runInLoop 0 (.runInLoop 1 (.call 7 .done) .done), .wake 0 true .done, .go 0]).work) ∧
    ((∀ i, (Runs.run (step 64) (start : EventLoops (Fin 2) Nat)
          [.runInLoop 0 (.runInLoop 1 (.call 7 .done) .done), .wake 0 true .done, .go 0]).go 64 i =
        Runs.run (step 64) start
          [.runInLoop 0 (.runInLoop 1 (.call 7 .done) .done), .wake 0 true .done, .go 0]) →
      ∀ i, (Runs.run (step 64) (start : EventLoops (Fin 2) Nat)
        [.runInLoop 0 (.runInLoop 1 (.call 7 .done) .done), .wake 0 true .done, .go 0] i).rest =
          none)
  := by
  apply loops_come_to_rest
  intro e he
  simp only [List.mem_cons, List.not_mem_nil, or_false] at he
  rcases he with rfl | rfl | rfl
  · exact ⟨.inr (by decide), trivial, trivial⟩
  · trivial
  · trivial

/-- Two loops whose functions hand functions to each other, both in `RunFuctions`. -/
example :
    let s := Runs.run (step 64) (start : EventLoops (Fin 2) Nat)
      [.runInLoop 0 (.runInLoop 1 .done .done), .runInLoop 1 (.runInLoop 0 .done .done),
        .wake 0 true .done, .wake 1 true .done, .go 0, .go 1]
    ∀ i k, (s i).locked = true ∧ s.go 64 i k = s k := by
  decide

end EventLoops
