import Tmms.Network.TimingWheel

/-!
# What a step of a wheel changes

Whatever the entries call, an insertion and a release change the wheels by `setWheel` and the
history by `markInserted` and `markReleased`, and nothing else.  What these three keep is kept by
every call and every turn of a wheel that succeeds (`Kept`), and a tick moves the clock besides.
-/

namespace TimingWheel

/-- Operations one behind the other succeed when both do. -/
theorem exists_of_bind {ε α β : Type} {o : Except ε α} {f : α → Except ε β} {b : β}
    (h : o >>= f = .ok b) :
  ∃ a, o = .ok a ∧ f a = .ok b
  := by
  cases o with
  | ok a => exact ⟨a, rfl, h⟩
  | error e => cases h

/-- A property that the three changes keep. -/
structure Kept (P : TimingWheel → Prop) : Prop where
  setWheel : ∀ {w : TimingWheel} (type) (bq), P w → P (w.setWheel type bq)
  markInserted : ∀ {w : TimingWheel} (inside) (delay), P w → P (w.markInserted inside delay)
  markReleased : ∀ {w : TimingWheel} (token), P w → P (w.markReleased token)

/-- A property of the wheel that an operation ends with, if it succeeds. -/
def Succeeds (P : TimingWheel → Prop) (o : WheelOutcome) : Prop := ∀ w, o = .ok w → P w

variable {P : TimingWheel → Prop}

theorem succeeds_ok {w : TimingWheel} (h : P w) :
  Succeeds P (.ok w)
  := by
  rintro w' ⟨⟩
  exact h

theorem succeeds_error (f : WheelFault) :
  Succeeds P (.error f)
  := by
  rintro w ⟨⟩

theorem Succeeds.bind {o : WheelOutcome} {f : TimingWheel → WheelOutcome} (h : Succeeds P o)
    (hf : ∀ w, P w → Succeeds P (f w)) :
  Succeeds P (o >>= f)
  := by
  intro w hw
  obtain ⟨w', hfirst, hsecond⟩ := exists_of_bind hw
  exact hf w' (h w' hfirst) w hsecond

theorem succeeds_foldlM {α : Type} {f : TimingWheel → α → WheelOutcome}
    (hf : ∀ w a, P w → Succeeds P (f w a)) (l : List α) {w : TimingWheel} (hw : P w) :
  Succeeds P (l.foldlM f w)
  := by
  induction l generalizing w with
  | nil => exact succeeds_ok hw
  | cons a l ih =>
      rw [List.foldlM_cons]
      apply (hf w a hw).bind
      intro w' hw'
      apply ih hw'

namespace Kept

theorem emplace (h : Kept P) {w : TimingWheel} (hw : P w) (type : TimingType) (i : UInt32)
    (t : Timer) (entry : WheelEntry) :
  Succeeds P (w.emplace type i t entry)
  := by
  rw [TimingWheel.emplace]
  split
  · exact succeeds_ok (h.setWheel type _ hw)
  · apply succeeds_error

theorem insertEntry (h : Kept P) {w : TimingWheel} (hw : P w) (delay : UInt32) (t : Timer) :
  Succeeds P (w.insertEntry delay t)
  := by
  rw [TimingWheel.insertEntry]
  split
  · apply h.emplace hw
  · split
    · apply h.emplace hw
    · split
      · apply h.emplace hw
      · split
        · exact succeeds_ok hw
        · apply h.emplace hw

theorem call (h : Kept P) {w : TimingWheel} (hw : P w) (inside : Bool) (c : WheelCall) :
  Succeeds P (w.call inside c)
  := by
  have hmark := h.markInserted inside c.delay hw
  rw [TimingWheel.call]
  split
  · split
    · apply succeeds_error
    · exact succeeds_ok (h.markReleased _ hmark)
  · exact h.insertEntry hmark _ _

theorem release (h : Kept P) (env : Callbacks) {w : TimingWheel} (hw : P w) (entry : WheelEntry) :
  Succeeds P (TimingWheel.release env w entry)
  := by
  cases entry with
  | timer t =>
      exact succeeds_foldlM (fun w c hw => h.call hw true c) _ (h.markReleased t.token hw)
  | later second t => exact h.insertEntry hw second t

theorem popUp (h : Kept P) (env : Callbacks) {w : TimingWheel} (hw : P w) (type : TimingType) :
  Succeeds P (TimingWheel.popUp env w type)
  := succeeds_foldlM (fun _ entry hw => h.release env hw entry) _ (h.setWheel type _ hw)

/-- What holds when the tick is counted holds at its end. -/
theorem advance (h : Kept P) (env : Callbacks) {w : TimingWheel}
    (hw : P { w with tick := w.tick + 1 }) :
  Succeeds P (TimingWheel.advance env w)
  := by
  apply (h.popUp env hw .second).bind
  intro w' hw'
  split
  · exact h.popUp env hw' .minute
  · split
    · exact h.popUp env hw' .hour
    · split
      · exact h.popUp env hw' .day
      · exact succeeds_ok hw'

/-- What the clock does not matter for is kept by every event. -/
theorem step (h : Kept P) (hlastTs : ∀ w lastTs, P w → P { w with lastTs := lastTs })
    (htick : ∀ w, P w → P { w with tick := w.tick + 1 }) (env : Callbacks) {w : TimingWheel}
    (hw : P w) (e : WheelEvent) :
  Succeeds P (TimingWheel.step env w e)
  := by
  cases e with
  | call c => exact h.call hw false c
  | timer now =>
      by_cases hshort : now - (if w.lastTs = 0 then now else w.lastTs) < 1000
      · simp only [TimingWheel.step, onTimer, if_pos hshort]
        exact succeeds_ok (hlastTs w _ hw)
      · simp only [TimingWheel.step, onTimer, if_neg hshort]
        apply h.advance
        apply htick
        apply hlastTs w now hw

end Kept

end TimingWheel
