import Mathlib.Data.List.Induction
import Tmms.Hls.Fragment

/-!
# Durations of fragments

The duration of a fragment is the last timestamp less the smallest one, so it is the largest
less the smallest exactly if the timestamps came in order.  A timestamp of -1 is not told from
none.
-/

/-- The difference of the largest and the smallest of some times. -/
def IsSpan (times : List Int) (duration : Int) : Prop :=
  ∃ lo ∈ times, ∃ hi ∈ times, (∀ t ∈ times, lo ≤ t ∧ t ≤ hi) ∧ duration = hi - lo

namespace Fragment

/-- A fragment that was reset, after some timestamps. -/
def recorded (v : Fragment) (times : List Int) : Fragment :=
  times.foldl appendTimeStamp v.reset

/-- After every timestamp the duration is the largest less the smallest so far, and not below
what it was. -/
def MeasuresSpan (v : Fragment) (times : List Int) : Prop :=
  ∀ before t after, times = before ++ t :: after →
    IsSpan (before ++ [t]) (v.recorded (before ++ [t])).duration ∧
      (v.recorded before).duration ≤ (v.recorded (before ++ [t])).duration

/-- The timestamps are in order, and the first is not -1 unless all are. -/
def InOrder (times : List Int) : Prop :=
  times.Pairwise (· ≤ ·) ∧ (times.head? = some (-1) → ∀ t ∈ times, t = -1)

instance (times : List Int) : Decidable (InOrder times) :=
  inferInstanceAs (Decidable (_ ∧ _))

theorem recorded_concat (v : Fragment) (times : List Int) (t : Int) :
  v.recorded (times ++ [t]) = (v.recorded times).appendTimeStamp t
  := List.foldl_append

theorem InOrder.of_append {times more : List Int} (h : InOrder (times ++ more)) :
  InOrder times
  := by
  refine ⟨(List.pairwise_append.mp h.1).1, ?_⟩
  intro hhead a ha
  apply h.2
  · rw [List.head?_append, hhead]
    rfl
  · apply List.mem_append_left _ ha

/-- Before the first timestamp. -/
theorem recorded_nil (v : Fragment) :
  (v.recorded []).startDts = -1 ∧ (v.recorded []).duration = 0
  := ⟨rfl, rfl⟩

/-- After timestamps in order the fragment has the first as its start, and the last less the
first as its duration. -/
theorem recorded_of_inOrder (v : Fragment) {first : Int} {times : List Int}
    (h : InOrder (first :: times)) :
  (v.recorded (first :: times)).startDts = first ∧
    ∀ last, (first :: times).getLast? = some last →
      (v.recorded (first :: times)).duration = last - first
  := by
  induction times using List.reverseRecOn with
  | nil =>
      have hstart : (v.recorded [first]).startDts = min first first := rfl
      have hduration : (v.recorded [first]).duration = first - min first first := rfl
      constructor
      · omega
      · intro last hlast
        obtain rfl : first = last := Option.some.inj hlast
        omega
  | append_singleton times t ih =>
      rw [← List.cons_append] at h ⊢
      obtain ⟨hstart, -⟩ := ih h.of_append
      have hle : first ≤ t
        := (List.pairwise_append.mp h.1).2.2 first List.mem_cons_self t List.mem_cons_self
      have hsentinel : first = -1 → t = -1
        := by
        rintro rfl
        exact h.2 rfl t (List.mem_append_right _ List.mem_cons_self)
      rw [recorded_concat, appendTimeStamp, hstart, List.getLast?_concat]
      dsimp only
      constructor
      · split
        · omega
        · omega
      · intro last hlast
        cases hlast
        split
        · omega
        · omega

/-- Timestamps in order have the last less the first as their span. -/
theorem isSpan_of_inOrder {first last : Int} {times : List Int} (h : InOrder (first :: times))
    (hlast : (first :: times).getLast? = some last) :
  IsSpan (first :: times) (last - first)
  := by
  refine ⟨first, List.mem_cons_self, last, List.mem_of_getLast? hlast, ?_, rfl⟩
  intro t ht
  constructor
  · rcases List.mem_cons.mp ht with rfl | ht
    · apply Int.le_refl
    · apply (List.pairwise_cons.mp h.1).1 t ht
  · obtain ⟨before, heq⟩ := List.getLast?_eq_some_iff.mp hlast
    have hsorted := h.1
    rw [heq] at ht hsorted
    rcases List.mem_append.mp ht with ht | ht
    · apply (List.pairwise_append.mp hsorted).2.2 t ht last List.mem_cons_self
    · apply Int.le_of_eq (List.mem_singleton.mp ht)

/-- A timestamp whose duration is the span comes in order behind timestamps in order. -/
theorem InOrder.concat (v : Fragment) {times : List Int} {t : Int} (h : InOrder times)
    (hspan : IsSpan (times ++ [t]) (v.recorded (times ++ [t])).duration) :
  InOrder (times ++ [t])
  := by
  cases times with
  | nil =>
      refine ⟨List.pairwise_singleton _ _, ?_⟩
      intro hhead a ha
      rw [List.mem_singleton.mp ha]
      exact Option.some.inj hhead
  | cons first times =>
      obtain ⟨hstart, -⟩ := v.recorded_of_inOrder h
      obtain ⟨lo, hlo, hi, hhi, hbounds, hduration⟩ := hspan
      rw [recorded_concat, appendTimeStamp, hstart] at hduration
      dsimp only at hduration
      have hfirst := hbounds first (List.mem_append_left _ List.mem_cons_self)
      have ht := hbounds t (List.mem_append_right _ List.mem_cons_self)
      -- the smallest is the first or the new one
      have hmin : first ≤ lo ∨ t ≤ lo
        := by
        rcases List.mem_append.mp hlo with hlo | hlo
        · left
          rcases List.mem_cons.mp hlo with rfl | hlo
          · apply Int.le_refl
          · apply (List.pairwise_cons.mp h.1).1 lo hlo
        · right
          apply Int.le_of_eq (List.mem_singleton.mp hlo).symm
      have hlargest : hi ≤ t
        := by
        split at hduration
        · omega
        · omega
      constructor
      · rw [List.pairwise_append]
        refine ⟨h.1, List.pairwise_singleton _ _, ?_⟩
        intro a ha b hb
        have hle := (hbounds a (List.mem_append_left _ ha)).2
        rw [List.mem_singleton.mp hb]
        omega
      · intro hhead
        have hneg : first = -1 := Option.some.inj hhead
        intro a ha
        rcases List.mem_append.mp ha with ha | ha
        · apply h.2 hhead a ha
        · rw [List.mem_singleton.mp ha]
          rw [if_pos hneg] at hduration
          omega

/-- The duration of a fragment measures its timestamps exactly if they come in order, and the
first is not -1 unless all are. -/
theorem measuresSpan_iff_inOrder (v : Fragment) (times : List Int) :
  v.MeasuresSpan times ↔ InOrder times
  := by
  constructor
  · intro h
    induction times using List.reverseRecOn with
    | nil => exact ⟨List.Pairwise.nil, fun _ a ha => absurd ha List.not_mem_nil⟩
    | append_singleton times t ih =>
        apply InOrder.concat v
        · apply ih
          rintro before s after rfl
          apply h before s (after ++ [t])
          rw [List.append_assoc, List.cons_append]
        · exact (h times t [] rfl).1
  · intro h before t after heq
    have hinit : InOrder (before ++ [t])
      := by
      rw [heq, ← List.singleton_append, ← List.append_assoc] at h
      exact h.of_append
    cases before with
    | nil =>
        obtain ⟨-, hduration⟩ := v.recorded_of_inOrder hinit
        have hzero := hduration t rfl
        rw [List.nil_append, hzero, v.recorded_nil.2]
        exact ⟨isSpan_of_inOrder hinit rfl, by omega⟩
    | cons first before =>
        obtain ⟨-, hbefore⟩ := v.recorded_of_inOrder hinit.of_append
        obtain ⟨-, hduration⟩ := v.recorded_of_inOrder hinit
        have hlast : (first :: before ++ [t]).getLast? = some t := List.getLast?_concat
        have hnow : (v.recorded (first :: before ++ [t])).duration = t - first
          := hduration t hlast
        rw [hnow]
        refine ⟨isSpan_of_inOrder hinit hlast, ?_⟩
        rcases hprev : (first :: before).getLast? with _ | last
        · cases List.getLast?_eq_none_iff.mp hprev
        · have hle := (List.pairwise_append.mp hinit.1).2.2 last (List.mem_of_getLast? hprev) t
            List.mem_cons_self
          rw [hbefore last hprev]
          omega

/-- A duration is not always the largest less the smallest: an audio timestamp comes after a
later one of video. -/
theorem not_measuresSpan_late :
  ¬ ∀ (v : Fragment) (times : List Int), v.MeasuresSpan times
  := by
  intro h
  have hlate := (h {} [0, 40, 20] [0, 40] 20 [] rfl).2
  revert hlate
  decide

end Fragment
