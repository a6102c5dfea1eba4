import Mathlib.Data.List.Basic
import Mathlib.Data.List.Perm.Basic

/-!
# Rotating wheels

A wheel has slots with items in them.  A turn takes the items of the front slot and puts an
empty slot at the back.  The schedule of a wheel lists its items, each with the number of the
turn that takes it: putting an item into a slot adds it to the schedule (`schedule_put`), and a
turn takes from the schedule exactly what is due (`schedule_rotate`).
-/

universe u

/-- Slots with items, the front one first. -/
abbrev RotatingWheel (α : Type u) := List (List α)

namespace RotatingWheel

variable {α : Type u}

/-- A wheel with empty slots. -/
def empty (α : Type u) (n : Nat) : RotatingWheel α := List.replicate n []

/-- An item is put into a slot, if there is such a slot. -/
def put (w : RotatingWheel α) (i : Nat) (a : α) : Option (RotatingWheel α) :=
  if i < w.length then some (w.modify i (a :: ·)) else none

/-- The items of the front slot. -/
def front (w : RotatingWheel α) : List α := w.headD []

/-- The front slot goes, and an empty slot comes to the back. -/
def rotate (w : RotatingWheel α) : RotatingWheel α := w.tail ++ [[]]

/-- The items with the turns that take them, after some turns. -/
def schedule (turn : Nat) : RotatingWheel α → List (Nat × α)
  | [] => []
  | slot :: w => slot.map (turn + 1, ·) ++ schedule (turn + 1) w

theorem length_put {w w' : RotatingWheel α} {i : Nat} {a : α} (h : put w i a = some w') :
  w'.length = w.length
  := by
  rw [put] at h
  split at h
  · cases h
    exact List.length_modify _ _ _
  · cases h

theorem put_of_lt {w : RotatingWheel α} {i : Nat} (a : α) (h : i < w.length) :
  put w i a = some (w.modify i (a :: ·))
  := if_pos h

theorem put_of_le {w : RotatingWheel α} {i : Nat} (a : α) (h : w.length ≤ i) :
  put w i a = none
  := if_neg (Nat.not_lt_of_le h)

theorem length_rotate {w : RotatingWheel α} (h : 0 < w.length) :
  (rotate w).length = w.length
  := by
  rw [rotate, List.length_append, List.length_tail, List.length_singleton]
  exact Nat.sub_add_cancel h

/-! ### Schedules -/

/-- Items are taken by later turns. -/
theorem lt_of_mem_schedule {w : RotatingWheel α} {turn : Nat} {p : Nat × α}
    (h : p ∈ schedule turn w) :
  turn < p.1
  := by
  induction w generalizing turn with
  | nil => cases h
  | cons slot w ih =>
      rcases List.mem_append.mp h with hslot | hrest
      · obtain ⟨a, _, rfl⟩ := List.mem_map.mp hslot
        exact Nat.lt_succ_self turn
      · exact Nat.lt_trans (Nat.lt_succ_self turn) (ih hrest)

/-- The items of the slots are scheduled, whatever the number of turns so far. -/
theorem map_snd_schedule (w : RotatingWheel α) (turn : Nat) :
  (schedule turn w).map Prod.snd = w.flatten
  := by
  induction w generalizing turn with
  | nil => rfl
  | cons slot w ih =>
      rw [schedule, List.map_append, ih (turn + 1), List.map_map, List.flatten_cons]
      congr 1
      exact List.map_id slot

theorem schedule_modify (w : RotatingWheel α) (turn : Nat) {i : Nat} (a : α)
    (h : i < w.length) :
  (schedule turn (w.modify i (a :: ·))).Perm ((turn + i + 1, a) :: schedule turn w)
  := by
  induction w generalizing turn i with
  | nil => exact absurd h (Nat.not_lt_zero i)
  | cons slot w ih =>
      cases i with
      | zero => exact List.Perm.refl _
      | succ i =>
          have hrest := ih (turn + 1) (Nat.lt_of_succ_lt_succ h)
          have hturn : turn + 1 + i + 1 = turn + (i + 1) + 1 := by omega
          rw [hturn] at hrest
          exact (hrest.append_left _).trans List.perm_middle

/-- Putting an item adds it to the schedule. -/
theorem schedule_put {w w' : RotatingWheel α} (turn : Nat) {i : Nat} {a : α}
    (h : put w i a = some w') :
  (schedule turn w').Perm ((turn + i + 1, a) :: schedule turn w)
  := by
  rw [put] at h
  split at h
  · cases h
    apply schedule_modify
    assumption
  · cases h

theorem schedule_append_nil (w : RotatingWheel α) (turn : Nat) :
  schedule turn (w ++ [[]]) = schedule turn w
  := by
  induction w generalizing turn with
  | nil => rfl
  | cons slot w ih => exact congrArg (slot.map (turn + 1, ·) ++ ·) (ih (turn + 1))

/-- A turn takes what is scheduled for it, and the rest stays scheduled as it was. -/
theorem schedule_rotate (w : RotatingWheel α) (turn : Nat) :
  schedule turn w = (front w).map (turn + 1, ·) ++ schedule (turn + 1) (rotate w)
  := by
  cases w with
  | nil => rfl
  | cons slot w =>
      rw [rotate, List.tail_cons, schedule_append_nil]
      rfl

/-! ### Items -/

theorem mem_flatten_put {w w' : RotatingWheel α} {i : Nat} {a : α} (h : put w i a = some w')
    (b : α) :
  b ∈ w'.flatten ↔ b = a ∨ b ∈ w.flatten
  := by
  have hperm := (schedule_put 0 h).map Prod.snd
  rw [List.map_cons, map_snd_schedule, map_snd_schedule] at hperm
  rw [hperm.mem_iff, List.mem_cons]

theorem mem_flatten_rotate (w : RotatingWheel α) (b : α) :
  b ∈ w.flatten ↔ b ∈ front w ∨ b ∈ (rotate w).flatten
  := by
  rw [← map_snd_schedule w 0, schedule_rotate, List.map_append, map_snd_schedule, List.map_map,
    List.mem_append]
  have hfront : (front w).map (Prod.snd ∘ fun a => (0 + 1, a)) = front w := List.map_id _
  rw [hfront]

end RotatingWheel
