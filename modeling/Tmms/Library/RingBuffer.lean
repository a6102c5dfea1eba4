import Mathlib.Algebra.Ring.Int.Defs
import Mathlib.Algebra.Ring.Nat
import Mathlib.Data.List.Basic
import Mathlib.Tactic.Use

/-!
# Rings

A ring has `n` slots, and a number belongs to the slot `i % n`.  `Latest` says that every slot
holds the last item that was put into it.  When items have consecutive numbers (`Holds`), then
under the number of an item there is that item, or one later by `n` at least
(`Holds.get_past`).
-/

universe u

/-- Slots, empty or with an item. -/
abbrev RingBuffer (α : Type u) (n : Nat) := Vector (Option α) n

namespace RingBuffer

variable {α : Type u} {n : Nat} [NeZero n]

/-- A ring with empty slots. -/
def empty (α : Type u) (n : Nat) : RingBuffer α n := Vector.replicate n none

/-- What the slot of a number holds. -/
def get (r : RingBuffer α n) (i : Nat) : Option α :=
  Vector.get r (Fin.ofNat n i)

/-- An item is put into the slot of its number. -/
def put (r : RingBuffer α n) (i : Nat) (a : α) : RingBuffer α n :=
  Vector.set r (i % n) (some a) (Nat.mod_lt i (Nat.pos_of_neZero n))

@[simp]
theorem get_empty (i : Nat) :
  get (empty α n) i = none
  := Vector.getElem_replicate _

theorem get_eq_getElem (r : RingBuffer α n) (i : Nat) (h : i % n < n) :
  get r i = r[i % n]
  := rfl

theorem get_put_of_eq (r : RingBuffer α n) {i j : Nat} (a : α) (h : i % n = j % n) :
  get (put r i a) j = some a
  := by
  rw [get_eq_getElem _ j (Nat.mod_lt j (Nat.pos_of_neZero n)), put, Vector.getElem_set, if_pos h]

theorem get_put_of_ne (r : RingBuffer α n) {i j : Nat} (a : α) (h : i % n ≠ j % n) :
  get (put r i a) j = get r j
  := by
  have hj : j % n < n := Nat.mod_lt j (Nat.pos_of_neZero n)
  rw [get_eq_getElem _ j hj, put, Vector.getElem_set, if_neg h, get_eq_getElem _ j hj]

/-! ### What the slots hold -/

/-- Every slot holds the last one of the items that were put into it. `slot` says which slots
the items were put into, in order. -/
def Latest (slot : Nat → Nat) (items : List α) (r : RingBuffer α n) : Prop :=
  ∀ j,
    (get r j = none ∧ ∀ i < items.length, slot i % n ≠ j % n) ∨
      ∃ i a, items[i]? = some a ∧ get r j = some a ∧ slot i % n = j % n ∧
        ∀ k, i < k → k < items.length → slot k % n ≠ j % n

theorem latest_empty (slot : Nat → Nat) :
  Latest slot [] (empty α n)
  := by
  intro j
  left
  exact ⟨get_empty j, fun _ hi => absurd hi (Nat.not_lt_zero _)⟩

/-- Putting one more item. -/
theorem Latest.put {slot : Nat → Nat} {items : List α} {r : RingBuffer α n}
    (h : Latest slot items r) (a : α) :
  Latest slot (items ++ [a]) (put r (slot items.length) a)
  := by
  intro j
  have hlength : (items ++ [a]).length = items.length + 1 := List.length_append
  by_cases hj : slot items.length % n = j % n
  · right
    refine ⟨items.length, a, List.getElem?_concat_length, get_put_of_eq r a hj, hj, ?_⟩
    intro k hk hk'
    omega
  · rw [get_put_of_ne r a hj]
    rcases h j with ⟨hnone, hother⟩ | ⟨i, b, hi, hb, hslot, hlast⟩
    · left
      use hnone
      intro i hi
      by_cases hi' : i = items.length
      · rwa [hi']
      · apply hother
        omega
    · right
      have hlt : i < items.length := (List.getElem?_eq_some_iff.mp hi).1
      refine ⟨i, b, ?_, hb, hslot, ?_⟩
      · rw [List.getElem?_append_left hlt, hi]
      · intro k hk hk'
        by_cases hk'' : k = items.length
        · rwa [hk'']
        · apply hlast k hk
          omega

/-- What is found is the last item that was put into the slot. -/
theorem Latest.of_get_eq_some {slot : Nat → Nat} {items : List α} {r : RingBuffer α n}
    (h : Latest slot items r) {j : Nat} {a : α} (ha : get r j = some a) :
  ∃ i, items[i]? = some a ∧ slot i % n = j % n ∧
    ∀ k, i < k → k < items.length → slot k % n ≠ j % n
  := by
  rcases h j with ⟨hnone, _⟩ | ⟨i, b, hi, hb, hslot, hlast⟩
  · cases hnone.symm.trans ha
  · cases hb.symm.trans ha
    exact ⟨i, hi, hslot, hlast⟩

/-- An item is found when no later item was put into its slot. -/
theorem Latest.get_eq {slot : Nat → Nat} {items : List α} {r : RingBuffer α n}
    (h : Latest slot items r) {i j : Nat} (hi : i < items.length) (hj : slot i % n = j % n)
    (hlast : ∀ k, i < k → k < items.length → slot k % n ≠ j % n) :
  get r j = items[i]?
  := by
  rcases h j with ⟨_, hother⟩ | ⟨k, b, hk, hb, hslot, hlast'⟩
  · exact absurd hj (hother i hi)
  · have hlt : k < items.length := (List.getElem?_eq_some_iff.mp hk).1
    have hki : k = i
      := by
      by_contra hne
      rcases Nat.lt_or_gt_of_ne hne with hless | hmore
      · exact hlast' i hless hi hj
      · exact hlast k hmore hlt hslot
    rw [hb, ← hk, hki]

/-! ### Consecutive numbers -/

/-- The items have consecutive numbers, the first of which is `first`. -/
def Holds (first : Nat) (items : List α) (r : RingBuffer α n) : Prop :=
  Latest (first + ·) items r

theorem holds_empty (first : Nat) :
  Holds first [] (empty α n)
  := latest_empty _

/-- Putting the item with the next number. -/
theorem Holds.put {first : Nat} {items : List α} {r : RingBuffer α n} (h : Holds first items r)
    (a : α) :
  Holds first (items ++ [a]) (put r (first + items.length) a)
  := Latest.put h a

/-- Under the number of an item there is that item or a later one, which is in the same
slot. -/
theorem Holds.get_past {first : Nat} {items : List α} {r : RingBuffer α n}
    (h : Holds first items r) {i : Nat} (hi : i < items.length) :
  ∃ k a, items[k]? = some a ∧ get r (first + i) = some a ∧ i ≤ k ∧
    (k = i ∨ i + n < items.length)
  := by
  rcases h (first + i) with ⟨_, hother⟩ | ⟨k, a, hk, ha, hslot, hlast⟩
  · exact absurd rfl (hother i hi)
  · have hlt : k < items.length := (List.getElem?_eq_some_iff.mp hk).1
    have hle : i ≤ k
      := by
      by_contra hki
      exact hlast i (by omega) hi rfl
    refine ⟨k, a, hk, ha, hle, ?_⟩
    by_cases heq : k = i
    · left
      exact heq
    · -- a later number in the same slot is later by `n` at least
      right
      have hdvd : n ∣ (first + k) - (first + i)
        := Nat.dvd_of_mod_eq_zero (Nat.sub_mod_eq_zero_of_mod_eq hslot)
      have := Nat.le_of_dvd (by omega) hdvd
      omega

end RingBuffer
