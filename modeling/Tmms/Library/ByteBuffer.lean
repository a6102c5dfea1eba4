import Mathlib.Algebra.Ring.Int.Defs
import Mathlib.Algebra.Ring.Nat
import Mathlib.Data.List.Basic

/-!
# Buffers

A buffer is a list of a fixed length that is written in place: items are stored at an offset,
moved (`memmove`) and set (`memset`).  Where a buffer is a concatenation, storing as many items
as a part has replaces that part (`store_append`), and moving a part up opens a gap before it
(`memmove_gap`).

Of a buffer with two indices the items between them are a `window`.  Storing inside of a window,
or at an end of it, and moving its ends are the ways to change what is in it.
-/

universe u

namespace ByteBuffer

variable {α : Type u}

/-- Items are stored from an offset on. -/
def store (buf : List α) (i : Nat) (items : List α) : List α :=
  buf.take i ++ items ++ buf.drop (i + items.length)

/-- Items are moved from an offset to another one. -/
def memmove (buf : List α) (dst src n : Nat) : List α :=
  store buf dst ((buf.drop src).take n)

/-- Items are set to one value. -/
def memset (buf : List α) (i : Nat) (a : α) (n : Nat) : List α :=
  store buf i (List.replicate n a)

/-- Storing replaces a part of the same length. -/
theorem store_append (front : List α) {old new : List α} (back : List α) {i : Nat}
    (hi : i = front.length) (hlength : new.length = old.length) :
  store (front ++ (old ++ back)) i new = front ++ (new ++ back)
  := by
  subst hi
  rw [store, List.take_left', List.drop_append, List.drop_eq_nil_of_le (Nat.le_add_right _ _),
    Nat.add_sub_cancel_left, List.nil_append, hlength, List.drop_left', List.append_assoc]
  · rfl
  · rfl

/-- Storing over the beginning of a part. -/
theorem store_front (front back new : List α) {i : Nat}
    (hi : i = front.length) :
  store (front ++ back) i new = front ++ (new ++ back.drop new.length)
  := by
  subst hi
  rw [store, List.take_left', List.drop_append, List.drop_eq_nil_of_le (Nat.le_add_right _ _),
    Nat.add_sub_cancel_left, List.nil_append, List.append_assoc]
  rfl

theorem memset_append (front : List α) {old : List α} (back : List α) {i n : Nat} (a : α)
    (hi : i = front.length) (hn : n = old.length) :
  memset (front ++ (old ++ back)) i a n = front ++ (List.replicate n a ++ back)
  := store_append front back hi (by rw [List.length_replicate, hn])

/-- Moving a part up leaves a gap in which the old items still are. -/
theorem memmove_gap (front part back : List α) (gap : Nat) {i n : Nat} (hi : i = front.length)
    (hn : n = part.length) :
  memmove (front ++ (part ++ back)) (i + gap) i n =
    front ++ ((part ++ back).take gap ++ (part ++ back.drop gap))
  := by
  subst hi hn
  rw [memmove, List.drop_left', List.take_left', store, List.take_append,
    List.take_of_length_le (Nat.le_add_right _ _), Nat.add_sub_cancel_left, List.append_assoc,
    List.append_assoc]
  · have hdrop : (front ++ (part ++ back)).drop (front.length + gap + part.length) =
        back.drop gap
      := by
      rw [Nat.add_assoc, List.drop_append, List.drop_eq_nil_of_le (Nat.le_add_right _ _),
        Nat.add_sub_cancel_left, List.nil_append, List.drop_append,
        List.drop_eq_nil_of_le (Nat.le_add_left _ _), Nat.add_sub_cancel, List.nil_append]
    rw [hdrop]
  · rfl
  · rfl

/-! ### Parts -/

variable {buf items : List α} {i j k n : Nat}

theorem length_store (h : i + items.length ≤ buf.length) :
  (store buf i items).length = buf.length
  := by
  simp only [store, List.length_append, List.length_take, List.length_drop]
  omega

/-- What is in front of the items that are stored. -/
theorem take_store (h : n ≤ i) (hi : i ≤ buf.length) :
  (store buf i items).take n = buf.take n
  := by
  rw [store, List.append_assoc, List.take_append_of_le_length, List.take_take,
    Nat.min_eq_left h]
  rw [List.length_take]
  omega

/-- What is behind the items that are stored. -/
theorem drop_store (h : i + items.length ≤ n) (hi : i ≤ buf.length) :
  (store buf i items).drop n = buf.drop n
  := by
  have hfront : (buf.take i ++ items).length = i + items.length
    := by rw [List.length_append, List.length_take, Nat.min_eq_left hi]
  rw [store, List.drop_append, List.drop_eq_nil_of_le (by rw [hfront]; exact h),
    List.nil_append, List.drop_drop, hfront]
  congr 1
  omega

/-- Offsets in what is behind some first items. -/
theorem drop_store_add (h : k + i ≤ buf.length) :
  (store buf (k + i) items).drop k = store (buf.drop k) i items
  := by
  rw [store, List.append_assoc, List.drop_append_of_le_length, List.drop_take,
    Nat.add_sub_cancel_left, store, List.drop_drop, List.append_assoc, Nat.add_assoc]
  rw [List.length_take]
  omega

/-! ### Windows -/

/-- The items from one offset to another. -/
def window (buf : List α) (i j : Nat) : List α := (buf.drop i).take (j - i)

theorem length_window (h : j ≤ buf.length) :
  (window buf i j).length = j - i
  := by
  rw [window, List.length_take, List.length_drop]
  omega

theorem window_self (buf : List α) (i : Nat) :
  window buf i i = []
  := by rw [window, Nat.sub_self, List.take_zero]

/-- A window is a part of what is in front of its end. -/
theorem window_eq_drop_take (buf : List α) (i j : Nat) :
  window buf i j = (buf.take j).drop i
  := List.drop_take.symm

theorem window_append (h : i ≤ j) (h' : j ≤ k) :
  window buf i k = window buf i j ++ window buf j k
  := by
  have hend : j + (k - j) = k := Nat.add_sub_of_le h'
  have hsize : k - i = (j - i) + (k - j) := by omega
  rw [window, hsize, List.take_add, List.drop_drop, Nat.add_sub_of_le h, window, window]

theorem drop_window (buf : List α) (i j n : Nat) :
  (window buf i j).drop n = window buf (i + n) j
  := by rw [window, List.drop_take, List.drop_drop, window, Nat.sub_sub]

/-- The items that are stored. -/
theorem window_store (items : List α) (hi : i ≤ buf.length) :
  window (store buf i items) i (i + items.length) = items
  := by
  have hfront : (buf.take i).length = i
    := by rw [List.length_take, Nat.min_eq_left hi]
  rw [window, Nat.add_sub_cancel_left, store, List.append_assoc, List.drop_append, hfront,
    Nat.sub_self, List.drop_zero, List.drop_eq_nil_of_le (Nat.le_of_eq hfront), List.nil_append,
    List.take_append_length]

/-- A window that does not meet the items that are stored. -/
theorem window_store_of_disjoint (h : j ≤ k ∨ k + items.length ≤ i) (hk : k ≤ buf.length) :
  window (store buf k items) i j = window buf i j
  := by
  cases h with
  | inl hfront => rw [window_eq_drop_take, take_store hfront hk, ← window_eq_drop_take]
  | inr hbehind => rw [window, drop_store hbehind hk, window]

/-- Items are stored at the end of a window, which ends behind them then. -/
theorem window_store_end (h : i ≤ j) (hj : j ≤ buf.length) :
  window (store buf j items) i (j + items.length) = window buf i j ++ items
  := by
  rw [window_append h (Nat.le_add_right _ _), window_store items hj,
    window_store_of_disjoint (.inl (Nat.le_refl _)) hj]

/-- Items are stored in front of a window, which begins with them then. -/
theorem window_store_front (h : i + items.length = j) (hjk : j ≤ k) (hj : j ≤ buf.length) :
  window (store buf i items) i k = items ++ window buf j k
  := by
  subst h
  rw [window_append (Nat.le_add_right _ _) hjk, window_store items (Nat.le_of_add_right_le hj),
    window_store_of_disjoint (.inr (Nat.le_refl _)) (Nat.le_of_add_right_le hj)]

end ByteBuffer
