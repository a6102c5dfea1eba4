import Mathlib.Data.List.Basic

/-!
# Writing to a block of memory

A block is zeroed, and then bytes are written to it at offsets, one write after the other.  What is
written last stays.
-/

namespace Memory

/-- Bytes to be written at an offset. -/
abbrev Write := Nat × List UInt8

/-- A write into a block. -/
def put (block : List UInt8) (w : Write) : List UInt8 :=
  block.take w.1 ++ (w.2 ++ block.drop (w.1 + w.2.length))

/-- A zeroed block behind some writes. -/
def block (capacity : Nat) (writes : List Write) : List UInt8 :=
  writes.foldl put (List.replicate capacity 0)

/-- The offset was written to. -/
def Written (writes : List Write) (i : Nat) : Prop := ∃ w ∈ writes, w.1 ≤ i ∧ i < w.1 + w.2.length

variable {bytes rest : List UInt8}

/-- A write at the front. -/
theorem put_zero (bytes block : List UInt8) :
  put block (0, bytes) = bytes ++ block.drop bytes.length
  := by
  rw [put]
  dsimp only
  rw [List.take_zero, List.nil_append, Nat.zero_add]

/-- A write behind some bytes. -/
theorem put_behind {n : Nat} (hn : n = rest.length) (block : List UInt8) :
  put (rest ++ block) (n, bytes) = rest ++ put block (0, bytes)
  := by
  subst hn
  rw [put_zero, put]
  dsimp only
  rw [List.take_left, List.drop_append, List.drop_of_length_le (Nat.le_add_right _ _),
    List.nil_append, Nat.add_sub_cancel_left]

/-- The first write to a block. -/
theorem put_replicate (bytes : List UInt8) (n : Nat) :
  put (List.replicate n 0) (0, bytes) = bytes ++ List.replicate (n - bytes.length) 0
  := by rw [put_zero, List.drop_replicate]

end Memory
