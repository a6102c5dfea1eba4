import Mathlib.Algebra.Ring.Int.Defs
import Mathlib.Algebra.Ring.Nat
import Mathlib.Data.List.Basic
import Mathlib.Tactic.Use

/-!
# Numbers in bytes

The number a list of bytes is, least significant byte first (`leNat`) or last (`beNat`),
and the bytes of a number at a fixed width (`leBytes`, `beBytes`).  Reading what was
written at a width gives the number modulo that width.
-/

namespace Endian

/-- The number whose bytes are given, the least significant first. -/
def leNat : List UInt8 → Nat
  | [] => 0
  | b :: bs => b.toNat + 256 * leNat bs

/-- The number whose bytes are given, the most significant first. -/
def beNat (bs : List UInt8) : Nat :=
  leNat bs.reverse

/-- The `w` low bytes of a number, the least significant first. -/
def leBytes : Nat → Nat → List UInt8
  | 0, _ => []
  | w + 1, n => UInt8.ofNat n :: leBytes w (n / 256)

/-- The `w` low bytes of a number, the most significant first. -/
def beBytes (w n : Nat) : List UInt8 :=
  (leBytes w n).reverse

@[simp]
theorem length_leBytes (w n : Nat) :
  (leBytes w n).length = w
  := by
  induction w generalizing n with
  | zero => rfl
  | succ w ih => rw [leBytes, List.length_cons, ih]

@[simp]
theorem length_beBytes (w n : Nat) :
  (beBytes w n).length = w
  := by
  rw [beBytes, List.length_reverse, length_leBytes]

/-- Writing at width `w` and reading gives the number modulo `256 ^ w`. -/
theorem leNat_leBytes (w n : Nat) :
  leNat (leBytes w n) = n % 256 ^ w
  := by
  induction w generalizing n with
  | zero => simp [leBytes, leNat, Nat.mod_one]
  | succ w ih =>
      have hb : (UInt8.ofNat n).toNat = n % 256 := by simp
      rw [leBytes, leNat, ih, hb, Nat.pow_succ, Nat.mul_comm (256 ^ w) 256, Nat.mod_mul]

theorem beNat_beBytes (w n : Nat) :
  beNat (beBytes w n) = n % 256 ^ w
  := by
  rw [beNat, beBytes, List.reverse_reverse, leNat_leBytes]

/-- A number that fits in `w` bytes is read back. -/
theorem beNat_beBytes_of_lt {w n : Nat} (h : n < 256 ^ w) :
  beNat (beBytes w n) = n
  := by
  rw [beNat_beBytes, Nat.mod_eq_of_lt h]

theorem leNat_leBytes_of_lt {w n : Nat} (h : n < 256 ^ w) :
  leNat (leBytes w n) = n
  := by
  rw [leNat_leBytes, Nat.mod_eq_of_lt h]

/-- The bytes of the number that bytes are. -/
theorem leBytes_leNat (bs : List UInt8) :
  leBytes bs.length (leNat bs) = bs
  := by
  induction bs with
  | nil => rfl
  | cons b bs ih =>
      have hb := b.toNat_lt
      have hlow : UInt8.ofNat (leNat (b :: bs)) = b
        := by
        apply UInt8.toNat_inj.mp
        rw [UInt8.toNat_ofNat', leNat]
        omega
      have hhigh : leNat (b :: bs) / 256 = leNat bs
        := by
        rw [leNat]
        omega
      rw [List.length_cons, leBytes, hlow, hhigh, ih]

theorem beBytes_beNat (bs : List UInt8) :
  beBytes bs.length (beNat bs) = bs
  := by
  rw [beBytes, beNat, ← List.length_reverse, leBytes_leNat, List.reverse_reverse]

theorem leNat_lt (bs : List UInt8) :
  leNat bs < 256 ^ bs.length
  := by
  induction bs with
  | nil => decide
  | cons b bs ih =>
      have hb := b.toNat_lt
      rw [leNat, List.length_cons, Nat.pow_succ]
      omega

theorem beNat_lt (bs : List UInt8) :
  beNat bs < 256 ^ bs.length
  := by
  have h := leNat_lt bs.reverse
  rw [List.length_reverse] at h
  apply h

/-- A zero on top changes nothing. -/
theorem beNat_zero_cons (bs : List UInt8) :
  beNat (0 :: bs) = beNat bs
  := by
  have htop (xs : List UInt8) : leNat (xs ++ [0]) = leNat xs
    := by
    induction xs with
    | nil => rfl
    | cons x xs ih => rw [List.cons_append, leNat, leNat, ih]
  rw [beNat, beNat, List.reverse_cons, htop]

end Endian
