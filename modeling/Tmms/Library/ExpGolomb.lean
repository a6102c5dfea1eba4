import Mathlib.Data.List.TakeWhile
import Mathlib.Data.Nat.Log
import Mathlib.Tactic.Ring

/-!
# Exponential Golomb codes

A code is some zeros, a one, and as many bits more as there were zeros.  `behind` is what is behind
the code that bits begin with, if they begin with a whole one.  `code` is the code of a number: the
one and the bits behind it are the number plus one in binary.
-/

namespace ExpGolomb

/-- The number of zeros that bits begin with. -/
def zeros (bits : List Bool) : Nat := (bits.takeWhile fun b => !b).length

/-- What is behind a code. -/
def behind (bits : List Bool) : Option (List Bool) :=
  if 2 * zeros bits + 1 ≤ bits.length then some (bits.drop (2 * zeros bits + 1)) else none

variable {bits : List Bool}

@[simp]
theorem zeros_false : zeros (false :: bits) = zeros bits + 1 := rfl

theorem zeros_le : zeros bits ≤ bits.length
  := (List.takeWhile_sublist _).length_le

/-! ### Numbers and their bits -/

/-- The last bits of a number, the most significant one first. -/
def binary : Nat → Nat → List Bool
  | 0, _ => []
  | n + 1, x => x.testBit n :: binary n x

/-- The number that bits stand for, when they are behind those of another. -/
def valueFrom : Nat → List Bool → Nat
  | u, [] => u
  | u, b :: bits => valueFrom (2 * u + b.toNat) bits

@[simp]
theorem length_binary (n x : Nat) : (binary n x).length = n
  := by
  induction n with
  | zero => rfl
  | succ n ih => rw [binary, List.length_cons, ih]

theorem valueFrom_binary (u n x : Nat) :
  valueFrom u (binary n x) = u * 2 ^ n + x % 2 ^ n
  := by
  induction n generalizing u with
  | zero => rw [binary, valueFrom, Nat.pow_zero, Nat.mul_one, Nat.mod_one, Nat.add_zero]
  | succ n ih =>
      calc valueFrom u (binary (n + 1) x)
          = (2 * u + (x.testBit n).toNat) * 2 ^ n + x % 2 ^ n := by rw [binary, valueFrom, ih]
        _ = u * 2 ^ (n + 1) + (x % 2 ^ n + 2 ^ n * (x / 2 ^ n % 2)) := by
            rw [Nat.toNat_testBit]
            ring
        _ = u * 2 ^ (n + 1) + x % 2 ^ (n + 1) := by rw [Nat.mod_pow_succ]

/-- The last bit is that of the number, and those before it are of its half. -/
theorem binary_succ (n x : Nat) :
  binary (n + 1) x = binary n (x / 2) ++ [x.testBit 0]
  := by
  induction n with
  | zero => rfl
  | succ n ih => rw [binary, ih, binary, List.cons_append, Nat.testBit_succ]

theorem valueFrom_lt (u : Nat) (bits : List Bool) :
  valueFrom u bits < (u + 1) * 2 ^ bits.length
  := by
  induction bits generalizing u with
  | nil =>
      rw [valueFrom, List.length_nil, Nat.pow_zero]
      omega
  | cons b bits ih =>
      apply Nat.lt_of_lt_of_le (ih (2 * u + b.toNat))
      rw [List.length_cons, Nat.pow_succ', ← Nat.mul_assoc]
      apply Nat.mul_le_mul_right
      have := b.toNat_le
      omega

/-! ### The code of a number -/

/-- The number of zeros of the code of a number. -/
def leading (v : Nat) : Nat := (v + 1).log2

/-- The code of a number. -/
def code (v : Nat) : List Bool :=
  List.replicate (leading v) false ++ true :: binary (leading v) (v + 1)

theorem two_pow_leading_le (v : Nat) : 2 ^ leading v ≤ v + 1
  := Nat.log2_self_le (Nat.succ_ne_zero v)

theorem lt_two_pow_leading (v : Nat) : v + 1 < 2 * 2 ^ leading v
  := by
  rw [← Nat.pow_succ']
  exact Nat.lt_log2_self

/-- The bits behind the one, and as many ones as there can be in them, are the number. -/
theorem valueFrom_suffix (v : Nat) :
  valueFrom 0 (binary (leading v) (v + 1)) + (2 ^ leading v - 1) = v
  := by
  have hle := two_pow_leading_le v
  have hlt := lt_two_pow_leading v
  have hmod : (v + 1) % 2 ^ leading v = v + 1 - 2 ^ leading v
    := by
    rw [Nat.mod_eq_sub_mod hle]
    apply Nat.mod_eq_of_lt
    omega
  rw [valueFrom_binary, hmod]
  omega

/-- The bits from the one on, read as if they were behind it. -/
theorem valueFrom_one_binary {v n : Nat} (h : leading v = n + 1) :
  valueFrom 0 (true :: binary n ((v + 1) / 2)) = (v + 1) / 2
  := by
  have hle := two_pow_leading_le v
  have hlt := lt_two_pow_leading v
  rw [h, Nat.pow_succ] at hle hlt
  have hmod : (v + 1) / 2 % 2 ^ n = (v + 1) / 2 - 2 ^ n
    := by
    rw [Nat.mod_eq_sub_mod (by omega)]
    apply Nat.mod_eq_of_lt
    omega
  rw [valueFrom, valueFrom_binary, hmod, Bool.toNat_true]
  omega

/-- When only some of the zeros are counted the number is rarely that of the code. -/
theorem valueFrom_take_iff {v z : Nat} (hz : z ≤ leading v) (bits : List Bool) :
  valueFrom 0 ((List.replicate (leading v - z) false ++
      true :: (binary (leading v) (v + 1) ++ bits)).take z) + (2 ^ z - 1) = v ↔
    v = 0 ∨ (z = leading v ∧ v + 2 = 2 ^ (leading v + 1))
  := by
  have hle := two_pow_leading_le v
  have hlt := lt_two_pow_leading v
  obtain hless | rfl := Nat.lt_or_eq_of_le hz
  · have hvalue := valueFrom_lt 0 ((List.replicate (leading v - z) false ++
      true :: (binary (leading v) (v + 1) ++ bits)).take z)
    have htake := Nat.pow_le_pow_right Nat.two_pos (List.length_take_le z
      (List.replicate (leading v - z) false ++ true :: (binary (leading v) (v + 1) ++ bits)))
    have hpow := Nat.pow_le_pow_right Nat.two_pos (Nat.succ_le_of_lt hless)
    have hpos := Nat.two_pow_pos z
    rw [Nat.pow_succ] at hpow
    constructor
    · intro heq
      omega
    · rintro (hzero | ⟨heq, -⟩)
      · omega
      · omega
  · rw [Nat.sub_self, List.replicate_zero, List.nil_append]
    cases hn : leading v with
    | zero =>
        rw [hn] at hlt
        have hzero : v = 0 := by omega
        exact iff_of_true hzero.symm (Or.inl hzero)
    | succ n =>
        have htake : (binary (n + 1) (v + 1) ++ bits).take n = binary n ((v + 1) / 2)
          := by
          rw [binary_succ, List.append_assoc]
          exact List.take_left' (length_binary n _)
        rw [List.take_succ_cons, htake, valueFrom_one_binary hn]
        rw [hn, Nat.pow_succ] at hle hlt
        rw [Nat.pow_succ, Nat.pow_succ]
        omega

end ExpGolomb
