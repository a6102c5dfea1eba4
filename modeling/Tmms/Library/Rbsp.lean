import Tmms.Library.ExpGolomb

/-!
# Payloads of NAL units

A payload is some bits, a one that stops them and zeros up to the next byte.  In the unit no two
zero bytes are followed by a byte up to three: a byte three is put in between.
-/

namespace Rbsp

open ExpGolomb

/-! ### Bytes of bits -/

/-- Some bytes, with the most significant bit first. -/
def packBytes : Nat → List Bool → List UInt8
  | 0, _ => []
  | n + 1, bits => .ofNat (valueFrom 0 (bits.take 8)) :: packBytes n (bits.drop 8)

theorem le_valueFrom (u : Nat) (bits : List Bool) :
  u * 2 ^ bits.length ≤ valueFrom u bits
  := by
  induction bits generalizing u with
  | nil => exact Nat.le_of_eq (Nat.mul_one u)
  | cons b bits ih =>
      apply Nat.le_trans _ (ih (2 * u + b.toNat))
      rw [List.length_cons, Nat.pow_succ', ← Nat.mul_assoc]
      apply Nat.mul_le_mul_right
      omega

theorem valueFrom_div (u : Nat) (bits : List Bool) :
  valueFrom u bits / 2 ^ bits.length = u
  := by
  apply Nat.div_eq_of_lt_le
  · apply le_valueFrom
  · apply valueFrom_lt

/-- The bits of the number that bits stand for. -/
theorem binary_valueFrom (u : Nat) (bits : List Bool) :
  binary bits.length (valueFrom u bits) = bits
  := by
  induction bits generalizing u with
  | nil => rfl
  | cons b bits ih =>
      have hfirst : (valueFrom (2 * u + b.toNat) bits).testBit bits.length = b
        := by
        rw [Nat.testBit_eq_decide_div_mod_eq, valueFrom_div, Nat.mul_add_mod]
        cases b with
        | true => rfl
        | false => rfl
      rw [List.length_cons, binary, valueFrom, hfirst, ih]

/-- The bits of the bytes are the bits. -/
theorem flatMap_packBytes {n : Nat} {bits : List Bool} (h : bits.length = 8 * n) :
  (packBytes n bits).flatMap (fun b => binary 8 b.toNat) = bits
  := by
  induction n generalizing bits with
  | zero => exact (List.eq_nil_of_length_eq_zero h).symm
  | succ n ih =>
      have htake : (bits.take 8).length = 8
        := by
        rw [List.length_take]
        omega
      have hlt := valueFrom_lt 0 (bits.take 8)
      have hbits := binary_valueFrom 0 (bits.take 8)
      have hdrop : (bits.drop 8).length = 8 * n
        := by
        rw [List.length_drop]
        omega
      rw [htake] at hlt hbits
      rw [packBytes, List.flatMap_cons, UInt8.toNat_ofNat_of_lt' hlt, hbits, ih hdrop,
        List.take_append_drop]

/-- Bits, the one that stops them, and zeros up to the next byte. -/
def trailed (bits : List Bool) : List Bool :=
  bits ++ true :: List.replicate (7 - bits.length % 8) false

theorem length_trailed (bits : List Bool) :
  (trailed bits).length = 8 * (bits.length / 8 + 1)
  := by
  rw [trailed, List.length_append, List.length_cons, List.length_replicate]
  omega

/-- The bytes of a payload. -/
def payload (bits : List Bool) : List UInt8 := packBytes (bits.length / 8 + 1) (trailed bits)

theorem flatMap_payload (bits : List Bool) :
  (payload bits).flatMap (fun b => binary 8 b.toNat) = trailed bits
  := flatMap_packBytes (length_trailed bits)

/-! ### Emulation prevention -/

/-- The number of zero bytes at the end. -/
def zerosAtEnd (bytes : List UInt8) : Nat := (bytes.reverse.takeWhile (· == 0)).length

theorem zerosAtEnd_concat (bytes : List UInt8) (b : UInt8) :
  zerosAtEnd (bytes ++ [b]) = if b = 0 then zerosAtEnd bytes + 1 else 0
  := by
  rw [zerosAtEnd, List.reverse_append, List.reverse_singleton, List.singleton_append]
  split
  next hb => rw [List.takeWhile_cons_of_pos (by rw [hb]; rfl), List.length_cons, zerosAtEnd]
  next hb => rw [List.takeWhile_cons_of_neg (by rwa [beq_iff_eq]), List.length_nil]

/-- Bytes behind some zero bytes, with those that prevent emulation. -/
def escapeFrom : Nat → List UInt8 → List UInt8
  | _, [] => []
  | zeros, b :: bytes =>
      if 2 ≤ zeros ∧ b ≤ 3 then
        3 :: b :: escapeFrom (if b = 0 then 1 else 0) bytes
      else
        b :: escapeFrom (if b = 0 then zeros + 1 else 0) bytes

theorem escapeFrom_eq_nil_iff {zeros : Nat} {bytes : List UInt8} :
  escapeFrom zeros bytes = [] ↔ bytes = []
  := by
  cases bytes with
  | nil => exact Iff.rfl
  | cons b bytes =>
      rw [escapeFrom]
      split
      · exact iff_of_false (List.cons_ne_nil _ _) (List.cons_ne_nil _ _)
      · exact iff_of_false (List.cons_ne_nil _ _) (List.cons_ne_nil _ _)

/-- The bytes of a unit that has some numbers in its payload. -/
def encode (values : List Nat) : List UInt8 :=
  escapeFrom 0 (payload (values.flatMap code))

end Rbsp
