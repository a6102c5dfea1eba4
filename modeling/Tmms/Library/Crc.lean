import Mathlib.Data.List.Basic
import Mathlib.Tactic.Use

/-!
# Cyclic redundancy checks

A register of `w` bits is moved up by one place for each bit of a message, and a polynomial is
added when the bit that leaves the register and the bit of the message differ.  `p` holds the
coefficients of the polynomial below `X ^ w`.

Moving is linear (`shift_xor`), and places whose upper bits are clear only move.  So `n` bits
can be fed at once, by a table of what becomes of the upper `n` places (`feed_eq_shifts`).
-/

namespace Crc

variable {w : Nat}

/-- Moving the register by one place. -/
def shift (p r : BitVec w) : BitVec w := if r.msb then (r <<< 1) ^^^ p else r <<< 1

/-- Moving the register by `n` places. -/
def shifts (p : BitVec w) : Nat → BitVec w → BitVec w
  | 0, r => r
  | n + 1, r => shifts p n (shift p r)

/-- Feeding a bit of a message. -/
def feedBit (p r : BitVec w) (b : Bool) : BitVec w :=
  if r.msb ^^ b then (r <<< 1) ^^^ p else r <<< 1

/-- Feeding the bits of a message. -/
def feed (p r : BitVec w) (bits : List Bool) : BitVec w := bits.foldl (feedBit p) r

/-- The register with one bit, at the uppermost place. -/
def top (w : Nat) (b : Bool) : BitVec w := if b then BitVec.twoPow w (w - 1) else 0#w

/-- Bits at the upper places of a register, the first one at the uppermost. -/
def lead (w : Nat) : List Bool → BitVec w
  | [] => 0#w
  | b :: bits => top w b ^^^ (lead w bits >>> 1)

theorem feed_append (p r : BitVec w) (bits rest : List Bool) :
  feed p r (bits ++ rest) = feed p (feed p r bits) rest
  := List.foldl_append

/-! ### Linearity -/

theorem shift_xor (p r s : BitVec w) :
  shift p (r ^^^ s) = shift p r ^^^ shift p s
  := by
  rw [shift, shift, shift, BitVec.msb_xor, BitVec.shiftLeft_xor_distrib]
  cases r.msb with
  | false =>
      cases s.msb with
      | false => rfl
      | true => apply BitVec.xor_assoc
  | true =>
      cases s.msb with
      | false =>
          change r <<< 1 ^^^ s <<< 1 ^^^ p = r <<< 1 ^^^ p ^^^ s <<< 1
          rw [BitVec.xor_assoc, BitVec.xor_assoc, BitVec.xor_comm p]
      | true =>
          change r <<< 1 ^^^ s <<< 1 = r <<< 1 ^^^ p ^^^ (s <<< 1 ^^^ p)
          rw [BitVec.xor_comm (s <<< 1) p, BitVec.xor_assoc, ← BitVec.xor_assoc p p,
            BitVec.xor_self, BitVec.zero_xor]

theorem shifts_xor (p : BitVec w) (n : Nat) (r s : BitVec w) :
  shifts p n (r ^^^ s) = shifts p n r ^^^ shifts p n s
  := by
  induction n generalizing r s with
  | zero => rfl
  | succ n ih => rw [shifts, shift_xor, ih, shifts, shifts]

/-- A register whose upper `n` places are clear only moves. -/
theorem shifts_of_clear (p : BitVec w) {n : Nat} {r : BitVec w}
    (h : ∀ i, i < n → r.getMsbD i = false) :
  shifts p n r = r <<< n
  := by
  induction n generalizing r with
  | zero => rw [shifts, BitVec.shiftLeft_zero]
  | succ n ih =>
      have hmsb : r.msb = false := h 0 (Nat.succ_pos n)
      rw [shifts, shift, hmsb, if_neg Bool.false_ne_true, ih, ← BitVec.shiftLeft_add,
        Nat.add_comm]
      intro i hi
      rw [BitVec.getMsbD_shiftLeft]
      apply h
      omega

/-- The upper places of a register are moved with the polynomial, and the others just move. -/
theorem shifts_eq (p : BitVec w) (n : Nat) (r : BitVec w) :
  shifts p n r = shifts p n ((r >>> (w - n)) <<< (w - n)) ^^^ (r <<< n)
  := by
  have hclear : ∀ i, i < n → (r ^^^ (r >>> (w - n)) <<< (w - n)).getMsbD i = false
    := by
    intro i hi
    rw [BitVec.getMsbD_xor, BitVec.getMsbD_shiftLeft, BitVec.getMsbD_ushiftRight]
    by_cases hw : i < w
    · rw [show i + (w - n) - (w - n) = i by omega]
      by_cases hn : i + (w - n) < w
      · simp [hn]
      · omega
    · simp [BitVec.getMsbD_of_ge _ _ (Nat.le_of_not_lt hw)]
  have hsplit : r = (r >>> (w - n)) <<< (w - n) ^^^ (r ^^^ (r >>> (w - n)) <<< (w - n))
    := by rw [BitVec.xor_comm r, ← BitVec.xor_assoc, BitVec.xor_self, BitVec.zero_xor]
  have hmove : (r ^^^ (r >>> (w - n)) <<< (w - n)) <<< n = r <<< n
    := by
    rw [BitVec.shiftLeft_xor_distrib, ← BitVec.shiftLeft_add,
      BitVec.shiftLeft_eq_zero (n := w - n + n) (by omega), BitVec.xor_zero]
  rw [← hmove, ← shifts_of_clear p hclear, ← shifts_xor, ← hsplit]

/-! ### Feeding several bits at once -/

theorem msb_top (hw : 0 < w) (b : Bool) :
  (top w b).msb = b
  := by
  cases b with
  | false => exact BitVec.msb_zero
  | true =>
      rw [top, if_pos rfl, BitVec.msb, BitVec.getMsbD_twoPow, Bool.and_eq_true,
        decide_eq_true_eq, decide_eq_true_eq]
      omega

theorem top_shiftLeft (hw : 0 < w) (b : Bool) :
  top w b <<< 1 = 0#w
  := by
  cases b with
  | false => exact BitVec.zero_shiftLeft 1
  | true =>
      rw [top, if_pos rfl, BitVec.twoPow_eq, ← BitVec.shiftLeft_add]
      apply BitVec.shiftLeft_eq_zero
      omega

/-- Feeding a bit is adding it at the uppermost place, and moving. -/
theorem feedBit_eq_shift (hw : 0 < w) (p r : BitVec w) (b : Bool) :
  feedBit p r b = shift p (r ^^^ top w b)
  := by
  rw [feedBit, shift, BitVec.msb_xor, msb_top hw, BitVec.shiftLeft_xor_distrib,
    top_shiftLeft hw, BitVec.xor_zero]

/-- The bits of `lead` are those of the list. -/
theorem getMsbD_lead (hw : 0 < w) (bits : List Bool) (i : Nat) :
  (lead w bits).getMsbD i = (decide (i < w) && bits.getD i false)
  := by
  induction bits generalizing i with
  | nil => simp [lead]
  | cons b bits ih =>
      rw [lead, BitVec.getMsbD_xor, BitVec.getMsbD_ushiftRight]
      cases i with
      | zero =>
          have hb : (top w b).getMsbD 0 = b := msb_top hw b
          simp [hb, hw]
      | succ i =>
          have hb : (top w b).getMsbD (i + 1) = false
            := by
            cases b with
            | false => simp [top]
            | true => simp only [top, if_true, BitVec.getMsbD_twoPow]; grind
          rw [hb, Nat.add_sub_cancel, ih]
          grind

/-- No more bits than places: all of them are added at the upper places, and the register is
moved by their number. -/
theorem feed_eq_shifts (p r : BitVec w) {bits : List Bool} (h : bits.length ≤ w) :
  feed p r bits = shifts p bits.length (r ^^^ lead w bits)
  := by
  induction bits generalizing r with
  | nil => exact BitVec.xor_zero.symm
  | cons b bits ih =>
      rw [List.length_cons] at h
      have hw : 0 < w := by omega
      have hback : shift p (lead w bits >>> 1) = lead w bits
        := by
        have hmsb : (lead w bits >>> 1).msb = false
          := by
          rw [BitVec.msb, BitVec.getMsbD_ushiftRight]
          simp
        rw [shift, hmsb, if_neg Bool.false_ne_true]
        apply BitVec.eq_of_getMsbD_eq
        intro i hi
        rw [BitVec.getMsbD_shiftLeft, BitVec.getMsbD_ushiftRight, getMsbD_lead hw,
          getMsbD_lead hw]
        grind
      calc feed p r (b :: bits)
          = feed p (feedBit p r b) bits := rfl
        _ = shifts p bits.length (shift p (r ^^^ top w b) ^^^ lead w bits)
            := by rw [ih _ (by omega), feedBit_eq_shift hw]
        _ = shifts p bits.length (shift p (r ^^^ lead w (b :: bits)))
            := by rw [lead, ← BitVec.xor_assoc, shift_xor p _ (lead w bits >>> 1), hback]

/-- The bits of the register itself clear it. -/
theorem feed_self (p r : BitVec w) :
  feed p r ((List.range w).map r.getMsbD) = 0#w
  := by
  rcases Nat.eq_zero_or_pos w with rfl | hw
  · exact BitVec.of_length_zero
  · have hlength : ((List.range w).map r.getMsbD).length = w
      := by rw [List.length_map, List.length_range]
    have hlead : lead w ((List.range w).map r.getMsbD) = r
      := by
      apply BitVec.eq_of_getMsbD_eq
      intro i hi
      rw [getMsbD_lead hw, decide_eq_true hi, Bool.true_and, List.getD_eq_getElem?_getD,
        List.getElem?_map, List.getElem?_range hi]
      rfl
    rw [feed_eq_shifts p r (Nat.le_of_eq hlength), hlead, BitVec.xor_self,
      shifts_of_clear p (fun i _ => BitVec.getMsbD_zero)]
    exact BitVec.zero_shiftLeft _

/-- Feeding by table: what becomes of the upper places is looked up, the others just move. -/
theorem feed_eq_table (p r : BitVec w) {bits : List Bool} (h : bits.length ≤ w) (hw : 0 < w) :
  feed p r bits =
    shifts p bits.length (((r ^^^ lead w bits) >>> (w - bits.length)) <<< (w - bits.length))
      ^^^ (r <<< bits.length)
  := by
  have hout : lead w bits <<< bits.length = 0#w
    := by
    apply BitVec.eq_of_getMsbD_eq
    intro i _
    rw [BitVec.getMsbD_shiftLeft, getMsbD_lead hw]
    simp
  rw [feed_eq_shifts p r h, shifts_eq, BitVec.shiftLeft_xor_distrib, hout, BitVec.xor_zero]

end Crc
