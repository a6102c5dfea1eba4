import Mathlib.Tactic.Ring
import Tmms.Base.Bytes

/-!
# Doubles that are whole numbers

`ReadUint64T` returns the double it reads as a `uint64_t`, and the caller makes a double of it
again.  A double survives this exactly if it is a whole number from 0 to 2^64, and its zero has
no sign.
-/

open BytesReader

/-- The bits of the double that a `uint64_t` is converted to, the nearest one and the even one
of two. -/
def doubleOfUint64 (n : UInt64) : UInt64 :=
  if n = 0 then
    0
  else
    let e := n.toNat.log2
    if e ≤ 52 then
      .ofNat ((1023 + e) * 2 ^ 52 + (n.toNat * 2 ^ (52 - e) - 2 ^ 52))
    else
      let unit := 2 ^ (e - 52)
      let q := n.toNat / unit
      let r := n.toNat % unit
      let mantissa := if unit < 2 * r ∨ 2 * r = unit ∧ q % 2 = 1 then q + 1 else q
      .ofNat ((1023 + e) * 2 ^ 52 + (mantissa - 2 ^ 52))

/-- The number that the bits of a positive double without a fraction are. -/
def wholeOf (bits : UInt64) : Nat :=
  (2 ^ 52 + bits.toNat % 2 ^ 52) * 2 ^ (bits.toNat / 2 ^ 52 - 1023) / 2 ^ 52

/-- The double with these bits is a whole number from 0 to 2^64, and it has no sign. -/
def IsWhole (bits : UInt64) : Prop :=
  bits = 0 ∨
    (1023 ≤ bits.toNat / 2 ^ 52 ∧ bits.toNat / 2 ^ 52 < 1023 + 64) ∧
      (2 ^ 52 + bits.toNat % 2 ^ 52) * 2 ^ (bits.toNat / 2 ^ 52 - 1023) % 2 ^ 52 = 0

instance (bits : UInt64) : Decidable (IsWhole bits) :=
  inferInstanceAs (Decidable (_ ∨ _ ∧ _))

/-! ### The fields of a double -/

theorem toNat_exponent (bits : UInt64) :
  (bits >>> 52 &&& 0x7FF).toNat = bits.toNat / 2 ^ 52 % 2 ^ 11
  := by
  have hmask : (0x7FF : UInt64).toNat = 2 ^ 11 - 1 := rfl
  rw [UInt64.toNat_and, UInt64.toNat_shiftRight, hmask, Nat.and_two_pow_sub_one_eq_mod,
    Nat.shiftRight_eq_div_pow]
  rfl

theorem toNat_fraction (bits : UInt64) :
  (bits &&& 0xFFFFFFFFFFFFF).toNat = bits.toNat % 2 ^ 52
  := by
  have hmask : (0xFFFFFFFFFFFFF : UInt64).toNat = 2 ^ 52 - 1 := rfl
  rw [UInt64.toNat_and, hmask, Nat.and_two_pow_sub_one_eq_mod]

theorem sign_bit_eq_one_iff (bits : UInt64) :
  bits >>> 63 = 1 ↔ 2 ^ 63 ≤ bits.toNat
  := by
  have hlt := bits.toNat_lt
  rw [← UInt64.toNat_inj, UInt64.toNat_shiftRight, Nat.shiftRight_eq_div_pow]
  change bits.toNat / 2 ^ 63 = 1 ↔ _
  omega

/-! ### Truncation -/

/-- A double without a sign that is smaller than 2^64 is truncated, and every other that is
not smaller than 1 is not. -/
theorem truncateDouble_eq (bits : UInt64) :
  truncateDouble bits =
    if bits.toNat / 2 ^ 52 % 2 ^ 11 < 1023 then
      some 0
    else if bits.toNat / 2 ^ 52 < 1023 + 64 then
      some (.ofNat (wholeOf bits))
    else
      none
  := by
  have hlt := bits.toNat_lt
  have hsign := sign_bit_eq_one_iff bits
  rw [truncateDouble, toNat_exponent, toNat_fraction]
  split
  · rfl
  · next hge =>
    by_cases hsmall : bits.toNat / 2 ^ 52 < 1023 + 64
    · have hmod : bits.toNat / 2 ^ 52 % 2 ^ 11 = bits.toNat / 2 ^ 52 := by omega
      have hnot : ¬ (bits >>> 63 = 1 ∨ 1023 + 64 ≤ bits.toNat / 2 ^ 52 % 2 ^ 11)
        := by
        rw [hsign]
        omega
      rw [if_pos hsmall, if_neg hnot, hmod]
      rfl
    · have hlarge : bits >>> 63 = 1 ∨ 1023 + 64 ≤ bits.toNat / 2 ^ 52 % 2 ^ 11
        := by
        rw [hsign]
        omega
      rw [if_neg hsmall, if_pos hlarge]

/-- A double whose upper byte is zero is less than 1. -/
theorem truncateDouble_of_lt {bits : UInt64} (h : bits.toNat < 2 ^ 56) :
  truncateDouble bits = some 0
  := by
  rw [truncateDouble_eq, if_pos]
  omega

/-- The exponent of a whole number is the place of its first bit. -/
theorem log2_mantissa {f k : Nat} (h : f < 2 ^ 52) :
  ((2 ^ 52 + f) * 2 ^ k / 2 ^ 52).log2 = k ∧ 2 ^ k ≤ (2 ^ 52 + f) * 2 ^ k / 2 ^ 52
  := by
  have hlow : 2 ^ k ≤ (2 ^ 52 + f) * 2 ^ k / 2 ^ 52
    := by
    rw [Nat.le_div_iff_mul_le (Nat.two_pow_pos 52), Nat.mul_comm]
    apply Nat.mul_le_mul_right
    apply Nat.le_add_right
  have hhigh : (2 ^ 52 + f) * 2 ^ k / 2 ^ 52 < 2 ^ (k + 1)
    := by
    rw [Nat.div_lt_iff_lt_mul (Nat.two_pow_pos 52)]
    calc (2 ^ 52 + f) * 2 ^ k
        < (2 ^ 52 + 2 ^ 52) * 2 ^ k :=
          Nat.mul_lt_mul_of_pos_right (Nat.add_lt_add_left h _) (Nat.two_pow_pos k)
      _ = 2 ^ (k + 1) * 2 ^ 52 := by ring
  have hne : (2 ^ 52 + f) * 2 ^ k / 2 ^ 52 ≠ 0 :=
    Nat.ne_of_gt (Nat.lt_of_lt_of_le (Nat.two_pow_pos k) hlow)
  exact ⟨(Nat.log2_eq_iff hne).mpr ⟨hlow, hhigh⟩, hlow⟩

/-- A mantissa is shifted out and in again exactly if its fraction is zero. -/
theorem shift_mantissa_iff (m : Nat) {k : Nat} (h : k ≤ 52) :
  m * 2 ^ k / 2 ^ 52 * 2 ^ (52 - k) = m ↔ m * 2 ^ k % 2 ^ 52 = 0
  := by
  have hpow : 2 ^ 52 = 2 ^ (52 - k) * 2 ^ k
    := by rw [← Nat.pow_add, Nat.sub_add_cancel h]
  rw [hpow, Nat.mul_div_mul_right _ _ (Nat.two_pow_pos k), Nat.mul_mod_mul_right]
  have hdivmod := Nat.div_add_mod m (2 ^ (52 - k))
  rw [Nat.mul_comm] at hdivmod
  constructor
  · intro hexact
    have hzero : m % 2 ^ (52 - k) = 0 := by omega
    rw [hzero, Nat.zero_mul]
  · intro hzero
    have hmod : m % 2 ^ (52 - k) = 0
      := by
      rcases Nat.mul_eq_zero.mp hzero with hmod | hpos
      · apply hmod
      · exact absurd hpos (Nat.ne_of_gt (Nat.two_pow_pos k))
    omega

/-- A whole number below 2^64 is turned into the double it came from, if no fraction was
lost. -/
theorem doubleOfUint64_wholeOf {bits : UInt64} (hlow : 1023 ≤ bits.toNat / 2 ^ 52)
    (hhigh : bits.toNat / 2 ^ 52 < 1023 + 64) :
  doubleOfUint64 (.ofNat (wholeOf bits)) = bits ↔
    (2 ^ 52 + bits.toNat % 2 ^ 52) * 2 ^ (bits.toNat / 2 ^ 52 - 1023) % 2 ^ 52 = 0
  := by
  obtain ⟨f, hf⟩ : ∃ f, f = bits.toNat % 2 ^ 52 := ⟨_, rfl⟩
  obtain ⟨k, hk⟩ : ∃ k, k = bits.toNat / 2 ^ 52 - 1023 := ⟨_, rfl⟩
  have hbits : bits.toNat = (1023 + k) * 2 ^ 52 + f := by omega
  have hf52 : f < 2 ^ 52 := by omega
  obtain ⟨hlog, hpos⟩ := @log2_mantissa f k hf52
  have hwhole : wholeOf bits = (2 ^ 52 + f) * 2 ^ k / 2 ^ 52 := by rw [wholeOf, ← hf, ← hk]
  have hlt : wholeOf bits < 2 ^ 64
    := by
    have hk64 : 2 ^ (k + 1) ≤ 2 ^ 64 := Nat.pow_le_pow_right (by decide) (by omega)
    have hself := @Nat.lt_log2_self (wholeOf bits)
    rw [hwhole, hlog, ← hwhole] at hself
    apply Nat.lt_of_lt_of_le hself hk64
  have hne : UInt64.ofNat (wholeOf bits) ≠ 0
    := by
    intro hzero
    have hnat := congrArg UInt64.toNat hzero
    rw [UInt64.toNat_ofNat_of_lt' hlt, hwhole] at hnat
    rw [hnat] at hpos
    exact absurd hpos (Nat.not_le_of_gt (Nat.two_pow_pos k))
  rw [doubleOfUint64, if_neg hne, UInt64.toNat_ofNat_of_lt' hlt, ← hf, ← hk, hwhole, hlog,
    ← UInt64.toNat_inj, hbits]
  by_cases hk52 : k ≤ 52
  · have hexact := shift_mantissa_iff (2 ^ 52 + f) hk52
    obtain ⟨n, hn⟩ : ∃ n, n = (2 ^ 52 + f) * 2 ^ k / 2 ^ 52 * 2 ^ (52 - k) := ⟨_, rfl⟩
    have hle : n ≤ 2 ^ 52 + f
      := by
      have hpow : 2 ^ 52 = 2 ^ (52 - k) * 2 ^ k
        := by rw [← Nat.pow_add, Nat.sub_add_cancel hk52]
      rw [hn]
      nth_rewrite 2 [hpow]
      rw [Nat.mul_div_mul_right _ _ (Nat.two_pow_pos k)]
      apply Nat.div_mul_le_self
    have hge : 2 ^ 52 ≤ n
      := by
      rw [hn]
      calc 2 ^ 52 = 2 ^ k * 2 ^ (52 - k) := by rw [← Nat.pow_add, Nat.add_sub_of_le hk52]
        _ ≤ _ := Nat.mul_le_mul_right _ hpos
    rw [if_pos hk52, ← hexact, ← hn, UInt64.toNat_ofNat_of_lt']
    · omega
    · change _ < 2 ^ 64
      omega
  · have hk0 : 0 < 2 ^ (k - 52) := Nat.two_pow_pos _
    have hshift : (2 ^ 52 + f) * 2 ^ k = (2 ^ 52 + f) * 2 ^ (k - 52) * 2 ^ 52
      := by rw [Nat.mul_assoc, ← Nat.pow_add, Nat.sub_add_cancel (Nat.le_of_not_le hk52)]
    rw [if_neg hk52, hshift, Nat.mul_div_cancel _ (Nat.two_pow_pos 52)]
    dsimp only
    rw [Nat.mul_div_cancel _ hk0, Nat.mul_mod_left, Nat.mul_mod_left, Nat.mul_zero,
      if_neg (by omega), UInt64.toNat_ofNat_of_lt']
    · apply iff_of_true _ rfl
      omega
    · change _ < 2 ^ 64
      omega

/-- A double that is read as a `uint64_t` and made a double again is the same exactly if it is a
whole number. -/
theorem doubleOfUint64_truncateDouble_iff (bits : UInt64) :
  (truncateDouble bits).map doubleOfUint64 = some bits ↔ IsWhole bits
  := by
  rw [truncateDouble_eq, IsWhole]
  by_cases hsmall : bits.toNat / 2 ^ 52 % 2 ^ 11 < 1023
  · rw [if_pos hsmall]
    constructor
    · intro h
      left
      apply (Option.some.inj h).symm
    · rintro (hzero | ⟨⟨hlow, hhigh⟩, -⟩)
      · rw [hzero]
        rfl
      · omega
  · rw [if_neg hsmall]
    have hne : bits ≠ 0
      := by
      rintro rfl
      apply hsmall
      decide
    by_cases hhigh : bits.toNat / 2 ^ 52 < 1023 + 64
    · have hlow : 1023 ≤ bits.toNat / 2 ^ 52 := by omega
      rw [if_pos hhigh, Option.map_some, Option.some_inj, doubleOfUint64_wholeOf hlow hhigh,
        or_iff_right hne, and_iff_right ⟨hlow, hhigh⟩]
    · rw [if_neg hhigh, Option.map_none]
      constructor
      · intro h
        cases h
      · rintro (hzero | ⟨⟨-, hlt⟩, -⟩)
        · contradiction
        · contradiction
