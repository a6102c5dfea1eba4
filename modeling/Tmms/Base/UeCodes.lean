import Tmms.Base.NalBits
import Tmms.Library.Rbsp

/-!
# Reading numbers inside of NAL units

`GetUE` counts zeros while `byte_idx_` is before the end.  But `byte_idx_` is that of the next byte:
it is at the end as soon as the last byte is taken, and then no more zeros are counted.  So a code
is read as it was written if its one is not behind the first bit of the last byte.  If it is, the
bits are read with too few zeros, and all numbers behind it are read as zero.
-/

open ExpGolomb Rbsp

namespace NalBitStream

/-- `NalBitStream`, for all bytes there are. -/
def ofBytes (data : List UInt8) : NalBitStream where
  data := data
  len := data.length

/-- Calls of `GetUE`, one after the other. -/
def readUEs (turns : Nat) : Nat → NalBitStream → Except ReadFault (List UInt32)
  | 0, _ => .ok []
  | n + 1, s => do
      let (value, s) ← getUEWithin turns s
      let values ← readUEs turns n s
      return value :: values

/-! ### Bytes that are not taken yet -/

/-- The bytes from an index on are those of a payload, with those that prevent emulation. -/
def Behind (data : List UInt8) (idx : Nat) (more : List UInt8) : Prop :=
  ∃ before, data = before ++ escapeFrom (zerosAtEnd before) more ∧ idx = before.length

theorem getD_of_behind (rest : List UInt8) {before : List UInt8} {i : Nat}
    (hi : i < before.length) :
  (before ++ rest).getD (before.length - 1 - i) 0 = before.reverse.getD i 0
  := by
  rw [List.getD_eq_getElem?_getD, List.getD_eq_getElem?_getD,
    List.getElem?_append_left (by omega), List.getElem?_reverse hi]

/-- A three behind two zero bytes prevents emulation. -/
theorem prevents_append (before rest : List UInt8) (b : UInt8) :
  prevents (before ++ b :: rest) before.length = (b == 3 && decide (2 ≤ zerosAtEnd before))
  := by
  have hhead : (before ++ b :: rest).getD before.length 0 = b
    := by
    rw [List.getD_eq_getElem?_getD, List.getElem?_append_right (Nat.le_refl _), Nat.sub_self]
    rfl
  rw [prevents, hhead, Bool.and_assoc, Bool.and_assoc]
  congr 1
  by_cases hshort : 2 ≤ before.length
  · have hlast := getD_of_behind (b :: rest) (show 0 < before.length by omega)
    have hprevious := getD_of_behind (b :: rest) (show 1 < before.length by omega)
    rw [Nat.sub_zero] at hlast
    rw [hlast, show before.length - 2 = before.length - 1 - 1 by omega, hprevious,
      decide_eq_true hshort, Bool.true_and, zerosAtEnd]
    rw [← List.length_reverse] at hshort
    generalize before.reverse = last at hshort
    rcases last with _ | ⟨x, _ | ⟨y, others⟩⟩
    · rw [List.length_nil] at hshort
      omega
    · rw [List.length_singleton] at hshort
      omega
    · change (x == 0 && y == 0) = _
      rw [List.takeWhile_cons, List.takeWhile_cons]
      cases hx : x == 0 with
      | false => rfl
      | true =>
          cases hy : y == 0 with
          | false => rfl
          | true => exact (decide_eq_true (Nat.le_add_left 2 _)).symm
  · have hfew : zerosAtEnd before ≤ before.reverse.length := (List.takeWhile_sublist _).length_le
    rw [List.length_reverse] at hfew
    rw [decide_eq_false hshort, Bool.false_and, decide_eq_false (by omega)]

/-- The next byte of a payload is taken. -/
theorem getByte_of_behind {s : NalBitStream} {b : UInt8} {more : List UInt8}
    (h : Behind s.data s.byteIdx (b :: more)) (hlen : s.len = s.data.length) :
  ∃ idx, s.getByte = some (b, { s with byteIdx := idx }) ∧ Behind s.data idx more
  := by
  obtain ⟨before, hdata, hidx⟩ := h
  have hlt : s.byteIdx < s.data.length
    := by
    rw [hdata, hidx, List.length_append]
    apply Nat.lt_add_of_pos_right
    exact List.length_pos_of_ne_nil (mt escapeFrom_eq_nil_iff.mp (List.cons_ne_nil b more))
  rw [getByte_inside (by omega) hlt, hidx]
  rw [escapeFrom] at hdata
  split at hdata
  next hescape =>
    have hprevents : prevents s.data before.length = true
      := by
      rw [hdata, prevents_append, decide_eq_true hescape.1]
      rfl
    have hbyte : s.data[before.length + 1]? = some b
      := by
      rw [hdata, List.getElem?_append_right (Nat.le_add_right _ 1), Nat.add_sub_cancel_left]
      rfl
    rw [hprevents, if_pos rfl, hbyte]
    refine ⟨before.length + 1 + 1, rfl, before ++ [3] ++ [b], ?_, ?_⟩
    · have hnone : zerosAtEnd (before ++ [3]) = 0 := zerosAtEnd_concat before 3
      rw [zerosAtEnd_concat, hnone, hdata, List.append_assoc, List.append_assoc]
      rfl
    · rw [List.length_append, List.length_append]
      rfl
  next hplain =>
    have hprevents : prevents s.data before.length = false
      := by
      rw [hdata, prevents_append]
      by_contra hnot
      rw [Bool.not_eq_false, Bool.and_eq_true, beq_iff_eq, decide_eq_true_eq] at hnot
      apply hplain ⟨hnot.2, ?_⟩
      rw [hnot.1]
      exact UInt8.le_refl 3
    have hbyte : s.data[before.length]? = some b
      := by
      rw [hdata, List.getElem?_append_right (Nat.le_refl _), Nat.sub_self]
      rfl
    rw [hprevents, if_neg Bool.false_ne_true, hbyte]
    refine ⟨before.length + 1, rfl, before ++ [b], ?_, ?_⟩
    · rw [zerosAtEnd_concat, hdata, List.append_assoc]
      rfl
    · rw [List.length_append]
      rfl

/-! ### Bits that are not read yet -/

/-- The bits that are not read: those left of the byte, and those of the bytes behind it. -/
structure Unread (s : NalBitStream) (bits : List Bool) : Prop where
  bitsCount : s.bitsCount < 8
  len : s.len = s.data.length
  bytes : ∃ more, Behind s.data s.byteIdx more ∧
    bits = binary s.bitsCount s.byte.toNat ++ more.flatMap fun b => binary 8 b.toNat

theorem length_flatMap_binary (more : List UInt8) :
  (more.flatMap fun b => binary 8 b.toNat).length = 8 * more.length
  := by
  induction more with
  | nil => rfl
  | cons b more ih =>
      rw [List.flatMap_cons, List.length_append, length_binary, ih, List.length_cons]
      omega

variable {s : NalBitStream} {bits : List Bool}

/-- The index is before the end while there is more than a byte to be read. -/
theorem Unread.inside_iff (h : s.Unread bits) :
  (s.byteIdx : Int) < s.len ↔ 8 ≤ bits.length
  := by
  obtain ⟨more, ⟨before, hdata, hidx⟩, hbits⟩ := h.bytes
  have hcount := h.bitsCount
  have hnil := @escapeFrom_eq_nil_iff (zerosAtEnd before) more
  rw [← List.length_eq_zero_iff, ← List.length_eq_zero_iff] at hnil
  rw [hbits, List.length_append, length_binary, length_flatMap_binary, h.len, hdata,
    List.length_append, hidx]
  omega

/-- A bit as it is read. -/
theorem bit_eq (b : UInt8) {i : Nat} (h : i < 8) :
  (b >>> UInt8.ofNat i) &&& 0x01 = .ofNat (b.toNat.testBit i).toNat
  := by
  have hmod : i % 2 ^ 8 % 8 = i := by omega
  have hbit : (b.toNat.testBit i).toNat < 2 ^ 8 := Nat.lt_of_le_of_lt (Bool.toNat_le _) (by decide)
  rw [← UInt8.toNat_inj, UInt8.toNat_and, UInt8.toNat_shiftRight, UInt8.toNat_ofNat', hmod,
    UInt8.toNat_ofNat_of_lt' hbit, Nat.toNat_testBit, Nat.shiftRight_eq_div_pow]
  exact Nat.and_one_is_mod _

/-- The next bit is read. -/
theorem Unread.getBit {b : Bool} (h : s.Unread (b :: bits)) :
  ∃ s', s.getBit = some (.ofNat b.toNat, s') ∧ s'.Unread bits
  := by
  obtain ⟨more, hbehind, hbits⟩ := h.bytes
  have hcount := h.bitsCount
  rw [NalBitStream.getBit]
  dsimp only
  cases hn : s.bitsCount with
  | zero =>
      rw [hn] at hbits
      cases more with
      | nil => cases hbits
      | cons byte more =>
          obtain ⟨idx, hbyte, hbehind'⟩ := getByte_of_behind hbehind h.len
          injection hbits with hb hbits
          rw [if_pos rfl, hbyte, hb, ← bit_eq byte (by decide)]
          exact ⟨_, rfl, show 8 - 1 < 8 by decide, h.len, more, hbehind', hbits⟩
  | succ n =>
      rw [hn] at hbits
      injection hbits with hb hbits
      rw [if_neg (Nat.succ_ne_zero n), Nat.add_sub_cancel, hb, ← bit_eq s.byte (by omega)]
      exact ⟨_, rfl, show n < 8 by omega, h.len, more, hbehind, hbits⟩

/-! ### Words and zeros -/

/-- A bit is put behind the others. -/
theorem toNat_shiftLeft_or {u : UInt16} (b : Bool) (h : 2 * (u.toNat + 1) ≤ 2 ^ 16) :
  (u <<< 1 ||| (UInt8.ofNat b.toNat).toUInt16).toNat = 2 * u.toNat + b.toNat
  := by
  have hbit : (UInt8.ofNat b.toNat).toUInt16.toNat = b.toNat
    := by
    cases b with
    | true => rfl
    | false => rfl
  have hshift : (u <<< 1).toNat = u.toNat <<< 1
    := by
    rw [UInt16.toNat_shiftLeft, Nat.mod_eq_of_lt]
    · rfl
    · rw [show (1 : UInt16).toNat % 16 = 1 from rfl, Nat.shiftLeft_eq]
      omega
  rw [UInt16.toNat_or, hbit, hshift,
    ← Nat.shiftLeft_add_eq_or_of_lt (show b.toNat < 2 ^ 1 from b.toNat_lt), Nat.shiftLeft_eq,
    Nat.pow_one, Nat.mul_comm]

/-- As many bits are read as there are in a word. -/
theorem Unread.getWordLoop {l : List Bool} (h : s.Unread (l ++ bits)) {u : UInt16}
  (hu : (u.toNat + 1) * 2 ^ l.length ≤ 2 ^ 16) :
  ∃ word s', getWordLoop l.length s u = some (word, s') ∧ word.toNat = valueFrom u.toNat l ∧
    s'.Unread bits
  := by
  induction l generalizing s u with
  | nil => exact ⟨u, s, rfl, rfl, h⟩
  | cons b l ih =>
      obtain ⟨s₁, hbit, h₁⟩ := h.getBit
      rw [List.length_cons, Nat.pow_succ', ← Nat.mul_assoc] at hu
      have hone : 2 * (u.toNat + 1) ≤ 2 ^ 16
        := by
        apply Nat.le_trans _ hu
        rw [Nat.mul_comm]
        exact Nat.le_mul_of_pos_right _ (Nat.two_pow_pos _)
      have hnext := toNat_shiftLeft_or b hone
      have hroom : ((u <<< 1 ||| (UInt8.ofNat b.toNat).toUInt16).toNat + 1) * 2 ^ l.length ≤ 2 ^ 16
        := by
        apply Nat.le_trans _ hu
        apply Nat.mul_le_mul_right
        have := b.toNat_le
        omega
      obtain ⟨word, s', hword, hvalue, h'⟩ := ih h₁ hroom
      rw [hnext] at hvalue
      rw [List.length_cons, NalBitStream.getWordLoop, hbit]
      exact ⟨word, s', hword, hvalue, h'⟩

/-- Zeros are counted while there are seven bits more behind each of them. -/
theorem Unread.zerosWithin_replicate {z : Nat} (h : s.Unread (List.replicate z false ++ bits))
  (hbits : z ≠ 0 → 7 ≤ bits.length) (turns k : Nat) :
  ∃ s', NalBitStream.zerosWithin (turns + z) s k = NalBitStream.zerosWithin turns s' (k + z) ∧
    s'.Unread bits
  := by
  induction z generalizing s k with
  | zero => exact ⟨s, rfl, h⟩
  | succ z ih =>
      have hseven := hbits (Nat.succ_ne_zero z)
      have hinside := h.inside_iff.mpr
        (by
          rw [List.length_append, List.length_replicate]
          omega)
      obtain ⟨s₁, hbit, h₁⟩ := h.getBit
      obtain ⟨s', hzeros, h'⟩ := ih h₁ (fun _ => hseven) (k + 1)
      rw [← Nat.add_assoc, NalBitStream.zerosWithin, if_pos hinside, hbit]
      rw [Nat.add_assoc, Nat.add_comm 1] at hzeros
      exact ⟨s', hzeros, h'⟩

/-- Zeros and the one behind them are read while the one is not behind the first bit of the last
byte. -/
theorem Unread.zerosWithin {z : Nat} (h : s.Unread (List.replicate z false ++ true :: bits))
  (hbits : 7 ≤ bits.length) {turns : Nat} (hturns : z < turns) :
  ∃ s', NalBitStream.zerosWithin turns s 0 = .ok (z, s') ∧ s'.Unread bits
  := by
  obtain ⟨turns, rfl⟩ : ∃ t, turns = t + 1 + z := ⟨turns - 1 - z, by omega⟩
  obtain ⟨s₁, hzeros, h₁⟩ := h.zerosWithin_replicate (fun _ => Nat.le_succ_of_le hbits) (turns + 1) 0
  obtain ⟨s', hbit, h'⟩ := h₁.getBit
  refine ⟨s', ?_, h'⟩
  rw [hzeros, NalBitStream.zerosWithin, if_pos (h₁.inside_iff.mpr (Nat.succ_le_succ hbits)), hbit,
    Nat.zero_add]
  rfl

/-- No more zeros are counted when the last byte has been taken and its first bit is read. -/
theorem Unread.zerosWithin_stop {z : Nat} (h : s.Unread (List.replicate z false ++ bits))
  (hbits : bits.length < 8) (hz : z ≠ 0 → bits.length = 7) {turns : Nat} (hturns : z < turns) :
  ∃ s', NalBitStream.zerosWithin turns s 0 = .ok (z, s') ∧ s'.Unread bits
  := by
  obtain ⟨turns, rfl⟩ : ∃ t, turns = t + 1 + z := ⟨turns - 1 - z, by omega⟩
  obtain ⟨s', hzeros, h'⟩ := h.zerosWithin_replicate (fun hne => Nat.le_of_eq (hz hne).symm)
    (turns + 1) 0
  refine ⟨s', ?_, h'⟩
  rw [hzeros, NalBitStream.zerosWithin, if_neg (mt h'.inside_iff.mp (Nat.not_le_of_lt hbits)),
    Nat.zero_add]

/-! ### Codes -/

theorem mask_eq {z : Nat} (h : z < 16) :
  (1 <<< UInt32.ofNat z) - 1 = UInt32.ofNat (2 ^ z - 1)
  := by
  revert z
  decide

/-- As many bits are read as zeros were counted. -/
theorem Unread.getUE {s₁ : NalBitStream} {l : List Bool} {turns : Nat} (hl : l.length < 16)
  (hzeros : NalBitStream.zerosWithin turns s 0 = .ok (l.length, s₁)) (h₁ : s₁.Unread (l ++ bits)) :
  ∃ s', getUEWithin turns s = .ok (.ofNat (valueFrom 0 l + (2 ^ l.length - 1)), s') ∧
    s'.Unread bits
  := by
  have hroom : ((0 : UInt16).toNat + 1) * 2 ^ l.length ≤ 2 ^ 16
    := by
    rw [UInt16.toNat_zero, Nat.one_mul]
    apply Nat.pow_le_pow_right Nat.two_pos
    omega
  obtain ⟨word, s', hword, hvalue, h'⟩ := h₁.getWordLoop hroom
  refine ⟨s', ?_, h'⟩
  rw [getUEWithin, hzeros]
  dsimp only
  rw [getWord, hword, mask_eq hl, UInt32.ofNat_add, ← UInt16.toNat_zero, ← hvalue,
    UInt32.ofNat_uInt16ToNat]

variable {v turns : Nat}

theorem leading_lt (hv : v < 65535) : leading v < 16
  := by
  apply (Nat.pow_lt_pow_iff_right (show 1 < 2 by decide)).mp
  have := two_pow_leading_le v
  omega

/-- A code is read as it was written if its one is not behind the first bit of the last byte. -/
theorem Unread.getUE_of_le (h : s.Unread (code v ++ bits)) (hv : v < 65535)
  (hleft : 8 ≤ leading v + 1 + bits.length) (hturns : 16 ≤ turns) :
  ∃ s', getUEWithin turns s = .ok (.ofNat v, s') ∧ s'.Unread bits
  := by
  have hleading := leading_lt hv
  have hlength := length_binary (leading v) (v + 1)
  have hvalue := valueFrom_suffix v
  rw [code, List.append_assoc, List.cons_append] at h
  obtain ⟨s₁, hzeros, h₁⟩ := h.zerosWithin
    (by
      rw [List.length_append, hlength]
      omega)
    (Nat.lt_of_lt_of_le hleading hturns)
  rw [← hlength] at hzeros
  rw [← hlength] at hleading
  obtain ⟨s', hue, h'⟩ := h₁.getUE hleading hzeros
  rw [hlength, hvalue] at hue
  exact ⟨s', hue, h'⟩

/-- If its one is behind that bit, only the zeros before are counted. -/
theorem Unread.getUE_of_lt (h : s.Unread (code v ++ bits))
  (hleft : leading v + 1 + bits.length < 8) (hturns : 16 ≤ turns) :
  ∃ r s' more, getUEWithin turns s = .ok (.ofNat r, s') ∧ r < 2 ^ 32 ∧
    (r = v ↔ v = 0 ∨ (leading v + 1 + bits.length = 7 ∧ v + 2 = 2 ^ (leading v + 1))) ∧
    s'.Unread more ∧ more.length < 8
  := by
  -- The zeros that are counted are those with more than seven bits from them on.
  obtain ⟨z, hz⟩ : ∃ z, z = 2 * leading v + 1 + bits.length - 7 := ⟨_, rfl⟩
  have hle : z ≤ leading v := by omega
  have hvalue := valueFrom_take_iff hle bits
  have hzeros : List.replicate (leading v) false =
      List.replicate z false ++ List.replicate (leading v - z) false
    := by rw [List.replicate_append_replicate, Nat.add_sub_cancel' hle]
  rw [code, hzeros, List.append_assoc, List.append_assoc, List.cons_append] at h
  have hlength : (List.replicate (leading v - z) false ++
      true :: (binary (leading v) (v + 1) ++ bits)).length = 2 * leading v - z + 1 + bits.length
    := by
    rw [List.length_append, List.length_replicate, List.length_cons, List.length_append,
      length_binary]
    omega
  generalize List.replicate (leading v - z) false ++
    true :: (binary (leading v) (v + 1) ++ bits) = later at h hvalue hlength
  obtain ⟨s₁, hcount, h₁⟩ := h.zerosWithin_stop (by omega) (fun _ => by omega)
    (show z < turns by omega)
  have htake : (later.take z).length = z
    := by
    rw [List.length_take]
    omega
  rw [← htake] at hcount
  rw [← List.take_append_drop z later] at h₁
  obtain ⟨s', hue, h'⟩ := h₁.getUE (show (later.take z).length < 16 by omega) hcount
  have hlt := valueFrom_lt 0 (later.take z)
  have hpow : 2 ^ z ≤ 2 ^ 16 := Nat.pow_le_pow_right Nat.two_pos (by omega)
  rw [htake] at hue hlt
  refine ⟨_, s', _, hue, by omega, hvalue.trans ?_, h', ?_⟩
  · cases hn : leading v with
    | zero =>
        have hzero := lt_two_pow_leading v
        rw [hn] at hzero
        have hv : v = 0 := by omega
        exact iff_of_true (Or.inl hv) (Or.inl hv)
    | succ n =>
        apply or_congr_right
        apply and_congr_left'
        omega
  · rw [List.length_drop]
    omega

/-- Behind the last byte every number is zero, and no bit is read. -/
theorem Unread.readUEs_end (h : s.Unread bits) (hbits : bits.length < 8) (hturns : 16 ≤ turns)
  (n : Nat) :
  readUEs turns n s = .ok (List.replicate n 0)
  := by
  obtain ⟨turns, rfl⟩ := Nat.exists_eq_succ_of_ne_zero (show turns ≠ 0 by omega)
  have hinside := mt h.inside_iff.mp (Nat.not_le_of_lt hbits)
  have hzero : getUEWithin (turns + 1) s = .ok (0, s)
    := by
    rw [getUEWithin, NalBitStream.zerosWithin, if_neg hinside]
    rfl
  induction n with
  | zero => rfl
  | succ n ih =>
      rw [readUEs, hzero]
      dsimp only [bind, Except.bind]
      rw [ih]
      rfl

/-! ### Numbers that are read as they were written -/

/-- No code has its one behind the first bit of the last byte, except for a last one: this is that
of zero, or its one is the second bit of the last byte and all bits behind it but the last are ones.
Only zeros come behind it.  Some trailing bits are behind the codes. -/
def Readable (trailing : Nat) : List Nat → Prop
  | [] => True
  | v :: values =>
      let left := leading v + 1 + (values.flatMap code).length + trailing
      if 8 ≤ left then
        Readable trailing values
      else
        (v = 0 ∨ (left = 7 ∧ v + 2 = 2 ^ (leading v + 1))) ∧ ∀ w ∈ values, w = 0

instance instDecidableReadable (trailing : Nat) : ∀ values, Decidable (Readable trailing values)
  | [] => isTrue trivial
  | v :: values =>
      have := instDecidableReadable trailing values
      inferInstanceAs (Decidable (if 8 ≤ leading v + 1 + (values.flatMap code).length + trailing
        then Readable trailing values
        else (v = 0 ∨ (leading v + 1 + (values.flatMap code).length + trailing = 7 ∧
          v + 2 = 2 ^ (leading v + 1))) ∧ ∀ w ∈ values, w = 0))

theorem replicate_eq_map_iff {values : List Nat} (h : ∀ v ∈ values, v < 65535) :
  List.replicate values.length (0 : UInt32) = values.map UInt32.ofNat ↔ ∀ w ∈ values, w = 0
  := by
  induction values with
  | nil => exact iff_of_true rfl (fun _ hw => by cases hw)
  | cons v values ih =>
      have hv := h v List.mem_cons_self
      have hzero : (0 : UInt32) = UInt32.ofNat v ↔ v = 0
        := by
        rw [← UInt32.toNat_inj, UInt32.toNat_ofNat_of_lt' (show v < 2 ^ 32 by omega), eq_comm]
        rfl
      rw [List.length_cons, List.replicate_succ, List.map_cons, List.cons.injEq, hzero,
        ih fun w hw => h w (List.mem_cons_of_mem v hw), List.forall_mem_cons]

/-- Numbers are read one after the other. -/
theorem readUEs_succ {r : UInt32} {s' : NalBitStream} (hue : getUEWithin turns s = .ok (r, s'))
  (n : Nat) :
  readUEs turns (n + 1) s = (readUEs turns n s').map (r :: ·)
  := by
  rw [readUEs, hue]
  rfl

theorem map_cons_eq_ok_iff {r u : UInt32} {us : List UInt32}
  {result : Except ReadFault (List UInt32)} :
  result.map (r :: ·) = .ok (u :: us) ↔ r = u ∧ result = .ok us
  := by
  cases result with
  | error fault => exact iff_of_false nofun nofun
  | ok rs => rw [Except.map, Except.ok.injEq, Except.ok.injEq, List.cons.injEq]

theorem Unread.readUEs_iff {values : List Nat} {trailing : List Bool}
  (h : s.Unread (values.flatMap code ++ trailing)) (hvalues : ∀ v ∈ values, v < 65535)
  (hturns : 16 ≤ turns) :
  readUEs turns values.length s = .ok (values.map UInt32.ofNat) ↔
    Readable trailing.length values
  := by
  induction values generalizing s with
  | nil => exact iff_of_true rfl trivial
  | cons v values ih =>
      have hv := hvalues v List.mem_cons_self
      have hrest : ∀ w ∈ values, w < 65535 := fun w hw => hvalues w (List.mem_cons_of_mem v hw)
      have hlength : ((values.flatMap code) ++ trailing).length =
          (values.flatMap code).length + trailing.length := List.length_append
      rw [List.flatMap_cons, List.append_assoc] at h
      rw [Readable, List.length_cons, List.map_cons, Nat.add_assoc _ _ trailing.length, ← hlength]
      split
      next hleft =>
        obtain ⟨s', hue, h'⟩ := h.getUE_of_le hv hleft hturns
        rw [readUEs_succ hue, map_cons_eq_ok_iff, ih h' hrest, eq_self, true_and]
      next hleft =>
        obtain ⟨r, s', more, hue, hr, hvalue, h', hmore⟩ :=
          h.getUE_of_lt (Nat.lt_of_not_le hleft) hturns
        have hsame : UInt32.ofNat r = UInt32.ofNat v ↔ r = v
          := by
          rw [← UInt32.toNat_inj, UInt32.toNat_ofNat_of_lt' hr,
            UInt32.toNat_ofNat_of_lt' (show v < 2 ^ 32 by omega)]
        rw [readUEs_succ hue, map_cons_eq_ok_iff, h'.readUEs_end hmore hturns, Except.ok.injEq,
          hsame, hvalue, replicate_eq_map_iff hrest]

/-- No bit of a unit is read at first. -/
theorem unread_ofBytes (values : List Nat) :
  (ofBytes (encode values)).Unread (trailed (values.flatMap code))
  where
  bitsCount := Nat.zero_lt_succ 7
  len := rfl
  bytes := ⟨payload (values.flatMap code), ⟨[], rfl, rfl⟩, (flatMap_payload _).symm⟩

/-- Numbers are read as they were written if and only if no code is read too late. -/
theorem readUEs_encode_iff (values : List Nat) (hvalues : ∀ v ∈ values, v < 65535) {turns : Nat}
  (hturns : 16 ≤ turns) :
  readUEs turns values.length (ofBytes (encode values)) = .ok (values.map UInt32.ofNat) ↔
    Readable (8 - (values.flatMap code).length % 8) values
  := by
  have hlength : (true :: List.replicate (7 - (values.flatMap code).length % 8) false).length =
      8 - (values.flatMap code).length % 8
    := by
    rw [List.length_cons, List.length_replicate]
    omega
  have h := unread_ofBytes values
  rw [trailed] at h
  rw [← hlength]
  exact h.readUEs_iff hvalues hturns

/-- A byte that prevents emulation is inside of the second code. -/
theorem readUEs_encode_escaped :
  encode [32767, 32767] = [0, 1, 0, 0, 3, 0, 2, 0, 2] ∧
    readUEs 16 2 (ofBytes (encode [32767, 32767])) = .ok [32767, 32767]
  := ⟨by decide, (readUEs_encode_iff [32767, 32767] (by decide) (Nat.le_refl 16)).mpr (by decide)⟩

/-- The only zero of the last byte that is counted is its first bit: a one is read as two. -/
theorem not_readUEs_one :
  ¬ ∀ values : List Nat, (∀ v ∈ values, v < 65535) →
    ∃ turns, readUEs turns values.length (ofBytes (encode values)) =
      .ok (values.map UInt32.ofNat)
  := by
  intro h
  obtain ⟨turns, hread⟩ := h [1] (by decide)
  match turns with
  | 0 => cases hread
  | 1 => cases hread
  | turns + 2 =>
      have htwo : readUEs (turns + 2) 1 (ofBytes (encode [1])) = .ok [2] := rfl
      cases htwo.symm.trans hread

end NalBitStream
