import Tmms.Base.Bytes
import Tmms.Base.NalBitStream
import Tmms.Library.ExpGolomb

/-!
# Reading bits inside of NAL units

`NalBitStream` looks for the end of its bytes before it reads one, but not again after it has left
out a byte that prevents emulation.  So it reads beyond the end only if the last byte prevents
emulation and all bits before are read (`AtEnd`), and never if there is something behind that byte
(`Fits`).

Reading is bounded by a number of turns here.  A result that needs more of them is `unfinished`.
-/

open ExpGolomb

/-- Why reading has no result: a byte outside of the data is read, or there are too few turns. -/
inductive ReadFault where
  | outside
  | unfinished
  deriving DecidableEq, Repr

/-- The last bits of a byte, the most significant one first. -/
def lastBits (b : UInt8) : Nat → List Bool
  | 0 => []
  | n + 1 => b.toNat.testBit n :: lastBits b n

/-- A bit as it is read. -/
theorem bit_eq_zero_iff (b : UInt8) {i : Nat} (h : i < 8) :
  (b >>> UInt8.ofNat i) &&& 0x01 = 0 ↔ b.toNat.testBit i = false
  := by
  have hmod : i % 2 ^ 8 % 8 = i := by omega
  rw [← UInt8.toNat_inj, UInt8.toNat_and, UInt8.toNat_shiftRight, UInt8.toNat_ofNat', hmod,
    Nat.testBit, bne_eq_false_iff_eq, Nat.and_comm]
  rfl

/-- A byte that prevents emulation. -/
def prevents (data : List UInt8) (i : Nat) : Bool :=
  data.getD i 0 == 0x03 && 2 ≤ i && data.getD (i - 1) 0 == 0 && data.getD (i - 2) 0 == 0

/-- The bytes of an interval without those that prevent emulation. -/
def unescapeFrom (data : List UInt8) (i n : Nat) : List UInt8 :=
  ((List.range' i n).filter fun i => !prevents data i).map fun i => data.getD i 0

theorem unescapeFrom_succ (data : List UInt8) (i n : Nat) :
  unescapeFrom data i (n + 1) =
    if prevents data i then unescapeFrom data (i + 1) n
    else data.getD i 0 :: unescapeFrom data (i + 1) n
  := by
  rw [unescapeFrom, List.range'_succ, List.filter_cons]
  cases hprevents : prevents data i with
  | true => rfl
  | false => rfl

/-- The bytes without those that prevent emulation. -/
def unescape (data : List UInt8) : List UInt8 := unescapeFrom data 0 data.length

namespace NalBitStream

/-- The loop of `GetUE`. -/
def zerosWithin : Nat → NalBitStream → Nat → Except ReadFault (Nat × NalBitStream)
  | 0, _, _ => .error .unfinished
  | n + 1, s, zeros =>
      if s.byteIdx < s.len then
        match s.getBit with
        | some (bit, s) => if bit = 0 then zerosWithin n s (zeros + 1) else .ok (zeros, s)
        | none => .error .outside
      else
        .ok (zeros, s)

/-- `GetUE`. -/
def getUEWithin (n : Nat) (s : NalBitStream) : Except ReadFault (UInt32 × NalBitStream) :=
  match zerosWithin n s 0 with
  | .ok (zeros, s) =>
      match s.getWord zeros with
      | some (word, s) => .ok (word.toUInt32 + ((1 <<< UInt32.ofNat zeros) - 1), s)
      | none => .error .outside
  | .error fault => .error fault

/-- More turns change nothing. -/
theorem zerosWithin_mono {n m : Nat} {s : NalBitStream} {zeros : Nat} {r : Nat × NalBitStream}
  (h : zerosWithin n s zeros = .ok r) (hle : n ≤ m) :
  zerosWithin m s zeros = .ok r
  := by
  induction n generalizing m s zeros with
  | zero => cases h
  | succ n ih =>
      obtain ⟨m, rfl⟩ := Nat.exists_eq_succ_of_ne_zero (show m ≠ 0 by omega)
      rw [zerosWithin] at h
      rw [zerosWithin]
      split
      case isFalse hinside => rwa [if_neg hinside] at h
      case isTrue hinside =>
        rw [if_pos hinside] at h
        cases hbit : s.getBit with
        | none =>
            rw [hbit] at h
            cases h
        | some read =>
            rw [hbit] at h
            dsimp only at h
            dsimp only
            split
            case isFalse hbit => rwa [if_neg hbit] at h
            case isTrue hbit =>
              rw [if_pos hbit] at h
              exact ih h (Nat.le_of_succ_le_succ hle)

theorem getUEWithin_mono {n m : Nat} {s : NalBitStream} {r : UInt32 × NalBitStream}
  (h : getUEWithin n s = .ok r) (hle : n ≤ m) :
  getUEWithin m s = .ok r
  := by
  rw [getUEWithin] at h
  rw [getUEWithin]
  cases hzeros : zerosWithin n s 0 with
  | error fault =>
      rw [hzeros] at h
      cases h
  | ok read =>
      rw [hzeros] at h
      rwa [zerosWithin_mono hzeros hle]

variable {s : NalBitStream}

theorem isPrevention_eq (s : NalBitStream) : s.isPrevention = prevents s.data s.byteIdx := rfl

/-- The byte at an index inside is read, or the one behind it if it prevents emulation. -/
theorem getByte_inside (hend : ¬ s.len ≤ s.byteIdx) (hlt : s.byteIdx < s.data.length) :
  s.getByte =
    match s.data[if prevents s.data s.byteIdx then s.byteIdx + 1 else s.byteIdx]? with
    | some b => some (b, { s with
        byteIdx := (if prevents s.data s.byteIdx then s.byteIdx + 1 else s.byteIdx) + 1 })
    | none => none
  := (if_neg hend).trans (if_pos hlt)

/-! ### Streams with something behind them -/

/-- What is left out is never the last byte there is. -/
structure Fits (s : NalBitStream) : Prop where
  bitsCount : s.bitsCount ≤ 8
  lt : ∀ i, i < s.len.toNat → i < s.data.length
  prevents : ∀ i, i < s.len.toNat → prevents s.data i = true → i + 1 < s.data.length

/-- The bits there may be. -/
def left (s : NalBitStream) : Nat := 8 * (s.len.toNat - s.byteIdx) + s.bitsCount

/-- A byte is read that is inside. -/
theorem Fits.getByte (h : s.Fits) :
  ∃ b idx, s.getByte = some (b, { s with byteIdx := idx }) ∧
    (s.byteIdx < s.len.toNat → s.byteIdx < idx)
  := by
  by_cases hend : s.len ≤ s.byteIdx
  · rw [NalBitStream.getByte, if_pos hend]
    exact ⟨0, s.byteIdx, rfl, fun hlt => by omega⟩
  · have hlt : s.byteIdx < s.len.toNat := by omega
    have hin := h.lt s.byteIdx hlt
    rw [getByte_inside hend hin, ← isPrevention_eq]
    cases hprevents : s.isPrevention with
    | true =>
        have hnext := h.prevents s.byteIdx hlt hprevents
        rw [if_pos rfl, List.getElem?_eq_getElem hnext]
        exact ⟨_, _, rfl, fun _ => by omega⟩
    | false =>
        rw [if_neg Bool.false_ne_true, List.getElem?_eq_getElem hin]
        exact ⟨_, _, rfl, fun _ => by omega⟩

theorem Fits.getBit (h : s.Fits) :
  ∃ b s', s.getBit = some (b, s') ∧ s'.Fits ∧ s'.len = s.len ∧
    (s.byteIdx < s.len.toNat → s'.left < s.left)
  := by
  rw [NalBitStream.getBit]
  by_cases hnone : s.bitsCount = 0
  · obtain ⟨b, idx, hbyte, hlt⟩ := h.getByte
    rw [if_pos hnone, hbyte]
    refine ⟨_, _, rfl, ⟨Nat.sub_le 8 1, h.lt, h.prevents⟩, rfl, ?_⟩
    intro hinside
    have hidx := hlt hinside
    rw [left, left]
    dsimp only
    omega
  · rw [if_neg hnone]
    have hcount := h.bitsCount
    refine ⟨_, _, rfl, ⟨Nat.le_trans (Nat.sub_le _ _) hcount, h.lt, h.prevents⟩, rfl, ?_⟩
    intro hinside
    rw [left, left]
    dsimp only
    omega

theorem Fits.getWord (h : s.Fits) (bits : Nat) :
  ∃ u s', s.getWord bits = some (u, s') ∧ s'.Fits ∧ s'.len = s.len
  := by
  rw [NalBitStream.getWord]
  generalize (0 : UInt16) = u
  induction bits generalizing s u with
  | zero => exact ⟨u, s, rfl, h, rfl⟩
  | succ bits ih =>
      obtain ⟨b, s₁, hbit, h₁, hlen, -⟩ := h.getBit
      obtain ⟨u', s', hword, h', hlen'⟩ := ih h₁ (u <<< 1 ||| b.toUInt16)
      rw [getWordLoop, hbit]
      exact ⟨u', s', hword, h', hlen'.trans hlen⟩

theorem Fits.zerosWithin (h : s.Fits) {n : Nat} (hn : s.left < n) (zeros : Nat) :
  ∃ zeros' s', zerosWithin n s zeros = .ok (zeros', s') ∧ s'.Fits ∧ s'.len = s.len
  := by
  induction n generalizing s zeros with
  | zero => cases hn
  | succ n ih =>
      rw [NalBitStream.zerosWithin]
      by_cases hinside : (s.byteIdx : Int) < s.len
      · obtain ⟨b, s₁, hbit, h₁, hlen, hleft⟩ := h.getBit
        have hless := hleft (by omega)
        rw [if_pos hinside, hbit]
        dsimp only
        by_cases hb : b = 0
        · obtain ⟨zeros', s', hzeros, h', hlen'⟩ := ih h₁ (by omega) (zeros + 1)
          rw [if_pos hb]
          exact ⟨zeros', s', hzeros, h', hlen'.trans hlen⟩
        · rw [if_neg hb]
          exact ⟨zeros, s₁, rfl, h₁, hlen⟩
      · rw [if_neg hinside]
        exact ⟨zeros, s, rfl, h, rfl⟩

/-- With enough turns a code is read. -/
theorem Fits.getUEWithin (h : s.Fits) {n : Nat} (hn : 8 * s.len.toNat + 8 < n) :
  ∃ code s', getUEWithin n s = .ok (code, s') ∧ s'.Fits ∧ s'.len = s.len
  := by
  have hcount := h.bitsCount
  have hleft : s.left < n
    := by
    rw [left]
    omega
  obtain ⟨zeros, s₁, hzeros, h₁, hlen⟩ := h.zerosWithin hleft 0
  obtain ⟨word, s', hword, h', hlen'⟩ := h₁.getWord zeros
  rw [NalBitStream.getUEWithin, hzeros]
  dsimp only
  rw [hword]
  exact ⟨_, s', rfl, h', hlen'.trans hlen⟩

/-! ### Streams that end with a byte that is left out -/

/-- The last byte prevents emulation. -/
structure AtEnd (s : NalBitStream) : Prop where
  bitsCount : s.bitsCount ≤ 8
  len : s.len = s.data.length
  lt : s.byteIdx < s.data.length
  last : prevents s.data (s.data.length - 1) = true

/-- The bits there are. -/
def rest (s : NalBitStream) : List Bool :=
  lastBits s.byte s.bitsCount ++
    (unescapeFrom s.data s.byteIdx (s.data.length - 1 - s.byteIdx)).flatMap (lastBits · 8)

/-- Neither of two bytes behind one that is left out is left out. -/
theorem prevents_behind {data : List UInt8} {i j : Nat} (h : prevents data i = true) (hlt : i < j)
  (hle : j ≤ i + 2) :
  prevents data j = false
  := by
  apply Bool.eq_false_iff.mpr
  intro hj
  rw [prevents, Bool.and_eq_true, Bool.and_eq_true, Bool.and_eq_true, beq_iff_eq, beq_iff_eq,
    beq_iff_eq] at h hj
  have hthree := h.1.1.1
  have hone := hj.1.2
  have htwo := hj.2
  have hcases : j = i + 1 ∨ j = i + 2 := by omega
  obtain rfl | rfl := hcases
  · rw [Nat.add_sub_cancel, hthree] at hone
    cases hone
  · rw [Nat.add_sub_cancel, hthree] at htwo
    cases htwo

/-- The bytes there are behind those that were read. -/
theorem AtEnd.getByte (h : s.AtEnd) :
  (unescapeFrom s.data s.byteIdx (s.data.length - 1 - s.byteIdx) = [] ∧ s.getByte = none) ∨
    ∃ b idx, s.getByte = some (b, { s with byteIdx := idx }) ∧ idx < s.data.length ∧
      unescapeFrom s.data s.byteIdx (s.data.length - 1 - s.byteIdx) =
        b :: unescapeFrom s.data idx (s.data.length - 1 - idx)
  := by
  have hlt := h.lt
  have hend : ¬ s.len ≤ s.byteIdx
    := by
    rw [h.len]
    omega
  have hin {i : Nat} (hi : i < s.data.length) : s.data[i]? = some (s.data.getD i 0)
    := by rw [List.getD_eq_getElem?_getD, List.getElem?_eq_getElem hi, Option.getD_some]
  rw [getByte_inside hend hlt]
  have hlastByte := h.last
  by_cases hlast : s.byteIdx = s.data.length - 1
  · left
    have hnone : s.data[s.byteIdx + 1]? = none := List.getElem?_eq_none (by omega)
    rw [← hlast] at hlastByte
    rw [← hlast, Nat.sub_self, if_pos hlastByte, hnone]
    exact ⟨rfl, rfl⟩
  · right
    have hsucc : s.data.length - 1 - s.byteIdx = (s.data.length - 1 - (s.byteIdx + 1)) + 1
      := by omega
    rw [hsucc, unescapeFrom_succ]
    cases hprevents : prevents s.data s.byteIdx with
    | true =>
        have hnext := prevents_behind hprevents (Nat.lt_succ_self _) (Nat.le_succ _)
        have hne : s.byteIdx + 1 ≠ s.data.length - 1
          := by
          intro heq
          rw [← heq, hnext] at hlastByte
          cases hlastByte
        have hsucc' : s.data.length - 1 - (s.byteIdx + 1)
            = (s.data.length - 1 - (s.byteIdx + 2)) + 1
          := by omega
        rw [if_pos rfl, if_pos rfl, hin (show s.byteIdx + 1 < s.data.length by omega), hsucc',
          unescapeFrom_succ, hnext, if_neg Bool.false_ne_true]
        exact ⟨_, _, rfl, by omega, rfl⟩
    | false =>
        rw [if_neg Bool.false_ne_true, if_neg Bool.false_ne_true, hin hlt]
        exact ⟨_, _, rfl, by omega, rfl⟩

theorem AtEnd.getBit_nil (h : s.AtEnd) (hrest : s.rest = []) :
  s.getBit = none
  := by
  rw [rest, List.append_eq_nil_iff] at hrest
  have hcount : s.bitsCount = 0
    := by
    cases hn : s.bitsCount with
    | zero => rfl
    | succ n =>
        rw [hn] at hrest
        cases hrest.1
  rw [NalBitStream.getBit]
  dsimp only
  rw [if_pos hcount]
  obtain ⟨-, hnone⟩ | ⟨b, idx, -, -, hbytes⟩ := h.getByte
  · rw [hnone]
  · rw [hbytes] at hrest
    cases hrest.2

/-- A bit is read from the rest. -/
theorem AtEnd.getBit_cons (h : s.AtEnd) {b : Bool} {bits : List Bool} (hrest : s.rest = b :: bits) :
  ∃ bit s', s.getBit = some (bit, s') ∧ (bit = 0 ↔ b = false) ∧ s'.AtEnd ∧ s'.rest = bits
  := by
  rw [rest] at hrest
  rw [NalBitStream.getBit]
  dsimp only
  cases hn : s.bitsCount with
  | zero =>
      rw [hn] at hrest
      obtain ⟨hnil, -⟩ | ⟨byte, idx, hbyte, hidx, hbytes⟩ := h.getByte
      · rw [hnil] at hrest
        cases hrest
      · rw [hbytes, List.flatMap_cons] at hrest
        injection hrest with hb hbits
        rw [if_pos rfl, hbyte]
        refine ⟨_, _, rfl, ?_, ⟨Nat.sub_le 8 1, h.len, hidx, h.last⟩, hbits⟩
        rw [← hb]
        exact bit_eq_zero_iff byte (by decide)
  | succ n =>
      have hcount := h.bitsCount
      rw [hn] at hrest
      injection hrest with hb hbits
      rw [if_neg (Nat.succ_ne_zero n), Nat.add_sub_cancel]
      refine ⟨_, _, rfl, ?_, ⟨show n ≤ 8 by omega, h.len, h.lt, h.last⟩, hbits⟩
      rw [← hb]
      exact bit_eq_zero_iff s.byte (by omega)

theorem AtEnd.getWord_none (h : s.AtEnd) {bits : Nat} (hbits : s.rest.length < bits) :
  s.getWord bits = none
  := by
  rw [NalBitStream.getWord]
  generalize (0 : UInt16) = u
  induction bits generalizing s u with
  | zero => cases hbits
  | succ bits ih =>
      rw [getWordLoop]
      cases hrest : s.rest with
      | nil => rw [h.getBit_nil hrest]
      | cons b rest =>
          obtain ⟨bit, s₁, hbit, -, h₁, hrest₁⟩ := h.getBit_cons hrest
          rw [hrest, List.length_cons] at hbits
          rw [hbit]
          exact ih h₁ (by rw [hrest₁]; omega) _

theorem AtEnd.getWord (h : s.AtEnd) {bits : Nat} (hbits : bits ≤ s.rest.length) :
  ∃ u s', s.getWord bits = some (u, s') ∧ s'.AtEnd ∧ s'.rest = s.rest.drop bits
  := by
  rw [NalBitStream.getWord]
  generalize (0 : UInt16) = u
  induction bits generalizing s u with
  | zero => exact ⟨u, s, rfl, h, rfl⟩
  | succ bits ih =>
      rw [getWordLoop]
      cases hrest : s.rest with
      | nil =>
          rw [hrest] at hbits
          cases hbits
      | cons b rest =>
          obtain ⟨bit, s₁, hbit, -, h₁, hrest₁⟩ := h.getBit_cons hrest
          rw [hrest, List.length_cons] at hbits
          rw [← hrest₁] at hbits
          rw [hbit, List.drop_succ_cons, ← hrest₁]
          exact ih h₁ (by omega) _

theorem AtEnd.inside (h : s.AtEnd) :
  (s.byteIdx : Int) < s.len
  := by
  have hlt := h.lt
  rw [h.len]
  omega

/-- Zeros without a one behind them. -/
theorem AtEnd.zerosWithin_ne_ok (h : s.AtEnd) (hzeros : zeros s.rest = s.rest.length) (n k : Nat)
  (r : Nat × NalBitStream) :
  zerosWithin n s k ≠ .ok r
  := by
  induction n generalizing s k with
  | zero => nofun
  | succ n ih =>
      rw [NalBitStream.zerosWithin, if_pos h.inside]
      cases hrest : s.rest with
      | nil =>
          rw [h.getBit_nil hrest]
          nofun
      | cons b rest =>
          obtain ⟨bit, s₁, hbit, hb, h₁, hrest₁⟩ := h.getBit_cons hrest
          rw [hrest] at hzeros
          cases b with
          | true => cases hzeros
          | false =>
              rw [hbit]
              dsimp only
              rw [if_pos (hb.mpr rfl)]
              apply ih h₁
              rw [zeros_false, List.length_cons, ← hrest₁] at hzeros
              exact Nat.succ.inj hzeros

/-- The zeros of a code are counted, and the one behind them is read. -/
theorem AtEnd.zerosWithin (h : s.AtEnd) (hzeros : zeros s.rest < s.rest.length) {n : Nat}
  (hn : zeros s.rest < n) (k : Nat) :
  ∃ s', zerosWithin n s k = .ok (k + zeros s.rest, s') ∧ s'.AtEnd ∧
    s'.rest = s.rest.drop (zeros s.rest + 1)
  := by
  induction n generalizing s k with
  | zero => cases hn
  | succ n ih =>
      rw [NalBitStream.zerosWithin, if_pos h.inside]
      cases hrest : s.rest with
      | nil =>
          rw [hrest] at hzeros
          cases hzeros
      | cons b rest =>
          obtain ⟨bit, s₁, hbit, hb, h₁, hrest₁⟩ := h.getBit_cons hrest
          rw [hbit]
          dsimp only
          cases b with
          | true =>
              rw [if_neg (fun hzero => by cases hb.mp hzero)]
              exact ⟨s₁, rfl, h₁, hrest₁⟩
          | false =>
              rw [hrest, zeros_false, ← hrest₁] at hn
              rw [hrest, zeros_false, List.length_cons, ← hrest₁] at hzeros
              obtain ⟨s', hs', h', hrest'⟩ :=
                ih h₁ (Nat.lt_of_succ_lt_succ hzeros) (Nat.lt_of_succ_lt_succ hn) (k + 1)
              rw [if_pos (hb.mpr rfl), hs', zeros_false, List.drop_succ_cons, ← hrest₁,
                Nat.add_assoc, Nat.add_comm 1]
              exact ⟨s', rfl, h', hrest'⟩

/-- A code that is not whole is not read. -/
theorem AtEnd.getUEWithin_ne_ok (h : s.AtEnd) (hbehind : behind s.rest = none) (n : Nat)
  (r : UInt32 × NalBitStream) :
  getUEWithin n s ≠ .ok r
  := by
  rw [NalBitStream.getUEWithin]
  by_cases hzeros : zeros s.rest = s.rest.length
  · cases hread : NalBitStream.zerosWithin n s 0 with
    | ok r' => cases h.zerosWithin_ne_ok hzeros n 0 r' hread
    | error fault => nofun
  · have hle := @zeros_le s.rest
    cases hread : NalBitStream.zerosWithin n s 0 with
    | error fault => nofun
    | ok read =>
        have hmore := zerosWithin_mono hread (Nat.le_add_right n (zeros s.rest + 1))
        obtain ⟨s', hzeros', h', hrest'⟩ :=
          h.zerosWithin (by omega) (show zeros s.rest < n + (zeros s.rest + 1) by omega) 0
        rw [hzeros', Nat.zero_add] at hmore
        injection hmore with hread'
        have hshort : s'.rest.length < zeros s.rest
          := by
          rw [hrest', List.length_drop]
          rw [behind] at hbehind
          split at hbehind
          case isTrue => cases hbehind
          case isFalse hlt => omega
        rw [← hread']
        dsimp only
        rw [h'.getWord_none hshort]
        nofun

/-- A whole code is read. -/
theorem AtEnd.getUEWithin (h : s.AtEnd) {bits : List Bool} (hbehind : behind s.rest = some bits)
  {n : Nat} (hn : s.rest.length < n) :
  ∃ code s', getUEWithin n s = .ok (code, s') ∧ s'.AtEnd ∧ s'.rest = bits
  := by
  rw [behind] at hbehind
  split at hbehind
  case isFalse => cases hbehind
  case isTrue hle =>
    injection hbehind with hbits
    obtain ⟨s₁, hzeros, h₁, hrest₁⟩ := h.zerosWithin (by omega) (show zeros s.rest < n by omega) 0
    have hword : zeros s.rest ≤ s₁.rest.length
      := by
      rw [hrest₁, List.length_drop]
      omega
    obtain ⟨u, s', hword, h', hrest'⟩ := h₁.getWord hword
    rw [NalBitStream.getUEWithin, hzeros, Nat.zero_add]
    dsimp only
    rw [hword]
    refine ⟨_, s', rfl, h', ?_⟩
    rw [hrest', hrest₁, List.drop_drop, ← hbits]
    congr 1
    omega

end NalBitStream
