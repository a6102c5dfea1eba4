import Tmms.Library.Crc

/-!
# Checksums of `TsTool`

`CRC32` and `CRC32Ieee` look octets up in a table.  The first call of either builds the table,
in the order of bits it needs itself, and marks it initialized; both use the one table.  The
library says what the checksums are: `CRC32` is the one of MPEG-2, which takes the bits of an
octet most significant first, and `CRC32Ieee` the one of IEEE 802.3, which takes them least
significant first and reverses the register.

A table built for one order gives that function's checksum of every buffer
(`crc32TableDriven_mpeg2`, `crc32TableDriven_ieee802`), and a wrong checksum by the other.  So
the checksums do not depend on the history exactly when only one of the two is called.
-/

namespace TsTool

/-! ### The code -/

/-- The loop of `__crc32_reflect`. -/
def crc32ReflectLoop : Nat → UInt64 → UInt64 → UInt64
  | 0, _, res => res
  | n + 1, data, res =>
      let data := data >>> 1
      crc32ReflectLoop n data (res <<< 1 ||| (data &&& 1))

def crc32Reflect (data : UInt64) (width : Nat) : UInt64 :=
  crc32ReflectLoop (width - 1) data (data &&& 1)

/-- The inner loop of `__crc32_make_table`. -/
def crc32ShiftLoop (poly : UInt32) : Nat → UInt64 → UInt64
  | 0, reg => reg
  | n + 1, reg =>
      crc32ShiftLoop poly n
        (if reg &&& 0x80000000 ≠ 0 then (reg <<< 1) ^^^ poly.toUInt64 else reg <<< 1)

/-- The entries of a table of 256 words. -/
abbrev Table := UInt8 → UInt32

/-- `__crc32_make_table`, entry by entry. -/
def crc32MakeTable (poly : UInt32) (reflectIn : Bool) : Table := fun i =>
  let reg := i.toUInt64
  let reg := if reflectIn then crc32Reflect reg 8 else reg
  let reg := crc32ShiftLoop poly 8 (reg <<< 24)
  let reg := if reflectIn then crc32Reflect reg 32 else reg
  (reg &&& 0xFFFFFFFF).toUInt32

def crc32TableDriven (t : Table) (buf : List UInt8) (previous : UInt32) (reflectIn : Bool)
    (xorIn : UInt32) (reflectOut : Bool) (xorOut : UInt32) : UInt32 :=
  let reg :=
    if !reflectIn then
      buf.foldl
        (fun (reg : UInt64) b => (t ((reg >>> 24).toUInt8 ^^^ b)).toUInt64 ^^^ (reg <<< 8))
        xorIn.toUInt64
    else
      crc32Reflect
        (buf.foldl
          (fun (reg : UInt64) b => (t (reg.toUInt8 ^^^ b)).toUInt64 ^^^ (reg >>> 8))
          (previous.toUInt64 ^^^ crc32Reflect xorIn.toUInt64 32))
        32
  let reg := if reflectOut then crc32Reflect reg 32 else reg
  ((reg ^^^ xorOut.toUInt64) &&& 0xFFFFFFFF).toUInt32

/-- The static variables: the table and whether it is initialized. -/
structure Globals where
  crc32MpegTable : Table := fun _ => 0
  crc32MpegTableInitialized : Bool := false

/-- The static variables after the test at the beginning of both functions. -/
def Globals.initialize (g : Globals) (poly : UInt32) (reflectIn : Bool) : Globals :=
  if !g.crc32MpegTableInitialized then
    { crc32MpegTable := crc32MakeTable poly reflectIn, crc32MpegTableInitialized := true }
  else
    g

/-- `CRC32`. -/
def crc32 (g : Globals) (buf : List UInt8) : UInt32 × Globals :=
  let g := g.initialize 0x04C11DB7 false
  (crc32TableDriven g.crc32MpegTable buf 0x00 false 0xffffffff false 0x0, g)

/-- `CRC32Ieee`. -/
def crc32Ieee (g : Globals) (buf : List UInt8) : UInt32 × Globals :=
  let g := g.initialize 0x04C11DB7 true
  (crc32TableDriven g.crc32MpegTable buf 0x00 true 0xffffffff true 0xffffffff, g)

/-! ### What the checksums are -/

/-- The polynomial of both checksums, below `X ^ 32`. -/
def polynomial : BitVec 32 := 0x04C11DB7#32

/-- The bits of an octet, the most significant first. -/
def msbFirst (b : UInt8) : List Bool := (List.range 8).map b.toBitVec.getMsbD

/-- The bits of an octet, the least significant first. -/
def lsbFirst (b : UInt8) : List Bool := (List.range 8).map b.toBitVec.getLsbD

/-- The checksum of MPEG-2. -/
def crcMpeg2 (buf : List UInt8) : UInt32 :=
  .ofBitVec (Crc.feed polynomial 0xFFFFFFFF#32 (buf.flatMap msbFirst))

/-- The checksum of IEEE 802.3. -/
def crcIeee802 (buf : List UInt8) : UInt32 :=
  .ofBitVec ((Crc.feed polynomial 0xFFFFFFFF#32 (buf.flatMap lsbFirst)).reverse ^^^ 0xFFFFFFFF#32)

example : crcMpeg2 "123456789".toUTF8.toList = 0x0376E6E7 := by decide +kernel

example : crcIeee802 "123456789".toUTF8.toList = 0xCBF43926 := by decide +kernel

/-! ### Registers -/

/-- The low 32 bits of a register. -/
def low (reg : UInt64) : BitVec 32 := reg.toBitVec.setWidth 32

theorem getLsbD_low (reg : UInt64) (i : Nat) :
  (low reg).getLsbD i = (decide (i < 32) && reg.toBitVec.getLsbD i)
  := BitVec.getLsbD_setWidth _ _ _

theorem low_xor (a b : UInt64) :
  low (a ^^^ b) = low a ^^^ low b
  := by
  rw [low, UInt64.toBitVec_xor, BitVec.setWidth_xor, low, low]

/-- The mask tests the uppermost place of the low half. -/
theorem and_msbMask_ne_zero (reg : UInt64) :
  reg &&& 0x80000000 ≠ 0 ↔ (low reg).msb = true
  := by
  have hmask : (0x80000000 : UInt64).toBitVec = BitVec.twoPow 64 31 := by decide
  have hmsb : (low reg).msb = reg.toBitVec.getLsbD 31
    := by rw [BitVec.msb_eq_getLsbD_last, getLsbD_low]; rfl
  rw [hmsb]
  constructor
  · intro h
    by_contra hbit
    apply h
    apply UInt64.toBitVec_inj.mp
    apply BitVec.eq_of_getLsbD_eq
    intro i _
    rw [UInt64.toBitVec_and, hmask, BitVec.getLsbD_and, BitVec.getLsbD_twoPow]
    by_cases hi : i = 31
    · subst hi
      rw [Bool.eq_false_iff.mpr hbit]
      rfl
    · simp [Ne.symm hi]
  · intro h hzero
    have hbit : (reg &&& 0x80000000).toBitVec.getLsbD 31 = false := by rw [hzero]; rfl
    rw [UInt64.toBitVec_and, hmask, BitVec.getLsbD_and, h] at hbit
    exact absurd hbit (by decide)

/-- A turn of the inner loop moves the low half by one place. -/
theorem low_crc32ShiftLoop (poly : UInt32) (n : Nat) (reg : UInt64) :
  low (crc32ShiftLoop poly n reg) = Crc.shifts poly.toBitVec n (low reg)
  := by
  induction n generalizing reg with
  | zero => rfl
  | succ n ih =>
      have hmove : low (reg <<< 1) = low reg <<< 1
        := BitVec.setWidth_shiftLeft_of_le (by decide)
      have hpoly : low poly.toUInt64 = poly.toBitVec
        := (BitVec.setWidth_setWidth_of_le poly.toBitVec (by decide)).trans (BitVec.setWidth_eq _)
      rw [crc32ShiftLoop, ih, Crc.shifts, Crc.shift]
      congr 1
      by_cases h : (low reg).msb = true
      · rw [if_pos ((and_msbMask_ne_zero reg).mpr h), if_pos h, low_xor, hmove, hpoly]
      · rw [if_neg (mt (and_msbMask_ne_zero reg).mp h), if_neg h, hmove]

/-- The bits of the register of `__crc32_reflect` after some turns. -/
theorem crc32ReflectLoop_bits (x : UInt64) (n k : Nat) (data res : UInt64)
    (hk : k + n < 64)
    (hdata : ∀ i, data.toBitVec.getLsbD i = x.toBitVec.getLsbD (i + k))
    (hres : ∀ i, res.toBitVec.getLsbD i = (decide (i ≤ k) && x.toBitVec.getLsbD (k - i)))
    (i : Nat) :
  (crc32ReflectLoop n data res).toBitVec.getLsbD i =
    (decide (i ≤ k + n) && x.toBitVec.getLsbD (k + n - i))
  := by
  induction n generalizing k data res with
  | zero => apply hres
  | succ n ih =>
      have hmove : ∀ i, (data >>> 1).toBitVec.getLsbD i = x.toBitVec.getLsbD (i + (k + 1))
        := by
        intro i
        have hone : (data >>> 1).toBitVec = data.toBitVec >>> 1 := rfl
        rw [hone, BitVec.getLsbD_ushiftRight, hdata]
        congr 1
        omega
      rw [crc32ReflectLoop, ih (k + 1) _ _ (by omega) hmove, Nat.add_right_comm, Nat.add_assoc]
      intro i
      have hbits : (res <<< 1 ||| data >>> 1 &&& 1).toBitVec =
          res.toBitVec <<< 1 ||| (data >>> 1).toBitVec &&& 1#64
        := rfl
      rw [hbits, BitVec.getLsbD_or, BitVec.getLsbD_shiftLeft, BitVec.getLsbD_and, hmove, hres,
        BitVec.getLsbD_one]
      grind

/-- `__crc32_reflect` puts the low `width` bits in the opposite order. -/
theorem getLsbD_crc32Reflect (x : UInt64) {width : Nat} (h : 0 < width) (h' : width ≤ 64)
    (i : Nat) :
  (crc32Reflect x width).toBitVec.getLsbD i =
    (decide (i < width) && x.toBitVec.getLsbD (width - 1 - i))
  := by
  rw [crc32Reflect, crc32ReflectLoop_bits x (width - 1) 0 x (x &&& 1) (by omega)]
  · grind
  · intro i
    rfl
  · intro i
    have hand : (x &&& 1).toBitVec = x.toBitVec &&& 1#64 := rfl
    rw [hand, BitVec.getLsbD_and, BitVec.getLsbD_one]
    grind

theorem low_crc32Reflect (x : UInt64) :
  low (crc32Reflect x 32) = (low x).reverse
  := by
  apply BitVec.eq_of_getLsbD_eq
  intro i hi
  rw [getLsbD_low, getLsbD_crc32Reflect x (by decide) (by decide), BitVec.getLsbD_reverse,
    BitVec.getMsbD_eq_getLsbD, getLsbD_low]
  grind

/-! ### Tables -/

/-- The mask keeps the low half. -/
theorem toBitVec_mask (reg : UInt64) :
  (reg &&& 0xFFFFFFFF).toUInt32.toBitVec = low reg
  := by
  have hbits : (reg &&& 0xFFFFFFFF).toUInt32.toBitVec =
      (reg.toBitVec &&& 0xFFFFFFFF#64).setWidth 32
    := rfl
  have hones : (0xFFFFFFFF#64).setWidth 32 = BitVec.allOnes 32 := by decide
  rw [hbits, BitVec.setWidth_and, hones, BitVec.and_allOnes, low]

/-- The entry of an octet in the table for bits most significant first. -/
theorem crc32MakeTable_false (poly : UInt32) (i : UInt8) :
  (crc32MakeTable poly false i).toBitVec =
    Crc.shifts poly.toBitVec 8 (i.toBitVec.setWidth 32 <<< 24)
  := by
  have hlow : low (i.toUInt64 <<< 24) = i.toBitVec.setWidth 32 <<< 24
    := by
    have hmove : low (i.toUInt64 <<< 24) = low i.toUInt64 <<< 24
      := BitVec.setWidth_shiftLeft_of_le (by decide)
    have hwide : low i.toUInt64 = i.toBitVec.setWidth 32
      := BitVec.setWidth_setWidth_of_le i.toBitVec (by decide)
    rw [hmove, hwide]
  simp only [crc32MakeTable, Bool.false_eq_true, if_false]
  rw [toBitVec_mask, low_crc32ShiftLoop, hlow]

/-- The entry of an octet in the table for bits least significant first. -/
theorem crc32MakeTable_true (poly : UInt32) (i : UInt8) :
  (crc32MakeTable poly true i).toBitVec =
    (Crc.shifts poly.toBitVec 8 (i.toBitVec.reverse.setWidth 32 <<< 24)).reverse
  := by
  have hlow : low (crc32Reflect i.toUInt64 8 <<< 24) = i.toBitVec.reverse.setWidth 32 <<< 24
    := by
    have hmove : low (crc32Reflect i.toUInt64 8 <<< 24) = low (crc32Reflect i.toUInt64 8) <<< 24
      := BitVec.setWidth_shiftLeft_of_le (by decide)
    have hwide : low (crc32Reflect i.toUInt64 8) = i.toBitVec.reverse.setWidth 32
      := by
      have hbits : i.toUInt64.toBitVec = i.toBitVec.setWidth 64 := rfl
      apply BitVec.eq_of_getLsbD_eq
      intro j hj
      rw [getLsbD_low, getLsbD_crc32Reflect _ (by decide) (by decide), hbits,
        BitVec.getLsbD_setWidth, BitVec.getLsbD_setWidth, BitVec.getLsbD_reverse,
        BitVec.getMsbD_eq_getLsbD]
      grind
    rw [hmove, hwide]
  simp only [crc32MakeTable, if_true]
  rw [toBitVec_mask, low_crc32Reflect, low_crc32ShiftLoop, hlow]

/-! ### Octets -/

/-- The bits of an octet at the upper places of a register. -/
theorem lead_getMsbD (x : BitVec 8) :
  Crc.lead 32 ((List.range 8).map x.getMsbD) = x.setWidth 32 <<< 24
  := by
  apply BitVec.eq_of_getMsbD_eq
  intro i hi
  rw [Crc.getMsbD_lead (by decide), BitVec.getMsbD_shiftLeft, BitVec.getMsbD_setWidth]
  grind

theorem lsbFirst_eq (b : UInt8) :
  lsbFirst b = (List.range 8).map b.toBitVec.reverse.getMsbD
  := by
  rw [lsbFirst]
  congr 1
  funext i
  exact BitVec.getMsbD_reverse.symm

/-- The upper octet of a register after an octet has been added to it. -/
theorem upper_xor (r : BitVec 32) (x : BitVec 8) :
  ((r ^^^ (x.setWidth 32 <<< 24)) >>> 24) <<< 24 =
    ((r >>> 24).setWidth 8 ^^^ x).setWidth 32 <<< 24
  := by
  apply BitVec.eq_of_getLsbD_eq
  intro i hi
  simp only [BitVec.getLsbD_shiftLeft, BitVec.getLsbD_ushiftRight, BitVec.getLsbD_xor,
    BitVec.getLsbD_setWidth]
  grind

/-- Feeding the bits of an octet by table. -/
theorem feed_octet (p r : BitVec 32) (x : BitVec 8) :
  Crc.feed p r ((List.range 8).map x.getMsbD) =
    Crc.shifts p 8 (((r >>> 24).setWidth 8 ^^^ x).setWidth 32 <<< 24) ^^^ (r <<< 8)
  := by
  have hlen : ((List.range 8).map x.getMsbD).length = 8 := by simp
  rw [Crc.feed_eq_table p r (by omega) (by decide), hlen, lead_getMsbD, upper_xor]

/-! ### Buffers -/

/-- A turn over a buffer with the table for bits most significant first. -/
theorem low_msbStep (poly : UInt32) (reg : UInt64) (b : UInt8) :
  low ((crc32MakeTable poly false ((reg >>> 24).toUInt8 ^^^ b)).toUInt64 ^^^ (reg <<< 8)) =
    Crc.feed poly.toBitVec (low reg) (msbFirst b)
  := by
  have hwide : ∀ x : UInt32, low x.toUInt64 = x.toBitVec
    := fun x =>
      (BitVec.setWidth_setWidth_of_le x.toBitVec (by decide)).trans (BitVec.setWidth_eq _)
  have hmove : low (reg <<< 8) = low reg <<< 8
    := BitVec.setWidth_shiftLeft_of_le (by decide)
  have hidx : ((reg >>> 24).toUInt8 ^^^ b).toBitVec = (low reg >>> 24).setWidth 8 ^^^ b.toBitVec
    := by
    have hbits : ((reg >>> 24).toUInt8 ^^^ b).toBitVec =
        (reg.toBitVec >>> 24).setWidth 8 ^^^ b.toBitVec
      := rfl
    have hoctet : (reg.toBitVec >>> 24).setWidth 8 = (low reg >>> 24).setWidth 8
      := by
      apply BitVec.eq_of_getLsbD_eq
      intro i hi
      rw [BitVec.getLsbD_setWidth, BitVec.getLsbD_setWidth, BitVec.getLsbD_ushiftRight,
        BitVec.getLsbD_ushiftRight, getLsbD_low]
      grind
    rw [hbits, hoctet]
  rw [low_xor, hwide, hmove, crc32MakeTable_false, hidx, msbFirst, feed_octet]

/-- The register of the loop for bits least significant first, when the register of the
checksum is `r`. -/
def reversed (r : BitVec 32) : UInt64 := .ofBitVec (r.reverse.setWidth 64)

theorem reverse_xor {w : Nat} (x y : BitVec w) :
  (x ^^^ y).reverse = x.reverse ^^^ y.reverse
  := by
  apply BitVec.eq_of_getLsbD_eq
  intro i _
  rw [BitVec.getLsbD_xor, BitVec.getLsbD_reverse, BitVec.getLsbD_reverse,
    BitVec.getLsbD_reverse, BitVec.getMsbD_xor]

/-- A turn over a buffer with the table for bits least significant first. -/
theorem reversed_lsbStep (poly : UInt32) (r : BitVec 32) (b : UInt8) :
  (crc32MakeTable poly true ((reversed r).toUInt8 ^^^ b)).toUInt64 ^^^ (reversed r >>> 8) =
    reversed (Crc.feed poly.toBitVec r (lsbFirst b))
  := by
  have hidx : ((reversed r).toUInt8 ^^^ b).toBitVec.reverse =
      (r >>> 24).setWidth 8 ^^^ b.toBitVec.reverse
    := by
    have hbits : ((reversed r).toUInt8 ^^^ b).toBitVec =
        (r.reverse.setWidth 64).setWidth 8 ^^^ b.toBitVec
      := rfl
    have hoctet : ((r.reverse.setWidth 64).setWidth 8).reverse = (r >>> 24).setWidth 8
      := by
      apply BitVec.eq_of_getLsbD_eq
      intro i hi
      simp only [BitVec.getLsbD_reverse, BitVec.getMsbD_eq_getLsbD, BitVec.getLsbD_setWidth,
        BitVec.getLsbD_ushiftRight]
      grind
    rw [hbits, reverse_xor, hoctet]
  have hmove : (reversed r >>> 8).toBitVec = ((r <<< 8).reverse).setWidth 64
    := by
    have hbits : (reversed r >>> 8).toBitVec = r.reverse.setWidth 64 >>> 8 := rfl
    apply BitVec.eq_of_getLsbD_eq
    intro i hi
    rw [hbits]
    simp only [BitVec.getLsbD_reverse, BitVec.getMsbD_eq_getLsbD, BitVec.getLsbD_setWidth,
      BitVec.getLsbD_ushiftRight, BitVec.getLsbD_shiftLeft]
    grind
  have hentry : (crc32MakeTable poly true ((reversed r).toUInt8 ^^^ b)).toUInt64.toBitVec =
      ((Crc.shifts poly.toBitVec 8
        (((r >>> 24).setWidth 8 ^^^ b.toBitVec.reverse).setWidth 32 <<< 24)).reverse).setWidth 64
    := by rw [← hidx, ← crc32MakeTable_true]; rfl
  apply UInt64.toBitVec_inj.mp
  rw [UInt64.toBitVec_xor, hentry, hmove, ← BitVec.setWidth_xor, ← reverse_xor, lsbFirst_eq,
    feed_octet]
  rfl

theorem foldl_msbStep (poly : UInt32) (buf : List UInt8) (reg : UInt64) :
  low (buf.foldl
    (fun (reg : UInt64) b =>
      (crc32MakeTable poly false ((reg >>> 24).toUInt8 ^^^ b)).toUInt64 ^^^ (reg <<< 8)) reg) =
    Crc.feed poly.toBitVec (low reg) (buf.flatMap msbFirst)
  := by
  induction buf generalizing reg with
  | nil => rfl
  | cons b buf ih =>
      rw [List.foldl_cons, ih, low_msbStep, List.flatMap_cons, Crc.feed_append]

theorem foldl_lsbStep (poly : UInt32) (buf : List UInt8) (r : BitVec 32) :
  buf.foldl
    (fun (reg : UInt64) b =>
      (crc32MakeTable poly true (reg.toUInt8 ^^^ b)).toUInt64 ^^^ (reg >>> 8)) (reversed r) =
    reversed (Crc.feed poly.toBitVec r (buf.flatMap lsbFirst))
  := by
  induction buf generalizing r with
  | nil => rfl
  | cons b buf ih =>
      rw [List.foldl_cons, reversed_lsbStep, ih, List.flatMap_cons, Crc.feed_append]

/-- With the table built by `CRC32`, `CRC32` gives the checksum of MPEG-2. -/
theorem crc32TableDriven_mpeg2 (buf : List UInt8) :
  crc32TableDriven (crc32MakeTable 0x04C11DB7 false) buf 0x00 false 0xffffffff false 0x0 =
    crcMpeg2 buf
  := by
  apply UInt32.toBitVec_inj.mp
  simp only [crc32TableDriven, Bool.not_false, if_true, Bool.false_eq_true, if_false]
  rw [toBitVec_mask, low_xor, foldl_msbStep]
  exact BitVec.xor_zero

/-- With the table built by `CRC32Ieee`, `CRC32Ieee` gives the checksum of IEEE 802.3. -/
theorem crc32TableDriven_ieee802 (buf : List UInt8) :
  crc32TableDriven (crc32MakeTable 0x04C11DB7 true) buf 0x00 true 0xffffffff true 0xffffffff =
    crcIeee802 buf
  := by
  have hstart : (0x00 : UInt32).toUInt64 ^^^ crc32Reflect (0xffffffff : UInt32).toUInt64 32 =
      reversed 0xFFFFFFFF#32
    := by decide +kernel
  have hlow : ∀ r, low (reversed r) = r.reverse
    := fun r => (BitVec.setWidth_setWidth_of_le r.reverse (by decide)).trans (BitVec.setWidth_eq _)
  apply UInt32.toBitVec_inj.mp
  simp only [crc32TableDriven, Bool.not_true, Bool.false_eq_true, if_false, if_true]
  rw [hstart, foldl_lsbStep, toBitVec_mask, low_xor, low_crc32Reflect, low_crc32Reflect, hlow,
    BitVec.reverse_reverse_eq]
  rfl

/-! ### Histories -/

/-- The functions that share the table. -/
inductive Checksum where
  | crc32
  | crc32Ieee
  deriving DecidableEq

namespace Checksum

/-- The function. -/
def call : Checksum → Globals → List UInt8 → UInt32 × Globals
  | .crc32 => TsTool.crc32
  | .crc32Ieee => TsTool.crc32Ieee

/-- The checksum it is for. -/
def expected : Checksum → List UInt8 → UInt32
  | .crc32 => crcMpeg2
  | .crc32Ieee => crcIeee802

/-- The order of bits for which it builds the table. -/
def reflectIn : Checksum → Bool
  | .crc32 => false
  | .crc32Ieee => true

/-- The static variables after its first call in a process. -/
def initialized (f : Checksum) : Globals :=
  { crc32MpegTable := crc32MakeTable 0x04C11DB7 f.reflectIn, crc32MpegTableInitialized := true }

end Checksum

/-- What calls return one after the other, from some values of the static variables. -/
def results : Globals → List (Checksum × List UInt8) → List UInt32
  | _, [] => []
  | g, (f, buf) :: calls => (f.call g buf).1 :: results (f.call g buf).2 calls

theorem call_initialized (f first : Checksum) (buf : List UInt8) :
  (f.call first.initialized buf).2 = first.initialized
  := by
  cases f with
  | crc32 => rfl
  | crc32Ieee => rfl

/-- The first call of a process builds the table it needs. -/
theorem call_fresh (f : Checksum) (buf : List UInt8) :
  f.call {} buf = f.call f.initialized buf
  := by
  cases f with
  | crc32 => rfl
  | crc32Ieee => rfl

/-- A function gives its checksum of every buffer when it has built the table. -/
theorem call_own (f : Checksum) (buf : List UInt8) :
  (f.call f.initialized buf).1 = f.expected buf
  := by
  cases f with
  | crc32 => exact crc32TableDriven_mpeg2 buf
  | crc32Ieee => exact crc32TableDriven_ieee802 buf

/-- A function gives a wrong checksum of the octet zero when the other one has built the
table. -/
theorem call_other {f first : Checksum} (h : f ≠ first) :
  (f.call first.initialized [0]).1 ≠ f.expected [0]
  := by
  cases f with
  | crc32 =>
      cases first with
      | crc32 => exact absurd rfl h
      | crc32Ieee => decide +kernel
  | crc32Ieee =>
      cases first with
      | crc32 => decide +kernel
      | crc32Ieee => exact absurd rfl h

/-- Once the table is built, what is returned does not depend on the calls before. -/
theorem results_initialized (first : Checksum) (calls : List (Checksum × List UInt8)) :
  results first.initialized calls = calls.map fun c => (c.1.call first.initialized c.2).1
  := by
  induction calls with
  | nil => rfl
  | cons c calls ih => rw [results, call_initialized, ih, List.map_cons]

/-- What a fresh process gets depends on the first call. -/
theorem results_fresh (first : Checksum) (buf : List UInt8)
    (calls : List (Checksum × List UInt8)) :
  results {} ((first, buf) :: calls) =
    ((first, buf) :: calls).map fun c => (c.1.call first.initialized c.2).1
  := by rw [← results_initialized, results, results, call_fresh]

/-- In a fresh process every call returns the checksum its function is for, whatever the
buffers are, exactly when all calls are calls of one function. -/
theorem results_eq_expected_iff (order : List Checksum) :
  (∀ calls : List (Checksum × List UInt8), calls.map Prod.fst = order →
      results {} calls = calls.map fun c => c.1.expected c.2) ↔
    ∀ f ∈ order, ∀ g ∈ order, f = g
  := by
  constructor
  · intro h
    have hzero := h (order.map fun f => (f, [0])) (by rw [List.map_map]; exact List.map_id order)
    cases order with
    | nil =>
        intro f hf
        cases hf
    | cons first order =>
        rw [List.map_cons, results_fresh] at hzero
        have hfirst : ∀ f ∈ first :: order, f = first
          := by
          intro f hf
          by_contra hne
          apply call_other hne
          apply List.map_inj_left.mp hzero (f, [0])
          exact List.mem_map_of_mem (f := fun f => (f, ([0] : List UInt8))) hf
        intro f hf g hg
        rw [hfirst f hf, hfirst g hg]
  · intro h calls hcalls
    cases calls with
    | nil => rfl
    | cons c calls =>
        obtain ⟨first, buf⟩ := c
        rw [results_fresh]
        apply List.map_inj_left.mpr
        intro c hc
        have hkind : c.1 = first
          := by
          subst hcalls
          apply h c.1 (List.mem_map_of_mem hc) first (List.mem_map_of_mem (List.mem_cons_self))
        obtain ⟨f, buf'⟩ := c
        subst hkind
        apply call_own

/-- After `CRC32`, `CRC32Ieee` looks octets up in the table of `CRC32`. -/
theorem results_mixed_ne_expected :
  ¬ ∀ calls : List (Checksum × List UInt8),
      results {} calls = calls.map fun c => c.1.expected c.2
  := by
  intro h
  have hmixed := h [(.crc32, [0x47]), (.crc32Ieee, [0])]
  revert hmixed
  decide +kernel

end TsTool
