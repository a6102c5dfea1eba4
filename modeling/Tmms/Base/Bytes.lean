import Tmms.Library.Endian

/-!
# Integers in messages

`BytesReader` and `BytesWriter` read and write integers in network order.  A `memcpy` to
or from an integer uses the order of the host, which is little-endian (the sources swap
bytes with `__bswap_64` unconditionally).

A reader is given the bytes from a position on; its callers have checked that there are
enough of them.
-/

open Endian

/-- What is decided for every number of eight bits holds of every byte. -/
theorem forall_uint8 {P : UInt8 → Prop} (h : ∀ n : Fin 256, P (UInt8.ofNat n)) (b : UInt8) :
  P b
  := by
  have hb := h ⟨b.toNat, b.toNat_lt⟩
  rwa [UInt8.ofNat_toNat] at hb

/-- The value a 32-bit pattern has as an `int32_t`. -/
def int32 (x : UInt32) : Int := x.toBitVec.toInt

theorem int32_of_lt {x : UInt32} (h : x.toNat < 2 ^ 31) :
  int32 x = x.toNat
  := by
  rw [int32, BitVec.toInt_eq_toNat_of_lt]
  · rfl
  · rw [UInt32.toNat_toBitVec]
    omega

/-- The conversion of an integer to `int32_t`. -/
def toInt32 (x : Int) : Int := x.bmod (2 ^ 32)

theorem toInt32_of_fits {x : Int} (h : -2 ^ 31 ≤ x) (h' : x < 2 ^ 31) :
  toInt32 x = x
  := by
  apply Int.bmod_eq_of_le
  · omega
  · omega

/-- A number of bytes turned into an `uint32_t`. -/
theorem uint32_ofInt {n : Nat} (h : n < 2 ^ 32) :
  UInt32.ofInt n = UInt32.ofNat n
  := by
  have hmod : ((n : Int) % 2 ^ 32).toNat = n := by omega
  rw [UInt32.ofInt, hmod]

namespace BytesReader

/-- The conversion of the double with these bits to a `uint64_t`. It drops the fraction, and
it is undefined from -1 down, from 2^64 on, and for what is not a number. -/
def truncateDouble (bits : UInt64) : Option UInt64 :=
  let exponent := (bits >>> 52 &&& 0x7FF).toNat
  let mantissa := 2 ^ 52 + (bits &&& 0xFFFFFFFFFFFFF).toNat
  if exponent < 1023 then
    some 0
  else if bits >>> 63 = 1 ∨ 1023 + 64 ≤ exponent then
    none
  else
    some (UInt64.ofNat (mantissa * 2 ^ (exponent - 1023) / 2 ^ 52))

/-- The eight bytes are those of a double, which is returned as a `uint64_t`. -/
def readUint64T (data : List UInt8) : Option UInt64 :=
  truncateDouble (UInt64.ofNat (beNat (data.take 8)))

def readUint32T (data : List UInt8) : UInt32 := UInt32.ofNat (beNat (data.take 4))

def readUint24T (data : List UInt8) : UInt32 := UInt32.ofNat (beNat (data.take 3))

def readUint16T (data : List UInt8) : UInt16 := UInt16.ofNat (beNat (data.take 2))

def readUint8T (data : List UInt8) : UInt8 := data.headD 0

/-- `memcpy` of four bytes into a `uint32_t`. -/
def loadUint32 (data : List UInt8) : UInt32 := UInt32.ofNat (leNat (data.take 4))

end BytesReader

namespace BytesWriter

def writeUint32T (val : UInt32) : List UInt8 := beBytes 4 val.toNat

def writeUint16T (val : UInt16) : List UInt8 := beBytes 2 val.toNat

def writeUint24T (val : UInt32) : List UInt8 := beBytes 3 val.toNat

def writeUint8T (val : UInt8) : List UInt8 := [val]

/-- `memcpy` of a `uint32_t`. -/
def storeUint32 (val : UInt32) : List UInt8 := leBytes 4 val.toNat

@[simp]
theorem length_writeUint32T (val : UInt32) :
  (writeUint32T val).length = 4
  := length_beBytes 4 _

@[simp]
theorem length_writeUint24T (val : UInt32) :
  (writeUint24T val).length = 3
  := length_beBytes 3 _

@[simp]
theorem length_storeUint32 (val : UInt32) :
  (storeUint32 val).length = 4
  := length_leBytes 4 _

end BytesWriter

open BytesReader BytesWriter

/-- The value read in network order from where the host stored `val`: its bytes
reversed. -/
def byteSwap (val : UInt32) : UInt32 := readUint32T (storeUint32 val)

/-! ### Reading what was written -/

theorem readUint24T_write {val : UInt32} (h : val.toNat < 2 ^ 24) (rest : List UInt8) :
  readUint24T (writeUint24T val ++ rest) = val
  := by
  rw [readUint24T, List.take_left' (length_writeUint24T val), writeUint24T,
    beNat_beBytes_of_lt h, UInt32.ofNat_toNat]

theorem loadUint32_store (val : UInt32) (rest : List UInt8) :
  loadUint32 (storeUint32 val ++ rest) = val
  := by
  rw [loadUint32, List.take_left' (length_storeUint32 val), storeUint32,
    leNat_leBytes_of_lt val.toNat_lt, UInt32.ofNat_toNat]

theorem readUint32T_store (val : UInt32) (rest : List UInt8) :
  readUint32T (storeUint32 val ++ rest) = byteSwap val
  := by
  rw [byteSwap, readUint32T, readUint32T, List.take_left' (length_storeUint32 val),
    List.take_of_length_le (Nat.le_of_eq (length_storeUint32 val))]

theorem readUint16T_toNat (n : UInt16) (rest : List UInt8) :
  readUint16T (beBytes 2 n.toNat ++ rest) = n
  := by
  rw [readUint16T, List.take_left' (length_beBytes 2 _), beNat_beBytes_of_lt n.toNat_lt,
    UInt16.ofNat_toNat]

theorem readUint32T_toNat (n : UInt32) (rest : List UInt8) :
  readUint32T (beBytes 4 n.toNat ++ rest) = n
  := by
  rw [readUint32T, List.take_left' (length_beBytes 4 _), beNat_beBytes_of_lt n.toNat_lt,
    UInt32.ofNat_toNat]

theorem readUint32T_beBytes (n : UInt32) :
  readUint32T (beBytes 4 n.toNat) = n
  := by
  have hread := readUint32T_toNat n []
  rwa [List.append_nil] at hread

/-! ### Bytes behind the ones read -/

theorem readUint32T_append {data : List UInt8} (h : 4 ≤ data.length) (rest : List UInt8) :
  readUint32T (data ++ rest) = readUint32T data
  := by
  rw [readUint32T, readUint32T, List.take_append_of_le_length h]

theorem readUint24T_append {data : List UInt8} (h : 3 ≤ data.length) (rest : List UInt8) :
  readUint24T (data ++ rest) = readUint24T data
  := by
  rw [readUint24T, readUint24T, List.take_append_of_le_length h]

theorem readUint8T_append {data : List UInt8} (h : 1 ≤ data.length) (rest : List UInt8) :
  readUint8T (data ++ rest) = readUint8T data
  := by
  cases data with
  | nil => cases h
  | cons b bs => rfl

theorem loadUint32_append {data : List UInt8} (h : 4 ≤ data.length) (rest : List UInt8) :
  loadUint32 (data ++ rest) = loadUint32 data
  := by
  rw [loadUint32, loadUint32, List.take_append_of_le_length h]
