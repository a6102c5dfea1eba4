import Tmms.Base.Bytes

/-!
# Packets

A `Packet` is one block of memory: a header with a capacity and a size, and behind it the
data.  `data` lists the bytes written at `Data()`; the size says how many of them count.
The extension pointer `ext_` is untyped in the sources, so its type is a parameter here.
-/

/-- `kPacketTypeUnknowed`. -/
def kPacketTypeUnknowed : Int := 255

structure Packet (ε : Type) where
  type : Int := kPacketTypeUnknowed
  size : UInt32 := 0
  index : Int := -1
  timestamp : UInt64 := 0
  capacity : UInt32
  data : List UInt8 := []
  ext : ε
  deriving DecidableEq, Repr

namespace Packet

variable {ε : Type}

/-- `Packet::NewPacket` with the extension set. -/
def newPacket (size : UInt32) (ext : ε) : Packet ε where
  capacity := size
  ext := ext

/-- `Space()`, the capacity less the size as an `int`. -/
def space (p : Packet ε) : Int := int32 (p.capacity - p.size)

/-- `memcpy` to `Data() + PacketSize()` followed by `UpdatePacketSize`. -/
def append (p : Packet ε) (bytes : List UInt8) : Packet ε :=
  { p with
    data := p.data.take p.size.toNat ++ bytes
    size := p.size + UInt32.ofNat bytes.length }

/-- The bytes that count. -/
def payload (p : Packet ε) : List UInt8 := p.data.take p.size.toNat

/-- The size counts the bytes written and is within the capacity. -/
structure Filled (p : Packet ε) : Prop where
  size_eq : p.size.toNat = p.data.length
  size_le : p.size.toNat ≤ p.capacity.toNat

theorem filled_newPacket (size : UInt32) (ext : ε) :
  (newPacket size ext).Filled
  := ⟨rfl, Nat.zero_le _⟩

/-- A new packet has the space it was asked for, as an `int`. -/
theorem space_newPacket {ext : ε} {n : Int} (hle : -2 ^ 31 ≤ n) (hlt : n < 2 ^ 31) :
  (newPacket (UInt32.ofInt n) ext).space = n
  := by
  rw [space, newPacket]
  dsimp only
  have hbits : (UInt32.ofInt n).toBitVec = BitVec.ofInt 32 n
    := by
    apply BitVec.eq_of_toNat_eq
    rw [BitVec.toNat_ofInt, UInt32.toNat_toBitVec, UInt32.ofInt, UInt32.toNat_ofNat']
    omega
  rw [UInt32.sub_zero, int32, hbits, BitVec.toInt_ofInt]
  apply Int.bmod_eq_of_le
  · omega
  · omega

/-- The space of a packet that is within its capacity, below `2 ^ 31`. -/
theorem Filled.space_eq {p : Packet ε} (h : p.Filled) (hc : p.capacity.toNat < 2 ^ 31) :
  p.space = p.capacity.toNat - p.data.length
  := by
  have hle := h.size_le
  have hsub : (p.capacity - p.size).toNat = p.capacity.toNat - p.size.toNat :=
    UInt32.toNat_sub_of_le _ _ (UInt32.le_iff_toNat_le.mpr hle)
  rw [space, int32_of_lt (by omega), hsub, h.size_eq]
  have hdata := h.size_eq
  omega

/-- A packet has no space left exactly when its size is its capacity. -/
theorem space_eq_zero {p : Packet ε} :
  p.space = 0 ↔ p.size = p.capacity
  := by
  rw [space, int32]
  constructor
  · intro h
    have h0 : (p.capacity - p.size).toBitVec = 0 := BitVec.eq_of_toInt_eq h
    have hsub : p.capacity - p.size = 0 := UInt32.toBitVec_inj.mp h0
    grind
  · intro h
    rw [h, UInt32.sub_self]
    rfl

/-- Bytes that fit in the space left are taken from it. -/
theorem space_append {p : Packet ε} {bytes : List UInt8} (h : bytes.length ≤ p.space) :
  (p.append bytes).space = p.space - bytes.length
  := by
  have hlen : bytes.length < 2 ^ 31 := by
    have hlt := BitVec.toInt_lt (x := (p.capacity - p.size).toBitVec)
    rw [space, int32] at h
    omega
  have hx : (p.capacity - p.size).toNat < 2 ^ 31 := by
    rw [space, int32, BitVec.toInt_eq_toNat_cond, UInt32.toNat_toBitVec] at h
    have hlt := (p.capacity - p.size).toNat_lt
    split at h <;> omega
  have hspace : p.space = (p.capacity - p.size).toNat := int32_of_lt hx
  have hofNat : (UInt32.ofNat bytes.length).toNat = bytes.length := by
    rw [UInt32.toNat_ofNat']
    omega
  have hsub : (p.capacity - p.size - UInt32.ofNat bytes.length).toNat
      = (p.capacity - p.size).toNat - bytes.length := by
    rw [UInt32.toNat_sub_of_le, hofNat]
    rw [UInt32.le_iff_toNat_le, hofNat]
    omega
  have hassoc : p.capacity - (p.size + UInt32.ofNat bytes.length)
      = p.capacity - p.size - UInt32.ofNat bytes.length := by grind
  rw [hspace, append, space]
  dsimp only
  rw [hassoc, int32_of_lt (by omega), hsub]
  omega

/-- Bytes that fit in the space left keep the packet filled. -/
theorem Filled.append {p : Packet ε} (h : p.Filled) {bytes : List UInt8}
    (hb : p.data.length + bytes.length ≤ p.capacity.toNat) :
  (p.append bytes).Filled
  := by
  have hcap := p.capacity.toNat_lt
  have hsize := h.size_eq
  have hsum : (p.size + UInt32.ofNat bytes.length).toNat = p.data.length + bytes.length := by
    rw [UInt32.toNat_add, UInt32.toNat_ofNat', hsize]
    omega
  constructor
  · simp only [Packet.append, hsum, hsize, List.take_length, List.length_append]
  · simp only [Packet.append, hsum]
    apply hb

theorem Filled.data_append {p : Packet ε} (h : p.Filled) (bytes : List UInt8) :
  (p.append bytes).data = p.data ++ bytes
  := by
  rw [Packet.append, h.size_eq, List.take_length]

end Packet
