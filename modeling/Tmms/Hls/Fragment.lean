import Mathlib.Logic.Function.Basic
import Tmms.Mpegts.TsEncoder

/-!
# Fragments

A `Fragment` is a `StreamWriter` that keeps what is written in a packet, which it makes larger
when there is too little space.  Fragments and their packets are used by several owners, so they
are in a memory here, and pointers are numbers.  Only the pointers below the next one are in use.

A fragment remembers what was written since it was reset (`written`).  No function reads this; it
says what the content is made of.  Sizes are as in the sources: a size that leaves the range of an
`int32_t`, and a write beyond the capacity of a packet, have no result.
-/

/-- `kFragmentStepSize`. -/
def kFragmentStepSize : Int := 128 * 1024

abbrev PacketPtr := Nat

abbrev FragmentPtr := Nat

structure Fragment where
  duration : Int := 0
  filename : String := ""
  startDts : Int := -1
  data : Option PacketPtr := none
  bufSize : Int := 512 * 1024
  dataSize : Int := 0
  sequenceNo : Int := 0
  writer : StreamWriter := {}
  written : List TsPiece := []
  deriving DecidableEq, Repr

namespace Fragment

/-- `AppendTimeStamp`. -/
def appendTimeStamp (v : Fragment) (dts : Int) : Fragment :=
  let startDts := if v.startDts = -1 then dts else v.startDts
  let startDts := min startDts dts
  { v with startDts := startDts, duration := dts - startDts }

/-- `SetBaseFileName` at a reading of the clock. -/
def setBaseFileName (v : Fragment) (name : String) (now : Int) : Fragment :=
  { v with filename := name ++ "_" ++ toString now ++ ".ts" }

/-- `SetSequenceNo`. -/
def setSequenceNo (v : Fragment) (no : Int) : Fragment := { v with sequenceNo := toInt32 no }

/-- The fields that `Reset` sets. -/
def reset (v : Fragment) : Fragment :=
  { v with
    duration := 0
    sequenceNo := 0
    dataSize := 0
    startDts := -1
    writer := { v.writer with spsPpsAppended := false }
    written := [] }

/-- The loop in `Write` that makes the size of the buffer larger. The first argument bounds the
turns: after so many the size is no `int32_t`. -/
def growLoop (need : Int) : Nat → Int → Option Int
  | 0, _ => none
  | n + 1, bufSize =>
      if bufSize ≥ 2 ^ 31 then none
      else if need > bufSize then growLoop need n (bufSize + kFragmentStepSize)
      else some bufSize

/-- The size of a larger buffer. -/
def grow (v : Fragment) (size : Nat) : Option Int :=
  growLoop ((v.dataSize + size) % 2 ^ 32) 16384 (v.bufSize + kFragmentStepSize)

end Fragment

/-- The packets and the fragments. -/
structure HlsMemory where
  packets : PacketPtr → Packet Unit := fun _ => .newPacket 0 ()
  nextPacket : PacketPtr := 0
  fragments : FragmentPtr → Fragment := fun _ => {}
  nextFragment : FragmentPtr := 0

namespace HlsMemory

/-- A packet is changed. -/
def setPacket (m : HlsMemory) (p : PacketPtr) (packet : Packet Unit) : HlsMemory :=
  { m with packets := Function.update m.packets p packet }

/-- A fragment is changed. -/
def setFragment (m : HlsMemory) (f : FragmentPtr) (v : Fragment) : HlsMemory :=
  { m with fragments := Function.update m.fragments f v }

/-- A packet is made. -/
def addPacket (m : HlsMemory) (packet : Packet Unit) : HlsMemory :=
  { m.setPacket m.nextPacket packet with nextPacket := m.nextPacket + 1 }

/-- `std::make_shared<Fragment>()`. -/
def addFragment (m : HlsMemory) : HlsMemory :=
  { m.setFragment m.nextFragment {} with nextFragment := m.nextFragment + 1 }

/-- The content of a fragment: what `FragmentData()` has up to its size. -/
def content (m : HlsMemory) (f : FragmentPtr) : List UInt8 :=
  match (m.fragments f).data with
  | some p => (m.packets p).payload
  | none => []

/-- The first test of `Write`: there is a packet. -/
def ensureData (m : HlsMemory) (f : FragmentPtr) : HlsMemory × PacketPtr :=
  let v := m.fragments f
  match v.data with
  | some p => (m, p)
  | none =>
      ((m.addPacket (.newPacket (UInt32.ofInt v.bufSize) ())).setFragment f
        { v with data := some m.nextPacket }, m.nextPacket)

/-- The second test of `Write`: there is space, or the data moves to a larger packet. -/
def ensureSpace (m : HlsMemory) (f : FragmentPtr) (p : PacketPtr) (size : Nat) :
    Option (HlsMemory × PacketPtr) :=
  let packet := m.packets p
  if (packet.capacity - packet.size).toNat < size then
    match (m.fragments f).grow size with
    | some bufSize =>
        let larger : Packet Unit := { Packet.newPacket (UInt32.ofInt bufSize) () with
          data := packet.payload
          size := packet.size }
        some ((m.addPacket larger).setFragment f
          { m.fragments f with bufSize := bufSize, data := some m.nextPacket }, m.nextPacket)
    | none => none
  else
    some (m, p)

/-- The end of `Write`: the bytes are copied. -/
def copy (m : HlsMemory) (f : FragmentPtr) (p : PacketPtr) (piece : TsPiece) :
    Option HlsMemory :=
  let packet := m.packets p
  let v := m.fragments f
  if packet.size.toNat + piece.bytes.length ≤ packet.capacity.toNat then
    some ((m.setPacket p (packet.append piece.bytes)).setFragment f
      { v with
        dataSize := toInt32 (v.dataSize + piece.bytes.length)
        written := v.written ++ [piece] })
  else
    none

/-- `Fragment::Write`. -/
def write (m : HlsMemory) (f : FragmentPtr) (piece : TsPiece) : Option HlsMemory :=
  let (m, p) := m.ensureData f
  match m.ensureSpace f p piece.bytes.length with
  | some (m, p) => m.copy f p piece
  | none => none

/-- `Fragment::Reset`. -/
def reset (m : HlsMemory) (f : FragmentPtr) : HlsMemory :=
  let v := m.fragments f
  let m := m.setFragment f v.reset
  match v.data with
  | some p => m.setPacket p { m.packets p with size := 0 }
  | none => m

/-- A call of a virtual function. -/
def perform (m : HlsMemory) (f : FragmentPtr) : WriterCall → Option HlsMemory
  | .appendTimeStamp dts => some (m.setFragment f ((m.fragments f).appendTimeStamp dts))
  | .write piece => m.write f piece

/-- Calls one after the other. -/
def performAll (m : HlsMemory) (f : FragmentPtr) : List WriterCall → Option HlsMemory
  | [] => some m
  | call :: calls =>
      match m.perform f call with
      | some m => m.performAll f calls
      | none => none

end HlsMemory
