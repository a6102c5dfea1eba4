import Mathlib.Data.List.Basic

/-!
# Bits of NAL units

`NalBitStream` reads the bits of a NAL unit and leaves out the bytes that prevent emulation.
`data` has the bytes that can be read from `data_` on: there may be more or fewer than `len`.
Reading fails where it goes beyond them.
-/

/-- `len` is an `int`, which may be negative. -/
structure NalBitStream where
  data : List UInt8
  len : Int
  bitsCount : Nat := 0
  byteIdx : Nat := 0
  byte : UInt8 := 0
  deriving DecidableEq, Repr

namespace NalBitStream

/-- The byte at the index prevents emulation. -/
def isPrevention (s : NalBitStream) : Bool :=
  s.data.getD s.byteIdx 0 == 0x03 && 2 ≤ s.byteIdx && s.data.getD (s.byteIdx - 1) 0 == 0 &&
    s.data.getD (s.byteIdx - 2) 0 == 0

/-- `GetByte`. -/
def getByte (s : NalBitStream) : Option (UInt8 × NalBitStream) :=
  if s.len ≤ s.byteIdx then
    some (0, s)
  else if s.byteIdx < s.data.length then
    let idx := if s.isPrevention then s.byteIdx + 1 else s.byteIdx
    match s.data[idx]? with
    | some b => some (b, { s with byteIdx := idx + 1 })
    | none => none
  else
    none

/-- `GetBit`. -/
def getBit (s : NalBitStream) : Option (UInt8 × NalBitStream) :=
  let read (s : NalBitStream) :=
    ((s.byte >>> UInt8.ofNat (s.bitsCount - 1)) &&& 0x01, { s with bitsCount := s.bitsCount - 1 })
  if s.bitsCount = 0 then
    match s.getByte with
    | some (b, s) => some (read { s with byte := b, bitsCount := 8 })
    | none => none
  else
    some (read s)

/-- The loop of `GetWord`. -/
def getWordLoop : Nat → NalBitStream → UInt16 → Option (UInt16 × NalBitStream)
  | 0, s, u => some (u, s)
  | bits + 1, s, u =>
      match s.getBit with
      | some (bit, s) => getWordLoop bits s (u <<< 1 ||| bit.toUInt16)
      | none => none

/-- `GetWord`. -/
def getWord (s : NalBitStream) (bits : Nat) : Option (UInt16 × NalBitStream) :=
  getWordLoop bits s 0

/-- The loop of `GetUE`. The first argument bounds the turns: each takes a bit of the `len` bytes
away. -/
def zerosLoop : Nat → NalBitStream → Nat → Option (Nat × NalBitStream)
  | 0, s, zeros => some (zeros, s)
  | n + 1, s, zeros =>
      if s.byteIdx < s.len then
        match s.getBit with
        | some (bit, s) => if bit = 0 then zerosLoop n s (zeros + 1) else some (zeros, s)
        | none => none
      else
        some (zeros, s)

/-- `GetUE`. The shift is the one of the processor, by the count modulo 32. -/
def getUE (s : NalBitStream) : Option (UInt32 × NalBitStream) :=
  match zerosLoop (8 * (s.len.toNat + 1)) s 0 with
  | some (zeros, s) =>
      match s.getWord zeros with
      | some (word, s) => some (word.toUInt32 + ((1 <<< UInt32.ofNat zeros) - 1), s)
      | none => none
  | none => none

end NalBitStream
