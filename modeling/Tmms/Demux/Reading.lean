import Tmms.Base.NalBits
import Tmms.Demux.VideoDemux

/-!
# What is read of a tag

The loops of `AudioDemux` and `VideoDemux` again, with the pointers and the sizes they work with.
A pointer is a position in the data of the tag, a size is a `size_t` that may be less than zero
wrapped around, and a sample is an interval.  A byte that is not there is not read.

Loops are bounded by a number of turns, and a call that needs more of them has no result.
-/

open BytesReader

/-- A `SampleBuf` as an interval of the data. -/
structure Extent where
  start : Nat
  size : Nat
  deriving DecidableEq, Repr

/-- The interval is inside of the data. -/
def Extent.Inside (data : List UInt8) (e : Extent) : Prop := e.start + e.size ≤ data.length

/-- The difference of two `size_t`. -/
def subSize (a b : Nat) : Nat := if b ≤ a then a - b else a + 2 ^ 64 - b

/-- Some bytes from a position on. -/
def readAt (data : List UInt8) (pos n : Nat) : Except ReadFault (List UInt8) :=
  if pos + n ≤ data.length then .ok ((data.drop pos).take n) else .error .outside

/-- One byte at a position. -/
def byteAt (data : List UInt8) (pos : Nat) : Except ReadFault UInt8 :=
  match data[pos]? with
  | some b => .ok b
  | none => .error .outside

namespace AudioDemux

/-- The fields of a sequence header. -/
def aacFields (d : AudioDemux) (s : NalBitStream) : Option AudioDemux := do
  let (object, s) ← s.getWord 5
  let (rate, s) ← s.getWord 4
  let (channel, _) ← s.getWord 4
  some { d with
    aacObject := object
    aacSampleRate := rate
    aacChannel := channel.toUInt8
    aacOk := true }

/-- `DemuxAACSequenceHeader`. The size is turned into an `int`. -/
def aacSequenceHeaderWithin (d : AudioDemux) (data : List UInt8) (pos size : Nat) :
    Except ReadFault (AudioDemux × Int) :=
  if toInt32 size < 2 then
    .ok (d, -1)
  else
    match d.aacFields { data := data.drop pos, len := toInt32 size } with
    | some d => .ok (d, 0)
    | none => .error .outside

/-- `DemuxAAC`. -/
def demuxAACWithin (d : AudioDemux) (data : List UInt8) (size : Nat) :
    Except ReadFault (AudioDemux × List Extent × Int) := do
  let type ← byteAt data 1
  if type = 0 then
    if subSize size 2 > 0 then
      -- the header is copied before it is looked at
      let _ ← readAt data 2 (subSize size 2)
      let (d, ret) ← d.aacSequenceHeaderWithin data 2 (subSize size 2)
      .ok (d, [], ret)
    else
      .ok (d, [], 0)
  else if type = 1 then
    if !d.aacOk then .ok (d, [], -1) else .ok (d, [⟨2, subSize size 2⟩], 0)
  else
    .ok (d, [], 0)

/-- `OnDemux`. -/
def onDemuxWithin (d : AudioDemux) (data : List UInt8) :
    Except ReadFault (AudioDemux × List Extent × Int) :=
  let size := data.length
  if size < 1 then
    .ok (d, [], -1)
  else do
    let b ← byteAt data 0
    let d := { d with soundFormat := b >>> 4 &&& 0x0f }
    if d.soundFormat = kAudioCodecIDMP3 then .ok (d, [⟨1, subSize size 1⟩], 0)
    else if d.soundFormat = kAudioCodecIDAAC then d.demuxAACWithin data size
    else .ok (d, [], -1)

end AudioDemux

namespace VideoDemux

/-- `CheckBFrame` of the bytes from a pointer on. The size behind the first byte is turned into an
`int`. -/
def checkBFrameWithin (turns : Nat) (bytes : Nat) : List UInt8 → Except ReadFault Bool
  | [] => .error .outside
  | b :: data =>
      let nalType := b &&& 0x1f
      if nalType = 5 ∨ nalType = 1 ∨ nalType = 2 then do
        let s : NalBitStream := { data := data, len := toInt32 (subSize bytes 1) }
        let (_, s) ← s.getUEWithin turns
        let (sliceType, _) ← s.getUEWithin turns
        .ok (sliceType = 1 ∨ sliceType = 6)
      else
        .ok false

/-- `has_bframe_` is looked for as long as there is none. -/
def lookWithin (turns : Nat) (d : VideoDemux) (data : List UInt8) (bytes : Nat) :
    Except ReadFault VideoDemux :=
  if !d.hasBFrame then do
    let b ← checkBFrameWithin turns bytes data
    .ok { d with hasBFrame := b }
  else
    .ok d

/-- The number of bytes that the length in front of a NAL unit is read from. -/
def fieldSize (d : VideoDemux) : Nat :=
  if d.naluUnitLength = 3 then 4 else if d.naluUnitLength = 1 then 2 else 1

/-- The loop of `DecodeAVCNaluIAvcc`. -/
def avccWithin (turns : Nat) (data : List UInt8) :
    Nat → VideoDemux → Nat → Nat → List Extent → Except ReadFault (VideoDemux × List Extent × Int)
  | 0, _, _, _, _ => .error .unfinished
  | n + 1, d, pos, size, outs =>
      if size > 1 then do
        let field ← readAt data pos d.fieldSize
        let naluSize := d.naluSize field
        let pos := pos + (d.naluUnitLength.toNat + 1)
        let size := subSize size (d.naluUnitLength.toNat + 1)
        if naluSize > size ∨ size = 0 then
          .ok (d, outs, -1)
        else do
          let b ← byteAt data pos
          let d ← (d.checkNaluType b).lookWithin turns (data.drop pos) naluSize
          avccWithin turns data n d (pos + naluSize) (subSize size naluSize)
            (outs ++ [⟨pos, naluSize⟩])
      else
        .ok (d, outs, 0)

/-- The loop of `FindAnnexbNalu`. -/
def findWithin (data : List UInt8) : Nat → Nat → Except ReadFault Nat
  | 0, _ => .error .unfinished
  | n + 1, p =>
      if p + 1 < data.length then do
        let b ← byteAt data p
        let b₁ ← byteAt data (p - 1)
        let b₂ ← byteAt data (p - 2)
        if b = 0x01 ∧ b₁ = 0x00 ∧ b₂ = 0x00 then .ok (p + 1) else findWithin data n (p + 1)
      else
        .ok data.length

/-- The loop of `DecodeAVCNaluAnnexb`. The size of a NAL unit is an `int32_t`. -/
def annexbWithin (turns : Nat) (data : List UInt8) :
    Nat → VideoDemux → Nat → Nat → Nat → List Extent → Int →
      Except ReadFault (VideoDemux × List Extent × Int)
  | 0, _, _, _, _, _, _ => .error .unfinished
  | n + 1, d, naluStart, pos, size, outs, ret =>
      if naluStart < data.length then do
        let naluNext ← findWithin data turns (naluStart + 1 + 2)
        let naluSize := toInt32 (naluNext - naluStart)
        -- one less than zero is compared as a `size_t`, and then greater than any size
        if naluSize < 0 ∨ naluSize > size ∨ size = 0 then
          .ok (d, outs, -1)
        else do
          let naluSize := naluSize.toNat
          let b ← byteAt data naluStart
          let d ← (d.checkNaluType b).lookWithin turns (data.drop pos) naluSize
          annexbWithin turns data n d naluNext (pos + naluSize) (subSize size naluSize)
            (outs ++ [⟨pos, naluSize⟩]) 0
      else
        .ok (d, outs, ret)

/-- `DecodeAVCNaluAnnexb`, from a position to the end. -/
def decodeAVCNaluAnnexbWithin (turns : Nat) (d : VideoDemux) (data : List UInt8) (pos size : Nat)
    (outs : List Extent) : Except ReadFault (VideoDemux × List Extent × Int) :=
  if size < 3 then
    .ok (d, outs, -1)
  else do
    let naluStart ← findWithin data turns (pos + 2)
    annexbWithin turns data turns d naluStart pos size outs (-1)

/-- `DecodeAVCNaluIAvcc`. -/
def decodeAVCNaluIAvccWithin (turns : Nat) (d : VideoDemux) (data : List UInt8) (pos size : Nat)
    (outs : List Extent) : Except ReadFault (VideoDemux × List Extent × Int) :=
  avccWithin turns data turns d pos size outs

/-- `DecodeAvcNalu`. -/
def decodeAvcNaluWithin (turns : Nat) (d : VideoDemux) (data : List UInt8) (pos size : Nat) :
    Except ReadFault (VideoDemux × List Extent × Int) :=
  match d.payloadFormat with
  | .unknowed => do
      let (d, outs, ret) ← d.decodeAVCNaluIAvccWithin turns data pos size []
      if ret = 0 then
        .ok ({ d with payloadFormat := .avcc }, outs, 0)
      else do
        let (d, outs, ret) ← d.decodeAVCNaluAnnexbWithin turns data pos size outs
        if ret = 0 then
          .ok ({ d with payloadFormat := .annexB }, outs, 0)
        else
          .ok (d, outs, -1)
  | .avcc => d.decodeAVCNaluIAvccWithin turns data pos size []
  | .annexB => d.decodeAVCNaluAnnexbWithin turns data pos size []

/-- A parameter set of a sequence header, which is copied, if there is exactly one and its length
fits. -/
def parameterSetWithin (fits : Int → Int → Bool) (data : List UInt8) (pos size : Nat) :
    Except ReadFault (Option (List UInt8)) :=
  if size < 3 then
    .ok none
  else do
    let num ← byteAt data pos
    if num &&& 0x1f ≠ 1 then
      .ok none
    else do
      let field ← readAt data pos 3
      let length := parameterSetLength field
      if length > 0 ∧ fits length (subSize size 3) then do
        let set ← readAt data (pos + 3) length.toNat
        .ok (some set)
      else
        .ok none

/-- `DecodeAVCSeqHeader`. Something has to be behind a SPS, but not behind a PPS. -/
def decodeAVCSeqHeaderWithin (d : VideoDemux) (data : List UInt8) (pos size : Nat) :
    Except ReadFault (VideoDemux × Int) :=
  if size < 5 then
    .ok (d, -1)
  else do
    let header ← readAt data pos 5
    let d := { d with
      configVersion := header.getD 0 0
      profile := header.getD 1 0
      profileCom := header.getD 2 0
      level := header.getD 3 0
      naluUnitLength := header.getD 4 0 &&& 0x03 }
    let pos := pos + 5
    let size := subSize size 5
    match ← parameterSetWithin (fun length size => length < size) data pos size with
    | none => .ok (d, -1)
    | some sps =>
        let d := { d with sps := sps }
        let pos := pos + 3 + sps.length
        let size := subSize (subSize size 3) sps.length
        match ← parameterSetWithin (fun length size => length ≤ size) data pos size with
        | none => .ok (d, -1)
        | some pps => .ok ({ d with pps := pps }, 0)

/-- What `DemuxAVC` does with each type of packet. -/
def packetWithin (turns : Nat) (d : VideoDemux) (data : List UInt8) (avcPacketType : UInt8) :
    Except ReadFault (VideoDemux × List Extent × Int) :=
  if avcPacketType = 0 then do
    let (d, ret) ← d.decodeAVCSeqHeaderWithin data 5 (subSize data.length 5)
    .ok (d, [], ret)
  else if avcPacketType = 1 then
    d.decodeAvcNaluWithin turns data 5 (subSize data.length 5)
  else
    .ok (d, [], 0)

/-- `DemuxAVC`. -/
def demuxAVCWithin (turns : Nat) (d : VideoDemux) (data : List UInt8) :
    Except ReadFault (VideoDemux × List Extent × Int) := do
  let b ← byteAt data 0
  let ftype := (b &&& 0xf0) >>> 4
  if ftype = 5 then
    .ok (d, [], 0)
  else do
    let avcPacketType ← byteAt data 1
    let cst ← readAt data 2 3
    { d with compositionTime := int32 (readUint24T cst) }.packetWithin turns data avcPacketType

/-- `OnDemux`. -/
def onDemuxWithin (turns : Nat) (d : VideoDemux) (data : List UInt8) :
    Except ReadFault (VideoDemux × List Extent × Int) := do
  let b ← byteAt data 0
  let d := { d with codecId := b &&& 0x0f }
  if d.codecId ≠ kVideoCodecIDAVC then
    .ok (d, [], -1)
  else
    d.demuxAVCWithin turns data

end VideoDemux
