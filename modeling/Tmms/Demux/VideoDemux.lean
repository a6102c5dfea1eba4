import Tmms.Base.Bytes
import Tmms.Base.NalBitStream
import Tmms.Demux.AudioDemux

/-!
# Taking video out of FLV

`VideoDemux` takes the NAL units of an FLV video tag, and the parameter sets of a sequence
header.  A list of samples is added to, also before an error is returned.  What reads beyond the
data has no result here, for the sources do not always look where the data ends.
-/

open BytesReader

/-- `kVideoCodecIDReserved`. -/
def kVideoCodecIDReserved : UInt8 := 0

/-- `kVideoCodecIDAVC`. -/
def kVideoCodecIDAVC : UInt8 := 7

inductive AVCPayloadFormat where
  | unknowed
  | avcc
  | annexB
  deriving DecidableEq, Repr

/-- The types of NAL units that are looked for. -/
inductive NaluType where
  | idr
  | sps
  | pps
  | accessUnitDelimiter
  | other
  deriving DecidableEq, Repr

/-- The type in the first byte of a NAL unit. -/
def NaluType.ofByte (b : UInt8) : NaluType :=
  let code := b &&& 0x1f
  if code = 5 then .idr
  else if code = 7 then .sps
  else if code = 8 then .pps
  else if code = 9 then .accessUnitDelimiter
  else .other

structure VideoDemux where
  codecId : UInt8 := 0
  compositionTime : Int := 0
  configVersion : UInt8 := 0
  profile : UInt8 := 0
  profileCom : UInt8 := 0
  level : UInt8 := 0
  naluUnitLength : UInt8 := 0
  sps : List UInt8 := []
  pps : List UInt8 := []
  payloadFormat : AVCPayloadFormat := .unknowed
  hasAud : Bool := false
  hasIdr : Bool := false
  hasSpsPps : Bool := false
  hasBFrame : Bool := false
  deriving DecidableEq, Repr

namespace VideoDemux

/-- `CheckNaluType` of a first byte. -/
def checkNaluType (d : VideoDemux) (b : UInt8) : VideoDemux :=
  match NaluType.ofByte b with
  | .idr => { d with hasIdr := true }
  | .accessUnitDelimiter => { d with hasAud := true }
  | .sps => { d with hasSpsPps := true }
  | .pps => { d with hasSpsPps := true }
  | .other => d

/-- `CheckBFrame` of a NAL unit that starts where the data does. -/
def checkBFrame (bytes : Nat) : List UInt8 → Option Bool
  | [] => none
  | b :: data =>
      let nalType := b &&& 0x1f
      if nalType = 5 ∨ nalType = 1 ∨ nalType = 2 then do
        let s : NalBitStream := { data := data, len := (bytes : Int) - 1 }
        let (_, s) ← s.getUE
        let (sliceType, _) ← s.getUE
        some (sliceType = 1 ∨ sliceType = 6)
      else
        some false

/-- `has_bframe_` is looked for as long as there is none. -/
def lookForBFrame (d : VideoDemux) (data : List UInt8) (bytes : Nat) : Option VideoDemux :=
  if !d.hasBFrame then
    (checkBFrame bytes data).map fun b => { d with hasBFrame := b }
  else
    some d

/-! ### NAL units behind their lengths -/

/-- The length in front of a NAL unit. One byte is a `char`, which has a sign. -/
def naluSize (d : VideoDemux) (data : List UInt8) : Nat :=
  if d.naluUnitLength = 3 then
    (readUint32T data).toNat
  else if d.naluUnitLength = 1 then
    (readUint16T data).toNat
  else
    (UInt32.ofInt (data.getD 0 0).toInt8.toInt).toNat

/-- The loop of `DecodeAVCNaluIAvcc`. The first argument bounds the turns: each takes bytes
away. -/
def avccLoop : Nat → VideoDemux → List UInt8 → List SampleBuf →
    Option (VideoDemux × List SampleBuf × Int)
  | 0, d, _, outs => some (d, outs, 0)
  | n + 1, d, data, outs =>
      if data.length > 1 then
        -- too few bytes: the size goes below zero, and what follows is read outside
        if data.length < d.naluUnitLength.toNat + 1 then
          none
        else
          let size := d.naluSize data
          let data := data.drop (d.naluUnitLength.toNat + 1)
          if size > data.length ∨ data.length = 0 then
            some (d, outs, -1)
          else
            match (d.checkNaluType (data.getD 0 0)).lookForBFrame data size with
            | some d => avccLoop n d (data.drop size) (outs ++ [data.take size])
            | none => none
      else
        some (d, outs, 0)

/-- `DecodeAVCNaluIAvcc`. -/
def decodeAVCNaluIAvcc (d : VideoDemux) (data : List UInt8) (outs : List SampleBuf) :
    Option (VideoDemux × List SampleBuf × Int) :=
  avccLoop data.length d data outs

/-! ### NAL units behind start codes -/

/-- The loop of `FindAnnexbNalu`. Positions are counted from the start of the data. -/
def findLoop (data : List UInt8) : Nat → Nat → Nat
  | 0, _ => data.length
  | n + 1, p =>
      if p + 1 < data.length then
        if data.getD p 0 = 0x01 ∧ data.getD (p - 1) 0 = 0x00 ∧ data.getD (p - 2) 0 = 0x00 then
          p + 1
        else
          findLoop data n (p + 1)
      else
        data.length

/-- `FindAnnexbNalu`, up to the end of the data. -/
def findAnnexbNalu (data : List UInt8) (p : Nat) : Nat := findLoop data data.length (p + 2)

/-- The loop of `DecodeAVCNaluAnnexb`: `pos` is where `data` points to, and `size` counts what is
left. The first argument bounds the turns: each moves `naluStart` on. -/
def annexbLoop (data : List UInt8) : Nat → VideoDemux → Nat → Nat → Nat → List SampleBuf → Int →
    Option (VideoDemux × List SampleBuf × Int)
  | 0, d, _, _, _, outs, ret => some (d, outs, ret)
  | n + 1, d, naluStart, pos, size, outs, ret =>
      if naluStart < data.length then
        let naluNext := findAnnexbNalu data (naluStart + 1)
        let naluSize := naluNext - naluStart
        if naluSize > size ∨ size = 0 then
          some (d, outs, -1)
        else
          match (d.checkNaluType (data.getD naluStart 0)).lookForBFrame (data.drop pos) naluSize with
          | some d =>
              annexbLoop data n d naluNext (pos + naluSize) (size - naluSize)
                (outs ++ [(data.drop pos).take naluSize]) 0
          | none => none
      else
        some (d, outs, ret)

/-- `DecodeAVCNaluAnnexb`. -/
def decodeAVCNaluAnnexb (d : VideoDemux) (data : List UInt8) (outs : List SampleBuf) :
    Option (VideoDemux × List SampleBuf × Int) :=
  if data.length < 3 then
    some (d, outs, -1)
  else
    annexbLoop data data.length d (findAnnexbNalu data 0) 0 data.length outs (-1)

/-- `DecodeAvcNalu`. The format is found with the first data, and kept. -/
def decodeAvcNalu (d : VideoDemux) (data : List UInt8) (outs : List SampleBuf) :
    Option (VideoDemux × List SampleBuf × Int) :=
  match d.payloadFormat with
  | .unknowed => do
      let (d, outs, ret) ← d.decodeAVCNaluIAvcc data outs
      if ret = 0 then
        some ({ d with payloadFormat := .avcc }, outs, 0)
      else
        let (d, outs, ret) ← d.decodeAVCNaluAnnexb data outs
        if ret = 0 then
          some ({ d with payloadFormat := .annexB }, outs, 0)
        else
          some (d, outs, -1)
  | .avcc => d.decodeAVCNaluIAvcc data outs
  | .annexB => d.decodeAVCNaluAnnexb data outs

/-! ### Sequence headers -/

/-- The length of a parameter set as an `int16_t`. -/
def parameterSetLength (data : List UInt8) : Int := (readUint16T (data.drop 1)).toInt16.toInt

/-- `DecodeAVCSeqHeader`. -/
def decodeAVCSeqHeader (d : VideoDemux) (data : List UInt8) : VideoDemux × Int :=
  if data.length < 5 then
    (d, -1)
  else
    let d := { d with
      configVersion := data.getD 0 0
      profile := data.getD 1 0
      profileCom := data.getD 2 0
      level := data.getD 3 0
      naluUnitLength := data.getD 4 0 &&& 0x03 }
    let data := data.drop 5
    if data.length < 3 then
      (d, -1)
    else if data.getD 0 0 &&& 0x1f ≠ 1 then
      (d, -1)
    else
      let spsLength := parameterSetLength data
      if spsLength > 0 ∧ spsLength < data.length - 3 then
        let d := { d with sps := (data.drop 3).take spsLength.toNat }
        let data := (data.drop 3).drop spsLength.toNat
        if data.length < 3 then
          (d, -1)
        else if data.getD 0 0 &&& 0x1f ≠ 1 then
          (d, -1)
        else
          let ppsLength := parameterSetLength data
          if ppsLength > 0 ∧ ppsLength ≤ data.length - 3 then
            ({ d with pps := (data.drop 3).take ppsLength.toNat }, 0)
          else
            (d, -1)
      else
        (d, -1)

/-! ### Tags -/

/-- `DemuxAVC`. -/
def demuxAVC (d : VideoDemux) (data : List UInt8) :
    Option (VideoDemux × List SampleBuf × Int) :=
  let ftype := (data.getD 0 0 &&& 0xf0) >>> 4
  if ftype = 5 then
    some (d, [], 0)
  else if data.length < 5 then
    none
  else
    let avcPacketType := data.getD 1 0
    let d := { d with compositionTime := int32 (readUint24T (data.drop 2)) }
    if avcPacketType = 0 then
      let (d, ret) := d.decodeAVCSeqHeader (data.drop 5)
      some (d, [], ret)
    else if avcPacketType = 1 then
      d.decodeAvcNalu (data.drop 5) []
    else
      some (d, [], 0)

/-- `OnDemux`. -/
def onDemux (d : VideoDemux) (data : List UInt8) : Option (VideoDemux × List SampleBuf × Int) :=
  if data.length < 1 then
    none
  else
    let d := { d with codecId := data.getD 0 0 &&& 0x0f }
    if d.codecId ≠ kVideoCodecIDAVC then
      some (d, [], -1)
    else
      d.demuxAVC data

end VideoDemux
