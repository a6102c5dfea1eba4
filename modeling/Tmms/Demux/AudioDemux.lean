import Tmms.Base.NalBitStream

/-!
# Taking audio out of FLV

`AudioDemux` takes the sound data of an FLV audio tag.  A sample is given by its bytes.  What
reads beyond the data has no result here, for the sources do not look where the data ends.

The fields for the rate, the size and the channels of the sound, and the copy of the sequence
header, are left out: nothing here reads them.
-/

/-- `kAudioCodecIDMP3`. -/
def kAudioCodecIDMP3 : UInt8 := 2

/-- `kAudioCodecIDReserved`. -/
def kAudioCodecIDReserved : UInt8 := 9

/-- `kAudioCodecIDAAC`. -/
def kAudioCodecIDAAC : UInt8 := 10

/-- A sample: the bytes of a `SampleBuf`. -/
abbrev SampleBuf := List UInt8

structure AudioDemux where
  soundFormat : UInt8 := 0
  aacObject : UInt16 := 0
  aacSampleRate : UInt16 := 0
  aacChannel : UInt8 := 0
  aacOk : Bool := false
  deriving DecidableEq, Repr

namespace AudioDemux

/-- `DemuxAACSequenceHeader`. -/
def demuxAACSequenceHeader (d : AudioDemux) (data : List UInt8) : Option (AudioDemux × Int) :=
  if data.length < 2 then
    some (d, -1)
  else do
    let s : NalBitStream := { data := data, len := data.length }
    let (object, s) ← s.getWord 5
    let (rate, s) ← s.getWord 4
    let (channel, _) ← s.getWord 4
    some ({ d with
      aacObject := object
      aacSampleRate := rate
      aacChannel := channel.toUInt8
      aacOk := true }, 0)

/-- `DemuxAAC`. The packet type is the second byte. -/
def demuxAAC (d : AudioDemux) : List UInt8 → Option (AudioDemux × List SampleBuf × Int)
  | _ :: type :: data =>
      if type = 0 then
        if data.length > 0 then
          (d.demuxAACSequenceHeader data).map fun (d, ret) => (d, [], ret)
        else
          some (d, [], 0)
      else if type = 1 then
        if !d.aacOk then some (d, [], -1) else some (d, [data], 0)
      else
        some (d, [], 0)
  | _ => none

/-- `DemuxMP3`. -/
def demuxMP3 (d : AudioDemux) (data : List UInt8) : Option (AudioDemux × List SampleBuf × Int) :=
  some (d, [data.drop 1], 0)

/-- `OnDemux`. -/
def onDemux (d : AudioDemux) (data : List UInt8) : Option (AudioDemux × List SampleBuf × Int) :=
  if data.length < 1 then
    some (d, [], -1)
  else
    let d := { d with soundFormat := data.getD 0 0 >>> 4 &&& 0x0f }
    if d.soundFormat = kAudioCodecIDMP3 then d.demuxMP3 data
    else if d.soundFormat = kAudioCodecIDAAC then d.demuxAAC data
    else some (d, [], -1)

end AudioDemux
