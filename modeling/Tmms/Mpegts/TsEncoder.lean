import Tmms.Demux.VideoDemux
import Tmms.Live.Frames
import Tmms.Mpegts.PsiWriter

/-!
# Encoding transport streams

`TsEncoder` writes program tables and the packets of elementary streams to a `StreamWriter`.  The
writer is an abstract class: what the encoders ask of it is in `StreamWriter`, and what they call
is listed in order (`WriterCall`).  With what is written it is noted what it is part of
(`TsPiece`), which the bytes do not tell.

The field for the stream type of an encoder is left out: nothing reads it.
-/

open TransportStream

/-- The codecs that are written. -/
inductive Codec where
  | aac
  | mp3
  | avc
  deriving DecidableEq, Repr

/-- The stream type of a codec in a map table. -/
def Codec.streamType : Codec → UInt8
  | .aac => 0x0f
  | .mp3 => 0x04
  | .avc => 0x1b

/-- The bytes of one `Write`, and the codec if they are of an elementary stream and not of a
table. -/
structure TsPiece where
  bytes : List UInt8
  codec : Option Codec
  deriving DecidableEq, Repr

/-- The parameter sets that a `StreamWriter` remembers. -/
structure StreamWriter where
  sps : List UInt8 := []
  pps : List UInt8 := []
  spsPpsAppended : Bool := false
  deriving DecidableEq, Repr

/-- A call of the virtual functions of a `StreamWriter`. -/
inductive WriterCall where
  | appendTimeStamp (dts : Int)
  | write (piece : TsPiece)
  deriving DecidableEq, Repr

/-- Packets of a codec are written. -/
def writes (codec : Option Codec) (packets : List (List UInt8)) : List WriterCall :=
  packets.map fun bytes => .write ⟨bytes, codec⟩

variable {ε : Type}

/-- `TsTool::IsCodecHeader`. -/
def TsTool.isCodecHeader (packet : Packet ε) : Bool :=
  int32 packet.size > 1 && packet.data.getD 1 0 == 0

/-! ### Audio -/

structure AudioEncoder where
  pes : PesWriter := ⟨0xe000, 0xff⟩
  demux : AudioDemux := {}
  deriving DecidableEq, Repr

/-- `AacObjectType2AacProfile`. -/
def aacObjectType2AacProfile (type : UInt16) : Nat :=
  if type = 1 then 0
  else if type = 5 ∨ type = 29 ∨ type = 2 then 1
  else if type = 3 then 2
  else 3

namespace AudioEncoder

/-- The header that `EncodeAAC` puts in front of a sample. -/
def adtsHeader (d : AudioDemux) (size : Nat) : List UInt8 :=
  let frameLength := 7 + size
  let profile := aacObjectType2AacProfile d.aacObject
  let channel := d.aacChannel.toNat
  [0xff, 0xf9,
    UInt8.ofNat ((profile <<< 6) &&& 0xc0 ||| (d.aacSampleRate.toNat <<< 2) &&& 0x3c |||
      (channel >>> 2) &&& 0x01),
    UInt8.ofNat ((channel <<< 6) &&& 0xc0 ||| (frameLength >>> 11) &&& 0x03),
    UInt8.ofNat ((frameLength >>> 3) &&& 0xff),
    UInt8.ofNat ((frameLength <<< 5) &&& 0xe0 ||| 0x1f), 0xfc]

/-- `EncodeAAC`: the first sample is written. -/
def encodeAAC (e : AudioEncoder) (sampleList : List SampleBuf) (pts : Int) :
    AudioEncoder × List (List UInt8) × Int :=
  match sampleList with
  | [] => (e, [], 0)
  | l :: _ =>
      if l.length = 0 ∨ l.length > 0x1fff then
        (e, [], -1)
      else
        let (pes, packets) := writeAudioPes e.pes [adtsHeader e.demux l.length, l] (7 + l.length) pts
        ({ e with pes := pes }, packets, 0)

/-- `EncodeMP3`. -/
def encodeMP3 (e : AudioEncoder) (sampleList : List SampleBuf) (pts : Int) :
    AudioEncoder × List (List UInt8) × Int :=
  let size := (sampleList.map List.length).sum
  let (pes, packets) := writeAudioPes e.pes sampleList size pts
  ({ e with pes := pes }, packets, 0)

/-- `EncodeAudio`. -/
def encodeAudio (e : AudioEncoder) (data : Packet ε) (dts : Int) :
    Option (AudioEncoder × List WriterCall × Int) :=
  match e.demux.onDemux data.payload with
  | none => none
  | some (demux, list, ret) =>
      let e := { e with demux := demux }
      if ret = -1 then
        some (e, [], -1)
      else if TsTool.isCodecHeader data then
        some (e, [], 0)
      else if demux.soundFormat = kAudioCodecIDAAC then
        let (e, packets, ret) := e.encodeAAC list (dts * 90)
        some (e, .appendTimeStamp dts :: writes (some .aac) packets, ret)
      else if demux.soundFormat = kAudioCodecIDMP3 then
        let (e, packets, ret) := e.encodeMP3 list (dts * 90)
        some (e, .appendTimeStamp dts :: writes (some .mp3) packets, ret)
      else
        some (e, [.appendTimeStamp dts], 0)

end AudioEncoder

/-! ### Video -/

structure VideoEncoder where
  pes : PesWriter := ⟨0xe000, 0xff⟩
  demux : VideoDemux := {}
  deriving DecidableEq, Repr

/-- The local variables of `EncodeAvc`. -/
structure AvcSamples where
  result : List SampleBuf := []
  totalSize : Nat := 0
  startcodeInserted : Bool := true
  deriving DecidableEq, Repr

namespace AvcSamples

/-- `AvcInsertStartCode`. -/
def insertStartCode (s : AvcSamples) : AvcSamples :=
  if s.startcodeInserted then
    { s with
      result := s.result ++ [[0x00, 0x00, 0x01]]
      totalSize := s.totalSize + 3 }
  else
    { s with
      result := s.result ++ [[0x00, 0x00, 0x00, 0x01]]
      totalSize := s.totalSize + 4
      startcodeInserted := true }

/-- A NAL unit behind a start code. -/
def push (s : AvcSamples) (nalu : SampleBuf) : AvcSamples :=
  let s := s.insertStartCode
  { s with
    result := s.result ++ [nalu]
    totalSize := s.totalSize + nalu.length }

end AvcSamples

namespace VideoEncoder

/-- The parameter sets are written in front of a NAL unit. -/
def needsSpsPps (d : VideoDemux) (writer : StreamWriter) (l : SampleBuf) : Bool :=
  NaluType.ofByte (l.getD 0 0) == .idr && !d.hasSpsPps &&
    (writer.sps != d.sps || writer.pps != d.pps || !writer.spsPpsAppended)

/-- The parameter sets there are. -/
def pushSpsPps (d : VideoDemux) (writer : StreamWriter) (s : AvcSamples) :
    StreamWriter × AvcSamples :=
  let (writer, s) :=
    if d.sps ≠ [] then ({ writer with sps := d.sps }, s.push d.sps) else (writer, s)
  let (writer, s) :=
    if d.pps ≠ [] then ({ writer with pps := d.pps }, s.push d.pps) else (writer, s)
  ({ writer with spsPpsAppended := true }, s)

/-- A turn of the loop in `EncodeAvc`. -/
def pushSample (d : VideoDemux) (writer : StreamWriter) (s : AvcSamples) (l : SampleBuf) :
    StreamWriter × AvcSamples :=
  if l.length = 0 then
    (writer, s)
  else
    let (writer, s) := if needsSpsPps d writer l then pushSpsPps d writer s else (writer, s)
    (writer, s.push l)

/-- The loop in `EncodeAvc`. -/
def pushSamples (d : VideoDemux) : StreamWriter → AvcSamples → List SampleBuf →
    StreamWriter × AvcSamples
  | writer, s, [] => (writer, s)
  | writer, s, l :: sampleList =>
      let (writer, s) := pushSample d writer s l
      pushSamples d writer s sampleList

/-- What is in front of the samples. -/
def startSamples (d : VideoDemux) : AvcSamples :=
  if !d.hasAud then ({} : AvcSamples).push [0x09, 0xf0] else {}

/-- `EncodeAvc`. -/
def encodeAvc (e : VideoEncoder) (writer : StreamWriter) (sampleList : List SampleBuf)
    (key : Bool) (dts : Int) : VideoEncoder × StreamWriter × List (List UInt8) :=
  let (writer, s) := pushSamples e.demux writer (startSamples e.demux) sampleList
  let pts := if e.demux.compositionTime > 0 then dts + e.demux.compositionTime * 90 else dts
  let (pes, packets) := writeVideoPes e.pes s.result s.totalSize pts dts key
  ({ e with pes := pes }, writer, packets)

/-- `EncodeVideo`. -/
def encodeVideo (e : VideoEncoder) (writer : StreamWriter) (key : Bool) (data : Packet ε)
    (dts : Int) : Option (VideoEncoder × StreamWriter × List WriterCall × Int) :=
  match e.demux.onDemux data.payload with
  | none => none
  | some (demux, list, ret) =>
      let e := { e with demux := demux }
      if ret = -1 then
        some (e, writer, [], -1)
      else if TsTool.isCodecHeader data then
        some (e, writer, [], 0)
      else if demux.codecId = kVideoCodecIDAVC then
        let (e, writer, packets) := e.encodeAvc writer list key (dts * 90)
        some (e, writer, .appendTimeStamp dts :: writes (some .avc) packets, 0)
      else
        some (e, writer, [.appendTimeStamp dts], 0)

end VideoEncoder

/-! ### Both -/

/-- The values of `TsStreamType` that are set. -/
inductive TsStreamType where
  | reserved
  | audioMp3
  | audioAAC
  | videoH264
  deriving DecidableEq, Repr

/-- The number of a stream type. -/
def TsStreamType.code : TsStreamType → UInt8
  | .reserved => 0x00
  | .audioMp3 => 0x04
  | .audioAAC => 0x0f
  | .videoH264 => 0x1b

structure TsEncoder where
  patWriter : PatWriter := {}
  pmtWriter : PmtWriter := {}
  audioEncoder : AudioEncoder := {}
  videoEncoder : VideoEncoder := {}
  videoType : TsStreamType := .reserved
  audioType : TsStreamType := .reserved
  videoPid : UInt16 := 0xe000
  audioPid : UInt16 := 0xe000
  deriving DecidableEq, Repr

namespace TsEncoder

/-- `Encode`. -/
def encode (e : TsEncoder) (writer : StreamWriter) (data : Packet ε) (dts : Int) :
    Option (TsEncoder × StreamWriter × List WriterCall × Int) :=
  if data.isAudio then
    match e.audioEncoder.encodeAudio data dts with
    | some (audio, calls, ret) => some ({ e with audioEncoder := audio }, writer, calls, ret)
    | none => none
  else if data.isVideo then
    match e.videoEncoder.encodeVideo writer data.isKeyFrame data dts with
    | some (video, writer, calls, ret) =>
        some ({ e with videoEncoder := video }, writer, calls, ret)
    | none => none
  else
    some (e, writer, [], 0)

/-- `WritePatPmt`. -/
def writePatPmt (e : TsEncoder) (g : TsTool.Globals) :
    Option (TsEncoder × TsTool.Globals × List WriterCall) :=
  if e.audioPid ≠ 0xe000 ∧ e.videoPid ≠ 0xe000 then do
    let (patWriter, g, pat) ← e.patWriter.writePat g
    let (pmtWriter, g, pmt) ← e.pmtWriter.writePmt g
    some ({ e with patWriter := patWriter, pmtWriter := pmtWriter }, g,
      writes none pat ++ writes none pmt)
  else
    some (e, g, [])

/-- The stream type of a codec of audio, and the identifier that goes with it. -/
def setAudioPid (e : TsEncoder) (ac : UInt8) : TsEncoder × TsStreamType :=
  if ac = kAudioCodecIDAAC then ({ e with audioPid := 0x101 }, .audioAAC)
  else if ac = kAudioCodecIDMP3 then ({ e with audioPid := 0x102 }, .audioMp3)
  else (e, .reserved)

/-- The stream type of a codec of video, and the identifier that goes with it. -/
def setVideoPid (e : TsEncoder) (vc : UInt8) : TsEncoder × TsStreamType :=
  if vc = kVideoCodecIDAVC then ({ e with videoPid := 0x100 }, .videoH264) else (e, .reserved)

/-- The stream type of audio changes. -/
def changeAudio (e : TsEncoder) (type : TsStreamType) : TsEncoder :=
  { e with
    pmtWriter := e.pmtWriter.addProgramInfo ⟨type.code, e.audioPid⟩
    audioEncoder := { e.audioEncoder with pes := { e.audioEncoder.pes with pid := e.audioPid } }
    audioType := type }

/-- The stream type of video changes. -/
def changeVideo (e : TsEncoder) (type : TsStreamType) : TsEncoder :=
  { e with
    pmtWriter := (e.pmtWriter.addProgramInfo ⟨type.code, e.videoPid⟩).setPcrPid e.videoPid
    videoEncoder := { e.videoEncoder with pes := { e.videoEncoder.pes with pid := e.videoPid } }
    videoType := type }

/-- `SetStreamType`. -/
def setStreamType (e : TsEncoder) (g : TsTool.Globals) (vc ac : UInt8) :
    Option (TsEncoder × TsTool.Globals × List WriterCall) :=
  let (e, atype) := e.setAudioPid ac
  let (e, vtype) := e.setVideoPid vc
  let newAudio := atype ≠ .reserved ∧ atype ≠ e.audioType
  let newVideo := vtype ≠ .reserved ∧ vtype ≠ e.videoType
  let e := if newAudio then e.changeAudio atype else e
  let e := if newVideo then e.changeVideo vtype else e
  if newAudio ∨ newVideo then e.writePatPmt g else some (e, g, [])

end TsEncoder
