import Tmms.Base.Packet

/-!
# Frames

What the live service asks of a packet: its type, whether it is a codec header or a key frame
(`CodecUtils`), and the corrected timestamp of `TimeCorrector`.
-/

/-! ### Types of packets -/

/-- `kPacketTypeVideo`. -/
def kPacketTypeVideo : Int := 1

/-- `kPacketTypeAudio`. -/
def kPacketTypeAudio : Int := 2

/-- `kPacketTypeMeta`. -/
def kPacketTypeMeta : Int := 4

/-- `kFrameTypeKeyFrame`. -/
def kFrameTypeKeyFrame : Int := 16

namespace Packet

variable {ε : Type}

/-- Whether the type has all the bits of a mask. -/
def typeHas (p : Packet ε) (mask : Int) : Bool :=
  BitVec.ofInt 32 p.type &&& BitVec.ofInt 32 mask == BitVec.ofInt 32 mask

def isVideo (p : Packet ε) : Bool := p.typeHas kPacketTypeVideo

def isKeyFrame (p : Packet ε) : Bool :=
  p.typeHas kPacketTypeVideo && p.typeHas kFrameTypeKeyFrame

def isAudio (p : Packet ε) : Bool := p.type == kPacketTypeAudio

def isMeta (p : Packet ε) : Bool := p.type == kPacketTypeMeta

end Packet

namespace CodecUtils

variable {ε : Type}

/-- The second byte is zero. -/
def isCodecHeader (packet : Packet ε) : Bool :=
  int32 packet.size > 1 && packet.data.getD 1 0 == 0

/-- The upper half of the first byte is one. -/
def isKeyFrame (packet : Packet ε) : Bool :=
  int32 packet.size > 0 && packet.data.getD 0 0 >>> 4 == 1

end CodecUtils

/-! ### Timestamps -/

structure TimeCorrector where
  videoOriginalTimestamp : Int := -1
  videoCorrectedTimestamp : Int := 0
  audioOriginalTimestamp : Int := -1
  audioCorrectedTimestamp : Int := 0
  audioNumbersBetweenVideo : Int := 0
  deriving DecidableEq, Repr

namespace TimeCorrector

variable {ε : Type}

def kMaxVideoDeltaTime : Int := 100

def kMaxAudioDeltaTime : Int := 100

def kDefaultVideoDeltaTime : Int := 40

def kDefaultAudioDeltaTime : Int := 20

/-- The timestamp of a packet as an `int64_t`. -/
def time (packet : Packet ε) : Int := packet.timestamp.toBitVec.toInt

/-- A step of time, or the default one where the step is too large. -/
def fineDelta (delta max default : Int) : Int :=
  if delta > -max && delta < max then delta else default

def correctAudioTimeStampByAudio (c : TimeCorrector) (packet : Packet ε) :
    UInt32 × TimeCorrector :=
  let time := time packet
  if c.audioOriginalTimestamp = -1 then
    (UInt32.ofInt time, { c with audioOriginalTimestamp := time, audioCorrectedTimestamp := time })
  else
    let delta :=
      fineDelta (time - c.audioOriginalTimestamp) kMaxAudioDeltaTime kDefaultAudioDeltaTime
    let corrected := max 0 (c.audioCorrectedTimestamp + delta)
    (UInt32.ofInt corrected,
      { c with audioOriginalTimestamp := time, audioCorrectedTimestamp := corrected })

def correctAudioTimeStampByVideo (c : TimeCorrector) (packet : Packet ε) :
    UInt32 × TimeCorrector :=
  -- an `int32_t`, which is one at most again behind `2 ^ 31` audios in a row
  let c := { c with audioNumbersBetweenVideo := toInt32 (c.audioNumbersBetweenVideo + 1) }
  if c.audioNumbersBetweenVideo > 1 then
    c.correctAudioTimeStampByAudio packet
  else
    let time := time packet
    if c.videoOriginalTimestamp = -1 then
      (UInt32.ofInt time,
        { c with audioOriginalTimestamp := time, audioCorrectedTimestamp := time })
    else
      let delta :=
        fineDelta (time - c.videoOriginalTimestamp) kMaxVideoDeltaTime kDefaultVideoDeltaTime
      let corrected := max 0 (c.videoCorrectedTimestamp + delta)
      (UInt32.ofInt corrected,
        { c with audioOriginalTimestamp := time, audioCorrectedTimestamp := corrected })

def correctVideoTimeStampByVideo (c : TimeCorrector) (packet : Packet ε) :
    UInt32 × TimeCorrector :=
  let c := { c with audioNumbersBetweenVideo := 0 }
  let time := time packet
  let c :=
    if c.videoOriginalTimestamp = -1 then
      let c := { c with videoOriginalTimestamp := time, videoCorrectedTimestamp := time }
      let delta := toInt32 (c.audioOriginalTimestamp - c.videoOriginalTimestamp)
      if c.audioOriginalTimestamp ≠ -1 ∧ (delta ≤ -kMaxVideoDeltaTime ∨ delta ≥ kMaxVideoDeltaTime)
      then
        { c with
          videoOriginalTimestamp := c.audioOriginalTimestamp
          videoCorrectedTimestamp := c.audioCorrectedTimestamp }
      else
        c
    else
      c
  let delta :=
    fineDelta (time - c.videoOriginalTimestamp) kMaxVideoDeltaTime kDefaultVideoDeltaTime
  let corrected := max 0 (c.videoCorrectedTimestamp + delta)
  (UInt32.ofInt corrected,
    { c with videoOriginalTimestamp := time, videoCorrectedTimestamp := corrected })

def correctTimestamp (c : TimeCorrector) (packet : Packet ε) : UInt32 × TimeCorrector :=
  if !CodecUtils.isCodecHeader packet then
    if packet.isVideo then
      c.correctVideoTimeStampByVideo packet
    else if packet.isAudio then
      c.correctAudioTimeStampByVideo packet
    else
      (0, c)
  else
    (0, c)

end TimeCorrector
