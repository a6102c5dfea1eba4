import Tmms.Library.RingBuffer
import Tmms.Live.GopMgr

/-!
# Streams

`Stream::AddPacket` numbers the packets of a publisher and puts them into a ring;
`Stream::GetFrames` gives a player the packets after its position.  Both hold the lock of the
stream.  A packet is an object of its own, made for one call of `AddPacket`, and its index is
set there only, so packets are values here.
-/

/-- What a player has got and what it waits for. `contentLatency` is the one of its
application. -/
structure PlayerUser (ε : Type) where
  contentLatency : Int
  videoHeader : Option (Packet ε) := none
  audioHeader : Option (Packet ε) := none
  metaData : Option (Packet ε) := none
  waitMeta : Bool := true
  waitAudio : Bool := true
  waitVideo : Bool := true
  videoHeaderIndex : Int := 0
  audioHeaderIndex : Int := 0
  metaIndex : Int := 0
  waitTimeout : Bool := false
  outVersion : Int := -1
  outFrameTimestamp : Int := 0
  outFrames : List (Packet ε) := []
  outIndex : Int := -1

/-- `packet_buffer_size_`. -/
def packetBufferSize : Nat := 1000

instance : NeZero packetBufferSize := ⟨by decide⟩

structure LiveStream (ε : Type) where
  frameIndex : Int := -1
  packetBuffer : RingBuffer (Packet ε) packetBufferSize := RingBuffer.empty _ _
  hasAudio : Bool := false
  hasVideo : Bool := false
  hasMeta : Bool := false
  ready : Bool := false
  streamVersion : Int := -1
  gopMgr : GopMgr := {}
  codecHeaders : CodecHeader ε := {}
  timeCorrector : TimeCorrector := {}

namespace LiveStream

variable {ε : Type}

def hasMedia (s : LiveStream ε) : Bool := s.hasAudio || s.hasVideo || s.hasMeta

/-! ### Adding packets -/

/-- A packet as `AddPacket` puts it into the ring: with the corrected timestamp, its index and,
for a key frame, that type. -/
def stamp (s : LiveStream ε) (packet : Packet ε) : Packet ε :=
  let t := (s.timeCorrector.correctTimestamp packet).1
  let packet := { packet with timestamp := t.toUInt64 }
  let packet := { packet with index := toInt32 (s.frameIndex + 1) }
  if packet.isVideo && CodecUtils.isKeyFrame packet then
    { packet with type := kPacketTypeVideo + kFrameTypeKeyFrame }
  else
    packet

/-- The codec headers and what is known of the media after a packet. -/
def parseHeader (s : LiveStream ε) (packet : Packet ε) : LiveStream ε :=
  if CodecUtils.isCodecHeader packet then
    let s := { s with codecHeaders := s.codecHeaders.parseCodecHeader packet }
    if packet.isVideo then
      { s with hasVideo := true, streamVersion := s.streamVersion + 1 }
    else if packet.isAudio then
      { s with hasAudio := true, streamVersion := s.streamVersion + 1 }
    else if packet.isMeta then
      { s with hasMeta := true, streamVersion := s.streamVersion + 1 }
    else
      s
  else
    s

def addPacket (s : LiveStream ε) (packet : Packet ε) : LiveStream ε :=
  let index := s.frameIndex + 1
  let stamped := s.stamp packet
  let s :=
    { s with
      timeCorrector := (s.timeCorrector.correctTimestamp packet).2
      frameIndex := index
      ready := s.ready || (stamped.isVideo && CodecUtils.isKeyFrame stamped) }
  let s := s.parseHeader stamped
  let s :=
    { s with
      gopMgr := s.gopMgr.addFrame stamped
      packetBuffer := s.packetBuffer.put index.toNat stamped }
  let minIdx : Int := s.frameIndex - packetBufferSize
  if minIdx > 0 then
    { s with gopMgr := s.gopMgr.clearExpriedGop (toInt32 minIdx) }
  else
    s

/-! ### Getting frames -/

/-- The end of `LocateGop` and its beginning when there is no group: a player that has waited
for a second is marked. -/
def waiting (elapsed : UInt64) (user : PlayerUser ε) : PlayerUser ε :=
  if elapsed ≥ 1000 && !user.waitTimeout then { user with waitTimeout := true } else user

/-- The metadata of a group for a player that waits for it. -/
def findMeta (s : LiveStream ε) (idx : Int) (user : PlayerUser ε) : PlayerUser ε :=
  let wait := user.waitMeta && s.hasMeta
  match wait, s.codecHeaders.getMeta idx with
  | true, some pkt =>
      { user with waitMeta := false, metaData := some pkt, metaIndex := pkt.index }
  | _, _ => { user with waitMeta := wait }

/-- The audio header of a group for a player that waits for it. -/
def findAudioHeader (s : LiveStream ε) (idx : Int) (user : PlayerUser ε) : PlayerUser ε :=
  let wait := user.waitAudio && s.hasAudio
  match wait, s.codecHeaders.getAudioHeader idx with
  | true, some pkt =>
      { user with waitAudio := false, audioHeader := some pkt, audioHeaderIndex := pkt.index }
  | _, _ => { user with waitAudio := wait }

/-- The video header of a group for a player that waits for it. -/
def findVideoHeader (s : LiveStream ε) (idx : Int) (user : PlayerUser ε) : PlayerUser ε :=
  let wait := user.waitVideo && s.hasVideo
  match wait, s.codecHeaders.getVideoHeader idx with
  | true, some pkt =>
      { user with waitVideo := false, videoHeader := some pkt, videoHeaderIndex := pkt.index }
  | _, _ => { user with waitVideo := wait }

/-- `LocateGop`, with the time since the player came. -/
def locateGop (s : LiveStream ε) (elapsed : UInt64) (user : PlayerUser ε) :
    Bool × PlayerUser ε :=
  let idx := (s.gopMgr.getGopByLatency user.contentLatency).1
  if idx = -1 then
    (false, waiting elapsed user)
  else
    let user := { user with outIndex := idx - 1 }
    let user := s.findVideoHeader idx (s.findAudioHeader idx (s.findMeta idx user))
    if user.waitMeta || user.waitAudio || user.waitVideo then
      (false, waiting elapsed user)
    else
      (true,
        { user with
          waitMeta := true
          waitAudio := true
          waitVideo := true
          outVersion := s.streamVersion })

/-- The metadata of a group, if it is newer than what the player has got. -/
def newerMeta (s : LiveStream ε) (idx : Int) (user : PlayerUser ε) : PlayerUser ε :=
  match s.codecHeaders.getMeta idx with
  | some pkt =>
      if pkt.index > user.metaIndex then
        { user with metaData := some pkt, metaIndex := pkt.index }
      else
        user
  | none => user

/-- The audio header of a group, if it is newer than what the player has got. -/
def newerAudioHeader (s : LiveStream ε) (idx : Int) (user : PlayerUser ε) : PlayerUser ε :=
  match s.codecHeaders.getAudioHeader idx with
  | some pkt =>
      if pkt.index > user.audioHeaderIndex then
        { user with audioHeader := some pkt, audioHeaderIndex := pkt.index }
      else
        user
  | none => user

/-- The video header of a group, if it is newer than what the player has got. -/
def newerVideoHeader (s : LiveStream ε) (idx : Int) (user : PlayerUser ε) : PlayerUser ε :=
  match s.codecHeaders.getVideoHeader idx with
  | some pkt =>
      if pkt.index > user.videoHeaderIndex then
        { user with videoHeader := some pkt, videoHeaderIndex := pkt.index }
      else
        user
  | none => user

def skipFrame (s : LiveStream ε) (user : PlayerUser ε) : PlayerUser ε :=
  let idx := (s.gopMgr.getGopByLatency user.contentLatency).1
  if idx = -1 ∨ idx ≤ user.outIndex then
    user
  else
    let user := s.newerVideoHeader idx (s.newerAudioHeader idx (s.newerMeta idx user))
    { user with outIndex := idx - 1 }

/-- The loop of `GetNextFrame`. The index of the slot is computed as an `uint32_t`. -/
def getNextFrameLoop (s : LiveStream ε) : Nat → Int → PlayerUser ε → PlayerUser ε
  | 0, _, user => user
  | n + 1, idx, user =>
      if idx > s.frameIndex then
        user
      else
        match s.packetBuffer.get (UInt32.ofInt idx).toNat with
        | some pkt =>
            getNextFrameLoop s n (pkt.index + 1)
              { user with
                outFrames := user.outFrames ++ [pkt]
                outIndex := pkt.index
                outFrameTimestamp := toInt32 (TimeCorrector.time pkt) }
        | none => user

def getNextFrame (s : LiveStream ε) (user : PlayerUser ε) : PlayerUser ε :=
  getNextFrameLoop s 10 (user.outIndex + 1) user

/-- A header or frames have not been taken yet. -/
def pending (user : PlayerUser ε) : Bool :=
  user.metaData.isSome || user.audioHeader.isSome || user.videoHeader.isSome
    || !user.outFrames.isEmpty

/-- The player is behind the ring, or behind the stream by more than twice the latency. -/
def needSkip (s : LiveStream ε) (user : PlayerUser ε) : Bool :=
  user.outIndex < toInt32 (s.frameIndex - packetBufferSize)
    || s.gopMgr.lastestTimestamp - user.outFrameTimestamp > 2 * user.contentLatency

/-- `GetFrames`, with the time since the player came. -/
def getFrames (s : LiveStream ε) (elapsed : UInt64) (user : PlayerUser ε) : PlayerUser ε :=
  if !s.hasMedia then
    user
  else if pending user then
    user
  else if user.outIndex ≥ 0 then
    s.getNextFrame (if s.needSkip user then s.skipFrame user else user)
  else
    match s.locateGop elapsed user with
    | (false, user) => user
    | (true, user) => s.getNextFrame user

/-! ### What a packet changes -/

/-- Codec headers change what is known of the media only. -/
theorem parseHeader_frame (s : LiveStream ε) (packet : Packet ε) :
  (s.parseHeader packet).frameIndex = s.frameIndex ∧
    (s.parseHeader packet).packetBuffer = s.packetBuffer ∧
    (s.parseHeader packet).gopMgr = s.gopMgr
  := by
  rw [parseHeader]
  split
  · dsimp only
    split
    · exact ⟨rfl, rfl, rfl⟩
    · split
      · exact ⟨rfl, rfl, rfl⟩
      · split
        · exact ⟨rfl, rfl, rfl⟩
        · exact ⟨rfl, rfl, rfl⟩
  · exact ⟨rfl, rfl, rfl⟩

/-- A packet gets the next index, and the slot of that index. -/
theorem addPacket_frame (s : LiveStream ε) (packet : Packet ε) :
  (s.addPacket packet).frameIndex = s.frameIndex + 1 ∧
    (s.addPacket packet).packetBuffer =
      s.packetBuffer.put (s.frameIndex + 1).toNat (s.stamp packet) ∧
    ∀ item ∈ (s.addPacket packet).gopMgr.gops,
      item ∈ s.gopMgr.gops ∨ item.index = (s.stamp packet).index
  := by
  rw [addPacket]
  dsimp only
  obtain ⟨hframe, hbuffer, hgop⟩ := parseHeader_frame
    { s with
      timeCorrector := (s.timeCorrector.correctTimestamp packet).2
      frameIndex := s.frameIndex + 1
      ready := s.ready || ((s.stamp packet).isVideo && CodecUtils.isKeyFrame (s.stamp packet)) }
    (s.stamp packet)
  rw [hframe, hbuffer, hgop]
  split
  · refine ⟨rfl, rfl, ?_⟩
    intro item hitem
    exact GopMgr.mem_gops_addFrame (GopMgr.mem_gops_clearExpriedGop hitem)
  · refine ⟨rfl, rfl, ?_⟩
    intro item hitem
    exact GopMgr.mem_gops_addFrame hitem

theorem stamp_index (s : LiveStream ε) (packet : Packet ε) :
  (s.stamp packet).index = toInt32 (s.frameIndex + 1)
  := by
  rw [stamp]
  dsimp only
  split
  · rfl
  · rfl

/-! ### What positions do -/

@[simp]
theorem waiting_frame (elapsed : UInt64) (user : PlayerUser ε) :
  (waiting elapsed user).outFrames = user.outFrames ∧
    (waiting elapsed user).outIndex = user.outIndex
  := by
  rw [waiting]
  split
  · exact ⟨rfl, rfl⟩
  · exact ⟨rfl, rfl⟩

/-- Headers leave the frames and the position. -/
theorem findHeaders_frame (s : LiveStream ε) (idx : Int) (user : PlayerUser ε) :
  (s.findVideoHeader idx (s.findAudioHeader idx (s.findMeta idx user))).outFrames =
      user.outFrames ∧
    (s.findVideoHeader idx (s.findAudioHeader idx (s.findMeta idx user))).outIndex =
      user.outIndex
  := by
  have hmeta : ∀ u : PlayerUser ε, (s.findMeta idx u).outFrames = u.outFrames ∧
      (s.findMeta idx u).outIndex = u.outIndex
    := by
    intro u
    rw [findMeta]
    split
    · exact ⟨rfl, rfl⟩
    · exact ⟨rfl, rfl⟩
  have haudio : ∀ u : PlayerUser ε, (s.findAudioHeader idx u).outFrames = u.outFrames ∧
      (s.findAudioHeader idx u).outIndex = u.outIndex
    := by
    intro u
    rw [findAudioHeader]
    split
    · exact ⟨rfl, rfl⟩
    · exact ⟨rfl, rfl⟩
  have hvideo : ∀ u : PlayerUser ε, (s.findVideoHeader idx u).outFrames = u.outFrames ∧
      (s.findVideoHeader idx u).outIndex = u.outIndex
    := by
    intro u
    rw [findVideoHeader]
    split
    · exact ⟨rfl, rfl⟩
    · exact ⟨rfl, rfl⟩
  rw [(hvideo _).1, (hvideo _).2, (haudio _).1, (haudio _).2, (hmeta _).1, (hmeta _).2]
  exact ⟨rfl, rfl⟩

/-- Newer headers leave the frames. -/
theorem newerHeaders_outFrames (s : LiveStream ε) (idx : Int) (user : PlayerUser ε) :
  (s.newerVideoHeader idx (s.newerAudioHeader idx (s.newerMeta idx user))).outFrames =
    user.outFrames
  := by
  have hmeta : ∀ u : PlayerUser ε, (s.newerMeta idx u).outFrames = u.outFrames
    := by
    intro u
    rw [newerMeta]
    repeat' split
    all_goals rfl
  have haudio : ∀ u : PlayerUser ε, (s.newerAudioHeader idx u).outFrames = u.outFrames
    := by
    intro u
    rw [newerAudioHeader]
    repeat' split
    all_goals rfl
  have hvideo : ∀ u : PlayerUser ε, (s.newerVideoHeader idx u).outFrames = u.outFrames
    := by
    intro u
    rw [newerVideoHeader]
    repeat' split
    all_goals rfl
  rw [hvideo, haudio, hmeta]

/-- `LocateGop` leaves the frames. It leaves the position, or moves it before a group. -/
theorem locateGop_frame (s : LiveStream ε) (elapsed : UInt64) (user : PlayerUser ε) :
  (s.locateGop elapsed user).2.outFrames = user.outFrames ∧
    ((s.locateGop elapsed user).2.outIndex = user.outIndex ∨
      ∃ item ∈ s.gopMgr.gops, (s.locateGop elapsed user).2.outIndex = item.index - 1)
  := by
  rw [locateGop]
  dsimp only
  by_cases hidx : (s.gopMgr.getGopByLatency user.contentLatency).1 = -1
  · rw [if_pos hidx]
    exact ⟨(waiting_frame elapsed user).1, .inl (waiting_frame elapsed user).2⟩
  · obtain ⟨item, hitem, heq⟩ := GopMgr.getGopByLatency_mem s.gopMgr user.contentLatency hidx
    obtain ⟨hframes, hindex⟩ := s.findHeaders_frame
      (s.gopMgr.getGopByLatency user.contentLatency).1
      { user with outIndex := (s.gopMgr.getGopByLatency user.contentLatency).1 - 1 }
    rw [if_neg hidx]
    split
    · rw [(waiting_frame elapsed _).1, (waiting_frame elapsed _).2, hframes, hindex]
      exact ⟨rfl, .inr ⟨item, hitem, by rw [heq]⟩⟩
    · exact ⟨hframes, .inr ⟨item, hitem, by rw [← heq]; exact hindex⟩⟩

/-- `SkipFrame` leaves the frames, and moves a player forward or not at all. -/
theorem skipFrame_frame (s : LiveStream ε) (user : PlayerUser ε) :
  (s.skipFrame user).outFrames = user.outFrames ∧
    user.outIndex ≤ (s.skipFrame user).outIndex
  := by
  rw [skipFrame]
  dsimp only
  split
  · exact ⟨rfl, Int.le_refl _⟩
  · rename_i hidx
    refine ⟨newerHeaders_outFrames s _ user, ?_⟩
    dsimp only
    omega

end LiveStream
