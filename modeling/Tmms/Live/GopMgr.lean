import Tmms.Live.Frames

/-!
# Groups of pictures and codec headers

`GopMgr` keeps the index and the timestamp of every key frame that is still in the buffer, and
finds the earliest one within a latency.  `CodecHeader` keeps the metadata and the codec
headers of a stream.
-/

structure GopItemInfo where
  index : Int
  timestamp : Int
  deriving DecidableEq, Repr

structure GopMgr where
  gops : List GopItemInfo := []
  lastestTimestamp : Int := 0
  deriving DecidableEq, Repr

namespace GopMgr

variable {ε : Type}

def addFrame (g : GopMgr) (packet : Packet ε) : GopMgr :=
  { gops :=
      if packet.isKeyFrame then g.gops ++ [⟨packet.index, TimeCorrector.time packet⟩] else g.gops
    lastestTimestamp := TimeCorrector.time packet }

/-- The loop of `GetGopByLatency` over the key frames from the last one on, with the index and
the latency got so far. -/
def getGopByLatencyLoop (lastest contentLatency : Int) :
    List GopItemInfo → Int × Int → Int × Int
  | [], got => got
  | item :: items, got =>
      let itemLatency := toInt32 (lastest - item.timestamp)
      if itemLatency ≤ contentLatency then
        getGopByLatencyLoop lastest contentLatency items (item.index, itemLatency)
      else
        got

/-- `GetGopByLatency`, the index, which is -1 if there is none, and the latency. -/
def getGopByLatency (g : GopMgr) (contentLatency : Int) : Int × Int :=
  getGopByLatencyLoop g.lastestTimestamp contentLatency g.gops.reverse (-1, 0)

def clearExpriedGop (g : GopMgr) (minIdx : Int) : GopMgr :=
  { g with gops := g.gops.filter fun item => !(item.index ≤ minIdx) }

/-! ### Indices -/

theorem getGopByLatencyLoop_mem (lastest contentLatency : Int) (items : List GopItemInfo)
    (got : Int × Int) :
  (getGopByLatencyLoop lastest contentLatency items got).1 = got.1 ∨
    ∃ item ∈ items, (getGopByLatencyLoop lastest contentLatency items got).1 = item.index
  := by
  induction items generalizing got with
  | nil =>
      left
      rfl
  | cons item items ih =>
      rw [getGopByLatencyLoop]
      split
      · right
        obtain heq | ⟨other, hother, heq⟩ := ih (item.index, toInt32 (lastest - item.timestamp))
        · exact ⟨item, List.mem_cons_self, heq⟩
        · exact ⟨other, List.mem_cons_of_mem _ hother, heq⟩
      · left
        rfl

/-- What is found is the index of a key frame. -/
theorem getGopByLatency_mem (g : GopMgr) (contentLatency : Int)
    (h : (g.getGopByLatency contentLatency).1 ≠ -1) :
  ∃ item ∈ g.gops, (g.getGopByLatency contentLatency).1 = item.index
  := by
  obtain heq | ⟨item, hitem, heq⟩ :=
    getGopByLatencyLoop_mem g.lastestTimestamp contentLatency g.gops.reverse (-1, 0)
  · exact absurd heq h
  · exact ⟨item, List.mem_reverse.mp hitem, heq⟩

/-- The key frames kept after a frame are those before it, and the frame. -/
theorem mem_gops_addFrame {g : GopMgr} {packet : Packet ε} {item : GopItemInfo}
    (h : item ∈ (g.addFrame packet).gops) :
  item ∈ g.gops ∨ item.index = packet.index
  := by
  rw [addFrame] at h
  dsimp only at h
  split at h
  · obtain hold | hnew := List.mem_append.mp h
    · left
      exact hold
    · right
      rw [List.mem_singleton.mp hnew]
  · left
    exact h

theorem mem_gops_clearExpriedGop {g : GopMgr} {minIdx : Int} {item : GopItemInfo}
    (h : item ∈ (g.clearExpriedGop minIdx).gops) :
  item ∈ g.gops
  := (List.mem_filter.mp h).1

end GopMgr

/-! ### Codec headers -/

structure CodecHeader (ε : Type) where
  videoHeader : Option (Packet ε) := none
  audioHeader : Option (Packet ε) := none
  metaData : Option (Packet ε) := none
  videoHeaderPackets : List (Packet ε) := []
  audioHeaderPackets : List (Packet ε) := []
  metaPackets : List (Packet ε) := []

namespace CodecHeader

variable {ε : Type}

/-- The last one of some packets up to an index, or the last of all. -/
def latestBefore (packets : List (Packet ε)) (last : Option (Packet ε)) (idx : Int) :
    Option (Packet ε) :=
  if idx ≤ 0 then
    last
  else
    (packets.reverse.find? fun pkt => pkt.index ≤ idx).or last

def getMeta (c : CodecHeader ε) (idx : Int) : Option (Packet ε) :=
  latestBefore c.metaPackets c.metaData idx

def getVideoHeader (c : CodecHeader ε) (idx : Int) : Option (Packet ε) :=
  latestBefore c.videoHeaderPackets c.videoHeader idx

def getAudioHeader (c : CodecHeader ε) (idx : Int) : Option (Packet ε) :=
  latestBefore c.audioHeaderPackets c.audioHeader idx

def saveMeta (c : CodecHeader ε) (packet : Packet ε) : CodecHeader ε :=
  { c with metaData := some packet, metaPackets := c.metaPackets ++ [packet] }

def saveAudioHeader (c : CodecHeader ε) (packet : Packet ε) : CodecHeader ε :=
  { c with audioHeader := some packet, audioHeaderPackets := c.audioHeaderPackets ++ [packet] }

def saveVideoHeader (c : CodecHeader ε) (packet : Packet ε) : CodecHeader ε :=
  { c with videoHeader := some packet, videoHeaderPackets := c.videoHeaderPackets ++ [packet] }

def parseCodecHeader (c : CodecHeader ε) (packet : Packet ε) : CodecHeader ε :=
  if packet.isMeta then
    c.saveMeta packet
  else if packet.isAudio then
    c.saveAudioHeader packet
  else if packet.isVideo then
    c.saveVideoHeader packet
  else
    c

end CodecHeader
