import Tmms.Library.FlvFile
import Tmms.Live.Frames

/-!
# FLV over HTTP

`FlvContext` writes the headers of the file and of its tags into a buffer of 512 bytes, and
keeps nodes for what is to be sent: parts of this buffer, and data of packets.  The buffer is
used from its start again when everything is sent.  A write beyond its end is an error of its
own here, for the sources do not look where the end is.

The extension of the timestamp is always zero.
-/

open Endian

/-- `kRtmpMsgTypeAudio`. -/
def kRtmpMsgTypeAudio : UInt8 := 8

/-- `kRtmpMsgTypeVideo`. -/
def kRtmpMsgTypeVideo : UInt8 := 9

/-- `kRtmpMsgTypeAMFMeta`. -/
def kRtmpMsgTypeAMFMeta : UInt8 := 18

/-- The size of `out_buffer_`. -/
def flvOutBufferSize : Nat := 512

def flvAudioOnlyHeader : List UInt8 := [0x46, 0x4c, 0x56, 0x01, 0x04, 0x00, 0x00, 0x00, 0x09]

def flvVideoOnlyHeader : List UInt8 := [0x46, 0x4c, 0x56, 0x01, 0x01, 0x00, 0x00, 0x00, 0x09]

def flvHeader : List UInt8 := [0x46, 0x4c, 0x56, 0x01, 0x05, 0x00, 0x00, 0x00, 0x09]

/-- A node of `bufs_`: a part of the buffer, or the data of a packet. -/
inductive FlvNode where
  | header (pos len : Nat)
  | data (bytes : List UInt8)
  deriving DecidableEq, Repr

/-- `outBuffer` is the buffer up to `current_`. -/
structure FlvContext where
  previousSize : UInt32 := 0
  outBuffer : List UInt8 := []
  bufs : List FlvNode := []
  deriving DecidableEq, Repr

namespace FlvContext

variable {ε : Type}

/-- Bytes are written at `current_`, and there is a node for them. -/
def writeHeader (c : FlvContext) (bytes : List UInt8) : Option FlvContext :=
  if c.outBuffer.length + bytes.length ≤ flvOutBufferSize then
    some { c with
      outBuffer := c.outBuffer ++ bytes
      bufs := c.bufs ++ [.header c.outBuffer.length bytes.length] }
  else
    none

/-- `WriteFlvHeader`. -/
def writeFlvHeader (c : FlvContext) (hasVideo hasAudio : Bool) : Option FlvContext :=
  c.writeHeader
    (if !hasAudio then flvVideoOnlyHeader
      else if !hasVideo then flvAudioOnlyHeader
      else flvHeader)

/-- `GetRtmpPacketType`. -/
def getRtmpPacketType (pkt : Packet ε) : UInt8 :=
  if pkt.isAudio then kRtmpMsgTypeAudio
  else if pkt.isVideo then kRtmpMsgTypeVideo
  else if pkt.isMeta then kRtmpMsgTypeAMFMeta
  else 0

/-- What `BuildFlvFrame` writes at `current_`. -/
def frameHeader (c : FlvContext) (pkt : Packet ε) (timestamp : UInt32) : List UInt8 :=
  beBytes 4 c.previousSize.toNat ++ [getRtmpPacketType pkt] ++ beBytes 3 pkt.size.toNat ++
    beBytes 3 timestamp.toNat ++ [0] ++ [0, 0, 0]

/-- `BuildFlvFrame`. -/
def buildFlvFrame (c : FlvContext) (pkt : Packet ε) (timestamp : UInt32) : Option FlvContext :=
  match c.writeHeader (c.frameHeader pkt timestamp) with
  | none => none
  | some c => some { c with previousSize := pkt.size + 11, bufs := c.bufs ++ [.data pkt.payload] }

/-- `WriteComplete`. -/
def writeComplete (c : FlvContext) : FlvContext := { c with outBuffer := [], bufs := [] }

/-- The bytes of a node. -/
def nodeBytes (c : FlvContext) : FlvNode → List UInt8
  | .header pos len => (c.outBuffer.drop pos).take len
  | .data bytes => bytes

/-- The bytes to be sent. -/
def bytes (c : FlvContext) : List UInt8 := c.bufs.flatMap c.nodeBytes

end FlvContext

/-- An audio, video or meta packet, with its timestamp. -/
structure FlvFrame (ε : Type) where
  packet : Packet ε
  timestamp : UInt32
  filled : packet.Filled
  media : packet.isAudio ∨ packet.isVideo ∨ packet.isMeta
  pos : 0 < packet.data.length
  short : packet.data.length < 2 ^ 24

/-- A frame is built, or everything so far has been sent. -/
inductive FlvEvent (ε : Type) where
  | frame (f : FlvFrame ε)
  | writeComplete

/-- A context, and what it has sent. -/
structure FlvSending where
  context : FlvContext := {}
  written : List UInt8 := []

namespace FlvSending

variable {ε : Type}

def step (s : FlvSending) : FlvEvent ε → Option FlvSending
  | .frame f => (s.context.buildFlvFrame f.packet f.timestamp).map ({ s with context := · })
  | .writeComplete =>
      some { context := s.context.writeComplete, written := s.written ++ s.context.bytes }

def run (s : FlvSending) : List (FlvEvent ε) → Option FlvSending
  | [] => some s
  | e :: es =>
    match s.step e with
    | none => none
    | some s => s.run es

/-- Everything that has been produced. -/
def produced (s : FlvSending) : List UInt8 := s.written ++ s.context.bytes

/-- The header is written, and then the events happen. -/
def start (hasVideo hasAudio : Bool) (es : List (FlvEvent ε)) : Option FlvSending :=
  match ({} : FlvContext).writeFlvHeader hasVideo hasAudio with
  | none => none
  | some c => run { context := c } es

end FlvSending

/-- The tag of a frame. -/
def FlvFrame.tag {ε : Type} (f : FlvFrame ε) : FlvFile.Tag where
  type := if f.packet.isAudio then 8 else if f.packet.isVideo then 9 else 18
  timestamp := f.timestamp
  data := f.packet.data

/-- The frames in events. -/
def framesOf {ε : Type} : List (FlvEvent ε) → List (FlvFrame ε)
  | [] => []
  | .frame f :: es => f :: framesOf es
  | .writeComplete :: es => framesOf es

/-- What is produced is a file with the tags of the frames. -/
def FormsFlvFile {ε : Type} (hasVideo hasAudio : Bool) (es : List (FlvEvent ε)) : Prop :=
  ∃ s, FlvSending.start hasVideo hasAudio es = some s ∧
    FlvFile.parse s.produced = some ((framesOf es).map FlvFrame.tag)

/-- The headers fit into the buffer, when some bytes of it are used. -/
def HeadersFit {ε : Type} : Nat → List (FlvEvent ε) → Prop
  | _, [] => True
  | used, .frame _ :: es => used + 15 ≤ flvOutBufferSize ∧ HeadersFit (used + 15) es
  | _, .writeComplete :: es => HeadersFit 0 es

/-! ### Headers and frames -/

/-- The tag that is written for a frame, with the lower 24 bits of its timestamp. -/
def FlvFrame.writtenTag {ε : Type} (f : FlvFrame ε) : FlvFile.Tag :=
  { f.tag with timestamp := .ofNat (f.timestamp.toNat % 2 ^ 24) }

theorem FlvFrame.size_eq {ε : Type} (f : FlvFrame ε) :
  f.packet.size.toNat = f.packet.data.length ∧ f.packet.payload = f.packet.data
  := by
  have hsize := f.filled.size_eq
  refine ⟨hsize, ?_⟩
  rw [Packet.payload, hsize, List.take_length]

/-- The type that is written is the one of the tag. -/
theorem FlvFrame.getRtmpPacketType_eq {ε : Type} (f : FlvFrame ε) :
  FlvContext.getRtmpPacketType f.packet = f.tag.type
  := by
  rw [FlvContext.getRtmpPacketType, FlvFrame.tag]
  split
  · rfl
  · split
    · rfl
    · next haudio hvideo =>
      rcases f.media with h | h | h
      · contradiction
      · contradiction
      · rw [if_pos h]
        rfl

theorem beBytes_three_mod (n : Nat) :
  beBytes 3 (n % 2 ^ 24) = beBytes 3 n
  := by
  have h0 : UInt8.ofNat (n % 2 ^ 24) = .ofNat n
    := by
    apply UInt8.toNat_inj.mp
    rw [UInt8.toNat_ofNat', UInt8.toNat_ofNat']
    omega
  have h1 : UInt8.ofNat (n % 2 ^ 24 / 256) = .ofNat (n / 256)
    := by
    apply UInt8.toNat_inj.mp
    rw [UInt8.toNat_ofNat', UInt8.toNat_ofNat']
    omega
  have h2 : UInt8.ofNat (n % 2 ^ 24 / 256 / 256) = .ofNat (n / 256 / 256)
    := by
    apply UInt8.toNat_inj.mp
    rw [UInt8.toNat_ofNat', UInt8.toNat_ofNat']
    omega
  rw [FlvFile.beBytes_three, FlvFile.beBytes_three, h0, h1, h2]

/-- The bytes of the tag that is written. -/
theorem FlvFrame.bytes_writtenTag {ε : Type} (f : FlvFrame ε) :
  f.writtenTag.bytes =
    [FlvContext.getRtmpPacketType f.packet] ++ beBytes 3 f.packet.size.toNat ++
      beBytes 3 f.timestamp.toNat ++ [0] ++ [0, 0, 0] ++ f.packet.payload
  := by
  obtain ⟨hsize, hpayload⟩ := f.size_eq
  have hlow : (UInt32.ofNat (f.timestamp.toNat % 2 ^ 24)).toNat = f.timestamp.toNat % 2 ^ 24
    := by
    rw [UInt32.toNat_ofNat_of_lt']
    change _ < 2 ^ 32
    omega
  have hnone : f.timestamp.toNat % 2 ^ 24 / 2 ^ 24 = 0 := by omega
  rw [FlvFile.Tag.bytes, f.getRtmpPacketType_eq, hsize, hpayload, FlvFrame.writtenTag]
  dsimp only
  rw [hlow, hnone, beBytes_three_mod]
  rfl

namespace FlvContext

variable {ε : Type} {c : FlvContext}

/-- The nodes for headers are parts of the buffer. -/
def Valid (c : FlvContext) : Prop :=
  ∀ pos len, .header pos len ∈ c.bufs → pos + len ≤ c.outBuffer.length

/-- A header that fits is to be sent behind the rest. -/
theorem writeHeader_eq (hvalid : c.Valid) {header : List UInt8}
    (hfits : c.outBuffer.length + header.length ≤ flvOutBufferSize) :
  ∃ c', c.writeHeader header = some c' ∧ c'.Valid ∧ c'.bytes = c.bytes ++ header ∧
    c'.outBuffer.length = c.outBuffer.length + header.length ∧
    c'.previousSize = c.previousSize
  := by
  refine ⟨_, if_pos hfits, ?_, ?_, List.length_append, rfl⟩
  · intro pos len hmem
    rcases List.mem_append.mp hmem with hold | hnew
    · have hle := hvalid pos len hold
      rw [List.length_append]
      omega
    · cases List.mem_singleton.mp hnew
      apply Nat.le_of_eq List.length_append.symm
  · have hsame : ∀ node ∈ c.bufs,
        nodeBytes { c with
          outBuffer := c.outBuffer ++ header
          bufs := c.bufs ++ [.header c.outBuffer.length header.length] } node =
            c.nodeBytes node
      := by
      intro node hnode
      cases node with
      | header pos len =>
          have hle := hvalid pos len hnode
          simp only [nodeBytes]
          rw [List.drop_append_of_le_length (by omega), List.take_append_of_le_length]
          rw [List.length_drop]
          omega
      | data bytes => rfl
    have hnew : nodeBytes { c with
        outBuffer := c.outBuffer ++ header
        bufs := c.bufs ++ [.header c.outBuffer.length header.length] }
          (.header c.outBuffer.length header.length) = header
      := by
      simp only [nodeBytes]
      rw [List.drop_left' rfl, List.take_length]
    rw [bytes, List.flatMap_append, List.flatMap_singleton, hnew, bytes]
    congr 1
    apply List.flatMap_congr hsame

theorem length_frameHeader (pkt : Packet ε) (timestamp : UInt32) :
  (c.frameHeader pkt timestamp).length = 15
  := by
  simp only [frameHeader, List.length_append, length_beBytes, List.length_cons, List.length_nil]

/-- A frame whose header fits is to be sent behind the rest. -/
theorem buildFlvFrame_eq (hvalid : c.Valid) (f : FlvFrame ε)
    (hfits : c.outBuffer.length + 15 ≤ flvOutBufferSize) :
  ∃ c', c.buildFlvFrame f.packet f.timestamp = some c' ∧ c'.Valid ∧
    c'.bytes = c.bytes ++ (beBytes 4 c.previousSize.toNat ++ f.writtenTag.bytes) ∧
    c'.outBuffer.length = c.outBuffer.length + 15 ∧
    c'.previousSize.toNat = f.writtenTag.size
  := by
  have hlen := @length_frameHeader ε c f.packet f.timestamp
  obtain ⟨d, hd, hdvalid, hdbytes, hdlen, -⟩ := writeHeader_eq hvalid (hlen.symm ▸ hfits)
  have hshort := f.short
  obtain ⟨hsize, -⟩ := f.size_eq
  refine ⟨_, by rw [buildFlvFrame, hd], ?_, ?_, by rw [hdlen, hlen], ?_⟩
  · intro pos len hmem
    rcases List.mem_append.mp hmem with hold | hnew
    · apply hdvalid pos len hold
    · cases List.mem_singleton.mp hnew
  · have hnodes : ∀ node ∈ d.bufs,
        nodeBytes { d with
          previousSize := f.packet.size + 11
          bufs := d.bufs ++ [.data f.packet.payload] } node = d.nodeBytes node
      := by
      intro node _
      cases node <;> rfl
    rw [bytes, List.flatMap_append, List.flatMap_singleton, List.flatMap_congr hnodes, ← bytes,
      hdbytes, f.bytes_writtenTag, frameHeader]
    simp only [nodeBytes, List.append_assoc]
  · change (f.packet.size + 11).toNat = 11 + f.packet.data.length
    rw [UInt32.toNat_add, hsize]
    change (_ + 11) % 2 ^ 32 = _
    omega

/-- A frame whose header does not fit is written beyond the end of the buffer. -/
theorem buildFlvFrame_eq_none (pkt : Packet ε) (timestamp : UInt32)
    (hfits : ¬ c.outBuffer.length + 15 ≤ flvOutBufferSize) :
  c.buildFlvFrame pkt timestamp = none
  := by
  rw [buildFlvFrame, writeHeader, length_frameHeader, if_neg hfits]

end FlvContext

/-! ### Runs -/

namespace FlvSending

variable {ε : Type} {s : FlvSending} {es : List (FlvEvent ε)}

/-- The frames whose headers fit are produced as tags. -/
theorem run_of_headersFit (hvalid : s.context.Valid)
    (hfits : HeadersFit s.context.outBuffer.length es) :
  ∃ s', s.run es = some s' ∧
    s'.produced = s.produced ++
      FlvFile.bodyBytes s.context.previousSize.toNat ((framesOf es).map FlvFrame.writtenTag)
  := by
  induction es generalizing s with
  | nil => exact ⟨s, rfl, (List.append_nil _).symm⟩
  | cons e es ih =>
      cases e with
      | frame f =>
          obtain ⟨hfit, hrest⟩ := hfits
          obtain ⟨c, hc, hcvalid, hcbytes, hclen, hcsize⟩ := FlvContext.buildFlvFrame_eq hvalid f hfit
          rw [← hclen] at hrest
          obtain ⟨s', hrun, hproduced⟩ := @ih { s with context := c } hcvalid hrest
          refine ⟨s', ?_, ?_⟩
          · rw [run, step, hc]
            apply hrun
          · rw [hproduced, produced, produced, hcbytes, hcsize]
            simp only [framesOf, List.map_cons, FlvFile.bodyBytes, List.append_assoc]
      | writeComplete =>
          have hempty : (s.context.writeComplete).Valid
            := by
            intro pos len hmem
            cases hmem
          obtain ⟨s', hrun, hproduced⟩ :=
            @ih ⟨s.context.writeComplete, s.written ++ s.context.bytes⟩ hempty hfits
          refine ⟨s', hrun, ?_⟩
          rw [hproduced, produced, produced]
          change s.written ++ s.context.bytes ++ [] ++ _ = _
          rw [List.append_nil]
          rfl

/-- If a header does not fit, the run goes wrong. -/
theorem run_of_not_headersFit (hvalid : s.context.Valid)
    (hfits : ¬ HeadersFit s.context.outBuffer.length es) :
  s.run es = none
  := by
  induction es generalizing s with
  | nil => exact absurd trivial hfits
  | cons e es ih =>
      cases e with
      | frame f =>
          by_cases hfit : s.context.outBuffer.length + 15 ≤ flvOutBufferSize
          · obtain ⟨c, hc, hcvalid, -, hclen, -⟩ := FlvContext.buildFlvFrame_eq hvalid f hfit
            have hrest : ¬ HeadersFit c.outBuffer.length es
              := by
              rw [hclen]
              intro hrest
              apply hfits ⟨hfit, hrest⟩
            rw [run, step, hc]
            apply @ih { s with context := c } hcvalid hrest
          · rw [run, step, FlvContext.buildFlvFrame_eq_none _ _ hfit]
            rfl
      | writeComplete =>
          apply @ih ⟨s.context.writeComplete, s.written ++ s.context.bytes⟩
          · intro pos len hmem
            cases hmem
          · apply hfits

/-- The header of the file is one of the format. -/
theorem writeFlvHeader_eq (hasVideo hasAudio : Bool) :
  ∃ c flags, ({} : FlvContext).writeFlvHeader hasVideo hasAudio = some c ∧ c.Valid ∧
    c.bytes = FlvFile.header flags ∧ flags &&& 0xFA = 0 ∧ c.outBuffer.length = 9 ∧
    c.previousSize = 0
  := by
  have hempty : ({} : FlvContext).Valid
    := by
    intro pos len hmem
    cases hmem
  cases hasAudio with
  | false =>
      obtain ⟨c, hc, hvalid, hbytes, hlen, hsize⟩ :=
        FlvContext.writeHeader_eq hempty (by decide : 0 + flvVideoOnlyHeader.length ≤ 512)
      exact ⟨c, 1, hc, hvalid, hbytes, by decide, hlen, hsize⟩
  | true =>
      cases hasVideo with
      | false =>
          obtain ⟨c, hc, hvalid, hbytes, hlen, hsize⟩ :=
            FlvContext.writeHeader_eq hempty (by decide : 0 + flvAudioOnlyHeader.length ≤ 512)
          exact ⟨c, 4, hc, hvalid, hbytes, by decide, hlen, hsize⟩
      | true =>
          obtain ⟨c, hc, hvalid, hbytes, hlen, hsize⟩ :=
            FlvContext.writeHeader_eq hempty (by decide : 0 + flvHeader.length ≤ 512)
          exact ⟨c, 5, hc, hvalid, hbytes, by decide, hlen, hsize⟩

end FlvSending

/-- A tag is written as it should be exactly if its timestamp has 24 bits. -/
theorem FlvFrame.writtenTag_eq_iff {ε : Type} (f : FlvFrame ε) :
  f.writtenTag = f.tag ↔ f.timestamp.toNat < 2 ^ 24
  := by
  have hlow : (UInt32.ofNat (f.timestamp.toNat % 2 ^ 24)).toNat = f.timestamp.toNat % 2 ^ 24
    := by
    rw [UInt32.toNat_ofNat_of_lt']
    change _ < 2 ^ 32
    omega
  have htime : f.writtenTag = f.tag ↔ UInt32.ofNat (f.timestamp.toNat % 2 ^ 24) = f.timestamp
    := by
    constructor
    · intro h
      apply congrArg FlvFile.Tag.timestamp h
    · intro h
      rw [FlvFrame.writtenTag, h]
      rfl
  rw [htime, ← UInt32.toNat_inj, hlow]
  omega

/-- What is produced is a file with the tags that are written, if the headers fit. -/
theorem parse_start {ε : Type} (hasVideo hasAudio : Bool) {es : List (FlvEvent ε)}
    (hfits : HeadersFit 9 es) :
  ∃ s, FlvSending.start hasVideo hasAudio es = some s ∧
    FlvFile.parse s.produced = some ((framesOf es).map FlvFrame.writtenTag)
  := by
  obtain ⟨c, flags, hc, hvalid, hbytes, hflags, hlen, hsize⟩ :=
    FlvSending.writeFlvHeader_eq hasVideo hasAudio
  rw [← hlen] at hfits
  obtain ⟨s, hrun, hproduced⟩ := @FlvSending.run_of_headersFit ε { context := c } es hvalid hfits
  refine ⟨s, by rw [FlvSending.start, hc]; exact hrun, ?_⟩
  rw [hproduced, FlvSending.produced, hbytes, hsize]
  apply FlvFile.parse_header_append hflags
  intro t ht
  obtain ⟨f, -, rfl⟩ := List.mem_map.mp ht
  apply f.short

/-- What is produced is a file with the tags of the frames exactly if the timestamps have 24 bits
and the headers fit. -/
theorem formsFlvFile_iff {ε : Type} (hasVideo hasAudio : Bool) (es : List (FlvEvent ε)) :
  FormsFlvFile hasVideo hasAudio es ↔
    (∀ f ∈ framesOf es, f.timestamp.toNat < 2 ^ 24) ∧ HeadersFit 9 es
  := by
  by_cases hfits : HeadersFit 9 es
  · obtain ⟨s, hs, hparse⟩ := parse_start hasVideo hasAudio hfits
    have hforms : FormsFlvFile hasVideo hasAudio es ↔
        (framesOf es).map FlvFrame.writtenTag = (framesOf es).map FlvFrame.tag
      := by
      rw [FormsFlvFile, hs, ← Option.some_inj, ← hparse]
      constructor
      · rintro ⟨s', hs', h⟩
        cases hs'
        apply h
      · intro h
        exact ⟨s, rfl, h⟩
    rw [hforms, and_iff_left hfits, List.map_inj_left]
    constructor
    · intro h f hf
      apply f.writtenTag_eq_iff.mp (h f hf)
    · intro h f hf
      apply f.writtenTag_eq_iff.mpr (h f hf)
  · obtain ⟨c, flags, hc, hvalid, -, -, hlen, -⟩ := FlvSending.writeFlvHeader_eq hasVideo hasAudio
    apply iff_of_false
    · rintro ⟨s, hs, -⟩
      rw [← hlen] at hfits
      have hrun := @FlvSending.run_of_not_headersFit ε { context := c } es hvalid hfits
      rw [FlvSending.start, hc] at hs
      cases hs.symm.trans hrun
    · rintro ⟨-, h⟩
      contradiction

/-- An audio packet of one byte, after 2^24 milliseconds. -/
def lateFrame : FlvFrame Unit where
  packet := { type := kPacketTypeAudio, size := 1, capacity := 1, data := [0xAF], ext := () }
  timestamp := 0x1000000
  filled := ⟨rfl, Nat.le_refl _⟩
  media := .inl rfl
  pos := Nat.one_pos
  short := by decide

theorem not_formsFlvFile_lateFrame :
  ¬ FormsFlvFile true true [.frame lateFrame]
  := by
  rintro ⟨s, hs, hparse⟩
  obtain ⟨s', hs', hparse'⟩ :=
    @parse_start Unit true true [.frame lateFrame] ⟨by decide, trivial⟩
  cases hs.symm.trans hs'
  have htags := Option.some.inj (hparse.symm.trans hparse')
  exact absurd (List.head_eq_of_cons_eq htags) (by decide)
