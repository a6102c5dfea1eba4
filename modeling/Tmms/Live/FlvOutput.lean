import Tmms.Live.FlvPlayer
import Tmms.Live.StreamPackets

/-!
# What a player of FLV receives

Between the frames a stream hands out and the bytes that arrive at a player stand the queue of
frames at hand, the timestamps of the player, the buffer for headers that is used again and again,
the nodes that point there, and a connection that writes what the socket takes.  `FlvListener` is
a player with the other end of its connection.
-/

open Runs Endian

variable {ε : Type}

/-! ### Tags -/

/-- The size of a packet counts its data, and can be written in a tag. -/
structure Packet.FitsTag (p : Packet ε) : Prop where
  filled : p.Filled
  short : p.data.length < 2 ^ 24

/-- The tag a packet belongs in. -/
def flvTag (packet : Packet ε) (timestamp : UInt32) : FlvFile.Tag where
  type := FlvContext.getRtmpPacketType packet
  timestamp := timestamp
  data := packet.payload

/-- The tags of packets with their timestamps. -/
def flvTags (frames : List (Packet ε × UInt32)) : List FlvFile.Tag :=
  frames.map fun f => flvTag f.1 f.2

/-- The tag a packet is sent in, with the lower 24 bits of its timestamp. -/
def writtenTag (packet : Packet ε) (timestamp : UInt32) : FlvFile.Tag :=
  { flvTag packet timestamp with timestamp := .ofNat (timestamp.toNat % 2 ^ 24) }

/-- The tags packets with their timestamps are sent in. -/
def writtenTags (frames : List (Packet ε × UInt32)) : List FlvFile.Tag :=
  frames.map fun f => writtenTag f.1 f.2

/-- What a player gives what it sends as timestamps: nothing for headers, and what its corrector
says for frames. -/
def stamps : TimeCorrector → List (Packet ε × Bool) →
    List (Packet ε × UInt32) × TimeCorrector
  | c, [] => ([], c)
  | c, (packet, isHeader) :: items =>
      let r := if isHeader then (0, c) else c.correctTimestamp packet
      let rest := stamps r.2 items
      ((packet, r.1) :: rest.1, rest.2)

/-- A file with the tags of what was sent. -/
def flvFile (flags : UInt8) (sent : List (Packet ε × Bool)) : List UInt8 :=
  FlvFile.header flags ++ FlvFile.bodyBytes 0 (flvTags (stamps {} sent).1)

/-- The file that is written for what was sent. -/
def writtenFile (flags : UInt8) (sent : List (Packet ε × Bool)) : List UInt8 :=
  FlvFile.header flags ++ FlvFile.bodyBytes 0 (writtenTags (stamps {} sent).1)

namespace Packet.FitsTag

variable {p : Packet ε}

theorem length_payload (h : p.FitsTag) :
  p.payload.length = p.data.length
  := by
  rw [payload, h.filled.size_eq, List.take_length]

/-- A stream changes the timestamp, the number and the type of a packet only. -/
theorem stamp (h : p.FitsTag) (s : LiveStream ε) :
  (s.stamp p).FitsTag
  := by
  rw [LiveStream.stamp]
  dsimp only
  split
  · exact ⟨⟨h.filled.size_eq, h.filled.size_le⟩, h.short⟩
  · exact ⟨⟨h.filled.size_eq, h.filled.size_le⟩, h.short⟩

/-- The bytes of the tag of a packet. -/
theorem bytes_writtenTag (h : p.FitsTag) (timestamp : UInt32) :
  (writtenTag p timestamp).bytes =
    [FlvContext.getRtmpPacketType p] ++ beBytes 3 p.size.toNat ++ beBytes 3 timestamp.toNat ++
      [0] ++ [0, 0, 0] ++ p.payload
  := by
  have hlow : (UInt32.ofNat (timestamp.toNat % 2 ^ 24)).toNat = timestamp.toNat % 2 ^ 24
    := by
    rw [UInt32.toNat_ofNat_of_lt']
    change _ < 2 ^ 32
    omega
  have hnone : timestamp.toNat % 2 ^ 24 / 2 ^ 24 = 0 := by omega
  rw [FlvFile.Tag.bytes, writtenTag, flvTag]
  dsimp only
  rw [hlow, hnone, beBytes_three_mod, h.length_payload, h.filled.size_eq]
  rfl

end Packet.FitsTag

theorem stamps_append (c : TimeCorrector) (items items' : List (Packet ε × Bool)) :
  stamps c (items ++ items') =
    ((stamps c items).1 ++ (stamps (stamps c items).2 items').1,
      (stamps (stamps c items).2 items').2)
  := by
  induction items generalizing c with
  | nil => rfl
  | cons item items ih =>
      obtain ⟨packet, isHeader⟩ := item
      rw [List.cons_append, stamps, stamps]
      dsimp only
      rw [ih]
      rfl

theorem writtenTags_append (frames frames' : List (Packet ε × UInt32)) :
  writtenTags (frames ++ frames') = writtenTags frames ++ writtenTags frames'
  := List.map_append

/-- Tags are written as they belong when no timestamp needs the upper bits. -/
theorem writtenTags_of_lt {frames : List (Packet ε × UInt32)}
    (h : ∀ frame ∈ frames, frame.2 < 0x1000000) :
  writtenTags frames = flvTags frames
  := by
  apply List.map_congr_left
  intro frame hframe
  have hlow : frame.2.toNat % 2 ^ 24 = frame.2.toNat := Nat.mod_eq_of_lt (h frame hframe)
  rw [writtenTag, hlow, UInt32.ofNat_toNat]
  rfl

/-- More is sent behind what was sent. -/
theorem writtenFile_append (flags : UInt8) (sent items : List (Packet ε × Bool)) :
  writtenFile flags (sent ++ items) =
    writtenFile flags sent ++
      FlvFile.bodyBytes (FlvFile.lastSize 0 (writtenTags (stamps {} sent).1))
        (writtenTags (stamps (stamps {} sent).2 items).1)
  := by
  rw [writtenFile, stamps_append]
  dsimp only
  rw [writtenTags_append, FlvFile.bodyBytes_append, writtenFile, List.append_assoc]

/-! ### Contexts -/

namespace FlvContext

variable {c : FlvContext}

/-- A frame whose header fits is to be sent behind the rest. -/
theorem exists_buildTag (hvalid : c.Valid) {packet : Packet ε} (h : packet.FitsTag)
    (timestamp : UInt32) (hfits : c.outBuffer.length + 15 ≤ flvOutBufferSize) :
  ∃ c', c.buildFlvFrame packet timestamp = some c' ∧ c'.Valid ∧
    c'.bytes = c.bytes ++ (beBytes 4 c.previousSize.toNat ++ (writtenTag packet timestamp).bytes) ∧
    c'.outBuffer.length = c.outBuffer.length + 15 ∧
    c'.previousSize.toNat = (writtenTag packet timestamp).size
  := by
  have hlen := @length_frameHeader ε c packet timestamp
  obtain ⟨d, hd, hdvalid, hdbytes, hdlen, -⟩ := writeHeader_eq hvalid (hlen.symm ▸ hfits)
  refine ⟨_, by rw [buildFlvFrame, hd], ?_, ?_, by rw [hdlen, hlen], ?_⟩
  · intro pos len hmem
    rcases List.mem_append.mp hmem with hold | hnew
    · apply hdvalid pos len hold
    · cases List.mem_singleton.mp hnew
  · have hnodes : ∀ node ∈ d.bufs,
        nodeBytes { d with
          previousSize := packet.size + 11
          bufs := d.bufs ++ [.data packet.payload] } node = d.nodeBytes node
      := by
      intro node _
      cases node <;> rfl
    rw [bytes, List.flatMap_append, List.flatMap_singleton, List.flatMap_congr hnodes, ← bytes,
      hdbytes, h.bytes_writtenTag, frameHeader]
    simp only [nodeBytes, List.append_assoc]
  · have hshort := h.short
    have hsize := h.filled.size_eq
    rw [FlvFile.Tag.size, writtenTag, flvTag, h.length_payload]
    change (packet.size + 11).toNat = _
    rw [UInt32.toNat_add, hsize]
    change (_ + 11) % 2 ^ 32 = _
    omega

/-- The header of a file is to be sent behind the rest. -/
theorem exists_writeFileHeader (hvalid : c.Valid) (hasVideo hasAudio : Bool)
    (hfits : c.outBuffer.length + 9 ≤ flvOutBufferSize) :
  ∃ c' flags, c.writeFlvHeader hasVideo hasAudio = some c' ∧ c'.Valid ∧
    c'.bytes = c.bytes ++ FlvFile.header flags ∧ flags &&& 0xFA = 0 ∧
    c'.previousSize = c.previousSize
  := by
  have hwrite : ∀ flags, flags &&& 0xFA = 0 →
      ∃ c', c.writeHeader (FlvFile.header flags) = some c' ∧ c'.Valid ∧
        c'.bytes = c.bytes ++ FlvFile.header flags ∧ flags &&& 0xFA = 0 ∧
        c'.previousSize = c.previousSize
    := by
    intro flags hflags
    have hlength : c.outBuffer.length + (FlvFile.header flags).length ≤ flvOutBufferSize := hfits
    obtain ⟨c', hc', hvalid', hbytes, -, hprevious⟩ := writeHeader_eq hvalid hlength
    exact ⟨c', hc', hvalid', hbytes, hflags, hprevious⟩
  cases hasAudio with
  | false =>
      obtain ⟨c', h⟩ := hwrite 1 (by decide)
      exact ⟨c', 1, h⟩
  | true =>
      cases hasVideo with
      | false =>
          obtain ⟨c', h⟩ := hwrite 4 (by decide)
          exact ⟨c', 4, h⟩
      | true =>
          obtain ⟨c', h⟩ := hwrite 5 (by decide)
          exact ⟨c', 5, h⟩

end FlvContext

/-! ### Nodes on the connection -/

namespace FlvNode

/-- The nodes for headers are parts of the buffer of a context. -/
def Within (c : FlvContext) (nodes : List FlvNode) : Prop :=
  ∀ pos len, .header pos len ∈ nodes → pos + len ≤ c.outBuffer.length

/-- The bytes of nodes that are still to be sent. -/
def pendingBytes (c : FlvContext) (nodes : List FlvNode) : List UInt8 :=
  nodes.flatMap c.nodeBytes

variable {c : FlvContext}

theorem length_nodeBytes {node : FlvNode} (h : Within c [node]) :
  (c.nodeBytes node).length = node.size
  := by
  cases node with
  | data bytes => rfl
  | header pos len =>
      have hle := h pos len (List.mem_singleton_self _)
      rw [FlvContext.nodeBytes, List.length_take, List.length_drop, size]
      omega

theorem nodeBytes_skip {n : Nat} (node : FlvNode) (h : n ≤ node.size) :
  c.nodeBytes (node.skip n) = (c.nodeBytes node).drop n
  := by
  cases node with
  | data bytes => rfl
  | header pos len =>
      rw [skip, FlvContext.nodeBytes, FlvContext.nodeBytes, List.drop_take, List.drop_drop]

theorem Within.tail {node : FlvNode} {nodes : List FlvNode} (h : Within c (node :: nodes)) :
  Within c nodes
  := fun pos len hmem => h pos len (List.mem_cons_of_mem _ hmem)

theorem Within.head {node : FlvNode} {nodes : List FlvNode} (h : Within c (node :: nodes)) :
  Within c [node]
  := by
  intro pos len hmem
  apply h
  rw [List.mem_singleton.mp hmem]
  apply List.mem_cons_self

/-- What was written is taken from the front. -/
theorem pendingBytes_advance {nodes : List FlvNode} (h : Within c nodes) (ret : Nat) :
  pendingBytes c (advance ret nodes) = (pendingBytes c nodes).drop ret ∧
    Within c (advance ret nodes)
  := by
  induction nodes generalizing ret with
  | nil => exact ⟨List.drop_nil.symm, h⟩
  | cons node nodes ih =>
      have hlength := length_nodeBytes h.head
      rw [advance]
      split
      next hzero =>
        rw [hzero]
        exact ⟨rfl, h⟩
      next =>
        rw [pendingBytes, pendingBytes, List.flatMap_cons]
        split
        next hpart =>
          refine ⟨?_, ?_⟩
          · rw [List.flatMap_cons, nodeBytes_skip node (Nat.le_of_lt hpart),
              List.drop_append_of_le_length]
            rw [hlength]
            exact Nat.le_of_lt hpart
          · intro pos len hmem
            rcases List.mem_cons.mp hmem with heq | hrest
            · cases node with
              | data bytes => cases heq
              | header pos' len' =>
                  cases heq
                  have hle := h pos' len' List.mem_cons_self
                  rw [size] at hpart
                  omega
            · apply h.tail pos len hrest
        next hwhole =>
          obtain ⟨hbytes, hwithin⟩ := ih h.tail (ret - node.size)
          have hnone : (c.nodeBytes node).drop ret = []
            := by
            apply List.drop_of_length_le
            rw [hlength]
            omega
          refine ⟨?_, hwithin⟩
          rw [← pendingBytes, ← pendingBytes, hbytes, List.drop_append, hlength, hnone,
            List.nil_append]

end FlvNode

/-! ### Building tags -/

/-- The tags of some packets have been built in a context. -/
structure FlvContext.Built (c : FlvContext) (t : TimeCorrector) (items : List (Packet ε × Bool))
    (c' : FlvContext) : Prop where
  valid : c'.Valid
  bytes : c'.bytes = c.bytes ++
    FlvFile.bodyBytes c.previousSize.toNat (writtenTags (stamps t items).1)
  length : c'.outBuffer.length = c.outBuffer.length + 15 * items.length
  previous : c'.previousSize.toNat =
    FlvFile.lastSize c.previousSize.toNat (writtenTags (stamps t items).1)

namespace FlvPlayer

open FlvContext (Built)

variable {p q : FlvPlayer ε}

/-- A header is built. -/
theorem exists_built_header (hdata : FlvNode.OnlyData p.ioVecList) (hvalid : p.context.Valid)
    {packet : Packet ε} (h : packet.FitsTag)
    (hfits : p.context.outBuffer.length + 15 ≤ flvOutBufferSize) :
  ∃ c, p.write (·.buildFlvFrame packet 0) = some { p with context := c } ∧
    Built p.context p.timeCorrector [(packet, true)] c
  := by
  obtain ⟨c, hc, hcvalid, hbytes, hlength, hprevious⟩ :=
    FlvContext.exists_buildTag hvalid h 0 hfits
  refine ⟨c, write_eq hdata _ hc, hcvalid, ?_, hlength, hprevious⟩
  rw [hbytes, ← FlvFile.bodyBytes_singleton]
  rfl

/-- A frame is built. -/
theorem exists_built_frame (hdata : FlvNode.OnlyData p.ioVecList) (hvalid : p.context.Valid)
    {packet : Packet ε} (h : packet.FitsTag)
    (hfits : p.context.outBuffer.length + 15 ≤ flvOutBufferSize) :
  ∃ c, p.buildFrame packet =
      some { p with
        context := c
        timeCorrector := (stamps p.timeCorrector [(packet, false)]).2 } ∧
    Built p.context p.timeCorrector [(packet, false)] c
  := by
  obtain ⟨c, hc, hcvalid, hbytes, hlength, hprevious⟩ :=
    FlvContext.exists_buildTag hvalid h (p.timeCorrector.correctTimestamp packet).1 hfits
  refine ⟨c, ?_, hcvalid, ?_, hlength, hprevious⟩
  · rw [buildFrame, write_eq]
    · rfl
    · exact hdata
    · exact hc
  · rw [hbytes, ← FlvFile.bodyBytes_singleton]
    rfl

/-- Frames are built one after the other. -/
theorem exists_built_frames (hdata : FlvNode.OnlyData p.ioVecList) (hvalid : p.context.Valid)
    {packets : List (Packet ε)} (h : ∀ packet ∈ packets, packet.FitsTag)
    (hfits : p.context.outBuffer.length + 15 * packets.length ≤ flvOutBufferSize) :
  ∃ c, pushFramesLoop packets p =
      some { p with
        context := c
        timeCorrector := (stamps p.timeCorrector (packets.map (·, false))).2 } ∧
    Built p.context p.timeCorrector (packets.map (·, false)) c
  := by
  induction packets generalizing p with
  | nil => exact ⟨p.context, rfl, hvalid, (List.append_nil _).symm, rfl, rfl⟩
  | cons packet packets ih =>
      obtain ⟨hpacket, hpackets⟩ := List.forall_mem_cons.mp h
      rw [List.length_cons] at hfits
      obtain ⟨c, hc, hbuilt⟩ := exists_built_frame hdata hvalid hpacket (by omega)
      have hlength := hbuilt.length
      rw [List.length_singleton] at hlength
      obtain ⟨c', hloop, hrest⟩ := @ih { p with
        context := c
        timeCorrector := (stamps p.timeCorrector [(packet, false)]).2 } hdata hbuilt.valid hpackets
        (by dsimp only; omega)
      refine ⟨c', ?_, hrest.valid, ?_, ?_, ?_⟩
      · rw [pushFramesLoop, hc]
        exact hloop
      · rw [hrest.bytes, hbuilt.bytes, hbuilt.previous, List.append_assoc,
          ← FlvFile.bodyBytes_append]
        rfl
      · rw [hrest.length, List.map_cons, List.length_cons]
        dsimp only
        omega
      · rw [hrest.previous]
        dsimp only
        rw [hbuilt.previous]
        rfl

/-! ### Posting frames -/

/-- What `GetFrames` hands out while frames are posted. -/
def handedBy (p : FlvPlayer ε) (elapsed : UInt64) : List (Packet ε × Bool) :=
  if p.stream.ready && p.stream.hasMedia && p.httpHeaderSent && !LiveStream.pending p.user then
    (p.stream.getFrames elapsed p.user).atHand
  else
    []

/-- What posting frames does to a player that has sent the header: it takes what is handed out,
and sends some of what is at hand if it is not sending. -/
inductive Posted (p : FlvPlayer ε) (handed : List (Packet ε × Bool)) : FlvPlayer ε → Prop where
  | kept (user : PlayerUser ε) (holds : user.Holds Packet.FitsTag)
      (atHand : p.user.atHand ++ handed = user.atHand) :
      Posted p handed { p with user := user }
  | sent (items : List (Packet ε × Bool)) (user : PlayerUser ε) (c : FlvContext)
      (holds : user.Holds Packet.FitsTag) (fits : ∀ item ∈ items, item.1.FitsTag)
      (atHand : p.user.atHand ++ handed = items ++ user.atHand)
      (idle : p.sending = false) (header : p.httpHeaderSent = true)
      (built : Built p.context p.timeCorrector items c) :
      Posted p handed (FlvPlayer.send { p with
        user := user
        context := c
        timeCorrector := (stamps p.timeCorrector items).2 })

theorem onWrite_of_open (h : ¬p.closed = true) (ret : Nat) (elapsed : UInt64) :
  p.onWrite ret elapsed =
    if (FlvNode.advance ret p.ioVecList).isEmpty then
      FlvPlayer.postFrames { p with
        ioVecList := FlvNode.advance ret p.ioVecList
        sending := false
        context := p.context.writeComplete } elapsed
    else
      some { p with ioVecList := FlvNode.advance ret p.ioVecList }
  := if_neg h

theorem send_user (p : FlvPlayer ε) (user : PlayerUser ε) :
  { p.send with user := user } = FlvPlayer.send { p with user := user }
  := by
  rw [send, send]
  dsimp only
  split <;> rfl

/-- A header at hand is pushed, or kept while something is being sent. -/
theorem posted_header (h : p.Intact) (hheader : p.httpHeaderSent = true)
    (hvalid : p.sending = false → p.context.Valid) {packet : Packet ε} (hpacket : packet.FitsTag)
    {user : PlayerUser ε} {handed : List (Packet ε × Bool)}
    {take : PlayerUser ε → PlayerUser ε} (htake : (take user).Holds Packet.FitsTag)
    (hhanded : p.user.atHand ++ handed = user.atHand)
    (hatHand : user.atHand = (packet, true) :: (take user).atHand)
    (huser : user.Holds Packet.FitsTag)
    (hq : (FlvPlayer.pushFrame { p with user := user } packet true).map (taken take) = some q) :
  Posted p handed q
  := by
  rw [pushFrame] at hq
  split at hq
  next =>
    obtain rfl := Option.some.inj hq
    exact .kept user huser hhanded
  next hsending =>
    rw [Bool.not_eq_true] at hsending
    obtain ⟨c, hc, hbuilt⟩ := exists_built_header (p := { p with user := user })
      (h.onlyData hsending) (hvalid hsending) hpacket (by
        dsimp only
        rw [h.unused hsending]
        decide)
    rw [if_pos rfl, hc] at hq
    obtain rfl := Option.some.inj hq
    have hfits : ∀ item ∈ [(packet, true)], item.1.FitsTag
      := List.forall_mem_singleton.mpr hpacket
    have hsent := Posted.sent [(packet, true)] (take user) c htake hfits (hhanded.trans hatHand)
      hsending hheader hbuilt
    rw [taken, if_pos rfl, send_user]
    dsimp only
    rw [(send_frame _).2.1]
    exact hsent

/-- The frames at hand are pushed, or kept while something is being sent. -/
theorem posted_frames (h : p.Intact) (hheader : p.httpHeaderSent = true)
    (hvalid : p.sending = false → p.context.Valid) {user : PlayerUser ε}
    {handed : List (Packet ε × Bool)} (huser : user.Holds Packet.FitsTag)
    (hfew : user.outFrames.length ≤ 10) (hhanded : p.user.atHand ++ handed = user.atHand)
    (hatHand : user.atHand = user.outFrames.map (·, false) ++
      PlayerUser.atHand { user with outFrames := [] })
    (hq : (FlvPlayer.pushFrames { p with user := user } user.outFrames).map
      (taken ({ · with outFrames := [] })) = some q) :
  Posted p handed q
  := by
  rw [pushFrames] at hq
  split at hq
  next =>
    obtain rfl := Option.some.inj hq
    exact .kept user huser hhanded
  next hsending =>
    rw [Bool.not_eq_true] at hsending
    obtain ⟨c, hc, hbuilt⟩ := exists_built_frames (p := { p with user := user })
      (h.onlyData hsending) (hvalid hsending) huser.outFrames (by
        dsimp only
        rw [h.unused hsending, List.length_nil, flvOutBufferSize]
        omega)
    rw [hc] at hq
    obtain rfl := Option.some.inj hq
    have hrest : PlayerUser.Holds Packet.FitsTag { user with outFrames := [] }
      := { huser with outFrames := fun packet hmem => absurd hmem List.not_mem_nil }
    have hfits : ∀ item ∈ user.outFrames.map (·, false), item.1.FitsTag
      := List.forall_mem_map.mpr huser.outFrames
    have hsent := Posted.sent (user.outFrames.map (·, false)) { user with outFrames := [] } c hrest
      hfits (hhanded.trans hatHand) hsending hheader hbuilt
    rw [taken, if_pos rfl, send_user]
    dsimp only
    rw [(send_frame _).2.1]
    exact hsent

/-- Posting frames takes what is handed out, and sends some of what is at hand; or it sends the
header. -/
theorem posted_postFrames (h : p.Intact) (hstream : p.stream.Holds Packet.FitsTag)
    (hu : p.user.Holds Packet.FitsTag) (hvalid : p.sending = false → p.context.Valid)
    {elapsed : UInt64} (hq : p.postFrames elapsed = some q) :
  Posted p (p.handedBy elapsed) q ∨
    (p.httpHeaderSent = false ∧ p.handedBy elapsed = [] ∧ p.pushFlvHttpHeader = some q)
  := by
  rw [postFrames] at hq
  rw [handedBy]
  split at hq
  next hnot =>
    left
    obtain rfl := Option.some.inj hq
    rw [if_neg]
    · exact .kept p.user hu (List.append_nil _)
    · intro hready
      rw [Bool.and_eq_true, Bool.and_eq_true, Bool.and_eq_true] at hready
      rw [hready.1.1.1, hready.1.1.2] at hnot
      exact absurd hnot Bool.false_ne_true
  next hready =>
    split at hq
    next hheader =>
      right
      rw [Bool.not_eq_true'] at hheader
      rw [hheader, Bool.and_false, Bool.false_and]
      exact ⟨rfl, rfl, hq⟩
    next hheader =>
      left
      rw [Bool.not_eq_true', Bool.not_eq_false] at hheader
      have hgot := hstream.getFrames hu elapsed
      have hfew := p.stream.length_getFrames elapsed h.few
      have hhanded : p.user.atHand ++
          (if p.stream.ready && p.stream.hasMedia && p.httpHeaderSent &&
              !LiveStream.pending p.user then
            (p.stream.getFrames elapsed p.user).atHand
          else
            []) = (p.stream.getFrames elapsed p.user).atHand
        := by
        have hopen : (p.stream.ready && p.stream.hasMedia) = true
          := by
          rw [Bool.not_eq_true, Bool.or_eq_false_iff, Bool.not_eq_false', Bool.not_eq_false']
            at hready
          rw [hready.1, hready.2]
          rfl
        rw [hopen, hheader]
        cases hpending : LiveStream.pending p.user with
        | false =>
            rw [PlayerUser.pending_eq_false_iff.mp hpending]
            rfl
        | true =>
            rw [LiveStream.getFrames_of_pending elapsed hpending]
            apply List.append_nil
      revert hgot hfew hhanded hq
      generalize p.stream.getFrames elapsed p.user = user
      intro hq hgot hfew hhanded
      dsimp only at hq
      split at hq
      next packet hmeta =>
        apply posted_header h hheader hvalid (hgot.metaData _ hmeta) _ hhanded _ hgot hq
        · refine { hgot with metaData := ?_ }
          rintro _ ⟨⟩
        · rw [PlayerUser.atHand, PlayerUser.atHand, hmeta]
          rfl
      next packet hmeta haudio =>
        apply posted_header h hheader hvalid (hgot.audioHeader _ haudio) _ hhanded _ hgot hq
        · refine { hgot with audioHeader := ?_ }
          rintro _ ⟨⟩
        · rw [PlayerUser.atHand, PlayerUser.atHand, hmeta, haudio]
          rfl
      next packet hmeta haudio hvideo =>
        apply posted_header h hheader hvalid (hgot.videoHeader _ hvideo) _ hhanded _ hgot hq
        · refine { hgot with videoHeader := ?_ }
          rintro _ ⟨⟩
        · rw [PlayerUser.atHand, PlayerUser.atHand, hmeta, haudio, hvideo]
          rfl
      next hmeta haudio hvideo =>
        split at hq
        next =>
          obtain rfl := Option.some.inj hq
          exact .kept user hgot hhanded
        next =>
          apply posted_frames h hheader hvalid hgot hfew hhanded _ hq
          rw [PlayerUser.atHand, PlayerUser.atHand, hmeta, haudio, hvideo]
          exact (List.append_nil _).symm

end FlvPlayer

/-! ### At the other end -/

/-- A player, what has arrived at the other end of its connection, and what `GetFrames` has handed
out. -/
structure FlvListener (ε : Type) where
  player : FlvPlayer ε
  received : List UInt8 := []
  handed : List (Packet ε × Bool) := []

namespace FlvListener

/-- The bytes the connection still has to write. -/
def pending (l : FlvListener ε) : List UInt8 :=
  FlvNode.pendingBytes l.player.context l.player.ioVecList

/-- One event of a player.  What is written to the socket arrives. -/
def step (s : Option (FlvListener ε)) (e : FlvPlayer.Event ε) : Option (FlvListener ε) :=
  s.bind fun l =>
    (FlvPlayer.step (some l.player) e).map fun player =>
      match e with
      | .addPacket _ => { l with player := player }
      | .postFrames elapsed =>
          { l with
            player := player
            handed := l.handed ++ l.player.handedBy elapsed }
      | .onWrite ret elapsed =>
          if l.player.closed then
            { l with player := player }
          else
            { l with
              player := player
              received := l.received ++ l.pending.take ret
              handed := l.handed ++
                (if (FlvNode.advance ret l.player.ioVecList).isEmpty then
                  l.player.handedBy elapsed
                else
                  []) }
      | .close => { l with player := player }

/-- A player that comes to an empty stream. -/
def start (latency : Int) : FlvListener ε where
  player := FlvPlayer.start {} latency

/-- The timestamps of what was handed out can be written in 24 bits. -/
def Timely (l : FlvListener ε) : Prop := ∀ frame ∈ (stamps {} l.handed).1, frame.2 < 0x1000000

/-- What has arrived is the beginning of a response with a file, whose tags are those of the
packets that were handed out, in this order, but for those still at hand; and all of it when
nothing is being sent on an open connection. -/
def Receives (l : FlvListener ε) : Prop :=
  ∃ flags sent, l.handed = sent ++ l.player.user.atHand ∧
    FlvFile.parse (flvFile flags sent) = some (flvTags (stamps {} sent).1) ∧
    l.received <+: flvHttpHeader ++ flvFile flags sent ∧
    (l.player.httpHeaderSent = true → l.player.sending = false → l.player.closed = false →
      l.received = flvHttpHeader ++ flvFile flags sent)

/-- How far what was handed out has got: what was sent is partly received and partly on the
connection. -/
structure Delivered (l : FlvListener ε) (flags : UInt8) (sent : List (Packet ε × Bool)) :
    Prop where
  intact : l.player.Intact
  stream : l.player.stream.Holds Packet.FitsTag
  user : l.player.user.Holds Packet.FitsTag
  fits : ∀ item ∈ sent, item.1.FitsTag
  flags_eq : flags &&& 0xFA = 0
  handed : l.handed = sent ++ l.player.user.atHand
  corrector : l.player.timeCorrector = (stamps {} sent).2
  previous : l.player.context.previousSize.toNat =
    FlvFile.lastSize 0 (writtenTags (stamps {} sent).1)
  idle : l.player.sending = false → l.player.ioVecList = [] ∧ l.player.context.bufs = []
  within : FlvNode.Within l.player.context l.player.ioVecList
  before : l.player.httpHeaderSent = false → sent = [] ∧ l.received = []
  arrived : l.player.httpHeaderSent = true → l.received <+: flvHttpHeader ++ writtenFile flags sent
  whole : l.player.httpHeaderSent = true → l.player.closed = false →
    l.received ++ l.pending = flvHttpHeader ++ writtenFile flags sent

variable {l : FlvListener ε} {flags : UInt8} {sent : List (Packet ε × Bool)}

/-- The tags of packets that fit have sizes of 24 bits. -/
theorem length_data_of_fits (c : TimeCorrector) {items : List (Packet ε × Bool)}
    (h : ∀ item ∈ items, item.1.FitsTag) :
  ∀ t ∈ flvTags (stamps c items).1, t.data.length < 2 ^ 24
  := by
  induction items generalizing c with
  | nil => exact fun t ht => absurd ht List.not_mem_nil
  | cons item items ih =>
      obtain ⟨hitem, hitems⟩ := List.forall_mem_cons.mp h
      intro t ht
      rcases List.mem_cons.mp ht with rfl | hrest
      · change item.1.payload.length < _
        rw [hitem.length_payload]
        exact hitem.short
      · apply ih _ hitems t hrest

/-- What was sent was handed out before. -/
theorem Delivered.timely (h : l.Delivered flags sent) (htimely : l.Timely) :
  writtenFile flags sent = flvFile flags sent
  := by
  rw [writtenFile, flvFile, writtenTags_of_lt]
  intro frame hframe
  apply htimely frame
  rw [h.handed, stamps_append]
  exact List.mem_append_left _ hframe

theorem Delivered.receives (h : l.Delivered flags sent) (htimely : l.Timely) :
  l.Receives
  := by
  have hfile := h.timely htimely
  refine ⟨flags, sent, h.handed, ?_, ?_, ?_⟩
  · apply FlvFile.parse_header_append h.flags_eq
    apply length_data_of_fits _ h.fits
  · cases hheader : l.player.httpHeaderSent with
    | true => exact hfile ▸ h.arrived hheader
    | false =>
        rw [(h.before hheader).2]
        apply List.nil_prefix
  · intro hheader hsending hopen
    have hwhole := h.whole hheader hopen
    rw [pending, (h.idle hsending).1] at hwhole
    rw [← hfile, ← hwhole]
    exact (List.append_nil _).symm

/-- A context with nodes for nothing is valid. -/
theorem Delivered.valid (h : l.Delivered flags sent) (hsending : l.player.sending = false) :
  l.player.context.Valid
  := by
  intro pos len hmem
  rw [(h.idle hsending).2] at hmem
  cases hmem

/-- What is sent goes to the connection, and arrives from there. -/
theorem Delivered.posted (h : l.Delivered flags sent) {handed : List (Packet ε × Bool)}
    {q : FlvPlayer ε} (hq : q.Intact) (hposted : l.player.Posted handed q) :
  ∃ sent', FlvListener.Delivered
    { l with
      player := q
      handed := l.handed ++ handed } flags sent'
  := by
  cases hposted with
  | kept user holds atHand =>
      refine ⟨sent, { h with intact := hq, user := holds, handed := ?_ }⟩
      dsimp only
      rw [h.handed, List.append_assoc, atHand]
  | sent items user c holds fits atHand idle header built =>
      obtain ⟨hnodes, hbufs⟩ := h.idle idle
      have hwas : l.player.context.bytes = []
        := by
        rw [FlvContext.bytes, hbufs]
        rfl
      have hbytes := built.bytes
      rw [hwas, List.nil_append, h.previous, h.corrector] at hbytes
      have hfile : writtenFile flags (sent ++ items) = writtenFile flags sent ++ c.bytes
        := by rw [writtenFile_append, hbytes]
      refine ⟨sent ++ items, ?_⟩
      revert hq
      rw [FlvPlayer.send]
      dsimp only
      rw [idle, if_neg Bool.false_ne_true, hnodes]
      intro hq
      constructor
      · exact hq
      · exact h.stream
      · exact holds
      · intro item hitem
        rcases List.mem_append.mp hitem with hold | hnew
        · apply h.fits item hold
        · apply fits item hnew
      · exact h.flags_eq
      · dsimp only
        rw [h.handed, List.append_assoc, atHand, List.append_assoc]
      · dsimp only
        rw [h.corrector, stamps_append]
      · dsimp only
        rw [built.previous, h.previous, h.corrector, stamps_append, writtenTags_append,
          FlvFile.lastSize_append]
      · rintro ⟨⟩
      · dsimp only
        split
        · intro pos len hmem
          cases hmem
        · exact built.valid
      · intro hheader
        exact absurd (hheader.symm.trans header) Bool.false_ne_true
      · intro hheader
        rw [hfile, ← List.append_assoc]
        apply (h.arrived header).trans
        apply List.prefix_append
      · intro hheader hopen
        have hwhole := h.whole header hopen
        rw [pending, hnodes] at hwhole
        rw [hfile, ← List.append_assoc, ← hwhole, pending]
        dsimp only at hopen ⊢
        rw [hopen, if_neg Bool.false_ne_true]
        exact congrArg (· ++ _) (List.append_nil _).symm

/-- The header is sent first, with the header of the file. -/
theorem Delivered.posted_header (h : l.Delivered flags sent) {q : FlvPlayer ε} (hq : q.Intact)
    (hheader : l.player.httpHeaderSent = false) (hpush : l.player.pushFlvHttpHeader = some q) :
  ∃ flags', FlvListener.Delivered { l with player := q } flags' sent
  := by
  have hsending := h.intact.fresh hheader
  obtain ⟨hnodes, hbufs⟩ := h.idle hsending
  obtain ⟨hsent, hnone⟩ := h.before hheader
  have hvalid : FlvContext.Valid { l.player.context with
      bufs := l.player.context.bufs ++ [.data flvHttpHeader] }
    := by
    intro pos len hmem
    rw [hbufs] at hmem
    cases List.mem_singleton.mp hmem
  obtain ⟨c, flags', hc, hcvalid, hbytes, hflags, hprevious⟩ :=
    FlvContext.exists_writeFileHeader hvalid l.player.stream.hasVideo l.player.stream.hasAudio
      (by
        dsimp only
        rw [h.intact.unused hsending]
        decide)
  have heq : q =
      { FlvPlayer.send { l.player with context := c } with httpHeaderSent := true }
    := by
    rw [FlvPlayer.pushFlvHttpHeader, FlvPlayer.sendFlvHttpHeader] at hpush
    dsimp only at hpush
    rw [FlvPlayer.write_eq] at hpush
    · exact (Option.some.inj hpush).symm
    · exact h.intact.onlyData hsending
    · exact hc
  have hfile : c.bytes = flvHttpHeader ++ writtenFile flags' sent
    := by
    have hfirst : ∀ c' : FlvContext, c'.bufs = [.data flvHttpHeader] → c'.bytes = flvHttpHeader
      := by
      intro c' hc'
      rw [FlvContext.bytes, hc']
      apply List.append_nil
    rw [hbytes, hfirst _ (by rw [hbufs]; rfl), hsent, writtenFile]
    exact congrArg (flvHttpHeader ++ ·) (List.append_nil _).symm
  refine ⟨flags', ?_⟩
  rw [FlvPlayer.send] at heq
  dsimp only at heq
  rw [hsending, if_neg Bool.false_ne_true, hnodes] at heq
  subst heq
  constructor
  · exact hq
  · exact h.stream
  · exact h.user
  · exact h.fits
  · exact hflags
  · exact h.handed
  · exact h.corrector
  · dsimp only
    rw [hprevious]
    exact h.previous
  · rintro ⟨⟩
  · dsimp only
    split
    · intro pos len hmem
      cases hmem
    · exact hcvalid
  · rintro ⟨⟩
  · intro _
    dsimp only
    rw [hnone]
    apply List.nil_prefix
  · intro _ hopen
    dsimp only at hopen
    rw [pending, ← hfile]
    dsimp only
    rw [hnone, hopen, if_neg Bool.false_ne_true]
    rfl

/-- When everything has been written, a player begins at the start of its buffer again. -/
theorem Delivered.writeComplete (h : l.Delivered flags sent) {ret : Nat}
    (hopen : l.player.closed = false)
    (hempty : FlvNode.advance ret l.player.ioVecList = []) :
  FlvListener.Delivered
    { l with
      player :=
        { l.player with
          ioVecList := FlvNode.advance ret l.player.ioVecList
          sending := false
          context := l.player.context.writeComplete }
      received := l.received ++ l.pending.take ret } flags sent
  := by
  obtain ⟨hdrop, -⟩ := FlvNode.pendingBytes_advance h.within ret
  have htake : l.pending.take ret = l.pending
    := by
    rw [hempty] at hdrop
    apply List.take_of_length_le
    exact List.drop_eq_nil_iff.mp hdrop.symm
  rw [htake, hempty]
  refine { h with
    intact :=
      { h.intact with
        unused := fun _ => rfl
        onlyData := fun _ => FlvNode.onlyData_nil
        fresh := fun _ => rfl }
    previous := h.previous
    idle := fun _ => ⟨rfl, rfl⟩
    within := fun pos len hmem => absurd hmem List.not_mem_nil
    before := ?_
    arrived := ?_
    whole := ?_ }
  · intro hheader
    obtain ⟨hsent, hnone⟩ := h.before hheader
    refine ⟨hsent, ?_⟩
    dsimp only
    rw [hnone, pending, (h.idle (h.intact.fresh hheader)).1]
    rfl
  · intro hheader
    have hwhole := h.whole hheader hopen
    exact hwhole ▸ List.prefix_rfl
  · intro hheader _
    rw [← h.whole hheader hopen]
    apply List.append_nil

/-- What is written arrives. -/
theorem Delivered.written (h : l.Delivered flags sent) (ret : Nat)
    (hopen : l.player.closed = false) :
  FlvListener.Delivered
    { l with
      player := { l.player with ioVecList := FlvNode.advance ret l.player.ioVecList }
      received := l.received ++ l.pending.take ret } flags sent
  := by
  obtain ⟨hdrop, hwithin⟩ := FlvNode.pendingBytes_advance h.within ret
  have hjoin : l.received ++ l.pending.take ret ++
      FlvNode.pendingBytes l.player.context (FlvNode.advance ret l.player.ioVecList) =
        l.received ++ l.pending
    := by rw [hdrop, List.append_assoc, ← pending, List.take_append_drop]
  refine { h with
    intact := { h.intact with onlyData := fun hidle => (h.intact.onlyData hidle).advance ret }
    idle := ?_
    within := hwithin
    before := ?_
    arrived := ?_
    whole := ?_ }
  · intro hidle
    obtain ⟨hnodes, hbufs⟩ := h.idle hidle
    refine ⟨?_, hbufs⟩
    dsimp only
    rw [hnodes, FlvNode.advance]
  · intro hheader
    obtain ⟨hsent, hnone⟩ := h.before hheader
    refine ⟨hsent, ?_⟩
    dsimp only
    rw [hnone, pending, (h.idle (h.intact.fresh hheader)).1]
    exact List.take_nil
  · intro hheader
    rw [← h.whole hheader hopen, ← hjoin]
    apply List.prefix_append
  · intro hheader _
    rw [← h.whole hheader hopen, ← hjoin]
    rfl

/-- A player that posts frames. -/
theorem Delivered.postFrames (h : l.Delivered flags sent) {elapsed : UInt64} {q : FlvPlayer ε}
    (hpost : l.player.postFrames elapsed = some q) :
  ∃ flags' sent', FlvListener.Delivered
    { l with
      player := q
      handed := l.handed ++ l.player.handedBy elapsed } flags' sent'
  := by
  obtain ⟨q', hq', hintact⟩ := h.intact.postFrames elapsed
  obtain rfl := Option.some.inj (hpost.symm.trans hq')
  rcases FlvPlayer.posted_postFrames h.intact h.stream h.user h.valid hpost with
    hposted | ⟨hheader, hnone, hpush⟩
  · obtain ⟨sent', hsent⟩ := h.posted hintact hposted
    exact ⟨flags, sent', hsent⟩
  · obtain ⟨flags', hsent⟩ := h.posted_header hintact hheader hpush
    rw [hnone, List.append_nil]
    exact ⟨flags', sent, hsent⟩

/-- Every event of a player keeps that everything is on its way. -/
theorem Delivered.step (h : l.Delivered flags sent) (e : FlvPlayer.Event ε)
    (he : ∀ packet, e = .addPacket packet → packet.FitsTag) :
  ∃ l' flags' sent', FlvListener.step (some l) e = some l' ∧ l'.Delivered flags' sent'
  := by
  cases e with
  | addPacket packet =>
      refine ⟨_, flags, sent, rfl, { h with intact := { h.intact with }, stream := ?_ }⟩
      apply h.stream.addPacket
      apply (he packet rfl).stamp
  | close =>
      refine ⟨_, flags, sent, rfl, { h with intact := { h.intact with }, whole := ?_ }⟩
      rintro - ⟨⟩
  | postFrames elapsed =>
      obtain ⟨q, hq, -⟩ := h.intact.postFrames elapsed
      obtain ⟨flags', sent', hsent⟩ := h.postFrames hq
      refine ⟨_, flags', sent', ?_, hsent⟩
      exact congrArg (Option.map _) hq
  | onWrite ret elapsed =>
      cases hclosed : l.player.closed with
      | true =>
          refine ⟨l, flags, sent, ?_, h⟩
          rw [FlvListener.step, Option.bind_some, FlvPlayer.step, Option.bind_some]
          dsimp only
          rw [FlvPlayer.onWrite, hclosed, if_pos rfl]
          rfl
      | false =>
          have hopen : ¬l.player.closed = true
            := by
            rw [hclosed]
            exact Bool.false_ne_true
          cases hempty : (FlvNode.advance ret l.player.ioVecList).isEmpty with
          | true =>
              have hidle := h.writeComplete hclosed (List.isEmpty_iff.mp hempty)
              obtain ⟨q, hq, -⟩ := hidle.intact.postFrames elapsed
              obtain ⟨flags', sent', hsent⟩ := hidle.postFrames hq
              refine ⟨_, flags', sent', ?_, hsent⟩
              rw [FlvListener.step, Option.bind_some, FlvPlayer.step, Option.bind_some]
              dsimp only
              rw [FlvPlayer.onWrite_of_open hopen]
              simp only [if_pos hempty, if_neg hopen]
              exact congrArg (Option.map _) hq
          | false =>
              refine ⟨_, flags, sent, ?_, h.written ret hclosed⟩
              rw [FlvListener.step, Option.bind_some, FlvPlayer.step, Option.bind_some]
              dsimp only
              rw [FlvPlayer.onWrite_of_open hopen, hempty]
              simp only [if_neg Bool.false_ne_true, if_neg hopen, Option.map_some,
                List.append_nil]

theorem delivered_start (latency : Int) :
  (start latency : FlvListener ε).Delivered 5 []
  where
  intact := FlvPlayer.intact_start _ latency
  stream := LiveStream.holds_empty
  user := ⟨by rintro _ ⟨⟩, by rintro _ ⟨⟩, by rintro _ ⟨⟩, fun _ h => absurd h List.not_mem_nil⟩
  fits _ h := absurd h List.not_mem_nil
  flags_eq := by decide
  handed := rfl
  corrector := rfl
  previous := rfl
  idle _ := ⟨rfl, rfl⟩
  within _ _ h := absurd h List.not_mem_nil
  before _ := ⟨rfl, rfl⟩
  arrived := by rintro ⟨⟩
  whole := by rintro ⟨⟩

/-- Whatever is added to a stream and however its socket takes what is written, a player of FLV
receives a response with a well-formed file, as long as no timestamp it gives needs more than 24
bits.  Its tags are those of the headers and frames that were handed out, in the order in which
they were, each once and with the timestamps of the player, and when nothing is being sent, all but
those at hand have arrived. -/
theorem receives_throughout (latency : Int) {events : List (FlvPlayer.Event ε)}
    (h : ∀ packet, .addPacket packet ∈ events → packet.FitsTag) :
  Throughout step (fun s => ∃ l, s = some l ∧ (l.Timely → l.Receives)) (some (start latency)) events
  := by
  have hevents : Steps step (fun _ e => ∀ packet, e = .addPacket packet → packet.FitsTag)
      (some (start latency : FlvListener ε)) events
    := by
    apply steps_of_forall
    rintro e he packet rfl
    apply h packet he
  have hrun : Throughout step (fun s => ∃ l flags sent, s = some l ∧ l.Delivered flags sent)
      (some (start latency : FlvListener ε)) events
    := by
    apply hevents.throughout ⟨_, _, _, rfl, delivered_start latency⟩
    rintro _ e ⟨l, flags, sent, rfl, hl⟩ he
    obtain ⟨l', flags', sent', hstep, hl'⟩ := hl.step e he
    exact ⟨l', flags', sent', hstep, hl'⟩
  apply hrun.mono
  rintro s ⟨l, flags, sent, rfl, hl⟩
  exact ⟨l, rfl, hl.receives⟩

/-- The two parts of a video, and a socket that takes what is sent in pieces. -/
def pieces : List (FlvPlayer.Event Unit) :=
  [.addPacket { type := kPacketTypeVideo, size := 2, capacity := 2, data := [0x17, 0], ext := () },
    .addPacket { type := kPacketTypeVideo, size := 2, capacity := 2, data := [0x17, 1], ext := () },
    .postFrames 0, .onWrite 100 0, .onWrite 100 0, .onWrite 7 0, .onWrite 20 0, .onWrite 40 0]

theorem receives_throughout_pieces :
  (∀ packet, .addPacket packet ∈ pieces → packet.FitsTag) ∧
    (∀ l ∈ run step (some (start 3000)) pieces, l.Timely) ∧
    Throughout step (fun s => ∃ l, s = some l ∧ (l.Timely → l.Receives)) (some (start 3000)) pieces
  := by
  have hfits : ∀ packet, .addPacket packet ∈ pieces → packet.FitsTag
    := by
    intro packet h
    rcases List.mem_cons.mp h with heq | h
    · cases heq
      exact ⟨⟨rfl, Nat.le_refl _⟩, by decide⟩
    · rcases List.mem_cons.mp h with heq | h
      · cases heq
        exact ⟨⟨rfl, Nat.le_refl _⟩, by decide⟩
      · simp at h
  have htimely : ∀ l ∈ run step (some (start 3000)) pieces,
      ∀ frame ∈ (stamps {} l.handed).1, frame.2 < 0x1000000
    := by decide +kernel
  exact ⟨hfits, htimely, receives_throughout 3000 hfits⟩

end FlvListener
