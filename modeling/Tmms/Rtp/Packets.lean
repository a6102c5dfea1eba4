import Tmms.Live.Frames

/-!
# RTP packets

`RtpH264` and `RtpOpus` cut media into RTP packets.  Both count packets in `sequence_`, which
has 32 bits: it goes up before a packet is made, is the index of the packet, and its low 16
bits are the sequence number in the header.  `Numbered` says so of a list of packets.
-/

open Endian

/-- `kRtpMaxPayloadSize`. -/
def kRtpMaxPayloadSize : Nat := 1400

/-- The fields of an `Rtp` that change. -/
structure Rtp where
  marker : Bool := false
  payloadType : UInt8
  sequence : UInt32 := 0
  timestamp : UInt32 := 0
  ssrc : UInt32 := 0
  deriving DecidableEq, Repr

/-- A packet of an encoder. -/
def rtpPacket (type : Int) (sequence : UInt32) (data : List UInt8) : Packet Unit where
  type := type
  size := UInt32.ofNat data.length
  index := int32 sequence
  capacity := UInt32.ofNat data.length
  data := data
  ext := ()

namespace Rtp

/-- `HeaderSize`, there are no contributing sources. -/
def headerSize : Nat := 12

/-- `EncodeHeader`: version 2, no padding, no extension, no contributing sources. -/
def encodeHeader (r : Rtp) : List UInt8 :=
  [(2 : UInt8) <<< 6, (if r.marker then (1 : UInt8) <<< 7 else 0) ||| (r.payloadType &&& 0x7f),
      (r.sequence >>> 8).toUInt8, r.sequence.toUInt8]
    ++ beBytes 4 r.timestamp.toNat ++ beBytes 4 r.ssrc.toNat

/-- A packet with the next sequence number. -/
def make (r : Rtp) (type : Int) (marker : Bool) (payload : List UInt8) : Rtp × Packet Unit :=
  let r := { r with sequence := r.sequence + 1, marker := marker }
  (r, rtpPacket type r.sequence (r.encodeHeader ++ payload))

end Rtp

/-! ### H.264 -/

namespace RtpH264

def encodeSpsPps (r : Rtp) (sps pps : List UInt8) : Rtp × List (Packet Unit) :=
  if sps.isEmpty && pps.isEmpty then
    (r, [])
  else
    let type := sps.headD 0
    let payload :=
      (type &&& ~~~0x1f ||| 24) :: (beBytes 2 sps.length ++ sps ++ beBytes 2 pps.length ++ pps)
    let (r, packet) := r.make kPacketTypeVideo false payload
    (r, [packet])

def encodeSingle (r : Rtp) (buf : List UInt8) (last : Bool) : Rtp × List (Packet Unit) :=
  let (r, packet) := r.make kPacketTypeVideo last buf
  (r, [packet])

/-- The loop of `EncodeFua` over the bytes behind the type. -/
def encodeFuaLoop (type : UInt8) (r : Rtp) (start : Bool) (data : List UInt8) :
    Rtp × List (Packet Unit) :=
  if _h : data.length > 0 then
    let packetSize := min (Rtp.headerSize + 2 + data.length) kRtpMaxPayloadSize
    let payloadSize := packetSize - 2 - Rtp.headerSize
    let last := data.length ≤ payloadSize
    let fheader :=
      [type &&& 0x60 ||| 28,
        if start then type &&& 0x1f ||| 0x80
        else if last then type &&& 0x1f ||| 0x40
        else type &&& 0x1f]
    let (r, packet) := r.make kPacketTypeVideo last (fheader ++ data.take payloadSize)
    let (r, packets) := encodeFuaLoop type r false (data.drop payloadSize)
    (r, packet :: packets)
  else
    (r, [])
  termination_by data.length
  decreasing_by
    rw [List.length_drop, Rtp.headerSize, kRtpMaxPayloadSize]
    omega

def encodeFua (r : Rtp) (buf : List UInt8) : Rtp × List (Packet Unit) :=
  encodeFuaLoop (buf.headD 0) r true buf.tail

/-- The loop of `Encode`. -/
def encodeLoop (r : Rtp) : List (List UInt8) → Rtp × List (Packet Unit)
  | [] => (r, [])
  | buf :: ins =>
      let (r, packets) :=
        if Rtp.headerSize + buf.length > kRtpMaxPayloadSize then
          encodeFua r buf
        else
          encodeSingle r buf ins.isEmpty
      let (r, rest) := encodeLoop r ins
      (r, packets ++ rest)

/-- `Encode`, at 90000 samples a second. -/
def encode (r : Rtp) (ins : List (List UInt8)) (ts : UInt32) : Rtp × List (Packet Unit) :=
  encodeLoop { r with timestamp := UInt32.ofNat (ts.toNat * 90), marker := false } ins

end RtpH264

/-! ### Opus -/

/-- `kOpusMaxSize`. -/
def kOpusMaxSize : Nat := 32 * 1024

/-- What `opus_encode` gives: at most as many bytes as its buffer has. -/
abbrev OpusFrame := { bytes : List UInt8 // bytes.length ≤ kOpusMaxSize }

namespace RtpOpus

/-- `Encode`, ten milliseconds a packet at 48000 samples a second. -/
def encode (r : Rtp) : List OpusFrame → Rtp × List (Packet Unit)
  | [] => (r, [])
  | s :: ins =>
      let (r, packet) :=
        { r with timestamp := r.timestamp + 480 }.make kPacketTypeAudio true s.val
      let (r, packets) := encode r ins
      (r, packet :: packets)

end RtpOpus

/-! ### The muxer -/

/-- What `VideoDemux` found in a frame that is not a codec header and has no B slice. -/
structure VideoFrame where
  hasIdr : Bool
  hasSpsPps : Bool
  sps : List UInt8
  pps : List UInt8
  samples : List (List UInt8)

structure RtpMuxer where
  audioRtp : Rtp
  videoRtp : Rtp
  sentSpsPps : Bool := false

namespace RtpMuxer

/-- `Init`. The other members stay. -/
def init (m : RtpMuxer) (vpt apt : UInt8) (vssrc assrc : UInt32) : RtpMuxer :=
  { m with
    audioRtp := { payloadType := apt, ssrc := assrc }
    videoRtp := { payloadType := vpt, ssrc := vssrc } }

def encodeVideo (m : RtpMuxer) (frame : VideoFrame) (timestamp : UInt32) :
    RtpMuxer × List (Packet Unit) :=
  let (m, header) :=
    if !m.sentSpsPps && frame.hasIdr && !frame.hasSpsPps then
      let (r, packets) := RtpH264.encodeSpsPps m.videoRtp frame.sps frame.pps
      ({ m with videoRtp := r, sentSpsPps := true }, packets)
    else
      (m, [])
  let m := { m with sentSpsPps := m.sentSpsPps || frame.hasSpsPps }
  let (r, packets) := RtpH264.encode m.videoRtp frame.samples timestamp
  ({ m with videoRtp := r }, header ++ packets)

/-- `EncodeAudio`, with what the decoder and the encoder make of a frame. -/
def encodeAudio (m : RtpMuxer) (frames : List OpusFrame) : RtpMuxer × List (Packet Unit) :=
  let (r, packets) := RtpOpus.encode m.audioRtp frames
  ({ m with audioRtp := r }, packets)

end RtpMuxer

/-! ### Numbers -/

namespace Packet

/-- The sequence number in the header. -/
def wireSeq (p : Packet Unit) : UInt16 := BytesReader.readUint16T (p.data.drop 2)

/-- The source in the header. -/
def wireSsrc (p : Packet Unit) : UInt32 := BytesReader.readUint32T (p.data.drop 8)

end Packet

/-- A packet with a number. -/
structure Stamped (type : Int) (ssrc sequence : UInt32) (p : Packet Unit) : Prop where
  type_eq : p.type = type
  index_eq : p.index = int32 sequence
  wireSeq_eq : p.wireSeq = sequence.toUInt16
  wireSsrc_eq : p.wireSsrc = ssrc
  size_eq : p.size = UInt32.ofNat p.data.length
  header_le : Rtp.headerSize ≤ p.data.length

/-- Packets with the numbers from one on, and the last of them. -/
def Counted (type : Int) (ssrc : UInt32) : UInt32 → List (Packet Unit) → UInt32 → Prop
  | s, [], t => t = s
  | s, p :: ps, t => Stamped type ssrc (s + 1) p ∧ Counted type ssrc (s + 1) ps t

/-- Packets an encoder makes in one state, and the state after them. -/
structure Makes (type : Int) (r : Rtp) (packets : List (Packet Unit)) (r' : Rtp) : Prop where
  ssrc_eq : r'.ssrc = r.ssrc
  counted : Counted type r.ssrc r.sequence packets r'.sequence

theorem Counted.append {type : Int} {ssrc s t u : UInt32} {ps qs : List (Packet Unit)}
    (h : Counted type ssrc s ps t) (h' : Counted type ssrc t qs u) :
  Counted type ssrc s (ps ++ qs) u
  := by
  induction ps generalizing s with
  | nil =>
      cases h
      exact h'
  | cons p ps ih => exact ⟨h.1, ih h.2⟩

/-- The packet at a position has the number that is counted there. -/
theorem Counted.getElem {type : Int} {ssrc s t : UInt32} {ps : List (Packet Unit)}
    (h : Counted type ssrc s ps t) {i : Nat} {p : Packet Unit} (hp : ps[i]? = some p) :
  Stamped type ssrc (s + UInt32.ofNat (i + 1)) p
  := by
  induction ps generalizing s i with
  | nil => cases hp
  | cons q ps ih =>
      cases i with
      | zero =>
          cases hp
          exact h.1
      | succ i =>
          have hrest := ih h.2 hp
          have hnext : s + 1 + UInt32.ofNat (i + 1) = s + UInt32.ofNat (i + 1 + 1)
            := by rw [UInt32.ofNat_add (i + 1) 1, UInt32.add_assoc, UInt32.add_comm 1]; rfl
          rwa [hnext] at hrest

/-- Packets are as long as they say. -/
theorem Counted.size_eq {type : Int} {ssrc s t : UInt32} {ps : List (Packet Unit)}
    (h : Counted type ssrc s ps t) {p : Packet Unit} (hp : p ∈ ps) :
  p.size = UInt32.ofNat p.data.length
  := by
  obtain ⟨i, hi⟩ := List.mem_iff_getElem?.mp hp
  exact (h.getElem hi).size_eq

theorem Makes.append {type : Int} {r r' r'' : Rtp} {ps qs : List (Packet Unit)}
    (h : Makes type r ps r') (h' : Makes type r' qs r'') :
  Makes type r (ps ++ qs) r''
  where
  ssrc_eq := h'.ssrc_eq.trans h.ssrc_eq
  counted := h.counted.append (h.ssrc_eq ▸ h'.counted)

theorem makes_nil (type : Int) {r r' : Rtp} (hssrc : r'.ssrc = r.ssrc)
    (hsequence : r'.sequence = r.sequence) :
  Makes type r [] r'
  := ⟨hssrc, hsequence⟩

/-- The header has the low half of the number. -/
theorem readUint16T_sequence (sequence : UInt32) (rest : List UInt8) :
  BytesReader.readUint16T ((sequence >>> 8).toUInt8 :: sequence.toUInt8 :: rest) =
    sequence.toUInt16
  := by
  apply UInt16.toNat_inj.mp
  have hhigh : (sequence >>> 8).toUInt8.toNat = sequence.toNat / 256 % 256
    := by simp [UInt32.toNat_shiftRight, Nat.shiftRight_eq_div_pow]
  have hlow : sequence.toUInt8.toNat = sequence.toNat % 256 := by simp
  have hread : BytesReader.readUint16T ((sequence >>> 8).toUInt8 :: sequence.toUInt8 :: rest) =
      UInt16.ofNat (sequence.toUInt8.toNat + 256 * ((sequence >>> 8).toUInt8.toNat + 256 * 0))
    := rfl
  rw [hread, hhigh, hlow, UInt16.toNat_ofNat', UInt32.toNat_toUInt16]
  omega

theorem length_encodeHeader (r : Rtp) :
  r.encodeHeader.length = Rtp.headerSize
  := by
  rw [Rtp.encodeHeader, List.length_append, List.length_append, length_beBytes, length_beBytes]
  rfl

/-- The header has the source. -/
theorem readUint32T_ssrc (r : Rtp) (rest : List UInt8) :
  BytesReader.readUint32T ((r.encodeHeader ++ rest).drop 8) = r.ssrc
  := by
  have hfront : ∀ a b c d : UInt8, ([a, b, c, d] ++ beBytes 4 r.timestamp.toNat).length = 8
    := by
    intro a b c d
    rw [List.length_append, length_beBytes]
    rfl
  rw [Rtp.encodeHeader, List.append_assoc, List.drop_left' (hfront _ _ _ _),
    BytesReader.readUint32T, List.take_left' (length_beBytes 4 _),
    beNat_beBytes_of_lt r.ssrc.toNat_lt, UInt32.ofNat_toNat]

/-- A packet that is made has the next number. -/
theorem makes_make (r : Rtp) (type : Int) (marker : Bool) (payload : List UInt8) :
  Makes type r [(r.make type marker payload).2] (r.make type marker payload).1
  where
  ssrc_eq := rfl
  counted := by
    refine ⟨⟨rfl, rfl, readUint16T_sequence _ _, readUint32T_ssrc _ _, rfl, ?_⟩, rfl⟩
    rw [Rtp.make, rtpPacket]
    dsimp only
    rw [List.length_append, length_encodeHeader]
    apply Nat.le_add_right

theorem makes_encodeSpsPps (r : Rtp) (sps pps : List UInt8) :
  Makes kPacketTypeVideo r (RtpH264.encodeSpsPps r sps pps).2 (RtpH264.encodeSpsPps r sps pps).1
  := by
  rw [RtpH264.encodeSpsPps]
  split
  · exact makes_nil _ rfl rfl
  · exact makes_make _ _ _ _

theorem makes_encodeSingle (r : Rtp) (buf : List UInt8) (last : Bool) :
  Makes kPacketTypeVideo r (RtpH264.encodeSingle r buf last).2 (RtpH264.encodeSingle r buf last).1
  := makes_make _ _ _ _

theorem makes_encodeFuaLoop (type : UInt8) (r : Rtp) (start : Bool) (data : List UInt8) :
  Makes kPacketTypeVideo r (RtpH264.encodeFuaLoop type r start data).2
    (RtpH264.encodeFuaLoop type r start data).1
  := by
  fun_induction RtpH264.encodeFuaLoop type r start data with
  | case1 r start data hdata packetSize payloadSize last fheader r' packet hmake r'' packets hrest ih =>
      have hfirst := makes_make r kPacketTypeVideo last (fheader ++ data.take payloadSize)
      rw [hmake] at hfirst
      rw [hrest] at ih
      exact hfirst.append ih
  | case2 r start data hdata => exact makes_nil _ rfl rfl

theorem makes_encodeLoop (r : Rtp) (ins : List (List UInt8)) :
  Makes kPacketTypeVideo r (RtpH264.encodeLoop r ins).2 (RtpH264.encodeLoop r ins).1
  := by
  induction ins generalizing r with
  | nil => exact makes_nil _ rfl rfl
  | cons buf ins ih =>
      by_cases hsize : Rtp.headerSize + buf.length > kRtpMaxPayloadSize
      · simp only [RtpH264.encodeLoop, if_pos hsize]
        exact (makes_encodeFuaLoop _ _ _ _).append (ih _)
      · simp only [RtpH264.encodeLoop, if_neg hsize]
        exact (makes_encodeSingle _ _ _).append (ih _)

/-- The packets of a frame have the next numbers. -/
theorem makes_encode (r : Rtp) (ins : List (List UInt8)) (ts : UInt32) :
  Makes kPacketTypeVideo r (RtpH264.encode r ins ts).2 (RtpH264.encode r ins ts).1
  := by
  have h := makes_encodeLoop { r with timestamp := UInt32.ofNat (ts.toNat * 90), marker := false } ins
  exact ⟨h.ssrc_eq, h.counted⟩

theorem makes_encodeOpus (r : Rtp) (ins : List OpusFrame) :
  Makes kPacketTypeAudio r (RtpOpus.encode r ins).2 (RtpOpus.encode r ins).1
  := by
  induction ins generalizing r with
  | nil => exact makes_nil _ rfl rfl
  | cons s ins ih =>
      have h := makes_make { r with timestamp := r.timestamp + 480 } kPacketTypeAudio true s.val
      have hfirst : Makes kPacketTypeAudio r _ _ := ⟨h.ssrc_eq, h.counted⟩
      have hall := hfirst.append (ih _)
      rw [RtpOpus.encode]
      exact hall

/-! ### Sizes -/

/-- A packet at most as long as the longest payload that is taken from an encoder. -/
def Packet.Small (p : Packet Unit) : Prop :=
  p.data.length ≤ Rtp.headerSize + kOpusMaxSize

theorem length_make (r : Rtp) (type : Int) (marker : Bool) (payload : List UInt8) :
  (r.make type marker payload).2.data.length = Rtp.headerSize + payload.length
  := by
  rw [Rtp.make, rtpPacket]
  dsimp only
  rw [List.length_append, length_encodeHeader]

/-- A fragment is not longer than a packet may be. -/
theorem length_le_of_mem_encodeFuaLoop (type : UInt8) (r : Rtp) (start : Bool) (data : List UInt8) :
  ∀ p ∈ (RtpH264.encodeFuaLoop type r start data).2, p.data.length ≤ kRtpMaxPayloadSize
  := by
  fun_induction RtpH264.encodeFuaLoop type r start data with
  | case1 r start data hdata packetSize payloadSize last fheader r' packet hmake r'' packets hrest ih =>
      have hlen := length_make r kPacketTypeVideo last (fheader ++ data.take payloadSize)
      rw [hmake] at hlen
      rw [hrest] at ih
      intro p hp
      rcases List.mem_cons.mp hp with rfl | hp
      · rw [hlen, List.length_append, List.length_take]
        have hsize : payloadSize ≤ 1386
          := by
          change min (12 + 2 + data.length) 1400 - 2 - 12 ≤ 1386
          omega
        change 12 + (2 + min payloadSize data.length) ≤ 1400
        omega
      · exact ih p hp
  | case2 r start data hdata =>
      intro p hp
      cases hp

/-- A packet of a frame is not longer than a packet may be. -/
theorem length_le_of_mem_encodeLoop (r : Rtp) (ins : List (List UInt8)) :
  ∀ p ∈ (RtpH264.encodeLoop r ins).2, p.data.length ≤ kRtpMaxPayloadSize
  := by
  induction ins generalizing r with
  | nil =>
      intro p hp
      cases hp
  | cons buf ins ih =>
      by_cases hsize : Rtp.headerSize + buf.length > kRtpMaxPayloadSize
      · simp only [RtpH264.encodeLoop, if_pos hsize]
        intro p hp
        rcases List.mem_append.mp hp with hp | hp
        · exact length_le_of_mem_encodeFuaLoop _ _ _ _ p hp
        · exact ih _ p hp
      · simp only [RtpH264.encodeLoop, if_neg hsize]
        intro p hp
        rcases List.mem_append.mp hp with hp | hp
        · rw [List.mem_singleton.mp hp]
          change (r.make kPacketTypeVideo ins.isEmpty buf).2.data.length ≤ _
          rw [length_make]
          exact Nat.le_of_not_gt hsize
        · exact ih _ p hp

theorem small_encodeLoop (r : Rtp) (ins : List (List UInt8)) :
  ∀ p ∈ (RtpH264.encodeLoop r ins).2, p.Small
  := by
  intro p hp
  apply Nat.le_trans (length_le_of_mem_encodeLoop r ins p hp)
  exact Nat.le_of_ble_eq_true rfl

theorem small_encodeOpus (r : Rtp) (ins : List OpusFrame) :
  ∀ p ∈ (RtpOpus.encode r ins).2, p.Small
  := by
  induction ins generalizing r with
  | nil =>
      intro p hp
      cases hp
  | cons s ins ih =>
      intro p hp
      rw [RtpOpus.encode] at hp
      rcases List.mem_cons.mp hp with rfl | hp
      · rw [Packet.Small, length_make]
        exact Nat.add_le_add_left s.property _
      · exact ih _ p hp

/-! ### What the muxer makes -/

/-- The packets that hold parameter sets, which may be of any length. -/
def largeCount (packets : List (Packet Unit)) : Nat :=
  packets.countP fun p => decide (Rtp.headerSize + kOpusMaxSize < p.data.length)

theorem largeCount_append (ps qs : List (Packet Unit)) :
  largeCount (ps ++ qs) = largeCount ps + largeCount qs
  := List.countP_append

theorem largeCount_of_small {packets : List (Packet Unit)} (h : ∀ p ∈ packets, p.Small) :
  largeCount packets = 0
  := by
  apply List.countP_eq_zero.mpr
  intro p hp
  have hsmall : p.data.length ≤ Rtp.headerSize + kOpusMaxSize := h p hp
  rw [decide_eq_true_eq]
  exact Nat.not_lt_of_le hsmall

namespace RtpMuxer

/-- How many packets with parameter sets have been made. -/
def headersSent (m : RtpMuxer) : Nat := if m.sentSpsPps then 1 else 0

/-- The packets of a video frame have the next numbers of the video, and parameter sets are
made into a packet once. -/
theorem encodeVideo_makes (m : RtpMuxer) (frame : VideoFrame) (timestamp : UInt32) :
  Makes kPacketTypeVideo m.videoRtp (m.encodeVideo frame timestamp).2
      (m.encodeVideo frame timestamp).1.videoRtp ∧
    (m.encodeVideo frame timestamp).1.audioRtp = m.audioRtp ∧
    largeCount (m.encodeVideo frame timestamp).2 + m.headersSent ≤
      (m.encodeVideo frame timestamp).1.headersSent
  := by
  have hbody : ∀ r : Rtp, largeCount (RtpH264.encode r frame.samples timestamp).2 = 0
    := fun r => largeCount_of_small (small_encodeLoop _ _)
  by_cases hheader : (!m.sentSpsPps && frame.hasIdr && !frame.hasSpsPps) = true
  · have hone : largeCount (RtpH264.encodeSpsPps m.videoRtp frame.sps frame.pps).2 ≤ 1
      := by
      apply Nat.le_trans List.countP_le_length
      rw [RtpH264.encodeSpsPps]
      split
      · exact Nat.zero_le 1
      · exact Nat.le_refl 1
    have hnot : m.sentSpsPps = false := by simp at hheader; exact hheader.1.1
    simp only [encodeVideo, if_pos hheader]
    refine ⟨(makes_encodeSpsPps _ _ _).append (makes_encode _ _ _), trivial, ?_⟩
    rw [largeCount_append, hbody, headersSent, headersSent, hnot]
    simpa using hone
  · simp only [encodeVideo, if_neg hheader, List.nil_append]
    refine ⟨makes_encode _ _ _, trivial, ?_⟩
    rw [hbody, headersSent, headersSent]
    cases m.sentSpsPps with
    | false => simp
    | true => simp

/-- The packets of an audio frame have the next numbers of the audio, and are small. -/
theorem encodeAudio_makes (m : RtpMuxer) (frames : List OpusFrame) :
  Makes kPacketTypeAudio m.audioRtp (m.encodeAudio frames).2 (m.encodeAudio frames).1.audioRtp ∧
    (m.encodeAudio frames).1.videoRtp = m.videoRtp ∧
    largeCount (m.encodeAudio frames).2 = 0 ∧
    (m.encodeAudio frames).1.headersSent = m.headersSent
  := ⟨makes_encodeOpus _ _, rfl, largeCount_of_small (small_encodeOpus _ _), rfl⟩

end RtpMuxer
