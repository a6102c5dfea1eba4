import Tmms.Demux.ParameterSets
import Tmms.Library.Runs
import Tmms.Rtp.NalUnits

/-!
# Access units in RTP packets

`EncodeVideo` makes packets of the NAL units that the demuxer finds, and once a packet of the
parameter sets in front of them.  The timestamp is set behind that packet, so it still has the one of
the call before.  The last fragment of every unit that does not fit in a packet has the marker, and
not only that of the last unit.

The timestamp is computed as a double, and converted to 32 bits as a processor does that drops the
upper ones.
-/

open Endian

namespace Packet

/-- The marker in the header. -/
def wireMarker (p : Packet Unit) : Bool := p.data.getD 1 0 &&& 0x80 != 0

/-- The timestamp in the header. -/
def wireTimestamp (p : Packet Unit) : UInt32 := BytesReader.readUint32T (p.data.drop 4)

end Packet

/-- The members of an `RtpMuxer` that `EncodeVideo` uses. -/
structure VideoSender where
  videoDemux : VideoDemux := {}
  rtp : RtpMuxer

/-- What `EncodeVideo` is given. -/
structure VideoCall where
  data : List UInt8
  timestamp : UInt32
  deriving DecidableEq, Repr

namespace VideoSender

/-- `TsTool::IsCodecHeader`. -/
def isCodecHeader (data : List UInt8) : Bool := data.length > 1 && data.getD 1 0 == 0

/-- `RtpMuxer::Init`. -/
def init (vpt apt : UInt8) (vssrc assrc : UInt32) : VideoSender where
  rtp := {
    audioRtp := { payloadType := apt, ssrc := assrc }
    videoRtp := { payloadType := vpt, ssrc := vssrc } }

/-- `VideoDemux::Reset`. -/
def reset (d : VideoDemux) : VideoDemux :=
  { d with hasAud := false, hasIdr := false, hasSpsPps := false, hasBFrame := false }

/-- What the demuxer found in a frame. -/
def frameOf (d : VideoDemux) (list : List SampleBuf) : VideoFrame where
  hasIdr := d.hasIdr
  hasSpsPps := d.hasSpsPps
  sps := d.sps
  pps := d.pps
  samples := list

/-- `EncodeVideo`, with the packets that it adds and what it returns. -/
def encodeVideo (m : VideoSender) (call : VideoCall) :
    Option (VideoSender × List (Packet Unit) × Int) :=
  match (reset m.videoDemux).onDemux call.data with
  | none => none
  | some (d, list, ret) =>
      let m := { m with videoDemux := d }
      if ret = -1 then
        some (m, [], -1)
      else if isCodecHeader call.data then
        some (m, [], 0)
      else if d.hasBFrame then
        some (m, [], 0)
      else
        let (rtp, packets) := m.rtp.encodeVideo (frameOf d list) call.timestamp
        some ({ m with rtp := rtp }, packets, 0)

/-- The sender after a call.  One that reads outside of its data is as if it were not made. -/
def afterCall (m : VideoSender) (call : VideoCall) : VideoSender :=
  match m.encodeVideo call with
  | some (m, _, _) => m
  | none => m

/-- The frame that is sent in a call, if one is. -/
def frame (m : VideoSender) (call : VideoCall) : Option VideoFrame :=
  match (reset m.videoDemux).onDemux call.data with
  | none => none
  | some (d, list, ret) =>
      if ret = -1 ∨ isCodecHeader call.data ∨ d.hasBFrame then none else some (frameOf d list)

/-- The parameter sets are sent in a packet of their own. -/
def inserts (m : RtpMuxer) (frame : VideoFrame) : Prop :=
  m.sentSpsPps = false ∧ frame.hasIdr = true ∧ frame.hasSpsPps = false ∧
    ¬ (frame.sps = [] ∧ frame.pps = [])

instance (m : RtpMuxer) (frame : VideoFrame) : Decidable (inserts m frame) :=
  inferInstanceAs (Decidable (_ ∧ _))

/-- The RTP timestamp of a call. -/
def rtpTimestamp (timestamp : UInt32) : UInt32 := UInt32.ofNat (timestamp.toNat * 90)

/-- Of some packets the last one, and no other, has the marker. -/
def OnlyLast (packets : List (Packet Unit)) : Prop :=
  ∀ i p, packets[i]? = some p → (p.wireMarker = true ↔ i + 1 = packets.length)

/-- Packets are those of an access unit: they have its timestamp, and only the last of them has the
marker. -/
structure AccessUnit (timestamp : UInt32) (packets : List (Packet Unit)) : Prop where
  timestamp : ∀ p ∈ packets, p.wireTimestamp.toNat = timestamp.toNat * 90 % 2 ^ 32
  marker : OnlyLast packets

/-- The packets of a call are those of an access unit. -/
def SendsUnit (m : VideoSender) (call : VideoCall) : Prop :=
  ∀ m' packets ret, m.encodeVideo call = some (m', packets, ret) →
    AccessUnit call.timestamp packets

/-- Every unit of the frame but the last one fits in a packet, and if the parameter sets are
inserted, the timestamp is that of the call already. -/
def Unbroken (m : VideoSender) (call : VideoCall) : Prop :=
  ∀ frame, m.frame call = some frame →
    (∀ unit ∈ frame.samples.dropLast, Rtp.headerSize + unit.length ≤ kRtpMaxPayloadSize) ∧
      (inserts m.rtp frame → m.rtp.videoRtp.timestamp = rtpTimestamp call.timestamp)

/-! ### The headers of packets -/

theorem wireTimestamp_make (r : Rtp) (type : Int) (marker : Bool) (payload : List UInt8) :
  (r.make type marker payload).2.wireTimestamp = r.timestamp
  := by
  rw [Packet.wireTimestamp, Rtp.make, rtpPacket]
  dsimp only
  rw [Rtp.encodeHeader, List.append_assoc, List.append_assoc]
  change BytesReader.readUint32T (beBytes 4 r.timestamp.toNat ++ _) = _
  rw [BytesReader.readUint32T, List.take_left' (length_beBytes 4 _),
    beNat_beBytes_of_lt r.timestamp.toNat_lt, UInt32.ofNat_toNat]

theorem wireMarker_make (r : Rtp) (type : Int) (marker : Bool) (payload : List UInt8) :
  (r.make type marker payload).2.wireMarker = marker
  := by
  change ((((if marker then (1 : UInt8) <<< 7 else 0) ||| (r.payloadType &&& 0x7f)) &&& 0x80) != 0)
    = marker
  cases marker with
  | false =>
      exact forall_uint8 (P := fun type =>
        ((((0 : UInt8) ||| (type &&& 0x7f)) &&& 0x80) != 0) = false) (by decide +kernel) _
  | true =>
      exact forall_uint8 (P := fun type =>
        ((((1 : UInt8) <<< 7 ||| (type &&& 0x7f)) &&& 0x80) != 0) = true) (by decide +kernel) _

theorem onlyLast_append {ps qs : List (Packet Unit)} (h : qs ≠ []) :
  OnlyLast (ps ++ qs) ↔ (∀ p ∈ ps, p.wireMarker = false) ∧ OnlyLast qs
  := by
  have hpos := List.length_pos_iff.mpr h
  constructor
  · intro hlast
    constructor
    · intro p hp
      obtain ⟨i, hi⟩ := List.mem_iff_getElem?.mp hp
      have hlt := (List.getElem?_eq_some_iff.mp hi).1
      have hmark := hlast i p (by rw [List.getElem?_append_left hlt, hi])
      rw [List.length_append] at hmark
      apply Bool.eq_false_iff.mpr
      intro htrue
      have hlen := hmark.mp htrue
      omega
    · intro i p hi
      have hmark := hlast (ps.length + i) p (by
        rw [List.getElem?_append_right (Nat.le_add_right _ _), Nat.add_sub_cancel_left, hi])
      rw [hmark, List.length_append]
      omega
  · rintro ⟨hfalse, hlast⟩ i p hi
    rw [List.length_append]
    by_cases hlt : i < ps.length
    · rw [List.getElem?_append_left hlt] at hi
      rw [hfalse p (List.mem_of_getElem? hi)]
      constructor
      · intro htrue
        cases htrue
      · omega
    · rw [List.getElem?_append_right (Nat.not_lt.mp hlt)] at hi
      rw [hlast _ p hi]
      omega

theorem onlyLast_nil :
  OnlyLast []
  := nofun

theorem onlyLast_singleton {p : Packet Unit} (h : p.wireMarker = true) :
  OnlyLast [p]
  := by
  intro i q hi
  cases i with
  | zero =>
      cases hi
      exact iff_of_true h rfl
  | succ i => cases hi

/-! ### Units -/

/-- The fragments of a unit: the last one has the marker. -/
theorem encodeFuaLoop_marks (type : UInt8) (r : Rtp) (start : Bool) (data : List UInt8) :
  (RtpH264.encodeFuaLoop type r start data).1.timestamp = r.timestamp ∧
    (∀ p ∈ (RtpH264.encodeFuaLoop type r start data).2, p.wireTimestamp = r.timestamp) ∧
    OnlyLast (RtpH264.encodeFuaLoop type r start data).2 ∧
    (data ≠ [] → (RtpH264.encodeFuaLoop type r start data).2 ≠ [])
  := by
  fun_induction RtpH264.encodeFuaLoop type r start data with
  | case1 r start data hdata packetSize payloadSize last fheader r' packet hmake r'' packets hrest ih =>
      have htimestamp := wireTimestamp_make r kPacketTypeVideo last (fheader ++ data.take payloadSize)
      have hmarker := wireMarker_make r kPacketTypeVideo last (fheader ++ data.take payloadSize)
      have hstate : (r.make kPacketTypeVideo last (fheader ++ data.take payloadSize)).1.timestamp
          = r.timestamp := rfl
      rw [hmake] at htimestamp hmarker hstate
      rw [hrest] at ih
      obtain ⟨hsame, htimestamps, honly, hne⟩ := ih
      refine ⟨hsame.trans hstate, ?_, ?_, fun _ => List.cons_ne_nil _ _⟩
      · intro p hp
        rcases List.mem_cons.mp hp with rfl | hp
        · exact htimestamp
        · exact (htimestamps p hp).trans hstate
      · by_cases hlast : data.length ≤ payloadSize
        · have hnil : data.drop payloadSize = [] := List.drop_eq_nil_of_le hlast
          rw [hnil, RtpH264.encodeFuaLoop_nil] at hrest
          obtain ⟨-, rfl⟩ := Prod.mk.inj hrest
          apply onlyLast_singleton
          rw [hmarker]
          exact decide_eq_true hlast
        · have hmore : packets ≠ [] := by
            apply hne
            rw [ne_eq, List.drop_eq_nil_iff]
            exact hlast
          apply (@onlyLast_append [packet] packets hmore).mpr
          refine ⟨?_, honly⟩
          intro p hp
          rw [List.mem_singleton.mp hp, hmarker]
          exact decide_eq_false hlast
  | case2 r start data hdata =>
      refine ⟨rfl, List.forall_mem_nil _, onlyLast_nil, ?_⟩
      intro hne
      exact absurd (List.length_pos_iff.mpr hne) hdata

/-- The last of packets that are only marked at their last is marked. -/
theorem OnlyLast.exists_marker {packets : List (Packet Unit)} (h : OnlyLast packets)
    (hne : packets ≠ []) :
  ∃ p ∈ packets, p.wireMarker = true
  := by
  refine ⟨packets.getLast hne, List.getLast_mem hne, ?_⟩
  apply (h (packets.length - 1) _ _).mpr
  · have hpos := List.length_pos_iff.mpr hne
    omega
  · rw [← List.getLast?_eq_getElem?, List.getLast?_eq_getLast_of_ne_nil hne]

/-- The packets of one unit. -/
def unitPackets (r : Rtp) (unit : List UInt8) (last : Bool) : Rtp × List (Packet Unit) :=
  if Rtp.headerSize + unit.length > kRtpMaxPayloadSize then
    RtpH264.encodeFua r unit
  else
    RtpH264.encodeSingle r unit last

/-- What is in front of the last unit is marked only if it is in fragments. -/
theorem unitPackets_marks (r : Rtp) (unit : List UInt8) (last : Bool) :
  (unitPackets r unit last).1.timestamp = r.timestamp ∧
    (∀ p ∈ (unitPackets r unit last).2, p.wireTimestamp = r.timestamp) ∧
    (unitPackets r unit last).2 ≠ [] ∧
    (last = true → OnlyLast (unitPackets r unit last).2) ∧
    (last = false → ((∀ p ∈ (unitPackets r unit last).2, p.wireMarker = false) ↔
      Rtp.headerSize + unit.length ≤ kRtpMaxPayloadSize))
  := by
  rw [unitPackets]
  split
  next hsize =>
    obtain ⟨hstate, htimestamp, honly, hne⟩ := encodeFuaLoop_marks (unit.headD 0) r true unit.tail
    have hpackets := hne (by
      rw [Rtp.headerSize, kRtpMaxPayloadSize] at hsize
      apply List.length_pos_iff.mp
      rw [List.length_tail]
      omega)
    refine ⟨hstate, htimestamp, hpackets, fun _ => honly, fun _ => iff_of_false ?_ ?_⟩
    · intro hfalse
      obtain ⟨p, hp, hmarker⟩ := honly.exists_marker hpackets
      rw [hfalse p hp] at hmarker
      cases hmarker
    · exact Nat.not_le_of_gt hsize
  next hsize =>
    have hmarker := wireMarker_make r kPacketTypeVideo last unit
    refine ⟨rfl, ?_, List.cons_ne_nil _ _, ?_, fun hlast => iff_of_true ?_ (Nat.le_of_not_gt hsize)⟩
    · intro p hp
      rw [List.mem_singleton.mp hp]
      exact wireTimestamp_make r kPacketTypeVideo last unit
    · intro hlast
      exact onlyLast_singleton (hmarker.trans hlast)
    · intro p hp
      rw [List.mem_singleton.mp hp]
      exact hmarker.trans hlast

theorem encodeLoop_cons (r : Rtp) (unit : List UInt8) (ins : List (List UInt8)) :
  (RtpH264.encodeLoop r (unit :: ins)).2 =
    (unitPackets r unit ins.isEmpty).2 ++
      (RtpH264.encodeLoop (unitPackets r unit ins.isEmpty).1 ins).2
  := rfl

/-- The packets of units: the markers are as they should be exactly if only the last unit may be in
fragments. -/
theorem encodeLoop_marks (r : Rtp) (ins : List (List UInt8)) :
  (∀ p ∈ (RtpH264.encodeLoop r ins).2, p.wireTimestamp = r.timestamp) ∧
    (OnlyLast (RtpH264.encodeLoop r ins).2 ↔
      ∀ unit ∈ ins.dropLast, Rtp.headerSize + unit.length ≤ kRtpMaxPayloadSize) ∧
    (ins ≠ [] → (RtpH264.encodeLoop r ins).2 ≠ [])
  := by
  induction ins generalizing r with
  | nil => exact ⟨nofun, iff_of_true onlyLast_nil nofun, fun h => absurd rfl h⟩
  | cons unit ins ih =>
      obtain ⟨hstate, htimestamp, hne, hlast, hfront⟩ := unitPackets_marks r unit ins.isEmpty
      obtain ⟨htimestamps, honly, hrest⟩ := ih (unitPackets r unit ins.isEmpty).1
      rw [encodeLoop_cons]
      refine ⟨?_, ?_, fun _ => List.append_ne_nil_of_left_ne_nil hne _⟩
      · intro p hp
        rcases List.mem_append.mp hp with hp | hp
        · exact htimestamp p hp
        · exact (htimestamps p hp).trans hstate
      · cases ins with
        | nil =>
            change OnlyLast ((unitPackets r unit true).2 ++ []) ↔ _
            rw [List.append_nil]
            exact iff_of_true (hlast rfl) nofun
        | cons unit' ins =>
            rw [onlyLast_append (hrest (List.cons_ne_nil _ _)), hfront rfl, honly,
              List.dropLast_cons_cons, List.forall_mem_cons]

/-! ### Calls -/

/-- The parameter sets in front have the timestamp that was there before, and no marker. -/
theorem encodeSpsPps_marks (r : Rtp) (sps pps : List UInt8) :
  (RtpH264.encodeSpsPps r sps pps).2 = [] ∧ (sps = [] ∧ pps = []) ∨
    (¬ (sps = [] ∧ pps = []) ∧ ∃ p, (RtpH264.encodeSpsPps r sps pps).2 = [p] ∧
      p.wireTimestamp = r.timestamp ∧ p.wireMarker = false)
  := by
  rw [RtpH264.encodeSpsPps]
  by_cases hempty : (sps.isEmpty && pps.isEmpty) = true
  · rw [if_pos hempty]
    rw [Bool.and_eq_true, List.isEmpty_iff, List.isEmpty_iff] at hempty
    exact .inl ⟨rfl, hempty⟩
  · rw [if_neg hempty]
    rw [Bool.and_eq_true, List.isEmpty_iff, List.isEmpty_iff] at hempty
    exact .inr ⟨hempty, _, rfl, wireTimestamp_make _ _ _ _, wireMarker_make _ _ _ _⟩

theorem rtpTimestamp_iff (t timestamp : UInt32) :
  t.toNat = timestamp.toNat * 90 % 2 ^ 32 ↔ t = rtpTimestamp timestamp
  := by
  rw [← UInt32.toNat_inj, rtpTimestamp, UInt32.toNat_ofNat']

theorem accessUnit_body (r : Rtp) (ins : List (List UInt8)) (timestamp : UInt32) :
  AccessUnit timestamp (RtpH264.encode r ins timestamp).2 ↔
    ∀ unit ∈ ins.dropLast, Rtp.headerSize + unit.length ≤ kRtpMaxPayloadSize
  := by
  obtain ⟨htimestamp, honly, -⟩ := encodeLoop_marks
    { r with timestamp := rtpTimestamp timestamp, marker := false } ins
  rw [← honly]
  constructor
  · exact fun h => h.marker
  · intro h
    exact ⟨fun p hp => (rtpTimestamp_iff _ _).mpr (htimestamp p hp), h⟩

/-- A packet in front of an access unit belongs to it if it has the timestamp, and no marker. -/
theorem accessUnit_cons {p : Packet Unit} {packets : List (Packet Unit)} (hne : packets ≠ [])
    (hmarker : p.wireMarker = false) (timestamp : UInt32) :
  AccessUnit timestamp (p :: packets) ↔
    p.wireTimestamp = rtpTimestamp timestamp ∧ AccessUnit timestamp packets
  := by
  have honly : OnlyLast (p :: packets) ↔ OnlyLast packets := by
    rw [← List.singleton_append, onlyLast_append hne, and_iff_right]
    intro q hq
    rw [List.mem_singleton.mp hq, hmarker]
  constructor
  · intro h
    refine ⟨(rtpTimestamp_iff _ _).mp (h.timestamp p List.mem_cons_self), ?_, honly.mp h.marker⟩
    exact fun q hq => h.timestamp q (List.mem_cons_of_mem p hq)
  · rintro ⟨htimestamp, h⟩
    refine ⟨?_, honly.mpr h.marker⟩
    intro q hq
    rcases List.mem_cons.mp hq with rfl | hq
    · exact (rtpTimestamp_iff _ _).mpr htimestamp
    · exact h.timestamp q hq

/-- The packets of a frame are those of an access unit exactly if only its last unit may be in
fragments, and the parameter sets are inserted at the timestamp that was there before. -/
theorem accessUnit_encodeVideo_iff (m : RtpMuxer) (frame : VideoFrame) (timestamp : UInt32)
    (hidr : frame.hasIdr = true → frame.samples ≠ []) :
  AccessUnit timestamp (m.encodeVideo frame timestamp).2 ↔
    (∀ unit ∈ frame.samples.dropLast, Rtp.headerSize + unit.length ≤ kRtpMaxPayloadSize) ∧
      (inserts m frame → m.videoRtp.timestamp = rtpTimestamp timestamp)
  := by
  by_cases hheader : (!m.sentSpsPps && frame.hasIdr && !frame.hasSpsPps) = true
  · have hpackets : (m.encodeVideo frame timestamp).2 =
        (RtpH264.encodeSpsPps m.videoRtp frame.sps frame.pps).2 ++
          (RtpH264.encode (RtpH264.encodeSpsPps m.videoRtp frame.sps frame.pps).1 frame.samples
            timestamp).2
      := by
      rw [RtpMuxer.encodeVideo, if_pos hheader]
    simp only [Bool.and_eq_true, Bool.not_eq_true'] at hheader
    obtain ⟨⟨hsent, hkey⟩, hsets⟩ := hheader
    rw [hpackets]
    obtain ⟨hnil, hempty⟩ | ⟨hsome, p, hone, htimestamp, hmarker⟩ :=
      encodeSpsPps_marks m.videoRtp frame.sps frame.pps
    · rw [hnil, List.nil_append, accessUnit_body, and_iff_left]
      exact fun hinserts => absurd hempty hinserts.2.2.2
    · have hbody : (RtpH264.encode (RtpH264.encodeSpsPps m.videoRtp frame.sps frame.pps).1
          frame.samples timestamp).2 ≠ []
        := (encodeLoop_marks _ _).2.2 (hidr hkey)
      rw [hone, List.singleton_append, accessUnit_cons hbody hmarker, htimestamp,
        accessUnit_body, and_comm]
      apply and_congr_right
      intro _
      exact ⟨fun h _ => h, fun h => h ⟨hsent, hkey, hsets, hsome⟩⟩
  · have hpackets : (m.encodeVideo frame timestamp).2 =
        (RtpH264.encode m.videoRtp frame.samples timestamp).2
      := by
      rw [RtpMuxer.encodeVideo, if_neg hheader]
      rfl
    rw [hpackets, accessUnit_body, and_iff_left]
    rintro ⟨hsent, hkey, hsets, -⟩
    apply absurd _ hheader
    rw [hsent, hkey, hsets]
    rfl

/-- What is sent in a call: nothing, or the packets of a frame, which has units if it has a key
picture. -/
theorem encodeVideo_cases (m : VideoSender) (call : VideoCall) :
  (m.frame call = none ∧ ∀ m' packets ret, m.encodeVideo call = some (m', packets, ret) →
      packets = [] ∧ m'.rtp = m.rtp) ∨
    ∃ d list ret, (reset m.videoDemux).onDemux call.data = some (d, list, ret) ∧
      m.frame call = some (frameOf d list) ∧ (d.hasIdr = true → list ≠ []) ∧
      m.encodeVideo call =
        some (⟨d, (m.rtp.encodeVideo (frameOf d list) call.timestamp).1⟩,
          (m.rtp.encodeVideo (frameOf d list) call.timestamp).2, 0)
  := by
  rw [frame, encodeVideo]
  cases hdemux : (reset m.videoDemux).onDemux call.data with
  | none =>
      left
      refine ⟨rfl, fun m' packets ret hresult => ?_⟩
      cases hresult
  | some found =>
      obtain ⟨d, list, ret⟩ := found
      have hidr : d.hasIdr = true → list ≠ [] := VideoDemux.onDemux_idr rfl hdemux
      dsimp only
      by_cases herror : ret = -1
      · left
        rw [if_pos (Or.inl herror), if_pos herror]
        refine ⟨rfl, fun m' packets ret' hresult => ?_⟩
        cases hresult
        exact ⟨rfl, rfl⟩
      · rw [if_neg herror]
        by_cases hheader : isCodecHeader call.data = true
        · left
          rw [if_pos (Or.inr (Or.inl hheader)), if_pos hheader]
          refine ⟨rfl, fun m' packets ret' hresult => ?_⟩
          cases hresult
          exact ⟨rfl, rfl⟩
        · rw [if_neg hheader]
          by_cases hbframe : d.hasBFrame = true
          · left
            rw [if_pos (Or.inr (Or.inr hbframe)), if_pos hbframe]
            refine ⟨rfl, fun m' packets ret' hresult => ?_⟩
            cases hresult
            exact ⟨rfl, rfl⟩
          · right
            rw [if_neg (by tauto), if_neg hbframe]
            refine ⟨d, list, ret, rfl, rfl, hidr, ?_⟩
            cases m.rtp.encodeVideo (frameOf d list) call.timestamp with
            | mk rtp packets => rfl

/-- What a call sends is an access unit exactly if the frame it sends is unbroken. -/
theorem sendsUnit_iff (m : VideoSender) (call : VideoCall) :
  SendsUnit m call ↔ Unbroken m call
  := by
  obtain ⟨hnone, hnothing⟩ | ⟨d, list, ret, -, hframe, hidr, hsome⟩ :=
    encodeVideo_cases m call
  · apply iff_of_true
    · intro m' packets ret hresult
      rw [(hnothing m' packets ret hresult).1]
      exact ⟨nofun, onlyLast_nil⟩
    · intro frame hframe
      rw [hnone] at hframe
      cases hframe
  · have hunit := accessUnit_encodeVideo_iff m.rtp (frameOf d list) call.timestamp hidr
    constructor
    · intro h frame hframe'
      rw [hframe] at hframe'
      cases hframe'
      exact hunit.mp (h _ _ _ hsome)
    · intro h m' packets ret hresult
      rw [hsome] at hresult
      cases hresult
      exact hunit.mpr (h _ hframe)

/-- In a run of calls the packets of every one are those of an access unit exactly if every frame is
unbroken. -/
theorem sendsUnits_iff_unbroken (m : VideoSender) (calls : List VideoCall) :
  Runs.Steps afterCall SendsUnit m calls ↔ Runs.Steps afterCall Unbroken m calls
  := by
  apply Runs.steps_iff_steps Runs.steps_true (I := fun _ => True) trivial
  exact fun m call _ _ => ⟨sendsUnit_iff m call, fun _ => trivial⟩

/-- A sequence header, and a key picture at 40 milliseconds. -/
def firstPicture : List VideoCall :=
  [⟨[0x17, 0, 0, 0, 0, 1, 0x42, 0, 0x1e, 0xff, 0xe1, 0, 4, 0x67, 0x42, 0, 0x1e, 1, 0, 2, 0x68, 0xce], 0⟩,
    ⟨[0x17, 1, 0, 0, 0, 0, 0, 0, 3, 0x65, 0x88, 0x84], 40⟩]

/-- The parameter sets in front of the picture have the timestamp 0. -/
theorem not_sendsUnits_firstPicture :
  ¬ ∀ calls, Runs.Steps afterCall SendsUnit (init 96 111 1 2) calls
  := by
  intro h
  obtain ⟨-, hpicture, -⟩ := h firstPicture
  have hzero : (((init 96 111 1 2).afterCall firstPicture[0]).encodeVideo firstPicture[1]).map
      (fun r => r.2.1.map fun p => p.wireTimestamp) = some [0, 3600]
    := by decide +kernel
  obtain ⟨⟨m', packets, ret⟩, hresult, hpackets⟩ := Option.map_eq_some_iff.mp hzero
  have htimestamp := (hpicture m' packets ret hresult).timestamp
  cases packets with
  | nil => cases hpackets
  | cons p packets =>
      have hp : p.wireTimestamp = 0 := (List.cons.inj hpackets).1
      have hnow := htimestamp p List.mem_cons_self
      rw [hp] at hnow
      revert hnow
      decide

end VideoSender
