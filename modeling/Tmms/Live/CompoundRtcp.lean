import Tmms.Live.RtpHistory
import Tmms.Rtp.Rtpfb

/-!
# Compound RTCP

A datagram of RTCP is a list of packets, each with its length.  `OnRtcp` looks at the type of the
first one, and `Decode` takes all bytes behind its sources for entries of a generic NACK.  So what is
asked for in a packet behind the first one is not sent again, and packets behind a generic NACK are
read as entries of it (`exact_iff_meets`).
-/

open BytesReader Endian

/-! ### Datagrams -/

inductive RtcpPayloadType where
  | sr
  | rr
  | sdes
  | bye
  | app
  | rtpfb
  | psfb
  deriving DecidableEq, Repr

def RtcpPayloadType.code : RtcpPayloadType → UInt8
  | sr => 200
  | rr => 201
  | sdes => 202
  | bye => 203
  | app => 204
  | rtpfb => 205
  | psfb => 206

/-- What is in a packet: a generic NACK, or something else. -/
inductive RtcpContent where
  | nack (ssrc mediaSsrc : UInt32) (entries : List NackEntry)
  | other (count : UInt8) (type : RtcpPayloadType) (body : List UInt8)
  deriving DecidableEq, Repr

namespace RtcpContent

def count : RtcpContent → UInt8
  | nack _ _ _ => 1
  | other count _ _ => count

def type : RtcpContent → RtcpPayloadType
  | nack _ _ _ => .rtpfb
  | other _ type _ => type

def body : RtcpContent → List UInt8
  | nack ssrc mediaSsrc entries =>
      beBytes 4 ssrc.toNat ++ beBytes 4 mediaSsrc.toNat ++ entries.flatMap NackEntry.encode
  | other _ _ body => body

/-- A generic NACK has an entry, and what else is feedback of the transport is not of its format. -/
def Valid : RtcpContent → Prop
  | nack _ _ entries => entries ≠ []
  | other count type body => count < 32 ∧ body.length % 4 = 0 ∧ ¬ (type = .rtpfb ∧ count = 1)

end RtcpContent

structure RtcpPacket where
  content : RtcpContent
  padding : List UInt8 := []
  deriving DecidableEq, Repr

namespace RtcpPacket

def encode (p : RtcpPacket) : List UInt8 :=
  [((2 : UInt8) <<< 6) ||| (if p.padding = [] then 0 else 0x20) ||| p.content.count, p.content.type.code] ++
    beBytes 2 ((p.content.body.length + p.padding.length) / 4) ++ p.content.body ++ p.padding

/-- The padding is whole words, and the last byte of it is its length. -/
structure Valid (p : RtcpPacket) : Prop where
  content : p.content.Valid
  words : p.padding.length % 4 = 0
  last : ∀ b ∈ p.padding.getLast?, b.toNat = p.padding.length
  fits : p.content.body.length + p.padding.length < 4 * 65536

end RtcpPacket

/-- The packets of a datagram.  Only the last of several may be padded. -/
structure Compound where
  first : RtcpPacket
  rest : List RtcpPacket
  valid : ∀ p ∈ first :: rest, p.Valid
  unpadded : ∀ p ∈ first :: rest.dropLast, p.padding = []

namespace Compound

def bytes (c : Compound) : List UInt8 := (c.first :: c.rest).flatMap RtcpPacket.encode

/-- A number is listed in a generic NACK for a source. -/
def Lists (c : Compound) (mediaSsrc : UInt32) (n : UInt16) : Prop :=
  ∃ p ∈ c.first :: c.rest, ∃ ssrc entries, p.content = .nack ssrc mediaSsrc entries ∧
    Rtpfb.Named entries n

end Compound

/-! ### What comes in -/

/-- `srtp_unprotect_rtcp` makes a datagram of what comes in.  The first bytes of that are in clear,
and it fits in a UDP datagram. -/
structure Unprotects (unprotect : List UInt8 → Option (List UInt8)) (buf datagram : List UInt8) :
    Prop where
  result : unprotect buf = some datagram
  clear : buf.getD 1 0 = datagram.getD 1 0
  fits : buf.length < kSrtpMaxBufferSize

/-! ### Packets on the wire -/

namespace RtcpPacket

/-- A packet read from the front of some bytes. -/
theorem encode_parts (p : RtcpPacket) (rest : List UInt8) :
  4 ≤ (p.encode ++ rest).length ∧
    (p.encode ++ rest).getD 0 0 =
      ((2 : UInt8) <<< 6) ||| (if p.padding = [] then 0 else 0x20) ||| p.content.count ∧
    (p.encode ++ rest).getD 1 0 = p.content.type.code ∧
    (p.encode ++ rest).drop 4 = p.content.body ++ p.padding ++ rest
  := by
  obtain ⟨a, b, hlength⟩ := List.length_eq_two.mp
    (length_beBytes 2 ((p.content.body.length + p.padding.length) / 4))
  rw [encode, hlength, List.append_assoc [_, _] [a, b], List.append_assoc, List.append_assoc]
  refine ⟨?_, rfl, rfl, (List.append_assoc p.content.body p.padding rest).symm⟩
  simp only [List.length_append, List.length_cons, List.length_nil]
  omega

theorem count_lt {p : RtcpPacket} (h : p.Valid) :
  p.content.count < 32
  := by
  have hvalid := h.content
  cases hcontent : p.content with
  | nack ssrc mediaSsrc entries => exact (by decide : (1 : UInt8) < 32)
  | other count type body =>
      rw [hcontent] at hvalid
      exact hvalid.1

/-- The count is read back. -/
theorem count_eq (padded : Bool) (count : UInt8) (h : count < 32) :
  (((2 : UInt8) <<< 6) ||| (if padded then 0x20 else 0) ||| count) &&& 0x1f = count
  := by
  revert h
  cases padded with
  | false =>
      exact forall_uint8 (P := fun count => count < 32 →
        (((2 : UInt8) <<< 6) ||| 0 ||| count) &&& 0x1f = count) (by decide +kernel) count
  | true =>
      exact forall_uint8 (P := fun count => count < 32 →
        (((2 : UInt8) <<< 6) ||| 0x20 ||| count) &&& 0x1f = count) (by decide +kernel) count

/-- The header of a packet is read, with its count. -/
theorem decodeHeader_encode {p : RtcpPacket} (h : p.Valid) (rest : List UInt8) :
  ∃ header, Rtcp.decodeHeader (p.encode ++ rest) = some header ∧ header.rc = p.content.count
  := by
  obtain ⟨hlength, hfirst, -, -⟩ := p.encode_parts rest
  refine ⟨_, if_neg (Nat.not_lt.mpr hlength), ?_⟩
  dsimp only
  rw [hfirst]
  by_cases hpadding : p.padding = []
  · rw [if_pos hpadding]
    exact count_eq false _ (count_lt h)
  · rw [if_neg hpadding]
    exact count_eq true _ (count_lt h)

theorem length_encode_nack {p : RtcpPacket} {ssrc mediaSsrc : UInt32} {entries : List NackEntry}
    (hcontent : p.content = .nack ssrc mediaSsrc entries) (hpadding : p.padding = []) :
  p.encode.length = 12 + 4 * entries.length
  := by
  rw [encode, hcontent, hpadding, RtcpContent.body]
  simp only [List.length_append, List.length_cons, List.length_nil, length_beBytes,
    Rtpfb.length_entries]
  omega

/-- A packet has a header at least. -/
theorem length_packets {packets : List RtcpPacket} (h : packets ≠ []) :
  4 ≤ (packets.flatMap encode).length
  := by
  cases packets with
  | nil => exact absurd rfl h
  | cons p packets =>
      rw [List.flatMap_cons]
      exact (p.encode_parts _).1

end RtcpPacket

variable (unprotect : List UInt8 → Option (List UInt8))

/-- `Srtp::SrtcpUnprotect`. -/
def srtcpUnprotect (buf : List UInt8) : Option (List UInt8) :=
  if int32 (UInt32.ofNat buf.length) ≥ kSrtpMaxBufferSize then none else unprotect buf

namespace WebrtcPlayer

/-- The message that `OnRtcp` has `ProcessRtpfb` decode, with how many bytes were read as entries. -/
def feedback (buf : List UInt8) : Option (Rtpfb × Nat) :=
  match srtcpUnprotect unprotect buf with
  | none => none
  | some np => if buf.getD 1 0 = kRtcpPtRtpfb then some (Rtpfb.decode {} np) else none

def onRtcp (w : WebrtcPlayer) (buf : List UInt8) : WebrtcPlayer × List RtpOutput :=
  match feedback unprotect buf with
  | none => (w, [])
  | some (fb, _) => w.processRtpfb fb.mediaSsrc fb.lostSeqs.toList

/-- The packets that `ProcessRtpfb` looks for, each by whether it is audio and its number. -/
def lookedFor (w : WebrtcPlayer) (mediaSsrc : UInt32) (lostSeqs : List UInt16) :
    List (Bool × UInt16) :=
  let isVideo := mediaSsrc == w.rtpMuxer.videoRtp.ssrc
  let isAudio := mediaSsrc == w.rtpMuxer.audioRtp.ssrc
  if !isAudio && !isVideo then [] else lostSeqs.map fun l => (isAudio, l)

/-- What `OnRtcp` requests. -/
def requested (w : WebrtcPlayer) (buf : List UInt8) : List (Bool × UInt16) :=
  match feedback unprotect buf with
  | none => []
  | some (fb, _) => w.lookedFor fb.mediaSsrc fb.lostSeqs.toList

/-- What is requested is what the packets of a datagram list for the sources of the player, and what
is read as entries is in the first packet. -/
structure Exact (w : WebrtcPlayer) (buf : List UInt8) (c : Compound) : Prop where
  requests : ∀ audio n, (audio, n) ∈ w.requested unprotect buf ↔ c.Lists (w.ssrcOf audio) n
  reads : ∀ fb read, feedback unprotect buf = some (fb, read) → 0 < read →
    12 + read ≤ c.first.encode.length

/-- A generic NACK in front is alone, and if it is for the player, the numbers that it names are
placed.  Behind another packet in front there is no generic NACK for the player. -/
def Meets (w : WebrtcPlayer) (c : Compound) : Prop :=
  match c.first.content with
  | .nack _ mediaSsrc entries =>
      c.rest = [] ∧ ∀ audio, mediaSsrc = w.ssrcOf audio →
        ∀ n, Rtpfb.Named entries n → Rtpfb.Placed (Rtpfb.numbers entries) n
  | .other _ _ _ =>
      ∀ p ∈ c.rest, ∀ ssrc audio entries, p.content ≠ .nack ssrc (w.ssrcOf audio) entries

/-! ### What is decoded -/

end WebrtcPlayer

theorem RtcpPayloadType.code_eq_rtpfb (type : RtcpPayloadType) :
  type.code = kRtcpPtRtpfb ↔ type = .rtpfb
  := by
  cases type with
  | sr => decide
  | rr => decide
  | sdes => decide
  | bye => decide
  | app => decide
  | rtpfb => decide
  | psfb => decide

/-- A generic NACK in front: what is behind it is read as entries too. -/
theorem Rtpfb.decode_nack {p : RtcpPacket} (h : p.Valid) {ssrc mediaSsrc : UInt32}
    {entries : List NackEntry} (hcontent : p.content = .nack ssrc mediaSsrc entries)
    (hpadding : p.padding = []) (rest : List UInt8) :
  let found := Rtpfb.decode {} (p.encode ++ rest)
  found.1.mediaSsrc = mediaSsrc ∧
    found.1.lostSeqs = (Rtpfb.decodeNackLoop
      (RbTree.leaf.insertAll seqCmp (Rtpfb.numbers entries)) rest).1 ∧
    found.2 = 4 * (rest.length / 4) + 4 * entries.length
  := by
  obtain ⟨header, hheader, hrc⟩ := RtcpPacket.decodeHeader_encode h rest
  obtain ⟨-, -, -, hdrop⟩ := p.encode_parts rest
  rw [hcontent] at hrc
  rw [hcontent, hpadding, List.append_nil] at hdrop
  have hlength : ¬ ((p.encode ++ rest).drop 4).length < 8 := by
    rw [hdrop, RtcpContent.body]
    simp only [List.length_append, length_beBytes]
    omega
  have hmedia : readUint32T (((p.encode ++ rest).drop 4).drop 4) = mediaSsrc := by
    rw [hdrop, RtcpContent.body, List.append_assoc, List.append_assoc,
      List.drop_left' (length_beBytes 4 _)]
    exact readUint32T_toNat mediaSsrc _
  have hentries : ((p.encode ++ rest).drop 4).drop 8 = entries.flatMap NackEntry.encode ++ rest := by
    rw [hdrop, RtcpContent.body, List.append_assoc]
    exact List.drop_left' (by rw [List.length_append, length_beBytes, length_beBytes])
  have hone : header.rc = 1 := hrc
  rw [Rtpfb.decode, hheader]
  dsimp only
  rw [if_neg hlength, if_pos hone, hentries, hmedia, Rtpfb.decodeNack, Rtpfb.decodeNackLoop_encode]
  dsimp only
  rw [Rtpfb.snd_decodeNackLoop]
  exact ⟨rfl, rfl, rfl⟩

/-- Another packet in front: nothing is read as entries. -/
theorem Rtpfb.decode_other {p : RtcpPacket} (h : p.Valid) {count : UInt8} {type : RtcpPayloadType}
    {body : List UInt8} (hcontent : p.content = .other count type body) (htype : type = .rtpfb)
    (rest : List UInt8) :
  let found := Rtpfb.decode {} (p.encode ++ rest)
  found.1.lostSeqs = .leaf ∧ found.2 = 0
  := by
  obtain ⟨header, hheader, hrc⟩ := RtcpPacket.decodeHeader_encode h rest
  have hvalid := h.content
  rw [hcontent] at hrc hvalid
  have hne : header.rc ≠ 1 := fun hone => hvalid.2.2 ⟨htype, hrc.symm.trans hone⟩
  rw [Rtpfb.decode, hheader]
  dsimp only
  split
  · exact ⟨rfl, rfl⟩
  · exact ⟨rfl, rfl⟩

namespace WebrtcPlayer

/-! ### The sources of a player -/

/-- The encoders have the sources of the player. -/
def Sources (w : WebrtcPlayer) : Prop := ∀ audio, (rtpOf w.rtpMuxer audio).ssrc = w.ssrcOf audio

theorem forPackets_keeps {P : WebrtcPlayer → Prop}
    {f : WebrtcPlayer → Packet Unit → WebrtcPlayer × RtpOutput} (hf : ∀ w p, P w → P (f w p).1)
    (packets : List (Packet Unit)) {w : WebrtcPlayer} (h : P w) :
  P (forPackets f w packets).1
  := by
  induction packets generalizing w with
  | nil => exact h
  | cons p packets ih => exact ih (hf w p h)

theorem sources_encodeAll (m : RtpMuxer) (calls : List MediaCall) (audio : Bool) :
  (rtpOf (encodeAll m calls).1 audio).ssrc = (rtpOf m audio).ssrc
  := by
  induction calls generalizing m with
  | nil => rfl
  | cons call calls ih =>
      cases call with
      | video frame timestamp =>
          obtain ⟨hvideo, haudio, -⟩ := m.encodeVideo_makes frame timestamp
          apply (ih _).trans
          cases audio with
          | false => exact hvideo.ssrc_eq
          | true => exact congrArg Rtp.ssrc haudio
      | audio frames =>
          obtain ⟨haudio, hvideo, -⟩ := m.encodeAudio_makes frames
          apply (ih _).trans
          cases audio with
          | false => exact congrArg Rtp.ssrc hvideo
          | true => exact haudio.ssrc_eq

theorem Sources.sendPacket {w : WebrtcPlayer} (h : w.Sources) (p : Packet Unit) :
  (w.sendPacket p).1.Sources
  := by
  obtain ⟨hmuxer, hssrc, -⟩ := w.addPacket_frame p
  intro audio
  change (rtpOf (w.addPacket p).rtpMuxer audio).ssrc = (w.addPacket p).ssrcOf audio
  rw [hmuxer, h audio, ssrcOf, ssrcOf, videoSsrc, videoSsrc, hssrc]

theorem Sources.step {w : WebrtcPlayer} (h : w.Sources) (e : WebrtcEvent) :
  (w.step e).1.Sources
  := by
  cases e with
  | dtls material =>
      intro audio
      cases audio with
      | false => rfl
      | true => rfl
  | stun => exact h
  | media calls =>
      apply forPackets_keeps (P := Sources) (fun w p hw => hw.sendPacket p)
      exact fun audio => (sources_encodeAll w.rtpMuxer calls audio).trans (h audio)
  | rtpfb mediaSsrc lostSeqs => exact forPackets_keeps (P := Sources) (fun w p hw => hw) _ h

theorem sources_run (events : List WebrtcEvent) {w : WebrtcPlayer} (h : w.Sources) :
  (w.run events).Sources
  := by
  induction events generalizing w with
  | nil => exact h
  | cons e events ih => exact ih (h.step e)

theorem sources_connected (videoPayloadType audioPayloadType : UInt8) (audioSsrc : UInt32)
    (material : List UInt8) :
  (connected videoPayloadType audioPayloadType audioSsrc material).Sources
  := by
  intro audio
  cases audio with
  | false => rfl
  | true => rfl

/-! ### What is requested -/

/-- What is sent again is found by what is requested. -/
theorem lostPackets_eq (w : WebrtcPlayer) (mediaSsrc : UInt32) (lostSeqs : List UInt16) :
  w.lostPackets mediaSsrc lostSeqs =
    (w.lookedFor mediaSsrc lostSeqs).filterMap fun l => getPacket (w.queueOf l.1) l.2.toNat
  := by
  rw [lostPackets, lookedFor]
  cases mediaSsrc == w.rtpMuxer.audioRtp.ssrc with
  | true =>
      rw [Bool.not_true, Bool.false_and, if_neg Bool.false_ne_true, if_neg Bool.false_ne_true,
        List.filterMap_map]
      rfl
  | false =>
      cases mediaSsrc == w.rtpMuxer.videoRtp.ssrc with
      | true =>
          rw [Bool.not_true, Bool.and_false, if_neg Bool.false_ne_true, if_neg Bool.false_ne_true,
            if_neg Bool.false_ne_true, List.filterMap_map]
          rfl
      | false => rfl

/-- Numbers are looked for if the message is for a source of the player. -/
theorem mem_lookedFor {w : WebrtcPlayer} (h : w.Sources) (mediaSsrc : UInt32)
    (lostSeqs : List UInt16) (audio : Bool) (n : UInt16) :
  (audio, n) ∈ w.lookedFor mediaSsrc lostSeqs ↔ mediaSsrc = w.ssrcOf audio ∧ n ∈ lostSeqs
  := by
  have hvideo : w.rtpMuxer.videoRtp.ssrc = w.ssrcOf false := h false
  have haudio : w.rtpMuxer.audioRtp.ssrc = w.ssrcOf true := h true
  rw [lookedFor, hvideo, haudio]
  by_cases hself : mediaSsrc = w.ssrcOf audio
  · -- the source of the other track is another one
    have hother : (mediaSsrc == w.ssrcOf true) = audio := by
      cases audio with
      | true => exact beq_iff_eq.mpr hself
      | false =>
          rw [hself]
          exact beq_eq_false_iff_ne.mpr (w.ssrcOf_ne Bool.false_ne_true)
    have hknown : (!audio && !(mediaSsrc == w.ssrcOf false)) = false := by
      cases audio with
      | true => rfl
      | false =>
          rw [hself, beq_self_eq_true]
          rfl
    rw [hother, hknown, if_neg Bool.false_ne_true, and_iff_right hself, List.mem_map]
    constructor
    · rintro ⟨l, hl, hpair⟩
      cases hpair
      exact hl
    · exact fun hn => ⟨n, hn, rfl⟩
  · rw [iff_false_right (fun hboth => hself hboth.1)]
    split
    · exact List.not_mem_nil
    next hknown =>
      intro hmem
      obtain ⟨l, -, hpair⟩ := List.mem_map.mp hmem
      have haudio' : (mediaSsrc == w.ssrcOf true) = audio := congrArg Prod.fst hpair
      rw [haudio'] at hknown
      cases audio with
      | true => exact hself (beq_iff_eq.mp haudio')
      | false =>
          apply hknown
          rw [beq_eq_false_iff_ne.mpr hself]
          rfl

/-- `OnRtcp` sends again what is found by what it requests. -/
theorem onRtcp_eq (w : WebrtcPlayer) (buf : List UInt8) :
  w.onRtcp unprotect buf =
    forPackets (protectPacket · true) w
      ((w.requested unprotect buf).filterMap fun l => getPacket (w.queueOf l.1) l.2.toNat)
  := by
  rw [onRtcp, requested]
  cases feedback unprotect buf with
  | none => rfl
  | some found =>
      exact congrArg (forPackets (protectPacket · true) w)
        (w.lostPackets_eq found.1.mediaSsrc found.1.lostSeqs.toList)

/-! ### Datagrams -/

variable {unprotect} {w : WebrtcPlayer} {buf : List UInt8} {c : Compound}

theorem bytes_eq (c : Compound) :
  c.bytes = c.first.encode ++ c.rest.flatMap RtcpPacket.encode
  := List.flatMap_cons

/-- A datagram is decoded if its first packet is feedback. -/
theorem feedback_eq (h : Unprotects unprotect buf c.bytes) :
  feedback unprotect buf =
    if c.first.content.type = .rtpfb then some (Rtpfb.decode {} c.bytes) else none
  := by
  obtain ⟨-, -, hcode, -⟩ := c.first.encode_parts (c.rest.flatMap RtcpPacket.encode)
  rw [← bytes_eq] at hcode
  have hbuf : buf.length < 65535 := h.fits
  have hsize : ¬ int32 (UInt32.ofNat buf.length) ≥ (kSrtpMaxBufferSize : Int) := by
    have hlength : (UInt32.ofNat buf.length).toNat = buf.length
      := UInt32.toNat_ofNat_of_lt' (show buf.length < 2 ^ 32 by omega)
    rw [int32_of_lt (by rw [hlength]; omega), hlength, kSrtpMaxBufferSize]
    omega
  rw [feedback, srtcpUnprotect, if_neg hsize, h.result]
  dsimp only
  rw [h.clear, hcode]
  simp only [RtcpPayloadType.code_eq_rtpfb]

/-- Where the first packet is not a generic NACK, nothing is requested, and nothing is read. -/
theorem requested_other (hw : w.Sources) (h : Unprotects unprotect buf c.bytes) {count : UInt8}
    {type : RtcpPayloadType} {body : List UInt8} (hfirst : c.first.content = .other count type body) :
  (∀ audio n, (audio, n) ∉ w.requested unprotect buf) ∧
    ∀ fb read, feedback unprotect buf = some (fb, read) → read = 0
  := by
  have hfeedback := feedback_eq h
  rw [hfirst, RtcpContent.type] at hfeedback
  rw [requested]
  by_cases htype : type = .rtpfb
  · rw [if_pos htype] at hfeedback
    obtain ⟨hlost, hread⟩ := Rtpfb.decode_other (c.valid _ List.mem_cons_self) hfirst htype
      (c.rest.flatMap RtcpPacket.encode)
    rw [← bytes_eq] at hlost hread
    rw [hfeedback]
    constructor
    · intro audio n hmem
      dsimp only at hmem
      rw [mem_lookedFor hw, hlost] at hmem
      exact List.not_mem_nil hmem.2
    · intro fb read hsome
      rw [Option.some.inj hsome] at hread
      exact hread
  · rw [if_neg htype] at hfeedback
    rw [hfeedback]
    constructor
    · exact fun audio n => List.not_mem_nil
    · exact fun fb read hsome => nomatch hsome

/-- What is requested for a generic NACK in front. -/
theorem requested_nack (hw : w.Sources) (h : Unprotects unprotect buf c.bytes)
    {ssrc mediaSsrc : UInt32} {entries : List NackEntry}
    (hfirst : c.first.content = .nack ssrc mediaSsrc entries) :
  (∀ audio n, (audio, n) ∈ w.requested unprotect buf ↔ mediaSsrc = w.ssrcOf audio ∧
      n ∈ (Rtpfb.decodeNackLoop (RbTree.leaf.insertAll seqCmp (Rtpfb.numbers entries))
        (c.rest.flatMap RtcpPacket.encode)).1.toList) ∧
    ∃ fb, feedback unprotect buf =
      some (fb, 4 * ((c.rest.flatMap RtcpPacket.encode).length / 4) + 4 * entries.length)
  := by
  have hfeedback := feedback_eq h
  rw [hfirst, RtcpContent.type, if_pos rfl] at hfeedback
  obtain ⟨hmedia, hlost, hread⟩ := Rtpfb.decode_nack (c.valid _ List.mem_cons_self) hfirst
    (c.unpadded _ List.mem_cons_self) (c.rest.flatMap RtcpPacket.encode)
  rw [← bytes_eq] at hmedia hlost hread
  rw [requested, hfeedback]
  constructor
  · intro audio n
    dsimp only
    rw [mem_lookedFor hw, hmedia, hlost]
  · refine ⟨(Rtpfb.decode {} c.bytes).1, ?_⟩
    rw [← hread]

/-- A generic NACK names a number. -/
theorem exists_named {p : RtcpPacket} (h : p.Valid) {ssrc mediaSsrc : UInt32}
    {entries : List NackEntry} (hcontent : p.content = .nack ssrc mediaSsrc entries) :
  ∃ n, Rtpfb.Named entries n
  := by
  have hvalid := h.content
  rw [hcontent] at hvalid
  obtain ⟨e, entries, rfl⟩ := List.exists_cons_of_ne_nil hvalid
  exact ⟨e.pid, e, List.mem_cons_self, .inl rfl⟩

theorem exact_iff_meets_other (hw : w.Sources) (h : Unprotects unprotect buf c.bytes) {count : UInt8}
    {type : RtcpPayloadType} {body : List UInt8} (hfirst : c.first.content = .other count type body) :
  w.Exact unprotect buf c ↔ w.Meets c
  := by
  obtain ⟨hnone, hread⟩ := requested_other hw h hfirst
  rw [Meets, hfirst]
  constructor
  · intro hexact p hp ssrc audio entries hcontent
    have hmem := List.mem_cons_of_mem c.first hp
    obtain ⟨n, hn⟩ := exists_named (c.valid p hmem) hcontent
    exact hnone audio n ((hexact.requests audio n).mpr ⟨p, hmem, ssrc, entries, hcontent, hn⟩)
  · intro hnot
    constructor
    · intro audio n
      apply iff_of_false (hnone audio n)
      rintro ⟨p, hp, ssrc, entries, hcontent, -⟩
      rcases List.mem_cons.mp hp with rfl | hp
      · rw [hfirst] at hcontent
        cases hcontent
      · exact hnot p hp ssrc audio entries hcontent
    · intro fb read hsome hpos
      rw [hread fb read hsome] at hpos
      exact absurd hpos (Nat.lt_irrefl 0)

/-- The numbers that are placed are all that is in the set where nothing is behind the entries. -/
theorem mem_lostSeqs_alone (entries : List NackEntry) (n : UInt16) :
  n ∈ (Rtpfb.decodeNackLoop (RbTree.leaf.insertAll seqCmp (Rtpfb.numbers entries)) []).1.toList ↔
    Rtpfb.Placed (Rtpfb.numbers entries) n
  := Rtpfb.mem_insertAll_iff (Rtpfb.numbers entries) n

/-- What is listed in the only packet. -/
theorem lists_alone (hrest : c.rest = []) {ssrc mediaSsrc : UInt32} {entries : List NackEntry}
    (hfirst : c.first.content = .nack ssrc mediaSsrc entries) (source : UInt32) (n : UInt16) :
  c.Lists source n ↔ mediaSsrc = source ∧ Rtpfb.Named entries n
  := by
  rw [Compound.Lists, hrest]
  constructor
  · rintro ⟨p, hp, ssrc', entries', hcontent, hn⟩
    rw [List.mem_singleton.mp hp, hfirst] at hcontent
    cases hcontent
    exact ⟨rfl, hn⟩
  · rintro ⟨rfl, hn⟩
    exact ⟨c.first, List.mem_cons_self, ssrc, entries, hfirst, hn⟩

theorem exact_iff_meets_nack (hw : w.Sources) (h : Unprotects unprotect buf c.bytes)
    {ssrc mediaSsrc : UInt32} {entries : List NackEntry}
    (hfirst : c.first.content = .nack ssrc mediaSsrc entries) :
  w.Exact unprotect buf c ↔ w.Meets c
  := by
  obtain ⟨hrequested, fb, hfeedback⟩ := requested_nack hw h hfirst
  have hlength := RtcpPacket.length_encode_nack hfirst (c.unpadded _ List.mem_cons_self)
  rw [Meets, hfirst]
  -- bytes are read behind the first packet exactly if there are packets behind it
  have hreads : (∀ fb read, feedback unprotect buf = some (fb, read) → 0 < read →
      12 + read ≤ c.first.encode.length) ↔ c.rest = []
    := by
    rw [hfeedback, hlength]
    constructor
    · intro hall
      by_contra hrest
      have hbehind := RtcpPacket.length_packets hrest
      have hread := hall fb _ rfl (by omega)
      omega
    · rintro hrest fb' read hsome -
      obtain ⟨-, rfl⟩ := Prod.mk.inj (Option.some.inj hsome)
      rw [hrest, List.flatMap_nil, List.length_nil]
      omega
  constructor
  · intro hexact
    have hrest := hreads.mp hexact.reads
    refine ⟨hrest, ?_⟩
    intro audio hsource n hn
    have hlisted := (lists_alone hrest hfirst (w.ssrcOf audio) n).mpr ⟨hsource, hn⟩
    have hmem := ((hrequested audio n).mp ((hexact.requests audio n).mpr hlisted)).2
    rw [hrest] at hmem
    exact (mem_lostSeqs_alone entries n).mp hmem
  · rintro ⟨hrest, hplaced⟩
    refine ⟨?_, hreads.mpr hrest⟩
    intro audio n
    rw [hrequested, lists_alone hrest hfirst, hrest]
    apply and_congr_right
    intro hsource
    constructor
    · exact fun hmem => Rtpfb.named_of_placed ((mem_lostSeqs_alone entries n).mp hmem)
    · exact fun hn => (mem_lostSeqs_alone entries n).mpr (hplaced audio hsource n hn)

/-- A player requests what a datagram lists, and reads no entries outside of the first packet,
exactly if a generic NACK is alone or there is none for it. -/
theorem exact_iff_meets (hw : w.Sources) (h : Unprotects unprotect buf c.bytes) :
  w.Exact unprotect buf c ↔ w.Meets c
  := by
  cases hfirst : c.first.content with
  | nack ssrc mediaSsrc entries => exact exact_iff_meets_nack hw h hfirst
  | other count type body => exact exact_iff_meets_other hw h hfirst

/-- In every state of a player `OnRtcp` sends again what is found by what it requests, and this is as
it should be exactly if a generic NACK is alone in the datagram or there is none for the player. -/
theorem exact_run_iff_meets (videoPayloadType audioPayloadType : UInt8) (audioSsrc : UInt32)
    (material : List UInt8) (events : List WebrtcEvent)
    (unprotect : List UInt8 → Option (List UInt8)) (buf : List UInt8) (c : Compound)
    (h : Unprotects unprotect buf c.bytes) :
  let w := (connected videoPayloadType audioPayloadType audioSsrc material).run events
  (w.Exact unprotect buf c ↔ w.Meets c) ∧
    w.onRtcp unprotect buf =
      forPackets (protectPacket · true) w
        ((w.requested unprotect buf).filterMap fun l => getPacket (w.queueOf l.1) l.2.toNat)
  := by
  intro w
  refine ⟨?_, onRtcp_eq unprotect w buf⟩
  apply exact_iff_meets _ h
  apply sources_run events
  exact sources_connected videoPayloadType audioPayloadType audioSsrc material

/-- A datagram encrypted with a key stream that is constant: the first eight bytes are in clear, and
behind the others are the index and the tag. -/
def protectConstant (datagram : List UInt8) : List UInt8 :=
  datagram.take 8 ++ (datagram.drop 8).map (· ^^^ 0x5a) ++ List.replicate 14 0

def unprotectConstant (buf : List UInt8) : Option (List UInt8) :=
  let body := buf.take (buf.length - 14)
  some (body.take 8 ++ (body.drop 8).map (· ^^^ 0x5a))

/-- A generic NACK for the audio packet 2. -/
def nackTwo : RtcpPacket := ⟨.nack 7 1000 [⟨2, 0⟩], []⟩

theorem valid_nackTwo : nackTwo.Valid
  := ⟨List.cons_ne_nil _ _, rfl, nofun, by decide⟩

/-- A generic NACK alone. -/
def nackAlone : Compound where
  first := nackTwo
  rest := []
  valid _ hp := List.mem_singleton.mp hp ▸ valid_nackTwo
  unpadded _ hp := List.mem_singleton.mp hp ▸ rfl

theorem exact_nackAlone :
  Unprotects unprotectConstant (protectConstant nackAlone.bytes) nackAlone.bytes ∧
    (((connected 96 111 1000 (List.replicate 60 7)).run []).Exact unprotectConstant
        (protectConstant nackAlone.bytes) nackAlone ↔
      ((connected 96 111 1000 (List.replicate 60 7)).run []).Meets nackAlone)
  := by
  have hprotected : Unprotects unprotectConstant (protectConstant nackAlone.bytes) nackAlone.bytes
    := ⟨by decide, by decide, by decide⟩
  refine ⟨hprotected, ?_⟩
  exact (exact_run_iff_meets 96 111 1000 (List.replicate 60 7) [] unprotectConstant
    (protectConstant nackAlone.bytes) nackAlone hprotected).1

/-- A receiver report, and a generic NACK behind it. -/
def reportFirst : Compound where
  first := ⟨.other 0 .rr [0, 0, 0, 7], []⟩
  rest := [nackTwo]
  valid p hp := by
    rcases List.mem_pair.mp hp with rfl | rfl
    · exact ⟨⟨by decide, rfl, by decide⟩, rfl, nofun, by decide⟩
    · exact valid_nackTwo
  unpadded _ hp := List.mem_singleton.mp hp ▸ rfl

/-- The generic NACK behind the report is not seen. -/
theorem not_exact_reportFirst :
  ¬ ∀ (unprotect : List UInt8 → Option (List UInt8)) (buf : List UInt8) (c : Compound),
    Unprotects unprotect buf c.bytes →
      (connected 96 111 1000 (List.replicate 60 7)).Exact unprotect buf c
  := by
  intro h
  have hprotected : Unprotects unprotectConstant (protectConstant reportFirst.bytes) reportFirst.bytes
    := ⟨by decide, by decide, by decide⟩
  have hsources := sources_connected 96 111 1000 (List.replicate 60 7)
  apply (requested_other hsources hprotected rfl).1 true 2
  apply ((h _ _ _ hprotected).requests true 2).mpr
  exact ⟨nackTwo, List.mem_cons_of_mem _ List.mem_cons_self, 7, [⟨2, 0⟩], rfl,
    ⟨⟨2, 0⟩, List.mem_cons_self, .inl rfl⟩⟩

end WebrtcPlayer
