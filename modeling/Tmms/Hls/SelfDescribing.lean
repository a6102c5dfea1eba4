import Tmms.Hls.Serving
import Tmms.Mpegts.TsStreams

/-!
# Fragments that describe themselves

A player reads a fragment from its beginning: before a packet of an elementary stream there must
be an association table, and a map table with the identifier of the packet and the stream type of
its codec (`SelfDescribing`).

The muxer writes the tables when the streams of both audio and video are set, in a new fragment and
when they change.  It writes packets of elementary streams in any case.  So the fragments in the
window describe themselves in every run in which packets are written of a codec only when both
streams are set, and one of them to this codec (`selfDescribing_of_describesStreams`).  The table of
the checksums must not be the one of `CRC32Ieee`.  Without video there are no tables at all
(`not_selfDescribing_audioOnly`).
-/

open TransportStream

/-! ### Pieces -/

/-- Some pieces in a row are as a predicate on their bytes asks. -/
def HasRun (P : List (List UInt8) → Prop) (pieces : List TsPiece) : Prop :=
  ∃ before table after, pieces = before ++ table ++ after ∧ P (table.map TsPiece.bytes)

/-- There is an association table, and a map table that it has, with a stream. -/
def Described (pieces : List TsPiece) (stream : UInt8 × Nat) : Prop :=
  ∃ mapPid, HasRun (IsAssociation TsTool.crcMpeg2 mapPid) pieces ∧
    HasRun (IsMap TsTool.crcMpeg2 mapPid stream) pieces

/-- Before every packet of a codec there are the tables with its identifier and the stream type of
the codec. -/
def SelfDescribing (pieces : List TsPiece) : Prop :=
  ∀ before piece after codec, pieces = before ++ piece :: after → piece.codec = some codec →
    ∃ t, TsPacket.parse piece.bytes = some t ∧ Described before (codec.streamType, t.pid)

theorem HasRun.append {P : List (List UInt8) → Prop} {pieces : List TsPiece} (h : HasRun P pieces)
    (more : List TsPiece) :
  HasRun P (pieces ++ more)
  := by
  obtain ⟨before, table, after, rfl, hP⟩ := h
  refine ⟨before, table, after ++ more, ?_, hP⟩
  rw [List.append_assoc, List.append_assoc]

theorem Described.append {pieces : List TsPiece} {stream : UInt8 × Nat}
    (h : Described pieces stream) (more : List TsPiece) :
  Described (pieces ++ more) stream
  := by
  obtain ⟨mapPid, hassociation, hmap⟩ := h
  exact ⟨mapPid, hassociation.append more, hmap.append more⟩

theorem selfDescribing_nil : SelfDescribing []
  := by
  intro before piece after codec h
  cases before with
  | nil => cases h
  | cons b before => cases h

/-- More pieces, each of which is described by those before. -/
theorem SelfDescribing.append {pieces more : List TsPiece} (h : SelfDescribing pieces)
    (hmore : ∀ piece ∈ more, ∀ codec, piece.codec = some codec →
      ∃ t, TsPacket.parse piece.bytes = some t ∧ Described pieces (codec.streamType, t.pid)) :
  SelfDescribing (pieces ++ more)
  := by
  intro before piece after codec hsplit hcodec
  rcases List.append_eq_append_iff.mp hsplit with ⟨middle, rfl, hrest⟩ | ⟨middle, rfl, hrest⟩
  · have hpiece : piece ∈ more
      := by
      rw [hrest]
      exact List.mem_append_right _ List.mem_cons_self
    obtain ⟨t, ht, hdescribed⟩ := hmore piece hpiece codec hcodec
    exact ⟨t, ht, hdescribed.append middle⟩
  · cases middle with
    | nil =>
        have hpiece : piece ∈ more
          := by
          rw [List.nil_append] at hrest
          rw [← hrest]
          exact List.mem_cons_self
        rw [List.append_nil] at hmore
        exact hmore piece hpiece codec hcodec
    | cons p middle =>
        obtain ⟨rfl, rfl⟩ := List.cons.inj hrest
        exact h before piece middle codec rfl hcodec

/-- Pieces of no codec. -/
theorem SelfDescribing.tables {pieces more : List TsPiece} (h : SelfDescribing pieces)
    (hmore : ∀ piece ∈ more, piece.codec = none) :
  SelfDescribing (pieces ++ more)
  := by
  apply h.append
  intro piece hpiece codec hcodec
  cases (hmore piece hpiece).symm.trans hcodec

/-- What begins with a packet of a codec does not describe itself. -/
theorem not_selfDescribing_cons {piece : TsPiece} {pieces : List TsPiece} {codec : Codec}
    (hcodec : piece.codec = some codec) :
  ¬ SelfDescribing (piece :: pieces)
  := by
  intro h
  obtain ⟨-, -, mapPid, ⟨before, table, after, hnone, hassociation⟩, -⟩ :=
    h [] piece pieces codec rfl hcodec
  obtain ⟨-, -, ⟨bytes, -, hcarries, -⟩, -⟩ := hassociation
  apply hcarries.ne_nil
  rw [(List.append_eq_nil_iff.mp (List.append_eq_nil_iff.mp hnone.symm).1).2]
  exact List.map_nil

/-- The pieces that calls write. -/
theorem mem_pieces {calls : List WriterCall} {piece : TsPiece} :
  piece ∈ WriterCall.pieces calls ↔ .write piece ∈ calls
  := by
  rw [WriterCall.pieces, List.mem_filterMap]
  constructor
  · rintro ⟨call, hcall, hpiece⟩
    cases call with
    | appendTimeStamp dts => cases hpiece
    | write p =>
        obtain rfl := Option.some.inj hpiece
        exact hcall
  · intro hcall
    exact ⟨_, hcall, rfl⟩

/-- Tables that are written describe their streams, and are of no codec. -/
theorem TsEncoder.WritesTables.described {streams : List (UInt8 × Nat)} {calls : List WriterCall}
    (h : TsEncoder.WritesTables streams calls) (pieces : List TsPiece) :
  (∀ stream ∈ streams, Described (pieces ++ WriterCall.pieces calls) stream) ∧
    ∀ piece ∈ WriterCall.pieces calls, piece.codec = none
  := by
  obtain ⟨pat, pmt, rfl, hassociation, hmap⟩ := h
  have hbytes : ∀ packets : List (List UInt8),
      (WriterCall.pieces (writes none packets)).map TsPiece.bytes = packets
    := by
    intro packets
    rw [WriterCall.pieces_writes, List.map_map]
    exact List.map_id packets
  constructor
  · intro stream hstream
    refine ⟨0x1001, ⟨pieces, WriterCall.pieces (writes none pat),
      WriterCall.pieces (writes none pmt), ?_, ?_⟩, ⟨pieces ++ WriterCall.pieces (writes none pat),
      WriterCall.pieces (writes none pmt), [], ?_, ?_⟩⟩
    · rw [WriterCall.pieces_append, List.append_assoc]
    · rw [hbytes]
      exact hassociation
    · rw [WriterCall.pieces_append, List.append_nil, List.append_assoc]
    · rw [hbytes]
      exact hmap stream hstream
  · intro piece hpiece
    rw [WriterCall.pieces_append, WriterCall.pieces_writes, WriterCall.pieces_writes,
      ← List.map_append] at hpiece
    obtain ⟨b, -, rfl⟩ := List.mem_map.mp hpiece
    rfl

namespace HLSMuxer

variable {ε : Type}

/-! ### Runs -/

/-- The fragments in the window have what was written to them, and describe it. -/
def DescribesItself (m : HLSMuxer) : Prop :=
  ∀ f ∈ m.fragmentWindow.fragments,
    m.memory.content f = (m.memory.fragments f).written.flatMap TsPiece.bytes ∧
    SelfDescribing (m.memory.fragments f).written

/-- If packets are written of a codec, both streams are set, and one of them to this codec. -/
def DescribesStreams (m : HLSMuxer) (packet : Packet ε) : Prop :=
  ∀ codec ∈ m.encoder.pesCodec packet, m.encoder.Describes codec

instance (m : HLSMuxer) (packet : Packet ε) : Decidable (m.DescribesStreams packet) :=
  inferInstanceAs (Decidable (∀ codec ∈ m.encoder.pesCodec packet, m.encoder.Describes codec))

/-- A packet at a reading of the clock. It has no result if `OnPacket` has none. -/
def step (m : Option HLSMuxer) (e : Int × Packet ε) : Option HLSMuxer :=
  m.bind fun m => m.onPacket e.1 e.2

/-- The start of a stream. -/
def start (name : String) (g : TsTool.Globals) : HLSMuxer := { streamName := name, statics := g }

/-- What was written to the current fragment describes itself and the streams that are set. -/
def CurrentDescribed (e : TsEncoder) (pieces : List TsPiece) : Prop :=
  SelfDescribing pieces ∧ (e.Complete → ∀ stream ∈ e.streams, Described pieces stream)

/-- All fragments in use describe themselves. -/
structure Describing (m : HLSMuxer) : Prop where
  held : m.WellHeld
  own : m.statics.Own
  consistent : m.encoder.Consistent
  window : ∀ f ∈ m.fragmentWindow.fragments, SelfDescribing (m.memory.fragments f).written
  current : ∀ f, m.currentFragment = some f →
    CurrentDescribed m.encoder (m.memory.fragments f).written

variable {m m' : HLSMuxer} {f : FragmentPtr}

theorem describing_start (name : String) {g : TsTool.Globals} (hg : g.Own) :
  (start name g).Describing
  := by
  refine ⟨wellHeld_new name, hg, TsEncoder.consistent_new, ?_, ?_⟩
  · intro f hf
    cases hf
  · intro f hf
    cases hf

theorem Describing.describesItself (h : m.Describing) :
  m.DescribesItself
  := fun f hf => ⟨(h.held.owned.stored f).content, h.window f hf⟩

theorem Describing.closeFragment (h : m.Describing) (packet : Packet ε) :
  (m.closeFragment packet).Describing
  := by
  obtain ⟨hheld, hcurrent, -, hkeeps⟩ := closeFragment_spec h.held packet
  obtain ⟨hencoder, hstatics⟩ := closeFragment_encoder m packet
  refine ⟨hheld, hstatics ▸ h.own, hencoder ▸ h.consistent, ?_, ?_⟩
  · intro f hf
    obtain ⟨hin, hout⟩ := (mem_closeFragment h.held packet).mp hf
    rw [(hkeeps f hout).1]
    rcases hin with hold | ⟨-, hclosed⟩
    · exact h.window f hold
    · exact (h.current f hclosed).1
  · intro f hf
    rw [hcurrent] at hf
    split at hf
    · cases hf
    · rename_i hswitch
      have hout : f ∉ m.dropped packet
        := by
        rw [dropped, if_neg hswitch]
        exact List.not_mem_nil
      rw [hencoder, (hkeeps f hout).1]
      exact h.current f hf

/-- The current fragment is written to. -/
theorem Describing.performs (h : m.Describing) {pieces : List TsPiece}
    (hcurrent : m.currentFragment = some f) (hperforms : m.Performs m' f pieces)
    (hown : m'.statics.Own) (hconsistent : m'.encoder.Consistent)
    (hdescribed : CurrentDescribed m'.encoder ((m.memory.fragments f).written ++ pieces)) :
  m'.Describing
  := by
  refine ⟨hperforms.held, hown, hconsistent, ?_, ?_⟩
  · intro g hg
    rw [hperforms.window] at hg
    have hne : g ≠ f
      := by
      rintro rfl
      exact h.held.not_mem hcurrent hg
    rw [(hperforms.keeps g hne).1]
    exact h.window g hg
  · intro g hg
    rw [hperforms.current, hcurrent] at hg
    obtain rfl := Option.some.inj hg
    rw [hperforms.written]
    exact hdescribed

/-- A new fragment begins with the tables, if both streams are set. -/
theorem Describing.openFragment (h : m.Describing) {now : Int}
    (hopen : m.openFragment now = some (m', f)) :
  m'.Describing ∧ m'.currentFragment = some f ∧ m.encoder.SameStreams m'.encoder ∧
    ∀ packet : Packet ε, m'.encoder.pesCodec packet = m.encoder.pesCodec packet
  := by
  obtain ⟨hheld, hcurrent, hwindow, hkeeps, hcases⟩ := openFragment_spec h.held hopen
  rcases hcases with rfl | ⟨-, calls, hwrite, hwritten⟩
  · exact ⟨h, hcurrent, ⟨rfl, rfl, rfl, rfl⟩, fun _ => rfl⟩
  · obtain ⟨hconsistent, hown, hstreams, htables⟩ :=
      TsEncoder.writePatPmt_spec h.consistent h.own hwrite
    refine ⟨⟨hheld, hown, hconsistent, ?_, ?_⟩, hcurrent, hstreams,
      TsEncoder.writePatPmt_pesCodec hwrite⟩
    · intro g hg
      have hne : g ≠ f
        := by
        rintro rfl
        exact hheld.not_mem hcurrent hg
      rw [hwindow] at hg
      rw [(hkeeps g hne).1]
      exact h.window g hg
    · intro g hg
      rw [hcurrent] at hg
      obtain rfl := Option.some.inj hg
      rw [hwritten]
      rcases htables with ⟨hunset, rfl⟩ | ⟨-, htables⟩
      · exact ⟨selfDescribing_nil, fun hcomplete => absurd (hstreams.complete.mp hcomplete) hunset⟩
      · obtain ⟨hdescribed, hnone⟩ := htables.described []
        rw [← hstreams.streams] at hdescribed
        exact ⟨selfDescribing_nil.tables hnone, fun _ => hdescribed⟩

/-- The streams that a header sets are in the tables that it has written. -/
theorem Describing.parseHeader (h : m.Describing) (hcurrent : m.currentFragment = some f)
    {packet : Packet ε} (hparse : m.parseHeader f packet = some m') :
  m'.Describing ∧ m'.currentFragment = some f
  := by
  rcases parseHeader_spec h.held hparse with rfl | ⟨vc, ac, calls, hset, hperforms⟩
  · exact ⟨h, hcurrent⟩
  · refine ⟨?_, hperforms.current.trans hcurrent⟩
    obtain ⟨hself, htables⟩ := h.current f hcurrent
    obtain ⟨hconsistent, hown, hcases⟩ := TsEncoder.setStreamType_spec h.consistent h.own hset
    apply h.performs hcurrent hperforms hown hconsistent
    rcases hcases with ⟨hsame, rfl⟩ | ⟨hunset, rfl⟩ | hwrites
    · rw [hsame]
      exact ⟨hself.append fun _ hpiece => (nomatch hpiece),
        fun hcomplete stream hstream => (htables hcomplete stream hstream).append _⟩
    · exact ⟨hself.append fun _ hpiece => (nomatch hpiece),
        fun hcomplete => absurd hcomplete hunset⟩
    · obtain ⟨hdescribed, hnone⟩ := hwrites.described (m.memory.fragments f).written
      exact ⟨hself.tables hnone, fun _ => hdescribed⟩

/-- Packets are written to the streams in the tables. -/
theorem Describing.encode (h : m.Describing) (hcurrent : m.currentFragment = some f)
    {packet : Packet ε}
    (hdescribes : m.DescribesStreams packet) (hencode : m.encode f packet = some m') :
  m'.Describing
  := by
  obtain ⟨_, calls, _, hencode, hstatics, hperforms, -⟩ := encode_spec h.held hencode
  obtain ⟨hself, htables⟩ := h.current f hcurrent
  obtain ⟨hconsistent, hstreams, hpieces⟩ := TsEncoder.encode_spec h.consistent hencode
  apply h.performs hcurrent hperforms (hstatics ▸ h.own) hconsistent
  constructor
  · apply hself.append
    intro piece hpiece codec hcodec
    obtain ⟨codec', hpes, hcodec', hparse⟩ := hpieces piece (mem_pieces.mp hpiece)
    obtain rfl := Option.some.inj (hcodec.symm.trans hcodec')
    have hset := hdescribes codec hpes
    obtain ⟨t, ht, hstream⟩ := hparse hset
    exact ⟨t, ht, htables hset.1 _ hstream⟩
  · rw [hstreams.complete, hstreams.streams]
    exact fun hcomplete stream hstream => (htables hcomplete stream hstream).append _

/-- A packet that is written to streams that are set, if it is written. -/
theorem Describing.onPacket (h : m.Describing) {now : Int} {packet : Packet ε}
    (hdescribes : m.DescribesStreams packet) (hpacket : m.onPacket now packet = some m') :
  m'.Describing
  := by
  obtain ⟨hencoder, -⟩ := closeFragment_encoder m packet
  rw [HLSMuxer.onPacket] at hpacket
  split at hpacket
  · rename_i m₁ f hopen
    obtain ⟨hopened, hcurrent, hstreams, hpes⟩ := (h.closeFragment packet).openFragment hopen
    rw [hencoder] at hstreams
    split at hpacket
    · rename_i m₂ hparse
      obtain ⟨hparsed, hcurrent₂⟩ := hopened.parseHeader hcurrent hparse
      apply hparsed.encode hcurrent₂ _ hpacket
      intro codec hcodec₂
      by_cases hheader : isCodecHeader packet = true
      · rw [TsEncoder.pesCodec_header hheader] at hcodec₂
        cases hcodec₂
      · rw [HLSMuxer.parseHeader, if_neg hheader] at hparse
        obtain rfl := Option.some.inj hparse
        rw [hpes, hencoder] at hcodec₂
        exact hstreams.describes.mpr (hdescribes codec hcodec₂)
    · cases hpacket
  · cases hpacket

open Runs

/-- In a run in which packets are written to streams that are set, every fragment that is in the
window describes itself. -/
theorem selfDescribing_of_describesStreams (name : String) {g : TsTool.Globals} (hg : g.Own)
    {packets : List (Int × Packet ε)}
    (h : Steps step (fun m e => ∀ m' ∈ m, m'.DescribesStreams e.2) (some (start name g))
      packets) :
  Throughout step (fun m => ∀ m' ∈ m, m'.DescribesItself) (some (start name g)) packets
  := by
  have hthroughout : Throughout step (fun m => ∀ m' ∈ m, m'.Describing) (some (start name g))
      packets
    := by
    apply h.throughout
    · intro m hm
      obtain rfl := Option.some.inj hm
      exact describing_start name hg
    · intro m e hm hdescribes m' hstep
      cases m with
      | none => cases hstep
      | some m => exact (hm m rfl).onPacket (hdescribes m rfl) hstep
  exact hthroughout.mono fun m hm m' hm' => (hm m' hm').describesItself

/-! ### With video and without -/

/-- A header of AAC, or one of its frames. -/
def audioPacket (timestamp : Nat) (data : List UInt8) : Int × Packet Unit :=
  (timestamp, HlsServing.packetOf kPacketTypeAudio timestamp (0xaf :: data))

/-- A header of AVC, or one of its key frames. -/
def videoPacket (timestamp : Nat) (data : List UInt8) : Int × Packet Unit :=
  (timestamp, HlsServing.packetOf (kPacketTypeVideo + kFrameTypeKeyFrame) timestamp (0x17 :: data))

/-- The headers come first, and then frames of both. -/
def audioAndVideo : List (Int × Packet Unit) :=
  [audioPacket 0 [0x00, 0x12, 0x10],
    videoPacket 0 [0x00, 0x00, 0x00, 0x00, 0x01, 0x64, 0x00, 0x1f, 0xff, 0xe1, 0x00, 0x02, 0x67,
      0x64, 0x01, 0x00, 0x02, 0x68, 0xee],
    videoPacket 0 [0x01, 0x00, 0x00, 0x00, 0x00, 0x00, 0x00, 0x02, 0x65, 0x88],
    audioPacket 13000 [0x01, 0x21], audioPacket 13023 [0x01, 0x21],
    videoPacket 13040 [0x01, 0x00, 0x00, 0x00, 0x00, 0x00, 0x00, 0x02, 0x65, 0x88]]

/-- The first fragment is in the window when the second one has frames. -/
theorem selfDescribing_audioAndVideo :
  Throughout step (fun m => ∀ m' ∈ m, m'.DescribesItself) (some (start "s" {})) audioAndVideo
  := by
  apply selfDescribing_of_describesStreams (g := {}) "s" rfl
  decide +kernel

/-- A header of AAC, and then frames. -/
def audioOnly : List (Int × Packet Unit) :=
  [audioPacket 0 [0x00, 0x12, 0x10], audioPacket 0 [0x01, 0x21], audioPacket 13000 [0x01, 0x21],
    audioPacket 13023 [0x01, 0x21]]

/-- The first fragment begins with a frame. -/
theorem not_selfDescribing_audioOnly :
  ¬ ∀ (name : String) (g : TsTool.Globals), g.Own → ∀ packets : List (Int × Packet Unit),
      Throughout step (fun m => ∀ m' ∈ m, m'.DescribesItself) (some (start name g)) packets
  := by
  intro h
  have hlast := (h "s" {} rfl audioOnly).last
  generalize hend : run step (some (start "s" {})) audioOnly = m at hlast
  have hfirst : m.map (fun m => m.fragmentWindow.fragments.map fun f =>
      ((m.memory.fragments f).written.head?.map TsPiece.codec)) = some [some (some .aac)]
    := by
    rw [← hend]
    decide +kernel
  cases m with
  | none => cases hfirst
  | some m =>
      rw [Option.map_some] at hfirst
      obtain ⟨f, hf, hhead⟩ : ∃ f ∈ m.fragmentWindow.fragments,
          (m.memory.fragments f).written.head?.map TsPiece.codec = some (some .aac)
        := by
        apply List.mem_map.mp
        rw [Option.some.inj hfirst]
        exact List.mem_singleton_self _
      obtain ⟨piece, hpiece, hcodec⟩ := Option.map_eq_some_iff.mp hhead
      obtain ⟨rest, hwritten⟩ := List.head?_eq_some_iff.mp hpiece
      have hself := (hlast m rfl f hf).2
      rw [hwritten] at hself
      exact not_selfDescribing_cons hcodec hself

end HLSMuxer
