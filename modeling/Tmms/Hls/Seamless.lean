import Tmms.Hls.Multiplexing
import Tmms.Hls.Owners
import Tmms.Hls.SelfDescribing

/-!
# Fragments without a seam

A player reads the fragments of a playlist one behind the other, as one transport stream.  Beside
the muxer goes a record of the frames that were written to each fragment (`Screening`).

Any fragments in a row are read as a whole: the packets of every identifier are numbered on, over
the ends of fragments also, each table that is received is right, and of every other identifier the
frames are received that are recorded, all of them and in order (`Seamless`).  This holds in every
run in which audio keeps the codec that it has first, and the stream of a frame is set before the
frame (`seamless_of_meets`).  The table of checksums is that of the transport stream: nothing in the
process has filled it as `CRC32Ieee` does, which the answers of `Stun` call.
-/

open TransportStream

variable {ε : Type}

/-- A muxer, and the frames that were written to each fragment since it was opened. -/
structure Screening where
  muxer : HLSMuxer
  frames : FragmentPtr → List PesFrame := fun _ => []

namespace Screening

/-- The frames in the current fragment. -/
def currentFrames (s : Screening) : List PesFrame := s.muxer.currentFragment.toList.flatMap s.frames

/-- The first part of `OnPacket`. -/
def closeFragment (s : Screening) (packet : Packet ε) : Screening :=
  { s with muxer := s.muxer.closeFragment packet }

/-- A fragment has other frames, and the muxer may have changed. -/
def record (s : Screening) (muxer : HLSMuxer) (f : FragmentPtr) (frames : List PesFrame) :
    Screening :=
  ⟨muxer, Function.update s.frames f frames⟩

/-- `OnPacket`, and the frame is recorded that is written. -/
def onPacket (s : Screening) (now : Int) (packet : Packet ε) : Option Screening :=
  let s := s.closeFragment packet
  match s.muxer.openFragment now with
  | some (m, f) =>
      match m.parseHeader f packet with
      | some m =>
          match m.encode f packet with
          | some muxer => some (s.record muxer f (s.currentFrames ++
              (m.encoder.frame (m.memory.fragments f).writer packet
                packet.timestamp.toBitVec.toInt).toList))
          | none => none
      | none => none
  | none => none

/-- A packet at a reading of the clock. It has no result if `OnPacket` has none. -/
def step (s : Option Screening) (e : Int × Packet ε) : Option Screening :=
  s.bind fun s => s.onPacket e.1 e.2

/-- The start of a stream. -/
def start (name : String) (g : TsTool.Globals) : Screening := { muxer := HLSMuxer.start name g }

/-- A header of audio is of the codec that there is, and a frame is written when its stream is
set. -/
def Meets (s : Screening) (packet : Packet ε) : Prop :=
  (HLSMuxer.isCodecHeader packet = true → packet.isAudio = true →
    s.muxer.encoder.KeepsAudio ((packet.data.getD 0 0 &&& 0xf0) >>> 4)) ∧
  s.muxer.encoder.StreamSet packet

instance (s : Screening) (packet : Packet ε) : Decidable (s.Meets packet) :=
  inferInstanceAs (Decidable ((_ → _ → TsEncoder.KeepsAudio _ _) ∧ TsEncoder.StreamSet _ _))

/-- The fragments from the oldest one on. -/
def inOrder (s : Screening) : List FragmentPtr :=
  s.muxer.fragmentWindow.fragments ++ s.muxer.currentFragment.toList

/-- Fragments are read one behind the other, with nothing lost. -/
def Plays (s : Screening) (fragments : List FragmentPtr) : Prop :=
  ∃ ts, readStream (fragments.flatMap s.muxer.memory.content) = some ts ∧
    (∀ pid, ∃ counter, NumberedOn counter (ofPid pid ts)) ∧
    (∀ unit ∈ received (ofPid 0x0000 ts), TsEncoder.IsProgram unit) ∧
    (∀ unit ∈ received (ofPid 0x1001 ts), s.muxer.encoder.ListsStreams unit) ∧
    ∀ pid, pid ≠ 0x0000 → pid ≠ 0x1001 →
      (received (ofPid pid ts)).map PesPacket.parse =
        ((fragments.flatMap s.frames).filter fun f => f.pid = pid).map fun f => some f.packet

/-- Any fragments in a row can be played. -/
def Seamless (s : Screening) : Prop :=
  ∀ fragments, fragments <:+: s.inOrder → s.Plays fragments

/-! ### Fragments one behind the other -/

/-- A fragment goes on with a multiplex of tables, and of the frames that are recorded. -/
def IsPart (s : Screening) (c : Nat → Nat) (f : FragmentPtr) (c' : Nat → Nat) : Prop :=
  ∃ units, CarriesUnits c (s.muxer.memory.fragments f).written units c' ∧
    s.muxer.encoder.Shows units (s.frames f)

/-- All fragments are parts of one stream, and the counters at its end are those of the encoder. -/
structure Inv (s : Screening) : Prop where
  held : s.muxer.WellHeld
  own : s.muxer.statics.Own
  sound : s.muxer.encoder.Sound
  along : ∃ c c', Along s.IsPart c s.inOrder c' ∧ s.muxer.encoder.Agrees c'

theorem inv_start (name : String) {g : TsTool.Globals} (hg : g.Own) :
  (start name g).Inv
  := by
  refine ⟨HLSMuxer.wellHeld_new name, hg, ⟨TsEncoder.consistent_new, ?_, ?_⟩, ?_⟩
  · exact ⟨List.Perm.refl _, Nat.le_of_ble_eq_true rfl⟩
  · exact fun hset => absurd rfl hset
  · exact ⟨_, _, .nil _, TsEncoder.agrees_new⟩

variable {s : Screening} {m : HLSMuxer} {f : FragmentPtr} {c c' : Nat → Nat}

/-- A part stays one when its fragment and its frames stay, and the streams that are set. -/
theorem IsPart.keeps {s' : Screening} (h : s.IsPart c f c')
    (hkeeps : s.muxer.memory.Keeps s'.muxer.memory f) (hframes : s'.frames f = s.frames f)
    (hsettled : s.muxer.encoder.Complete → s.muxer.encoder.SameStreams s'.muxer.encoder) :
  s'.IsPart c f c'
  := by
  obtain ⟨units, hcarries, hshows⟩ := h
  refine ⟨units, ?_, ?_⟩
  · rw [hkeeps.1]
    exact hcarries
  · rw [hframes]
    exact hshows.mono hsettled

/-- The oldest fragments may leave. -/
theorem Inv.closeFragment (h : s.Inv) (packet : Packet ε) :
  (s.closeFragment packet).Inv
  := by
  obtain ⟨hheld, hcurrent, hfragments, hkeeps⟩ := HLSMuxer.closeFragment_spec h.held packet
  obtain ⟨hencoder, hstatics⟩ := HLSMuxer.closeFragment_encoder s.muxer packet
  obtain ⟨c, c', halong, hagrees⟩ := h.along
  have hstays : ∀ f ∈ (s.closeFragment packet).inOrder, f ∉ s.muxer.dropped packet
    := by
    intro f hf
    rcases List.mem_append.mp hf with hf | hf
    · exact ((HLSMuxer.mem_closeFragment h.held packet).mp hf).2
    · rw [HLSMuxer.dropped]
      split
      · rename_i hswitch
        rw [Screening.closeFragment, hcurrent, if_pos hswitch] at hf
        cases hf
      · exact List.not_mem_nil
  have hsuffix : (s.closeFragment packet).inOrder <:+ s.inOrder
    := by
    rw [inOrder, inOrder, Screening.closeFragment]
    dsimp only
    rw [hcurrent, hfragments]
    split
    · rw [Option.toList_none, List.append_nil]
      exact List.drop_suffix _ _
    · rename_i hswitch
      rw [HLSMuxer.dropped, if_neg hswitch, List.append_nil]
      exact List.suffix_refl _
  obtain ⟨before, hbefore⟩ := hsuffix
  rw [← hbefore] at halong
  obtain ⟨d, -, hrest⟩ := halong.of_append
  refine ⟨hheld, hstatics ▸ h.own, hencoder ▸ h.sound, d, c', hrest.mono ?_, hencoder ▸ hagrees⟩
  intro g hg d d' hpart
  have hstreams : s.muxer.encoder.Complete →
      s.muxer.encoder.SameStreams (s.closeFragment packet).muxer.encoder
    := by
    intro _
    rw [Screening.closeFragment, hencoder]
    exact ⟨rfl, rfl, rfl, rfl⟩
  exact hpart.keeps (hkeeps g (hstays g hg)) rfl hstreams

/-- Behind fragments that stay there is one that is written to. -/
theorem along_record {fragments : List FragmentPtr} {d : Nat → Nat}
    (h : Along s.IsPart c fragments d) (hnot : f ∉ fragments)
    (hkeeps : ∀ g, g ≠ f → s.muxer.memory.Keeps m.memory g)
    (hsettled : s.muxer.encoder.Complete → s.muxer.encoder.SameStreams m.encoder)
    {units : List (Nat × List UInt8)} {frames : List PesFrame}
    (hcarries : CarriesUnits d (m.memory.fragments f).written units c')
    (hshows : m.encoder.Shows units frames) :
  Along (s.record m f frames).IsPart c (fragments ++ [f]) c'
  := by
  have hbefore : Along (s.record m f frames).IsPart c fragments d
    := by
    apply h.mono
    intro g hg d d' hpart
    have hne : g ≠ f
      := by
      rintro rfl
      exact hnot hg
    exact hpart.keeps (hkeeps g hne) (Function.update_of_ne hne _ _) hsettled
  apply hbefore.append
  refine .cons ⟨units, hcarries, ?_⟩ (.nil _)
  rw [record]
  dsimp only
  rw [Function.update_self]
  exact hshows

/-- The current fragment is written to. -/
theorem Inv.performs (h : s.Inv) (hcurrent : s.muxer.currentFragment = some f)
    {pieces : List TsPiece} (hperforms : s.muxer.Performs m f pieces) (hown : m.statics.Own)
    {frames : List PesFrame}
    (hcontinues : ∀ c, s.muxer.encoder.Agrees c →
      ∃ c', s.muxer.encoder.Continues m.encoder c pieces frames c') :
  (s.record m f (s.frames f ++ frames)).Inv
  := by
  obtain ⟨c, c', halong, hagrees⟩ := h.along
  obtain ⟨c'', hmore⟩ := hcontinues c' hagrees
  rw [inOrder, hcurrent, Option.toList_some] at halong
  obtain ⟨d, hwindow, hlast⟩ := halong.of_append
  refine ⟨hperforms.held, hown, hmore.sound, c, c'', ?_, hmore.agrees⟩
  have horder : (s.record m f (s.frames f ++ frames)).inOrder =
      s.muxer.fragmentWindow.fragments ++ [f]
    := by
    rw [inOrder, record]
    dsimp only
    rw [hperforms.window, hperforms.current, hcurrent]
    rfl
  rw [horder]
  cases hlast with
  | cons hpart hnil =>
      cases hnil with
      | nil =>
          obtain ⟨units, hcarries, hshows⟩ := hpart
          obtain ⟨units', hcarries', hshows'⟩ := hmore.carries
          apply along_record hwindow (h.held.not_mem hcurrent) hperforms.keeps hmore.settled
          · rw [hperforms.written]
            exact hcarries.append hcarries'
          · exact (hshows.mono hmore.settled).append hshows'

/-- A fragment is current, which may be new: then it has the program tables. -/
theorem Inv.openFragment (h : s.Inv) {now : Int}
    (hopen : s.muxer.openFragment now = some (m, f)) :
  (s.record m f s.currentFrames).Inv ∧ m.currentFragment = some f ∧
    s.muxer.encoder.SameStreams m.encoder ∧
    ∀ packet : Packet ε, m.encoder.pesCodec packet = s.muxer.encoder.pesCodec packet
  := by
  obtain ⟨hheld, hcurrent, hwindow, hkeeps, hcases⟩ := HLSMuxer.openFragment_spec h.held hopen
  rcases hcases with hsame | ⟨hnone, calls, hwrite, hwritten⟩
  · subst hsame
    have hframes : s.currentFrames = s.frames f
      := by
      rw [currentFrames, hcurrent]
      exact List.append_nil _
    rw [record, hframes, Function.update_eq_self]
    exact ⟨h, hcurrent, ⟨rfl, rfl, rfl, rfl⟩, fun _ => rfl⟩
  · obtain ⟨c, c', halong, hagrees⟩ := h.along
    obtain ⟨hown, hstreams, c'', hmore⟩ :=
      TsEncoder.continues_writePatPmt h.sound hagrees h.own hwrite
    obtain ⟨units, hcarries, hshows⟩ := hmore.carries
    refine ⟨⟨hheld, hown, hmore.sound, c, c'', ?_, hmore.agrees⟩, hcurrent, hstreams,
      fun _ => TsEncoder.writePatPmt_pesCodec hwrite _⟩
    have horder : (s.record m f s.currentFrames).inOrder =
        s.muxer.fragmentWindow.fragments ++ [f]
      := by
      rw [inOrder, record]
      dsimp only
      rw [hwindow, hcurrent]
      rfl
    rw [inOrder, hnone, Option.toList_none, List.append_nil] at halong
    have hframes : s.currentFrames = []
      := by
      rw [currentFrames, hnone]
      rfl
    rw [horder, hframes]
    apply along_record halong _ hkeeps hmore.settled _ hshows
    · rw [← hwindow]
      exact hheld.not_mem hcurrent
    · rw [hwritten]
      exact hcarries

/-- A header of video leaves audio as it is. -/
theorem keepsAudio_reserved (e : TsEncoder) :
  e.KeepsAudio kAudioCodecIDReserved
  := fun hnew => absurd rfl hnew.1

/-- A header sets a stream, and audio keeps its codec. -/
theorem Meets.parseHeader {packet : Packet ε} (h : s.Meets packet)
    (hparse : s.muxer.parseHeader f packet = some m) :
  m = s.muxer ∨ ∃ vc ac encoder statics calls, s.muxer.encoder.KeepsAudio ac ∧
    s.muxer.encoder.setStreamType s.muxer.statics vc ac = some (encoder, statics, calls) ∧
    ({ s.muxer with encoder := encoder, statics := statics } : HLSMuxer).perform f calls = some m
  := by
  rw [HLSMuxer.parseHeader] at hparse
  split at hparse
  · rename_i hheader
    rw [HLSMuxer.parseCodec] at hparse
    dsimp only at hparse
    split at hparse
    · rename_i haudio
      split at hparse
      · rename_i htypes
        exact .inr ⟨_, _, _, _, _, h.1 hheader haudio, htypes, hparse⟩
      · cases hparse
    · split at hparse
      · split at hparse
        · rename_i htypes
          exact .inr ⟨_, _, _, _, _, keepsAudio_reserved _, htypes, hparse⟩
        · cases hparse
      · exact .inl (Option.some.inj hparse).symm
  · exact .inl (Option.some.inj hparse).symm

/-- The streams that a header sets are in the tables. -/
theorem Inv.parseHeader (h : s.Inv) (hcurrent : s.muxer.currentFragment = some f)
    {packet : Packet ε} (hmeets : s.Meets packet)
    (hparse : s.muxer.parseHeader f packet = some m) :
  (s.record m f (s.frames f)).Inv ∧ m.currentFragment = some f
  := by
  rcases hmeets.parseHeader hparse with rfl | ⟨vc, ac, encoder, statics, calls, hkeeps, hset, hall⟩
  · rw [record, Function.update_eq_self]
    exact ⟨h, hcurrent⟩
  · obtain ⟨hperforms, hencoder, hstatics⟩ := HLSMuxer.perform_spec
      (m := { s.muxer with encoder := encoder, statics := statics }) h.held hall
    have hsame : s.muxer.Performs m f (WriterCall.pieces calls)
      := ⟨hperforms.held, hperforms.window, hperforms.current, hperforms.written, hperforms.keeps⟩
    have hcontinues : ∀ c, s.muxer.encoder.Agrees c →
        m.statics.Own ∧ ∃ c', s.muxer.encoder.Continues m.encoder c (WriterCall.pieces calls) [] c'
      := by
      intro c hagrees
      rw [hencoder, hstatics]
      exact TsEncoder.continues_setStreamType h.sound hagrees h.own hkeeps hset
    obtain ⟨c, c', -, hagrees⟩ := h.along
    have hinv := h.performs hcurrent hsame (hcontinues c' hagrees).1
      fun c hagrees => (hcontinues c hagrees).2
    rw [List.append_nil] at hinv
    exact ⟨hinv, hperforms.current.trans hcurrent⟩

/-- The frame of a packet is recorded. -/
theorem Inv.encode (h : s.Inv) (hcurrent : s.muxer.currentFragment = some f) {packet : Packet ε}
    (hset : s.muxer.encoder.StreamSet packet) (hencode : s.muxer.encode f packet = some m) :
  (s.record m f (s.frames f ++ (s.muxer.encoder.frame (s.muxer.memory.fragments f).writer packet
    packet.timestamp.toBitVec.toInt).toList)).Inv
  := by
  obtain ⟨writer, calls, ret, hresult, hstatics, hperforms, -⟩ :=
    HLSMuxer.encode_spec h.held hencode
  apply h.performs hcurrent hperforms
  · rw [hstatics]
    exact h.own
  · intro c hagrees
    exact TsEncoder.continues_encode h.sound hagrees hset hresult

/-- Of the encoder only the streams and what the demuxers have seen have a part in what a packet
must be like. -/
theorem Meets.of_sameStreams {s' : Screening} {packet : Packet ε} (h : s.Meets packet)
    (hsame : s.muxer.encoder.SameStreams s'.muxer.encoder)
    (hpes : s'.muxer.encoder.pesCodec packet = s.muxer.encoder.pesCodec packet) :
  s'.Meets packet
  := by
  have htype : ∀ (e : TsEncoder) (ac : UInt8), (e.setAudioPid ac).2 =
      if ac = kAudioCodecIDAAC then .audioAAC else if ac = kAudioCodecIDMP3 then .audioMp3
      else .reserved
    := by
    intro e ac
    rw [TsEncoder.setAudioPid]
    split
    · rfl
    · split
      · rfl
      · rfl
  constructor
  · intro hheader haudio hnew
    rw [TsEncoder.NewAudio, htype, hsame.audioType] at hnew
    rw [hsame.audioType]
    apply h.1 hheader haudio
    rw [TsEncoder.NewAudio, htype]
    exact hnew
  · intro hsome
    rw [hpes] at hsome
    rw [hsame.audioType, hsame.videoType]
    exact h.2 hsome

/-- A packet keeps the fragments in one stream. -/
theorem Inv.onPacket {s' : Screening} (h : s.Inv) {now : Int} {packet : Packet ε}
    (hmeets : s.Meets packet) (hpacket : s.onPacket now packet = some s') :
  s'.Inv
  := by
  obtain ⟨hencoder, -⟩ := HLSMuxer.closeFragment_encoder s.muxer packet
  have hclosed := h.closeFragment packet
  have hmeets₀ : (s.closeFragment packet).Meets packet
    := by
    rw [Meets, Screening.closeFragment, hencoder]
    exact hmeets
  rw [Screening.onPacket] at hpacket
  generalize s.closeFragment packet = s₀ at hpacket hclosed hmeets₀
  split at hpacket
  · rename_i m₁ f hopen
    obtain ⟨hopened, hcurrent, hstreams, hpes⟩ := hclosed.openFragment (ε := ε) hopen
    have hmeets₁ : (s₀.record m₁ f s₀.currentFrames).Meets packet
      := hmeets₀.of_sameStreams hstreams (hpes packet)
    split at hpacket
    · rename_i m₂ hparse
      obtain ⟨hparsed, hcurrent₂⟩ := hopened.parseHeader hcurrent hmeets₁ hparse
      have hset : m₂.encoder.StreamSet packet
        := by
        by_cases hheader : HLSMuxer.isCodecHeader packet = true
        · intro hsome
          rw [TsEncoder.pesCodec_header hheader] at hsome
          cases hsome
        · rw [HLSMuxer.parseHeader, if_neg hheader] at hparse
          obtain rfl := Option.some.inj hparse
          exact hmeets₁.2
      split at hpacket
      · rename_i m₃ hencode
        cases hpacket
        have hencoded := hparsed.encode hcurrent₂ hset hencode
        simp only [record, Function.update_self, Function.update_idem] at hencoded
        exact hencoded
      · cases hpacket
    · cases hpacket
  · cases hpacket

/-! ### Reading -/

/-- What a fragment has is not too large to be read. -/
theorem length_content (h : s.muxer.WellHeld) (f : FragmentPtr) :
  ((s.muxer.memory.fragments f).written.flatMap TsPiece.bytes).length < 2 ^ 31
  := by
  have hstored := h.owned.stored f
  rw [← hstored.content, HlsMemory.content]
  split
  · rename_i p hp
    have hstores := hstored.some p hp
    have hle := hstores.size_le
    have hcapacity := hstores.capacity
    have hlt := hstored.bufSize_lt
    rw [hstores.length]
    omega
  · exact Nat.two_pow_pos 31

/-- Parts one behind the other are units of one stream, none of which is too large. -/
theorem exists_units (h : s.muxer.WellHeld) {fragments : List FragmentPtr}
    (halong : Along s.IsPart c fragments c') :
  ∃ units ts, Reads (fragments.flatMap fun f => (s.muxer.memory.fragments f).written) ts ∧
    Multiplex c units ts c' ∧ s.muxer.encoder.Shows units (fragments.flatMap s.frames) ∧
    ∀ u ∈ units, u.2.length < 2 ^ 31
  := by
  induction halong with
  | nil c =>
      refine ⟨[], [], rfl, .nil c, TsEncoder.shows_nil _, ?_⟩
      intro u hu
      cases hu
  | @cons c d c' f fragments hpart _ ih =>
      obtain ⟨units, ⟨ts, hreads, hunits⟩, hshows⟩ := hpart
      obtain ⟨units', ts', hreads', hunits', hshows', hsmall⟩ := ih
      refine ⟨units ++ units', ts ++ ts', hreads.append hreads', hunits.append hunits',
        hshows.append hshows', ?_⟩
      intro u hu
      rcases List.mem_append.mp hu with hu | hu
      · have hle := hunits.length_le hu
        have hpayloads := length_payloads_le hreads
        have hcontent := length_content h f
        rw [List.flatMap_def] at hcontent
        omega
      · exact hsmall u hu

/-- The units of an identifier are those of its frames. -/
theorem parse_units {units : List (Nat × List UInt8)} {frames : List PesFrame}
    (h : units.filter (fun u => u.1 ≠ 0x0000 ∧ u.1 ≠ 0x1001) =
      frames.map fun f => (f.pid, f.bytes))
    (hsmall : ∀ u ∈ units, u.2.length < 2 ^ 31) {pid : Nat} (hpid : pid ≠ 0x0000 ∧ pid ≠ 0x1001) :
  ((units.filter fun u => u.1 = pid).map Prod.snd).map PesPacket.parse =
    (frames.filter fun f => f.pid = pid).map fun f => some f.packet
  := by
  have hframes : units.filter (fun u => u.1 = pid) =
      (frames.filter fun f => f.pid = pid).map fun f => (f.pid, f.bytes)
    := by
    have hother : (units.filter fun u => u.1 ≠ 0x0000 ∧ u.1 ≠ 0x1001).filter (fun u => u.1 = pid) =
        units.filter fun u => u.1 = pid
      := by
      rw [List.filter_filter]
      apply List.filter_congr
      intro u _
      rw [← Bool.decide_and]
      apply decide_eq_decide.mpr
      constructor
      · exact And.left
      · rintro rfl
        exact ⟨rfl, hpid⟩
    rw [← hother, h, List.filter_map]
    rfl
  rw [hframes, List.map_map, List.map_map]
  apply List.map_congr_left
  intro f hf
  have hmem : (f.pid, f.bytes) ∈ units.filter fun u => u.1 = pid
    := by
    rw [hframes]
    exact List.mem_map_of_mem hf
  exact PesFrame.parse_bytes (hsmall _ (List.mem_of_mem_filter hmem))

/-- Any fragments in a row are read as a whole. -/
theorem Inv.seamless (h : s.Inv) :
  s.Seamless
  := by
  intro fragments hrow
  obtain ⟨_, _, hall, -⟩ := h.along
  obtain ⟨c, c', halong⟩ := hall.of_row hrow
  obtain ⟨units, ts, hreads, hunits, hshows, hsmall⟩ := exists_units h.held halong
  refine ⟨ts, ?_, fun pid => ⟨c pid, (hunits.receives pid).1⟩, ?_, ?_, ?_⟩
  · have hread := readStream_flatten hreads
    rw [← List.flatMap_def, List.flatMap_assoc] at hread
    rw [← hread]
    congr 1
    apply List.flatMap_congr
    intro f _
    exact (h.held.owned.stored f).content
  · rw [(hunits.receives 0x0000).2]
    intro unit hunit
    obtain ⟨u, hu, rfl⟩ := List.mem_map.mp hunit
    obtain ⟨hmem, hpid⟩ := List.mem_filter.mp hu
    exact hshows.pat u hmem (of_decide_eq_true hpid)
  · rw [(hunits.receives 0x1001).2]
    intro unit hunit
    obtain ⟨u, hu, rfl⟩ := List.mem_map.mp hunit
    obtain ⟨hmem, hpid⟩ := List.mem_filter.mp hu
    exact hshows.pmt u hmem (of_decide_eq_true hpid)
  · intro pid hpat hpmt
    rw [(hunits.receives pid).2]
    exact parse_units hshows.frames hsmall ⟨hpat, hpmt⟩

open Runs

/-- In a run in which audio keeps its codec, streams are set before their frames, and checksums have
their own table, any fragments in a row are read as a whole. -/
theorem seamless_of_meets (name : String) {g : TsTool.Globals} (hg : g.Own)
    {packets : List (Int × Packet ε)}
    (h : Steps step (fun s e => ∀ s' ∈ s, s'.Meets e.2) (some (start name g)) packets) :
  Throughout step (fun s => ∀ s' ∈ s, s'.Seamless) (some (start name g)) packets
  := by
  have hthroughout : Throughout step (fun s => ∀ s' ∈ s, s'.Inv) (some (start name g)) packets
    := by
    apply h.throughout
    · rintro s ⟨⟩
      exact inv_start name hg
    · intro s e hs hmeets s' hstep
      cases s with
      | none => cases hstep
      | some s => exact (hs s rfl).onPacket (hmeets s rfl) hstep
  exact hthroughout.mono fun s hs s' hs' => (hs s' hs').seamless

/-- Two fragments with frames of both streams. -/
theorem seamless_audioAndVideo :
  Throughout step (fun s => ∀ s' ∈ s, s'.Seamless) (some (start "s" {})) HLSMuxer.audioAndVideo
  := by
  apply seamless_of_meets (g := {}) "s" rfl
  decide +kernel

end Screening
