import Tmms.Hls.FragmentTimes
import Tmms.Hls.Owners
import Tmms.Hls.SelfDescribing
import Tmms.Mpegts.AccessUnits

/-!
# Fragments that can be decoded

A decoder needs a delimiter at the beginning of every access unit, and the parameter sets before
the first key picture of a fragment (`Decodable`).  Beside the muxer goes a record of the access
units that were written to each fragment (`Recording`).

Whether delimiters and parameter sets are put in is decided by what the demuxer has ever seen, not
by what is in the access unit or in the fragment.  So fragments can be decoded in every run in
which access units have delimiters themselves from the first one that has any, and key pictures
have the parameter sets themselves (`decodable_of_ready`).
-/

/-! ### Packets -/

variable {ε : Type}

/-- The packets of AVC. -/
def avcPackets (pieces : List TsPiece) : List (List UInt8) :=
  (pieces.filter fun piece => piece.codec = some .avc).map TsPiece.bytes

theorem avcPackets_append (pieces more : List TsPiece) :
  avcPackets (pieces ++ more) = avcPackets pieces ++ avcPackets more
  := by rw [avcPackets, List.filter_append, List.map_append, avcPackets, avcPackets]

theorem avcPackets_avc (packets : List (List UInt8)) :
  avcPackets (WriterCall.pieces (writes (some .avc) packets)) = packets
  := by
  rw [WriterCall.pieces_writes, avcPackets, List.filter_map, List.map_map, List.filter_eq_self.mpr]
  · exact List.map_id packets
  · intro bytes _
    rfl

theorem avcPackets_other {codec : Option Codec} (h : codec ≠ some .avc)
    (packets : List (List UInt8)) :
  avcPackets (WriterCall.pieces (writes codec packets)) = []
  := by
  rw [WriterCall.pieces_writes, avcPackets, List.filter_map, List.map_map,
    List.filter_eq_nil_iff.mpr]
  · rfl
  · intro bytes _
    exact fun hcodec => h (of_decide_eq_true hcodec)

/-- What is written of video data is its access unit, and the writer has the parameter sets only if
there was a key picture. -/
theorem VideoEncoder.encodeVideo_unit {e e' : VideoEncoder}
    {writer writer' : StreamWriter} {key : Bool} {data : Packet ε} {dts : Int}
    {calls : List WriterCall} {ret : Int}
    (h : e.encodeVideo writer key data dts = some (e', writer', calls, ret)) :
  avcPackets (WriterCall.pieces calls) =
      (e.accessUnit writer key data dts).toList.flatMap AccessUnit.packets ∧
    (writer'.spsPpsAppended = true → writer.spsPpsAppended = true ∨
      ∃ u ∈ e.accessUnit writer key data dts, u.nalus.any isIdr = true)
  := by
  rw [encodeVideo] at h
  rw [accessUnit, samples]
  cases hdemux : e.demux.onDemux data.payload with
  | none =>
      rw [hdemux] at h
      cases h
  | some r =>
      obtain ⟨demux, list, ret'⟩ := r
      rw [hdemux] at h
      dsimp only at h ⊢
      split at h
      · rename_i hret
        rw [if_neg fun hall => hall.1 hret]
        cases h
        exact ⟨rfl, .inl⟩
      · split at h
        · rename_i hheader
          rw [if_neg fun hall => hall.2.1 hheader]
          cases h
          exact ⟨rfl, .inl⟩
        · split at h
          · rename_i hret hheader havc
            rw [if_pos ⟨hret, hheader, havc⟩]
            cases h
            constructor
            · exact (avcPackets_avc _).trans (List.append_nil _).symm
            · intro happended
              exact (spsPpsAppended_unitOf { e with demux := demux } writer list key (dts * 90)
                happended).imp_right fun hidr => ⟨_, rfl, hidr⟩
          · rename_i havc
            rw [if_neg fun hall => havc hall.2.2]
            cases h
            exact ⟨rfl, .inl⟩

/-- Audio has no packets of AVC. -/
theorem AudioEncoder.encodeAudio_avcPackets {e e' : AudioEncoder} {data : Packet ε}
    {dts : Int} {calls : List WriterCall} {ret : Int}
    (h : e.encodeAudio data dts = some (e', calls, ret)) :
  avcPackets (WriterCall.pieces calls) = []
  := by
  rw [encodeAudio] at h
  split at h
  · cases h
  · split at h
    · cases h
      rfl
    · split at h
      · cases h
        rfl
      · split at h
        · cases h
          refine avcPackets_other ?_ _
          decide
        · split at h
          · cases h
            refine avcPackets_other ?_ _
            decide
          · cases h
            rfl

namespace TsEncoder

variable {e e' : TsEncoder} {g g' : TsTool.Globals} {calls : List WriterCall}

/-- The demuxer and the samples of which `Encode` makes an access unit. -/
def avcSamples (e : TsEncoder) (data : Packet ε) : Option (VideoDemux × List SampleBuf) :=
  if data.isAudio then none
  else if data.isVideo then e.videoEncoder.samples data
  else none

/-- The access unit that `Encode` writes. -/
def accessUnit (e : TsEncoder) (writer : StreamWriter) (data : Packet ε) (dts : Int) :
    Option AccessUnit :=
  (e.avcSamples data).map fun (demux, list) =>
    { e.videoEncoder with demux := demux }.unitOf writer list data.isKeyFrame (dts * 90)

theorem encode_unit {writer writer' : StreamWriter} {data : Packet ε} {dts ret : Int}
    (h : e.encode writer data dts = some (e', writer', calls, ret)) :
  avcPackets (WriterCall.pieces calls) =
      (e.accessUnit writer data dts).toList.flatMap AccessUnit.packets ∧
    (writer'.spsPpsAppended = true → writer.spsPpsAppended = true ∨
      ∃ u ∈ e.accessUnit writer data dts, u.nalus.any isIdr = true)
  := by
  rw [encode] at h
  rw [accessUnit, avcSamples]
  split at h
  · rename_i haudio
    rw [if_pos haudio]
    split at h
    · rename_i hencode
      cases h
      exact ⟨AudioEncoder.encodeAudio_avcPackets hencode, .inl⟩
    · cases h
  · rename_i haudio
    rw [if_neg haudio]
    split at h
    · rename_i hvideo
      rw [if_pos hvideo]
      split at h
      · rename_i hencode
        cases h
        exact VideoEncoder.encodeVideo_unit hencode
      · cases h
    · rename_i hvideo
      rw [if_neg hvideo]
      cases h
      exact ⟨rfl, .inl⟩

/-- The tables have no packets of AVC, and the demuxer of the video has no part in them. -/
theorem writePatPmt_avcPackets (hwrite : e.writePatPmt g = some (e', g', calls)) :
  avcPackets (WriterCall.pieces calls) = [] ∧ e'.videoEncoder = e.videoEncoder
  := by
  rw [writePatPmt] at hwrite
  split at hwrite
  · obtain ⟨⟨patWriter, g₁, pat⟩, -, hrest⟩ := Option.bind_eq_some_iff.mp hwrite
    obtain ⟨⟨pmtWriter, g₂, pmt⟩, -, hresult⟩ := Option.bind_eq_some_iff.mp hrest
    cases hresult
    rw [WriterCall.pieces_append, avcPackets_append, avcPackets_other (by decide),
      avcPackets_other (by decide)]
    exact ⟨rfl, rfl⟩
  · cases hwrite
    exact ⟨rfl, rfl⟩

theorem setStreamType_avcPackets {vc ac : UInt8}
    (hset : e.setStreamType g vc ac = some (e', g', calls)) :
  avcPackets (WriterCall.pieces calls) = [] ∧ e'.videoEncoder.demux = e.videoEncoder.demux
  := by
  have hpids : (e.setAudioPid ac).1.videoEncoder = e.videoEncoder ∧
      ((e.setAudioPid ac).1.setVideoPid vc).1.videoEncoder = e.videoEncoder
    := by
    rw [setAudioPid, setVideoPid]
    constructor
    · split
      · rfl
      · split
        · rfl
        · rfl
    · split
      · split
        · rfl
        · split
          · rfl
          · rfl
      · split
        · rfl
        · split
          · rfl
          · rfl
  rw [setStreamType] at hset
  dsimp only at hset
  generalize e.setAudioPid ac = audio at hset hpids
  obtain ⟨e₁, atype⟩ := audio
  dsimp only at hset hpids
  generalize e₁.setVideoPid vc = video at hset hpids
  obtain ⟨e₂, vtype⟩ := video
  dsimp only at hset hpids
  split at hset
  · obtain ⟨hnone, hsame⟩ := writePatPmt_avcPackets hset
    refine ⟨hnone, ?_⟩
    rw [hsame, ← hpids.2]
    split
    · split
      · rfl
      · rfl
    · split
      · rfl
      · rfl
  · cases hset
    refine ⟨rfl, ?_⟩
    rw [← hpids.2]
    split
    · split
      · rfl
      · rfl
    · split
      · rfl
      · rfl

end TsEncoder

/-! ### Parameter sets of fragments -/

namespace HLSMuxer

variable {m m' : HLSMuxer} {f : FragmentPtr}

/-- A new fragment has no parameter sets. -/
theorem openFragment_writer {now : Int} (hopen : m.openFragment now = some (m', f)) :
  m' = m ∨ (m'.memory.fragments f).writer.spsPpsAppended = false
  := by
  rcases openFragment_cases hopen with ⟨-, rfl⟩ | ⟨-, _, memory, _, _, _, -, -, hperform⟩
  · exact .inl rfl
  · right
    rw [perform_writer hperform]
    dsimp only
    rw [opened, HlsMemory.fragments_setFragment, HlsMemory.fragments_reset,
      HlsMemory.fragments_setFragment]
    rfl

theorem parseHeader_writer {packet : Packet ε} (hparse : m.parseHeader f packet = some m') :
  (m'.memory.fragments f).writer = (m.memory.fragments f).writer ∧
    m'.encoder.videoEncoder.demux = m.encoder.videoEncoder.demux
  := by
  rcases parseHeader_cases hparse with rfl | ⟨_, _, encoder, statics, _, htypes, hset⟩
  · exact ⟨rfl, rfl⟩
  · refine ⟨perform_writer (m := { m with encoder := encoder, statics := statics }) hset, ?_⟩
    rw [perform] at hset
    split at hset
    · cases hset
      exact (TsEncoder.setStreamType_avcPackets htypes).2
    · cases hset

end HLSMuxer

/-! ### Recordings -/

/-- Access units that can be decoded one after the other, if nothing is before them. -/
def Decodable (units : List AccessUnit) : Prop :=
  ∀ before u after, units = before ++ u :: after →
    u.StartsWithAud ∧ u.HasSpsPps (before.flatMap AccessUnit.nalus)

/-- A muxer, and the access units that were written to each fragment since it was opened. -/
structure Recording where
  muxer : HLSMuxer
  units : FragmentPtr → List AccessUnit := fun _ => []

namespace Recording

/-- The access units in the fragment to which a packet is written, before it is. -/
def earlier (s : Recording) (packet : Packet ε) : List AccessUnit :=
  match (s.muxer.closeFragment packet).currentFragment with
  | some f => s.units f
  | none => []

/-- `OnPacket`, and the access unit is recorded that is written. -/
def onPacket (s : Recording) (now : Int) (packet : Packet ε) : Option Recording :=
  match (s.muxer.closeFragment packet).openFragment now with
  | some (m, f) =>
      match m.parseHeader f packet with
      | some m =>
          match m.encode f packet with
          | some muxer => some {
              muxer := muxer
              units := Function.update s.units f (s.earlier packet ++
                (m.encoder.accessUnit (m.memory.fragments f).writer packet
                  packet.timestamp.toBitVec.toInt).toList) }
          | none => none
      | none => none
  | none => none

/-- The muxer does what it does without a record. -/
theorem muxer_onPacket (s : Recording) (now : Int) (packet : Packet ε) :
  (s.onPacket now packet).map muxer = s.muxer.onPacket now packet
  := by
  rw [onPacket, HLSMuxer.onPacket]
  cases (s.muxer.closeFragment packet).openFragment now with
  | none => rfl
  | some r =>
      obtain ⟨m, f⟩ := r
      dsimp only
      cases m.parseHeader f packet with
      | none => rfl
      | some m =>
          dsimp only
          cases m.encode f packet with
          | none => rfl
          | some _ => rfl

/-- A packet at a reading of the clock. It has no result if `OnPacket` has none. -/
def step (s : Option Recording) (e : Int × Packet ε) : Option Recording :=
  s.bind fun s => s.onPacket e.1 e.2

/-- The start of a stream. -/
def start (name : String) (g : TsTool.Globals) : Recording := { muxer := HLSMuxer.start name g }

/-- The access unit that is made of a packet, if there is one, will have a delimiter and parameter
sets. -/
def Ready (s : Recording) (packet : Packet ε) : Prop :=
  ∀ r ∈ s.muxer.encoder.avcSamples packet, VideoEncoder.AudReady r.1 r.2 ∧
    VideoEncoder.SpsPpsReady r.1 r.2 ((s.earlier packet).flatMap AccessUnit.nalus)

instance (s : Recording) (packet : Packet ε) : Decidable (s.Ready packet) :=
  inferInstanceAs (Decidable (∀ r ∈ s.muxer.encoder.avcSamples packet, _ ∧ _))

/-- The packets of AVC in a fragment are those of the access units that are recorded. -/
structure Records (s : Recording) (f : FragmentPtr) : Prop where
  packets : avcPackets (s.muxer.memory.fragments f).written =
    (s.units f).flatMap AccessUnit.packets
  packetized : ∀ u ∈ s.units f, u.Packetized

/-- The current fragment and those in the window have what is recorded, and can be decoded. -/
def FragmentsDecodable (s : Recording) : Prop :=
  ∀ f, f ∈ s.muxer.fragmentWindow.fragments ∨ s.muxer.currentFragment = some f →
    s.Records f ∧ Decodable (s.units f)

end Recording

theorem decodable_nil : Decodable []
  := by
  intro before u after h
  cases before with
  | nil => cases h
  | cons v before => cases h

/-- One more access unit. -/
theorem Decodable.append {units : List AccessUnit} (h : Decodable units) {u : AccessUnit}
    (haud : u.StartsWithAud) (hsets : u.HasSpsPps (units.flatMap AccessUnit.nalus)) :
  Decodable (units ++ [u])
  := by
  intro before v after hsplit
  rcases List.append_eq_append_iff.mp hsplit with ⟨middle, rfl, hrest⟩ | ⟨middle, rfl, hrest⟩
  · cases middle with
    | nil =>
        obtain ⟨rfl, -⟩ := List.cons.inj hrest
        rw [List.append_nil]
        exact ⟨haud, hsets⟩
    | cons w middle =>
        have hnone := (List.cons.inj hrest).2
        cases middle with
        | nil => cases hnone
        | cons x middle => cases hnone
  · cases middle with
    | nil =>
        obtain ⟨rfl, -⟩ := List.cons.inj hrest
        rw [List.append_nil] at hsets
        exact ⟨haud, hsets⟩
    | cons w middle =>
        obtain ⟨rfl, rfl⟩ := List.cons.inj hrest
        exact h before v middle rfl

namespace TsEncoder

/-- Of the encoder only the demuxer has a part in the samples. -/
theorem avcSamples_of_demux {e e' : TsEncoder}
    (h : e'.videoEncoder.demux = e.videoEncoder.demux) (data : Packet ε) :
  e'.avcSamples data = e.avcSamples data
  := by rw [avcSamples, avcSamples, VideoEncoder.samples, VideoEncoder.samples, h]

/-- An access unit is made of the samples of its packet. -/
theorem exists_of_mem_accessUnit {e : TsEncoder} {writer : StreamWriter} {data : Packet ε}
    {dts : Int} {u : AccessUnit} (hu : u ∈ e.accessUnit writer data dts) :
  ∃ demux list, e.avcSamples data = some (demux, list) ∧
    u = { e.videoEncoder with demux := demux }.unitOf writer list data.isKeyFrame (dts * 90)
  := by
  obtain ⟨⟨demux, list⟩, hsamples, rfl⟩ := Option.map_eq_some_iff.mp hu
  exact ⟨demux, list, hsamples, rfl⟩

end TsEncoder

namespace Recording

/-- The record is right, the fragments can be decoded, and the current fragment has the parameter
sets only if it has a key picture. -/
structure Inv (s : Recording) : Prop where
  held : s.muxer.WellHeld
  decodable : s.FragmentsDecodable
  writer : ∀ f, s.muxer.currentFragment = some f →
    (s.muxer.memory.fragments f).writer.spsPpsAppended = true →
      ((s.units f).flatMap AccessUnit.nalus).any isIdr = true

theorem inv_start (name : String) (g : TsTool.Globals) :
  (start name g).Inv
  := by
  refine ⟨HLSMuxer.wellHeld_new name, ?_, ?_⟩
  · rintro f (hf | hf)
    · cases hf
    · cases hf
  · intro f hf
    cases hf

variable {s s' : Recording} {m : HLSMuxer} {f : FragmentPtr}

/-- A fragment to which a packet is written has what is recorded of it, before it is written. -/
theorem Inv.openFragment (h : s.Inv) {packet : Packet ε} {now : Int}
    (hopen : (s.muxer.closeFragment packet).openFragment now = some (m, f)) :
  (avcPackets (m.memory.fragments f).written =
      (s.earlier packet).flatMap AccessUnit.packets ∧
    (∀ u ∈ s.earlier packet, u.Packetized) ∧ Decodable (s.earlier packet)) ∧
    ((m.memory.fragments f).writer.spsPpsAppended = true →
      ((s.earlier packet).flatMap AccessUnit.nalus).any isIdr = true) ∧
    m.encoder.videoEncoder.demux = s.muxer.encoder.videoEncoder.demux
  := by
  obtain ⟨hclosed, hcurrent, -, -⟩ := HLSMuxer.closeFragment_spec h.held packet
  obtain ⟨hencoder, -⟩ := HLSMuxer.closeFragment_encoder s.muxer packet
  obtain ⟨-, hcurrent', -, -, hcases⟩ := HLSMuxer.openFragment_spec hclosed hopen
  have hwriter := HLSMuxer.openFragment_writer hopen
  rcases hcases with rfl | ⟨hnone, calls, htables, hwritten⟩
  · -- the fragment was current before, so nothing has changed so far
    have hstays : ¬ s.muxer.switches packet = true
      := by
      intro hswitch
      rw [if_pos hswitch] at hcurrent
      cases hcurrent.symm.trans hcurrent'
    have hearlier : s.earlier packet = s.units f := by rw [earlier, hcurrent']
    rw [hearlier]
    rw [HLSMuxer.closeFragment_of_stays hstays] at hcurrent' ⊢
    obtain ⟨hrecords, hdecodable⟩ := h.decodable f (.inr hcurrent')
    exact ⟨⟨hrecords.packets, hrecords.packetized, hdecodable⟩, h.writer f hcurrent', rfl⟩
  · have hearlier : s.earlier packet = [] := by rw [earlier, hnone]
    obtain ⟨hpackets, hdemux⟩ := TsEncoder.writePatPmt_avcPackets htables
    rw [hearlier, hwritten, hdemux, hencoder]
    refine ⟨⟨hpackets, fun _ hu => (nomatch hu), decodable_nil⟩, ?_, rfl⟩
    intro happended
    rcases hwriter with rfl | hnew
    · cases hnone.symm.trans hcurrent'
    · cases happended.symm.trans hnew

/-- One access unit more, or none. -/
theorem decodable_accessUnit {units : List AccessUnit} (h : Decodable units) {e : TsEncoder}
    {writer : StreamWriter} {packet : Packet ε} (dts : Int)
    (hwriter : writer.spsPpsAppended = true →
      (units.flatMap AccessUnit.nalus).any isIdr = true)
    (hready : ∀ r ∈ e.avcSamples packet, VideoEncoder.AudReady r.1 r.2 ∧
      VideoEncoder.SpsPpsReady r.1 r.2 (units.flatMap AccessUnit.nalus)) :
  Decodable (units ++ (e.accessUnit writer packet dts).toList) ∧
    ∀ u ∈ e.accessUnit writer packet dts, u.Packetized
  := by
  cases hunit : e.accessUnit writer packet dts with
  | none => exact ⟨(List.append_nil units).symm ▸ h, fun _ hu => (nomatch hu)⟩
  | some u =>
      obtain ⟨demux, list, hsamples, rfl⟩ := TsEncoder.exists_of_mem_accessUnit hunit
      obtain ⟨haud, hsets⟩ := hready (demux, list) hsamples
      constructor
      · apply h.append
        · exact VideoEncoder.startsWithAud_unitOf _ _ _ _ _ haud
        · intro hearlier
          have hnot : writer.spsPpsAppended = false
            := by
            rw [← Bool.not_eq_true]
            intro happended
            rw [hwriter happended] at hearlier
            cases hearlier
          exact VideoEncoder.hasSpsPps_unitOf _ _ _ _ _ hnot hsets hearlier
      · rintro _ ⟨⟩
        exact VideoEncoder.packetized_unitOf _ _ _ _ _

/-- A packet whose access unit is ready goes to the current fragment, which can be decoded with
it. -/
theorem Inv.onPacket_current (h : s.Inv) {now : Int} {packet : Packet ε} (hready : s.Ready packet)
    (hpacket : s.onPacket now packet = some s') :
  ∃ f units, s'.muxer.currentFragment = some f ∧ s'.units = Function.update s.units f units ∧
    (avcPackets (s'.muxer.memory.fragments f).written = units.flatMap AccessUnit.packets ∧
      (∀ u ∈ units, u.Packetized) ∧ Decodable units) ∧
    ((s'.muxer.memory.fragments f).writer.spsPpsAppended = true →
      (units.flatMap AccessUnit.nalus).any isIdr = true)
  := by
  obtain ⟨hclosed, -, -, -⟩ := HLSMuxer.closeFragment_spec h.held packet
  rw [Recording.onPacket] at hpacket
  split at hpacket
  · rename_i m f hopen
    obtain ⟨⟨hpackets, hpacketized, hdecodable⟩, hwriter, hdemux⟩ := h.openFragment hopen
    obtain ⟨hopened, hcurrent, -, -, -⟩ := HLSMuxer.openFragment_spec hclosed hopen
    split at hpacket
    · rename_i m₁ hparse
      obtain ⟨hwriter₁, hdemux₁⟩ := HLSMuxer.parseHeader_writer hparse
      have hparsed : ∃ pieces, m.Performs m₁ f pieces ∧ avcPackets pieces = []
        := by
        rcases HLSMuxer.parseHeader_spec hopened hparse with rfl | ⟨_, _, calls, hset, hperforms⟩
        · exact ⟨[], .refl hopened f, rfl⟩
        · exact ⟨_, hperforms, (TsEncoder.setStreamType_avcPackets hset).1⟩
      obtain ⟨pieces, hperforms, hnone⟩ := hparsed
      split at hpacket
      · rename_i m₂ hencode
        cases hpacket
        obtain ⟨writer, calls, _, hresult, -, hperforms', hwriter₂⟩ :=
          HLSMuxer.encode_spec hperforms.held hencode
        obtain ⟨hunit, happends⟩ := TsEncoder.encode_unit hresult
        have hsamples : ∀ r ∈ m₁.encoder.avcSamples packet, VideoEncoder.AudReady r.1 r.2 ∧
            VideoEncoder.SpsPpsReady r.1 r.2 ((s.earlier packet).flatMap AccessUnit.nalus)
          := by
          rw [TsEncoder.avcSamples_of_demux (hdemux₁.trans hdemux)]
          exact hready
        rw [hwriter₁] at hresult hunit happends
        obtain ⟨hdecodable', hpacketized'⟩ :=
          decodable_accessUnit hdecodable packet.timestamp.toBitVec.toInt hwriter hsamples
        refine ⟨f, _, hperforms'.current.trans (hperforms.current.trans hcurrent), rfl,
          ⟨?_, ?_, ?_⟩, ?_⟩
        · rw [hperforms'.written, hperforms.written, avcPackets_append, avcPackets_append,
            hpackets, hnone, List.append_nil, hunit, hwriter₁, List.flatMap_append]
        · rw [hwriter₁]
          intro u hu
          rcases List.mem_append.mp hu with hu | hu
          · exact hpacketized u hu
          · exact hpacketized' u (Option.mem_toList.mp hu)
        · rw [hwriter₁]
          exact hdecodable'
        · intro happended
          rw [hwriter₁, List.flatMap_append, List.any_append]
          rw [hwriter₂] at happended
          rcases happends happended with hbefore | ⟨u, hu, hidr⟩
          · rw [hwriter hbefore]
            rfl
          · rw [hu, Option.toList_some, List.flatMap_singleton, hidr, Bool.or_true]
      · cases hpacket
    · cases hpacket
  · cases hpacket

/-- A packet whose access unit is ready keeps the fragments so. -/
theorem Inv.onPacket (h : s.Inv) {now : Int} {packet : Packet ε} (hready : s.Ready packet)
    (hpacket : s.onPacket now packet = some s') :
  s'.Inv
  := by
  have hmuxer := s.muxer_onPacket now packet
  rw [hpacket, Option.map_some] at hmuxer
  obtain ⟨hheld, hfragments, hkeeps⟩ := HLSMuxer.onPacket_keeps h.held hmuxer.symm
  obtain ⟨f, units, hnow, hunits, ⟨hpackets, hpacketized, hdecodable⟩, hwriter⟩ :=
    h.onPacket_current hready hpacket
  have hself : s'.units f = units := by rw [hunits, Function.update_self]
  refine ⟨hheld, ?_, ?_⟩
  · rintro g (hg | hg)
    · -- a fragment of the window is none that is written to
      have hne : g ≠ f
        := by
        rintro rfl
        exact hheld.not_mem hnow hg
      have hbefore : g ∈ s.muxer.fragmentWindow.fragments ∨ s.muxer.currentFragment = some g
        := by
        rw [hfragments] at hg
        exact ((HLSMuxer.mem_closeFragment h.held packet).mp hg).1.imp_right And.right
      obtain ⟨hrecords, hdecodes⟩ := h.decodable g hbefore
      have hsame : s'.units g = s.units g := by rw [hunits, Function.update_of_ne hne]
      rw [hsame]
      refine ⟨⟨?_, ?_⟩, hdecodes⟩
      · rw [hsame, (hkeeps g hg).1]
        exact hrecords.packets
      · rw [hsame]
        exact hrecords.packetized
    · obtain rfl := Option.some.inj (hnow.symm.trans hg)
      rw [hself]
      refine ⟨⟨?_, ?_⟩, hdecodable⟩
      · rw [hself]
        exact hpackets
      · rw [hself]
        exact hpacketized
  · intro g hg
    obtain rfl := Option.some.inj (hnow.symm.trans hg)
    rw [hself]
    exact hwriter

open Runs

/-- In a run in which every access unit is ready, the fragments can be decoded. -/
theorem decodable_of_ready (name : String) (g : TsTool.Globals) {packets : List (Int × Packet ε)}
    (h : Steps step (fun s e => ∀ s' ∈ s, s'.Ready e.2) (some (start name g)) packets) :
  Throughout step (fun s => ∀ s' ∈ s, s'.FragmentsDecodable) (some (start name g)) packets
  := by
  have hthroughout : Throughout step (fun s => ∀ s' ∈ s, s'.Inv) (some (start name g)) packets
    := by
    apply h.throughout
    · rintro s ⟨⟩
      exact inv_start name g
    · intro s e hs hready s' hstep
      cases s with
      | none => cases hstep
      | some s => exact (hs s rfl).onPacket (hready s rfl) hstep
  exact hthroughout.mono fun s hs s' hs' => (hs s' hs').decodable

/-! ### With delimiters and without -/

/-- A header of AVC. -/
def avcHeader : Int × Packet Unit :=
  HLSMuxer.videoPacket 0 [0x00, 0x00, 0x00, 0x00, 0x01, 0x64, 0x00, 0x1f, 0xff, 0xe1, 0x00, 0x02,
    0x67, 0x64, 0x01, 0x00, 0x02, 0x68, 0xee]

/-- NAL units of two bytes behind their lengths. -/
def avcPacket (timestamp : Nat) (nalus : List SampleBuf) : Int × Packet Unit :=
  HLSMuxer.videoPacket timestamp ([0x01, 0x00, 0x00, 0x00] ++
    nalus.flatMap fun nalu => [0x00, 0x00, 0x00, 0x02] ++ nalu)

/-- Key pictures without delimiters and parameter sets, in two fragments. -/
theorem decodable_keyPictures :
  Throughout step (fun s => ∀ s' ∈ s, s'.FragmentsDecodable) (some (start "s" {}))
    [avcHeader, avcPacket 0 [[0x65, 0x88]], avcPacket 4000 [[0x41, 0x9a]],
      avcPacket 4040 [[0x65, 0x88]]]
  := by
  apply decodable_of_ready (g := {}) "s"
  decide +kernel

/-- The first access unit has a delimiter itself, and the second one has none. -/
theorem not_decodable_delimiter :
  ¬ ∀ (name : String) (g : TsTool.Globals) (packets : List (Int × Packet Unit)),
      Throughout step (fun s => ∀ s' ∈ s, s'.FragmentsDecodable) (some (start name g)) packets
  := by
  intro h
  have hlast := (h "s" {} [avcHeader, avcPacket 0 [[0x09, 0xf0], [0x65, 0x88]],
    avcPacket 40 [[0x41, 0x9a]]]).last
  generalize hend : run step (some (start "s" {})) [avcHeader,
    avcPacket 0 [[0x09, 0xf0], [0x65, 0x88]], avcPacket 40 [[0x41, 0x9a]]] = s at hlast
  have hunits : s.map (fun s => (s.muxer.currentFragment, (s.units 0).map AccessUnit.nalus)) =
      some (some 0, [[[0x09, 0xf0], [0x67, 0x64], [0x68, 0xee], [0x65, 0x88]], [[0x41, 0x9a]]])
    := by
    rw [← hend]
    decide +kernel
  cases s with
  | none => cases hunits
  | some s =>
      obtain ⟨hcurrent, hnalus⟩ := Prod.mk.inj (Option.some.inj hunits)
      obtain ⟨u, v, hsplit⟩ := List.length_eq_two.mp
        ((List.length_map AccessUnit.nalus).symm.trans (congrArg List.length hnalus))
      rw [hsplit] at hnalus
      have hlone : v.nalus = [[0x41, 0x9a]] := (List.cons.inj (List.cons.inj hnalus).2).1
      obtain ⟨haud, -⟩ := (hlast s rfl 0 (.inr hcurrent)).2 [u] v [] hsplit
      have htype := haud [0x41, 0x9a] (by rw [hlone]; rfl)
      revert htype
      decide

end Recording
