import Tmms.Mpegts.TsEncoder

/-!
# The streams that are written

What the encoder knows of the streams (`Consistent`): each has the identifier of the codec that
was set last, and is in the map table.  When both are set the tables that are written have all
streams (`writePatPmt_spec`, `setStreamType_spec`), and what is written of a packet has the
identifier of its encoder (`encode_spec`).
-/

open TransportStream

/-! ### Elementary streams -/

namespace PesWriter

/-- The identifier stays. -/
theorem writeLoop_pid {payloadSize : Nat} (w : PesWriter) (streamId : UInt8) (isStart key : Bool)
    (result : List (List UInt8)) (pts dts : Int) :
  (w.writeLoop streamId isStart key result payloadSize pts dts).1.pid = w.pid
  := by
  induction payloadSize using Nat.strongRecOn generalizing w isStart result with
  | ind payloadSize ih =>
      rw [writeLoop]
      by_cases hmore : payloadSize > 0 ∧ result ≠ []
      · rw [dif_pos hmore]
        exact ih _ (Nat.sub_lt hmore.1 (writePacket_pos _ _ _ _ _ _ _ hmore.1)) _ _ _
      · rw [dif_neg hmore]

/-- What is written of a frame are packets of the identifier, and there is something in it. -/
theorem mem_writeLoop {w : PesWriter} {streamId : UInt8} {key : Bool} {result : List (List UInt8)}
    {size : Nat} (hsize : size = result.flatten.length) {pts dts : Int} {b : List UInt8}
    (hb : b ∈ (w.writeLoop streamId true key result size pts dts).2) :
  0 < size ∧ (w.pid.toNat < 8192 → ∃ t, TsPacket.parse b = some t ∧ t.pid = w.pid.toNat)
  := by
  have hpos : 0 < size
    := by
    by_contra hzero
    rw [writeLoop, dif_neg fun h => hzero h.1] at hb
    cases hb
  refine ⟨hpos, ?_⟩
  intro hpid
  obtain ⟨ts, hts, hpids, -, -, -⟩ :=
    w.writeLoop_parse hpid streamId true key result pts dts hsize.symm (fun _ => hpos)
  have hparse := List.mem_map_of_mem (f := TsPacket.parse) hb
  rw [hts] at hparse
  obtain ⟨t, ht, hbt⟩ := List.mem_map.mp hparse
  exact ⟨t, hbt.symm, hpids t ht⟩

end PesWriter

variable {ε : Type}

namespace AudioEncoder

/-- The codec of the packets that are written for sound data, if there are any. -/
def pesCodec (e : AudioEncoder) (data : Packet ε) : Option Codec :=
  match e.demux.onDemux data.payload with
  | none => none
  | some (demux, list, ret) =>
      if ret = -1 ∨ TsTool.isCodecHeader data then
        none
      else if demux.soundFormat = kAudioCodecIDAAC then
        if 0 < (list.headD []).length ∧ (list.headD []).length ≤ 0x1fff then some .aac else none
      else if demux.soundFormat = kAudioCodecIDMP3 then
        if 0 < (list.map List.length).sum then some .mp3 else none
      else
        none

theorem encodeAAC_spec (e : AudioEncoder) (list : List SampleBuf) (pts : Int) :
  (e.encodeAAC list pts).1.pes.pid = e.pes.pid ∧
    ∀ b ∈ (e.encodeAAC list pts).2.1,
      (0 < (list.headD []).length ∧ (list.headD []).length ≤ 0x1fff) ∧
      (e.pes.pid.toNat < 8192 → ∃ t, TsPacket.parse b = some t ∧ t.pid = e.pes.pid.toNat)
  := by
  cases list with
  | nil =>
      refine ⟨rfl, ?_⟩
      intro b hb
      cases hb
  | cons l list =>
      rw [encodeAAC]
      split
      · refine ⟨rfl, ?_⟩
        intro b hb
        cases hb
      · rename_i hsize
        rw [not_or] at hsize
        refine ⟨PesWriter.writeLoop_pid _ _ _ _ _ _ _, ?_⟩
        intro b hb
        have hlength : 7 + l.length = [adtsHeader e.demux l.length, l].flatten.length
          := by
          rw [List.flatten_cons, List.flatten_cons, List.flatten_nil, List.append_nil,
            List.length_append]
          rfl
        refine ⟨?_, (PesWriter.mem_writeLoop hlength hb).2⟩
        change 0 < l.length ∧ l.length ≤ 0x1fff
        omega

theorem encodeMP3_spec (e : AudioEncoder) (list : List SampleBuf) (pts : Int) :
  (e.encodeMP3 list pts).1.pes.pid = e.pes.pid ∧
    ∀ b ∈ (e.encodeMP3 list pts).2.1, 0 < (list.map List.length).sum ∧
      (e.pes.pid.toNat < 8192 → ∃ t, TsPacket.parse b = some t ∧ t.pid = e.pes.pid.toNat)
  := by
  refine ⟨PesWriter.writeLoop_pid _ _ _ _ _ _ _, ?_⟩
  intro b hb
  exact PesWriter.mem_writeLoop List.length_flatten.symm hb

end AudioEncoder

/-- What calls write of a codec, if it is that of a packet, are packets of an identifier. -/
def WritesStream (codec : Option Codec) (pid : UInt16) (calls : List WriterCall) : Prop :=
  ∀ piece, .write piece ∈ calls → codec.isSome ∧ piece.codec = codec ∧
    (pid.toNat < 8192 → ∃ t, TsPacket.parse piece.bytes = some t ∧ t.pid = pid.toNat)

/-- A timestamp, and then packets. -/
theorem writesStream_writes {codec : Codec} {pid : UInt16} {dts : Int}
    {packets : List (List UInt8)} {P : Prop} [Decidable P]
    (h : ∀ b ∈ packets, P ∧
      (pid.toNat < 8192 → ∃ t, TsPacket.parse b = some t ∧ t.pid = pid.toNat)) :
  WritesStream (if P then some codec else none) pid
    (.appendTimeStamp dts :: writes (some codec) packets)
  := by
  intro piece hpiece
  rcases List.mem_cons.mp hpiece with hfirst | hrest
  · cases hfirst
  · obtain ⟨b, hb, hcall⟩ := List.mem_map.mp hrest
    obtain ⟨hP, hparse⟩ := h b hb
    cases hcall
    rw [if_pos hP]
    exact ⟨rfl, rfl, hparse⟩

/-- Nothing is written. -/
theorem writesStream_nil {codec : Option Codec} {pid : UInt16} :
  WritesStream codec pid []
  := by
  intro piece hpiece
  cases hpiece

theorem AudioEncoder.encodeAudio_spec {e e' : AudioEncoder} {data : Packet ε} {dts : Int}
    {calls : List WriterCall} {ret : Int} (h : e.encodeAudio data dts = some (e', calls, ret)) :
  e'.pes.pid = e.pes.pid ∧ WritesStream (e.pesCodec data) e.pes.pid calls
  := by
  rw [encodeAudio] at h
  rw [pesCodec]
  cases hdemux : e.demux.onDemux data.payload with
  | none =>
      rw [hdemux] at h
      cases h
  | some r =>
      obtain ⟨demux, list, ret'⟩ := r
      rw [hdemux] at h
      dsimp only at h ⊢
      split at h
      · cases h
        exact ⟨rfl, writesStream_nil⟩
      · rename_i hret
        split at h
        · cases h
          exact ⟨rfl, writesStream_nil⟩
        · rename_i hheader
          rw [if_neg (not_or.mpr ⟨hret, hheader⟩)]
          split at h
          · rename_i haac
            rw [if_pos haac]
            cases h
            obtain ⟨hpid, hwrites⟩ := encodeAAC_spec { e with demux := demux } list (dts * 90)
            exact ⟨hpid, writesStream_writes hwrites⟩
          · rename_i haac
            rw [if_neg haac]
            split at h
            · rename_i hmp3
              rw [if_pos hmp3]
              cases h
              obtain ⟨hpid, hwrites⟩ := encodeMP3_spec { e with demux := demux } list (dts * 90)
              exact ⟨hpid, writesStream_writes hwrites⟩
            · cases h
              refine ⟨rfl, ?_⟩
              intro piece hpiece
              rcases List.mem_cons.mp hpiece with hfirst | hrest
              · cases hfirst
              · cases hrest

/-! ### Video -/

namespace AvcSamples

/-- The size counts the samples. -/
def Counted (s : AvcSamples) : Prop := s.totalSize = s.result.flatten.length

theorem Counted.push {s : AvcSamples} (h : s.Counted) (nalu : SampleBuf) :
  (s.push nalu).Counted
  := by
  have hone : ∀ sample : SampleBuf, [sample].flatten = sample
    := fun sample => List.append_nil sample
  rw [AvcSamples.push, insertStartCode]
  split
  · rw [Counted] at h ⊢
    dsimp only
    rw [List.flatten_append, List.flatten_append, hone, hone, List.length_append,
      List.length_append, ← h]
    rfl
  · rw [Counted] at h ⊢
    dsimp only
    rw [List.flatten_append, List.flatten_append, hone, hone, List.length_append,
      List.length_append, ← h]
    rfl

end AvcSamples

namespace VideoEncoder

theorem counted_pushSpsPps (d : VideoDemux) (writer : StreamWriter) {s : AvcSamples}
    (h : s.Counted) :
  (pushSpsPps d writer s).2.Counted
  := by
  rw [pushSpsPps]
  by_cases hsps : d.sps ≠ []
  · rw [if_pos hsps]
    dsimp only
    by_cases hpps : d.pps ≠ []
    · rw [if_pos hpps]
      exact (h.push _).push _
    · rw [if_neg hpps]
      exact h.push _
  · rw [if_neg hsps]
    dsimp only
    by_cases hpps : d.pps ≠ []
    · rw [if_pos hpps]
      exact h.push _
    · rw [if_neg hpps]
      exact h

theorem counted_pushSamples (d : VideoDemux) (writer : StreamWriter) {s : AvcSamples}
    (h : s.Counted) (list : List SampleBuf) :
  (pushSamples d writer s list).2.Counted
  := by
  induction list generalizing writer s with
  | nil => exact h
  | cons l list ih =>
      have hsample : (pushSample d writer s l).2.Counted
        := by
        rw [pushSample]
        split
        · exact h
        · by_cases hneeds : needsSpsPps d writer l = true
          · rw [if_pos hneeds]
            exact (counted_pushSpsPps d writer h).push l
          · rw [if_neg hneeds]
            exact h.push l
      exact ih _ hsample

theorem counted_startSamples (d : VideoDemux) :
  (startSamples d).Counted
  := by
  rw [startSamples]
  split
  · exact AvcSamples.Counted.push (s := {}) rfl _
  · rfl

/-- Samples without bytes are left out. -/
theorem pushSamples_empty (d : VideoDemux) (writer : StreamWriter) (s : AvcSamples)
    {list : List SampleBuf} (h : ∀ l ∈ list, l.length = 0) :
  pushSamples d writer s list = (writer, s)
  := by
  induction list with
  | nil => rfl
  | cons l list ih =>
      have hsample : pushSample d writer s l = (writer, s) := if_pos (h l List.mem_cons_self)
      rw [pushSamples, hsample]
      exact ih fun l' hl' => h l' (List.mem_cons_of_mem _ hl')

/-- The codec of the packets that are written for video data, if there are any. -/
def pesCodec (e : VideoEncoder) (data : Packet ε) : Option Codec :=
  match e.demux.onDemux data.payload with
  | none => none
  | some (demux, list, ret) =>
      if ret = -1 ∨ TsTool.isCodecHeader data then
        none
      else if demux.codecId = kVideoCodecIDAVC then
        if demux.hasAud = false ∨ ∃ l ∈ list, l.length ≠ 0 then some .avc else none
      else
        none

theorem encodeAvc_spec (e : VideoEncoder) (writer : StreamWriter) (list : List SampleBuf)
    (key : Bool) (dts : Int) :
  (e.encodeAvc writer list key dts).1.pes.pid = e.pes.pid ∧
    ∀ b ∈ (e.encodeAvc writer list key dts).2.2,
      (e.demux.hasAud = false ∨ ∃ l ∈ list, l.length ≠ 0) ∧
      (e.pes.pid.toNat < 8192 → ∃ t, TsPacket.parse b = some t ∧ t.pid = e.pes.pid.toNat)
  := by
  have hcounted := counted_pushSamples e.demux writer (counted_startSamples e.demux) list
  refine ⟨PesWriter.writeLoop_pid _ _ _ _ _ _ _, ?_⟩
  intro b hb
  obtain ⟨hpos, hparse⟩ := PesWriter.mem_writeLoop hcounted hb
  refine ⟨?_, hparse⟩
  by_contra hnone
  rw [not_or, Bool.not_eq_false] at hnone
  have hempty : ∀ l ∈ list, l.length = 0
    := by
    intro l hl
    by_contra hsome
    exact hnone.2 ⟨l, hl, hsome⟩
  rw [pushSamples_empty _ _ _ hempty, startSamples, hnone.1] at hpos
  exact Nat.lt_irrefl 0 hpos

theorem encodeVideo_spec {e e' : VideoEncoder} {writer writer' : StreamWriter} {key : Bool}
    {data : Packet ε} {dts : Int} {calls : List WriterCall} {ret : Int}
    (h : e.encodeVideo writer key data dts = some (e', writer', calls, ret)) :
  e'.pes.pid = e.pes.pid ∧ WritesStream (e.pesCodec data) e.pes.pid calls
  := by
  rw [encodeVideo] at h
  rw [pesCodec]
  cases hdemux : e.demux.onDemux data.payload with
  | none =>
      rw [hdemux] at h
      cases h
  | some r =>
      obtain ⟨demux, list, ret'⟩ := r
      rw [hdemux] at h
      dsimp only at h ⊢
      split at h
      · cases h
        exact ⟨rfl, writesStream_nil⟩
      · rename_i hret
        split at h
        · cases h
          exact ⟨rfl, writesStream_nil⟩
        · rename_i hheader
          rw [if_neg (not_or.mpr ⟨hret, hheader⟩)]
          split at h
          · rename_i havc
            rw [if_pos havc]
            cases h
            obtain ⟨hpid, hwrites⟩ :=
              encodeAvc_spec { e with demux := demux } writer list key (dts * 90)
            exact ⟨hpid, writesStream_writes hwrites⟩
          · cases h
            refine ⟨rfl, ?_⟩
            intro piece hpiece
            rcases List.mem_cons.mp hpiece with hfirst | hrest
            · cases hfirst
            · cases hrest

end VideoEncoder

/-! ### Both -/

namespace TsEncoder

/-- A stream has an identifier once its type is set, and then it is in the map table. -/
structure Listed (e : TsEncoder) (type : TsStreamType) (pid encoderPid : UInt16) : Prop where
  unset : type = .reserved ↔ pid = 0xe000
  encoder : type ≠ .reserved → encoderPid = pid
  program : type ≠ .reserved → ⟨type.code, pid⟩ ∈ e.pmtWriter.programs

/-- What an encoder knows of its streams. -/
structure Consistent (e : TsEncoder) : Prop where
  pat : e.patWriter.Standard
  pmt : e.pmtWriter.Standard
  audio : e.Listed e.audioType e.audioPid e.audioEncoder.pes.pid
  video : e.Listed e.videoType e.videoPid e.videoEncoder.pes.pid
  audioPid : e.audioType = .reserved ∨ e.audioType = .audioAAC ∧ e.audioPid = 0x101 ∨
    e.audioType = .audioMp3 ∧ e.audioPid = 0x102
  videoPid : e.videoType = .reserved ∨ e.videoType = .videoH264 ∧ e.videoPid = 0x100

theorem consistent_new : Consistent {}
  := by
  refine ⟨⟨0xff, rfl⟩, ⟨0xff, rfl⟩, ⟨?_, ?_, ?_⟩, ⟨?_, ?_, ?_⟩, .inl rfl, .inl rfl⟩
  · exact iff_of_true rfl rfl
  · exact fun h => absurd rfl h
  · exact fun h => absurd rfl h
  · exact iff_of_true rfl rfl
  · exact fun h => absurd rfl h
  · exact fun h => absurd rfl h

/-- Both streams are set. -/
def Complete (e : TsEncoder) : Prop := e.audioType ≠ .reserved ∧ e.videoType ≠ .reserved

instance (e : TsEncoder) : Decidable e.Complete :=
  inferInstanceAs (Decidable (e.audioType ≠ .reserved ∧ e.videoType ≠ .reserved))

/-- The streams as a map table lists them. -/
def streams (e : TsEncoder) : List (UInt8 × Nat) :=
  [(e.audioType.code, e.audioPid.toNat), (e.videoType.code, e.videoPid.toNat)]

/-- The types and the identifiers of the streams are the same. -/
structure SameStreams (e e' : TsEncoder) : Prop where
  audioType : e'.audioType = e.audioType
  videoType : e'.videoType = e.videoType
  audioPid : e'.audioPid = e.audioPid
  videoPid : e'.videoPid = e.videoPid

variable {e e' : TsEncoder}

theorem SameStreams.streams (h : e.SameStreams e') :
  e'.streams = e.streams
  := by rw [TsEncoder.streams, TsEncoder.streams, h.audioType, h.videoType, h.audioPid, h.videoPid]

theorem SameStreams.complete (h : e.SameStreams e') :
  e'.Complete ↔ e.Complete
  := by rw [Complete, Complete, h.audioType, h.videoType]

/-- Calls write the tables with some streams. -/
def WritesTables (streams : List (UInt8 × Nat)) (calls : List WriterCall) : Prop :=
  ∃ pat pmt, calls = writes none pat ++ writes none pmt ∧
    IsAssociation TsTool.crcMpeg2 0x1001 pat ∧
    ∀ stream ∈ streams, IsMap TsTool.crcMpeg2 0x1001 stream pmt

/-- The identifiers have thirteen bits. -/
theorem Consistent.pid_lt (h : e.Consistent) (hcomplete : e.Complete) :
  e.audioPid.toNat < 8192 ∧ e.videoPid.toNat < 8192
  := by
  constructor
  · rcases h.audioPid with hunset | ⟨-, hpid⟩ | ⟨-, hpid⟩
    · exact absurd hunset hcomplete.1
    · rw [hpid]
      decide
    · rw [hpid]
      decide
  · rcases h.videoPid with hunset | ⟨-, hpid⟩
    · exact absurd hunset hcomplete.2
    · rw [hpid]
      decide

/-- When both streams are set, the tables are written with them, and else nothing is. -/
theorem writePatPmt_spec (h : e.Consistent) {g g' : TsTool.Globals} (hg : g.Own)
    {calls : List WriterCall} (hwrite : e.writePatPmt g = some (e', g', calls)) :
  e'.Consistent ∧ g'.Own ∧ e.SameStreams e' ∧
    (¬ e.Complete ∧ calls = [] ∨ e.Complete ∧ WritesTables e.streams calls)
  := by
  have hpids : (e.audioPid ≠ 0xe000 ∧ e.videoPid ≠ 0xe000) ↔ e.Complete
    := by rw [Ne, Ne, ← h.audio.unset, ← h.video.unset, Complete]
  rw [writePatPmt] at hwrite
  split at hwrite
  · rename_i hset
    have hcomplete := hpids.mp hset
    obtain ⟨patWriter, pat, hpat, hstandard, hassociation⟩ := PatWriter.writePat_eq h.pat hg
    rw [hpat] at hwrite
    change (e.pmtWriter.writePmt TsTool.Checksum.crc32.initialized).bind (fun r =>
      some ({ e with patWriter := patWriter, pmtWriter := r.1 }, r.2.1,
        writes none pat ++ writes none r.2.2)) = _ at hwrite
    obtain ⟨⟨pmtWriter, g₁, pmt⟩, hpmt, hresult⟩ := Option.bind_eq_some_iff.mp hwrite
    cases hresult
    obtain ⟨hstandard', hprograms, hg₁, hmap⟩ :=
      PmtWriter.writePmt_eq h.pmt TsTool.Globals.own_initialized hpmt
    refine ⟨⟨hstandard, hstandard', ?_, ?_, h.audioPid, h.videoPid⟩, ?_, ⟨rfl, rfl, rfl, rfl⟩,
      .inr ⟨hcomplete, pat, pmt, rfl, hassociation, ?_⟩⟩
    · refine ⟨h.audio.unset, h.audio.encoder, fun hset => ?_⟩
      dsimp only
      rw [hprograms]
      exact h.audio.program hset
    · refine ⟨h.video.unset, h.video.encoder, fun hset => ?_⟩
      dsimp only
      rw [hprograms]
      exact h.video.program hset
    · rw [hg₁]
      exact TsTool.Globals.own_initialized
    · obtain ⟨haudio, hvideo⟩ := h.pid_lt hcomplete
      have hstream : ∀ (type : UInt8) (pid : UInt16), pid.toNat < 8192 →
          ProgramInfo.stream ⟨type, pid⟩ = (type, pid.toNat)
        := fun type pid hlt => congrArg (Prod.mk type) (Nat.mod_eq_of_lt hlt)
      intro stream hmem
      rcases List.mem_cons.mp hmem with rfl | hmem
      · have hlisted := hmap _ (h.audio.program hcomplete.1)
        rwa [hstream _ _ haudio] at hlisted
      · rw [List.mem_singleton.mp hmem]
        have hlisted := hmap _ (h.video.program hcomplete.2)
        rwa [hstream _ _ hvideo] at hlisted
  · rename_i hunset
    cases hwrite
    exact ⟨h, hg, ⟨rfl, rfl, rfl, rfl⟩, .inl ⟨fun hcomplete => hunset (hpids.mpr hcomplete), rfl⟩⟩

/-- The type of audio changes to that of a codec, with its identifier. -/
theorem Consistent.changeAudio (h : e.Consistent) {type : TsStreamType} {pid : UInt16}
    (hcodec : type = .audioAAC ∧ pid = 0x101 ∨ type = .audioMp3 ∧ pid = 0x102) :
  Consistent (({ e with audioPid := pid } : TsEncoder).changeAudio type)
  := by
  have hset : type ≠ .reserved ∧ pid ≠ 0xe000
    := by
    rcases hcodec with ⟨rfl, rfl⟩ | ⟨rfl, rfl⟩
    · decide
    · decide
  refine ⟨h.pat, h.pmt, ⟨iff_of_false hset.1 hset.2, fun _ => rfl, fun _ => ?_⟩,
    ⟨h.video.unset, h.video.encoder, fun hvideo => ?_⟩, .inr hcodec, h.videoPid⟩
  · exact List.mem_append_right _ (List.mem_singleton_self _)
  · exact List.mem_append_left _ (h.video.program hvideo)

/-- The type of video changes to that of a codec, with its identifier. -/
theorem Consistent.changeVideo (h : e.Consistent) {type : TsStreamType} {pid : UInt16}
    (hcodec : type = .videoH264 ∧ pid = 0x100) :
  Consistent (({ e with videoPid := pid } : TsEncoder).changeVideo type)
  := by
  have hset : type ≠ .reserved ∧ pid ≠ 0xe000
    := by
    obtain ⟨rfl, rfl⟩ := hcodec
    decide
  refine ⟨h.pat, h.pmt, ⟨h.audio.unset, h.audio.encoder, fun haudio => ?_⟩,
    ⟨iff_of_false hset.1 hset.2, fun _ => rfl, fun _ => ?_⟩, h.audioPid, .inr hcodec⟩
  · exact List.mem_append_left _ (h.audio.program haudio)
  · exact List.mem_append_right _ (List.mem_singleton_self _)

/-- A stream that is set has the identifier of its codec. -/
structure Pids (e : TsEncoder) : Prop where
  audio : e.audioType = .reserved ∨ e.audioType = .audioAAC ∧ e.audioPid = 0x101 ∨
    e.audioType = .audioMp3 ∧ e.audioPid = 0x102
  video : e.videoType = .reserved ∨ e.videoType = .videoH264 ∧ e.videoPid = 0x100

theorem Consistent.pids (h : e.Consistent) :
  e.Pids
  := ⟨h.audioPid, h.videoPid⟩

/-- The identifier of a codec of audio; it is the one there is, if the type is not new. -/
theorem Pids.setAudioPid (h : e.Pids) (ac : UInt8) :
  ∃ type pid, e.setAudioPid ac = ({ e with audioPid := pid }, type) ∧
    (type = .reserved ∨ type = .audioAAC ∧ pid = 0x101 ∨ type = .audioMp3 ∧ pid = 0x102) ∧
    (type = .reserved ∨ type = e.audioType → pid = e.audioPid)
  := by
  rw [TsEncoder.setAudioPid]
  split
  · refine ⟨_, _, rfl, .inr (.inl ⟨rfl, rfl⟩), ?_⟩
    rintro (hunset | hsame)
    · cases hunset
    · rcases h.audio with htype | ⟨-, hpid⟩ | ⟨htype, -⟩
      · cases hsame.trans htype
      · exact hpid.symm
      · cases hsame.trans htype
  · split
    · refine ⟨_, _, rfl, .inr (.inr ⟨rfl, rfl⟩), ?_⟩
      rintro (hunset | hsame)
      · cases hunset
      · rcases h.audio with htype | ⟨htype, -⟩ | ⟨-, hpid⟩
        · cases hsame.trans htype
        · cases hsame.trans htype
        · exact hpid.symm
    · exact ⟨_, e.audioPid, rfl, .inl rfl, fun _ => rfl⟩

/-- The identifier of a codec of video; it is the one there is, if the type is not new. -/
theorem Pids.setVideoPid (h : e.Pids) (vc : UInt8) (p : UInt16) :
  ∃ type pid, TsEncoder.setVideoPid { e with audioPid := p } vc =
      ({ e with audioPid := p, videoPid := pid }, type) ∧
    (type = .reserved ∨ type = .videoH264 ∧ pid = 0x100) ∧
    (type = .reserved ∨ type = e.videoType → pid = e.videoPid)
  := by
  rw [TsEncoder.setVideoPid]
  split
  · refine ⟨_, _, rfl, .inr ⟨rfl, rfl⟩, ?_⟩
    rintro (hunset | hsame)
    · cases hunset
    · rcases h.video with htype | ⟨-, hpid⟩
      · cases hsame.trans htype
      · exact hpid.symm
  · exact ⟨_, e.videoPid, rfl, .inl rfl, fun _ => rfl⟩

/-- The stream of audio after a call that found a type and an identifier for it. -/
def withAudio (e : TsEncoder) (type : TsStreamType) (pid : UInt16) : TsEncoder :=
  if type ≠ .reserved ∧ type ≠ e.audioType then
    ({ e with audioPid := pid } : TsEncoder).changeAudio type
  else
    e

/-- So the stream of video. -/
def withVideo (e : TsEncoder) (type : TsStreamType) (pid : UInt16) : TsEncoder :=
  if type ≠ .reserved ∧ type ≠ e.videoType then
    ({ e with videoPid := pid } : TsEncoder).changeVideo type
  else
    e

theorem Consistent.withAudio (h : e.Consistent) {type : TsStreamType} {pid : UInt16}
    (hcodec : type = .reserved ∨ type = .audioAAC ∧ pid = 0x101 ∨
      type = .audioMp3 ∧ pid = 0x102) :
  Consistent (e.withAudio type pid)
  := by
  rw [TsEncoder.withAudio]
  split
  next hnew => exact h.changeAudio (hcodec.resolve_left hnew.1)
  next => exact h

theorem Consistent.withVideo (h : e.Consistent) {type : TsStreamType} {pid : UInt16}
    (hcodec : type = .reserved ∨ type = .videoH264 ∧ pid = 0x100) :
  Consistent (e.withVideo type pid)
  := by
  rw [TsEncoder.withVideo]
  split
  next hnew => exact h.changeVideo (hcodec.resolve_left hnew.1)
  next => exact h

theorem videoType_withAudio (e : TsEncoder) (type : TsStreamType) (pid : UInt16) :
  (e.withAudio type pid).videoType = e.videoType
  := by
  rw [TsEncoder.withAudio]
  split
  · rfl
  · rfl

/-- The type of video does not depend on the stream of audio. -/
theorem setVideoPid_type (e : TsEncoder) (vc : UInt8) (p : UInt16) :
  (TsEncoder.setVideoPid { e with audioPid := p } vc).2 = (e.setVideoPid vc).2
  := by
  rw [TsEncoder.setVideoPid, TsEncoder.setVideoPid]
  split
  · rfl
  · rfl

/-- A call gives each stream the type of its codec, and writes the tables if one of them is new. -/
theorem setStreamType_eq (h : e.Pids) (g : TsTool.Globals) (vc ac : UInt8) :
  ∃ atype p vtype q, (e.setAudioPid ac).2 = atype ∧ (e.setVideoPid vc).2 = vtype ∧
    (atype = .reserved ∨ atype = .audioAAC ∧ p = 0x101 ∨ atype = .audioMp3 ∧ p = 0x102) ∧
    (vtype = .reserved ∨ vtype = .videoH264 ∧ q = 0x100) ∧
    e.setStreamType g vc ac =
      if (atype ≠ .reserved ∧ atype ≠ e.audioType) ∨ (vtype ≠ .reserved ∧ vtype ≠ e.videoType) then
        ((e.withAudio atype p).withVideo vtype q).writePatPmt g
      else
        some (e, g, [])
  := by
  obtain ⟨atype, p, haudio, hacodec, hasame⟩ := h.setAudioPid ac
  obtain ⟨vtype, q, hvideo, hvcodec, hvsame⟩ := h.setVideoPid vc p
  have hvtype : (e.setVideoPid vc).2 = vtype
    := (e.setVideoPid_type vc p).symm.trans (congrArg Prod.snd hvideo)
  refine ⟨atype, p, vtype, q, congrArg Prod.snd haudio, hvtype, hacodec, hvcodec, ?_⟩
  rw [setStreamType, haudio]
  dsimp only
  rw [hvideo]
  dsimp only
  rw [TsEncoder.withVideo, videoType_withAudio, TsEncoder.withAudio]
  by_cases hnewAudio : atype ≠ .reserved ∧ atype ≠ e.audioType
  · rw [if_pos hnewAudio, if_pos (Or.inl hnewAudio), if_pos (Or.inl hnewAudio), if_pos hnewAudio]
    by_cases hnewVideo : vtype ≠ .reserved ∧ vtype ≠ e.videoType
    · rw [if_pos hnewVideo, if_pos hnewVideo]
      rfl
    · -- an identifier that is found for a type that is not new is the one there is
      obtain rfl := hvsame (or_iff_not_and_not.mpr hnewVideo)
      rw [if_neg hnewVideo, if_neg hnewVideo]
  · rw [if_neg hnewAudio, if_neg hnewAudio, hasame (or_iff_not_and_not.mpr hnewAudio)]
    by_cases hnewVideo : vtype ≠ .reserved ∧ vtype ≠ e.videoType
    · rw [if_pos hnewVideo, if_pos hnewVideo, if_pos (Or.inr hnewVideo), if_pos (Or.inr hnewVideo)]
    · rw [if_neg hnewVideo, if_neg hnewVideo, if_neg (not_or.mpr ⟨hnewAudio, hnewVideo⟩),
        if_neg (not_or.mpr ⟨hnewAudio, hnewVideo⟩), hvsame (or_iff_not_and_not.mpr hnewVideo)]

/-- Nothing changes, or the tables are written of what the streams are then. -/
theorem setStreamType_cases (h : e.Consistent) (g : TsTool.Globals) (vc ac : UInt8) :
  e.setStreamType g vc ac = some (e, g, []) ∨
    ∃ e₁ : TsEncoder, e₁.Consistent ∧ e.setStreamType g vc ac = e₁.writePatPmt g
  := by
  obtain ⟨atype, p, vtype, q, -, -, hacodec, hvcodec, hset⟩ := setStreamType_eq h.pids g vc ac
  rw [hset]
  split
  · exact .inr ⟨_, (h.withAudio hacodec).withVideo hvcodec, rfl⟩
  · exact .inl rfl

/-- When the streams change and both are set, the tables are written with them. -/
theorem setStreamType_spec (h : e.Consistent) {g g' : TsTool.Globals} (hg : g.Own)
    {vc ac : UInt8} {calls : List WriterCall}
    (hset : e.setStreamType g vc ac = some (e', g', calls)) :
  e'.Consistent ∧ g'.Own ∧
    (e' = e ∧ calls = [] ∨ ¬ e'.Complete ∧ calls = [] ∨ WritesTables e'.streams calls)
  := by
  rcases setStreamType_cases h g vc ac with hsame | ⟨e₁, h₁, hwrite⟩
  · cases hset.symm.trans hsame
    exact ⟨h, hg, .inl ⟨rfl, rfl⟩⟩
  · obtain ⟨hconsistent, hown, hstreams, hcalls⟩ :=
      writePatPmt_spec h₁ hg (hwrite.symm.trans hset)
    refine ⟨hconsistent, hown, .inr ?_⟩
    rcases hcalls with ⟨hunset, hnone⟩ | ⟨-, htables⟩
    · exact .inl ⟨fun hcomplete => hunset (hstreams.complete.mp hcomplete), hnone⟩
    · rw [hstreams.streams]
      exact .inr htables

/-- The codec of the packets that are written for a packet, if there are any. -/
def pesCodec (e : TsEncoder) (data : Packet ε) : Option Codec :=
  if data.isAudio then e.audioEncoder.pesCodec data
  else if data.isVideo then e.videoEncoder.pesCodec data
  else none

/-- Nothing is written for a header. -/
theorem pesCodec_header {data : Packet ε} (h : TsTool.isCodecHeader data = true) :
  e.pesCodec data = none
  := by
  rw [pesCodec, AudioEncoder.pesCodec, VideoEncoder.pesCodec]
  split
  · split
    · rfl
    · exact if_pos (.inr h)
  · split
    · split
      · rfl
      · exact if_pos (.inr h)
    · rfl

/-- The encoders of the streams have no part in writing the tables. -/
theorem writePatPmt_pesCodec {g g' : TsTool.Globals} {calls : List WriterCall}
    (hwrite : e.writePatPmt g = some (e', g', calls)) (data : Packet ε) :
  e'.pesCodec data = e.pesCodec data
  := by
  rw [writePatPmt] at hwrite
  split at hwrite
  · obtain ⟨⟨patWriter, g₁, pat⟩, -, hrest⟩ := Option.bind_eq_some_iff.mp hwrite
    obtain ⟨⟨pmtWriter, g₂, pmt⟩, -, hresult⟩ := Option.bind_eq_some_iff.mp hrest
    cases hresult
    exact rfl
  · cases hwrite
    exact rfl

/-- Both streams are set, and one of them to a codec. -/
def Describes (e : TsEncoder) (codec : Codec) : Prop :=
  e.Complete ∧ (e.audioType.code = codec.streamType ∨ e.videoType.code = codec.streamType)

instance (e : TsEncoder) (codec : Codec) : Decidable (e.Describes codec) :=
  inferInstanceAs (Decidable (e.Complete ∧
    (e.audioType.code = codec.streamType ∨ e.videoType.code = codec.streamType)))

theorem audio_pesCodec {e : AudioEncoder} {data : Packet ε} {codec : Codec}
    (h : e.pesCodec data = some codec) :
  codec ≠ .avc
  := by
  rw [AudioEncoder.pesCodec] at h
  rintro rfl
  split at h
  · cases h
  · split at h
    · cases h
    · split at h
      · split at h
        · cases h
        · cases h
      · split at h
        · split at h
          · cases h
          · cases h
        · cases h

theorem video_pesCodec {e : VideoEncoder} {data : Packet ε} {codec : Codec}
    (h : e.pesCodec data = some codec) :
  codec = .avc
  := by
  rw [VideoEncoder.pesCodec] at h
  split at h
  · cases h
  · split at h
    · cases h
    · split at h
      · split at h
        · exact (Option.some.inj h).symm
        · cases h
      · cases h

/-- The stream of a codec of audio is the first one. -/
theorem Consistent.audio_code (h : e.Consistent) {codec : Codec} (hcodec : codec ≠ .avc)
    (hdescribes : e.Describes codec) :
  e.audioType.code = codec.streamType
  := by
  rcases hdescribes.2 with haudio | hvideo
  · exact haudio
  · rcases h.videoPid with hunset | ⟨htype, -⟩
    · exact absurd hunset hdescribes.1.2
    · rw [htype] at hvideo
      cases codec with
      | aac => cases hvideo
      | mp3 => cases hvideo
      | avc => exact absurd rfl hcodec

/-- The stream of AVC is the second one. -/
theorem Consistent.video_code (h : e.Consistent) (hdescribes : e.Describes .avc) :
  e.videoType.code = Codec.avc.streamType
  := by
  rcases h.videoPid with hunset | ⟨htype, -⟩
  · exact absurd hunset hdescribes.1.2
  · rw [htype]
    rfl

theorem SameStreams.describes (h : e.SameStreams e') {codec : Codec} :
  e'.Describes codec ↔ e.Describes codec
  := by rw [Describes, Describes, h.complete, h.audioType, h.videoType]

/-- What is written of a packet are packets of its codec, in the stream of the codec if that is
set. -/
theorem encode_spec (h : e.Consistent) {writer writer' : StreamWriter} {data : Packet ε} {dts : Int}
    {calls : List WriterCall} {ret : Int}
    (hencode : e.encode writer data dts = some (e', writer', calls, ret)) :
  e'.Consistent ∧ e.SameStreams e' ∧ ∀ piece, .write piece ∈ calls →
    ∃ codec, e.pesCodec data = some codec ∧ piece.codec = some codec ∧
      (e.Describes codec →
        ∃ t, TsPacket.parse piece.bytes = some t ∧ (codec.streamType, t.pid) ∈ e.streams)
  := by
  rw [encode] at hencode
  split at hencode
  · rename_i haudio
    split at hencode
    · rename_i audio calls' ret' hresult
      cases hencode
      obtain ⟨hpid, hwrites⟩ := AudioEncoder.encodeAudio_spec hresult
      refine ⟨⟨h.pat, h.pmt, ⟨h.audio.unset, ?_, h.audio.program⟩,
        ⟨h.video.unset, h.video.encoder, h.video.program⟩, h.audioPid, h.videoPid⟩,
        ⟨rfl, rfl, rfl, rfl⟩, ?_⟩
      · intro hset
        exact hpid.trans (h.audio.encoder hset)
      · intro piece hpiece
        obtain ⟨hsome, hcodec, hparse⟩ := hwrites piece hpiece
        obtain ⟨codec, hcodec'⟩ := Option.isSome_iff_exists.mp hsome
        refine ⟨codec, ?_, hcodec.trans hcodec', ?_⟩
        · rw [pesCodec, if_pos haudio, hcodec']
        · intro hdescribes
          have hencoder := h.audio.encoder hdescribes.1.1
          obtain ⟨t, ht, hid⟩ := hparse (hencoder ▸ (h.pid_lt hdescribes.1).1)
          refine ⟨t, ht, ?_⟩
          rw [← h.audio_code (audio_pesCodec hcodec') hdescribes, hid, hencoder]
          exact List.mem_cons_self
    · cases hencode
  · rename_i haudio
    split at hencode
    · rename_i hvideo
      split at hencode
      · rename_i video writer₁ calls' ret' hresult
        cases hencode
        obtain ⟨hpid, hwrites⟩ := VideoEncoder.encodeVideo_spec hresult
        refine ⟨⟨h.pat, h.pmt, ⟨h.audio.unset, h.audio.encoder, h.audio.program⟩,
          ⟨h.video.unset, ?_, h.video.program⟩, h.audioPid, h.videoPid⟩, ⟨rfl, rfl, rfl, rfl⟩, ?_⟩
        · intro hset
          exact hpid.trans (h.video.encoder hset)
        · intro piece hpiece
          obtain ⟨hsome, hcodec, hparse⟩ := hwrites piece hpiece
          obtain ⟨codec, hcodec'⟩ := Option.isSome_iff_exists.mp hsome
          obtain rfl := video_pesCodec hcodec'
          refine ⟨.avc, ?_, hcodec.trans hcodec', ?_⟩
          · rw [pesCodec, if_neg haudio, if_pos hvideo, hcodec']
          · intro hdescribes
            have hencoder := h.video.encoder hdescribes.1.2
            obtain ⟨t, ht, hid⟩ := hparse (hencoder ▸ (h.pid_lt hdescribes.1).2)
            refine ⟨t, ht, ?_⟩
            rw [← h.video_code hdescribes, hid, hencoder]
            exact List.mem_cons_of_mem _ (List.mem_singleton_self _)
      · cases hencode
    · cases hencode
      refine ⟨h, ⟨rfl, rfl, rfl, rfl⟩, ?_⟩
      intro piece hpiece
      cases hpiece

end TsEncoder
