import Tmms.Hls.Storage
import Tmms.Library.Multiplex
import Tmms.Mpegts.PmtStreams
import Tmms.Mpegts.Sections

/-!
# Multiplexing

What a `TsEncoder` writes is a multiplex: the program tables and the frames of both streams are
units of it, each with its identifier, and the packets of an identifier are numbered on over all
calls (`continues_writePatPmt`, `continues_setStreamType`, `continues_encode`).

The counters of a multiplex go on in those of the writers (`Agrees`).  A stream that is not set has
no identifier of thirteen bits, so a frame is written only when its stream is set (`StreamSet`).
-/

open TransportStream

/-! ### Frames -/

/-- A frame of an elementary stream, as it is written. -/
structure PesFrame where
  pid : Nat
  streamId : UInt8
  pts : Int
  dts : Int
  data : List UInt8
  deriving DecidableEq, Repr

namespace PesFrame

/-- The bytes in the packets of a frame. -/
def bytes (f : PesFrame) : List UInt8 :=
  PesWriter.pesHeader f.streamId f.data.length f.pts f.dts ++ f.data

/-- What is read back: times of 33 bits, and a length or 0. -/
def packet (f : PesFrame) : PesPacket where
  streamId := f.streamId
  packetLength := PesWriter.packetLength f.data.length (if f.pts = f.dts then 5 else 10)
  pts := (f.pts % 8589934592).toNat
  dts := (f.dts % 8589934592).toNat
  payload := f.data

/-- A frame is shorter than its bytes. -/
theorem length_bytes (f : PesFrame) :
  f.data.length + 14 ≤ f.bytes.length
  := by
  rw [bytes, List.length_append, PesWriter.length_pesHeader]
  split
  · omega
  · omega

/-- A frame is read back. -/
theorem parse_bytes {f : PesFrame} (h : f.bytes.length < 2 ^ 31) :
  PesPacket.parse f.bytes = some f.packet
  := by
  have hlength := f.length_bytes
  have hfields := PesWriter.length_pesHeader f.streamId f.data.length f.pts f.dts
  obtain ⟨l0, l1, flags, headerLen, fields, hheader, hheaderLen, hpacket, -, htimes⟩ :=
    PesWriter.pesHeader_fields f.streamId f.data.length f.pts f.dts
  have hcount : fields.length = if f.pts = f.dts then 5 else 10
    := by
    rw [hheader] at hfields
    change fields.length + 9 = _ at hfields
    by_cases htimes : f.pts = f.dts
    · rw [if_neg (not_not_intro htimes)] at hfields
      rw [if_pos htimes]
      omega
    · rw [if_pos htimes] at hfields
      rw [if_neg htimes]
      omega
  have hsize := hpacket (by omega)
  rw [bytes, hheader, packet, ← hcount, ← hsize]
  apply parse_of_fields (by decide) hheaderLen _ htimes
  rw [hsize, PesWriter.packetLength]
  split
  · exact .inl rfl
  · right
    omega

end PesFrame

variable {ε : Type}

/-- The frame that `EncodeAudio` writes of sound data, if it writes one. -/
def AudioEncoder.frame (e : AudioEncoder) (data : Packet ε) (dts : Int) : Option PesFrame :=
  match e.demux.onDemux data.payload with
  | none => none
  | some (demux, list, ret) =>
      if ret = -1 ∨ TsTool.isCodecHeader data then
        none
      else if demux.soundFormat = kAudioCodecIDAAC then
        let l := list.headD []
        if 0 < l.length ∧ l.length ≤ 0x1fff then
          some ⟨e.pes.pid.toNat, 0xc0, dts * 90, dts * 90, adtsHeader demux l.length ++ l⟩
        else
          none
      else if demux.soundFormat = kAudioCodecIDMP3 then
        if 0 < list.flatten.length then
          some ⟨e.pes.pid.toNat, 0xc0, dts * 90, dts * 90, list.flatten⟩
        else
          none
      else
        none

/-- The frame that `EncodeVideo` writes of video data, if it writes one. -/
def VideoEncoder.frame (e : VideoEncoder) (writer : StreamWriter) (data : Packet ε) (dts : Int) :
    Option PesFrame :=
  match e.demux.onDemux data.payload with
  | none => none
  | some (demux, list, ret) =>
      if ret = -1 ∨ TsTool.isCodecHeader data then
        none
      else if demux.codecId = kVideoCodecIDAVC then
        let unit := (pushSamples demux writer (startSamples demux) list).2.result.flatten
        let pts := if demux.compositionTime > 0 then dts * 90 + demux.compositionTime * 90
          else dts * 90
        if 0 < unit.length then
          some ⟨e.pes.pid.toNat, 0xe0, pts, dts * 90, unit⟩
        else
          none
      else
        none

/-- The frame that `Encode` writes of a packet, if it writes one. -/
def TsEncoder.frame (e : TsEncoder) (writer : StreamWriter) (data : Packet ε) (dts : Int) :
    Option PesFrame :=
  if data.isAudio then e.audioEncoder.frame data dts
  else if data.isVideo then e.videoEncoder.frame writer data dts
  else none

/-! ### Packets -/

/-- Packets that are read from pieces. -/
def Reads (pieces : List TsPiece) (ts : List TsPacket) : Prop :=
  (pieces.map TsPiece.bytes).map TsPacket.parse = ts.map some

/-- Pieces carry units of a multiplex. -/
def CarriesUnits (c : Nat → Nat) (pieces : List TsPiece) (units : List (Nat × List UInt8))
    (c' : Nat → Nat) : Prop :=
  ∃ ts, Reads pieces ts ∧ Multiplex c units ts c'

theorem reads_writes {codec : Option Codec} {packets : List (List UInt8)} {ts : List TsPacket}
    (h : packets.map TsPacket.parse = ts.map some) :
  Reads (WriterCall.pieces (writes codec packets)) ts
  := by
  rw [Reads, WriterCall.pieces_writes, List.map_map, List.map_map]
  exact h

theorem carriesUnits_nil (c : Nat → Nat) :
  CarriesUnits c [] [] c
  := ⟨[], rfl, .nil c⟩

variable {c c' c'' : Nat → Nat} {pieces pieces' : List TsPiece}
  {units units' : List (Nat × List UInt8)}

theorem Reads.append {ts ts' : List TsPacket} (h : Reads pieces ts) (h' : Reads pieces' ts') :
  Reads (pieces ++ pieces') (ts ++ ts')
  := by rw [Reads, List.map_append, List.map_append, h, h', List.map_append]

theorem CarriesUnits.append (h : CarriesUnits c pieces units c')
    (h' : CarriesUnits c' pieces' units' c'') :
  CarriesUnits c (pieces ++ pieces') (units ++ units') c''
  := by
  obtain ⟨ts, hreads, hunits⟩ := h
  obtain ⟨ts', hreads', hunits'⟩ := h'
  exact ⟨ts ++ ts', hreads.append hreads', hunits.append hunits'⟩

namespace PesWriter

/-- The counter goes on by one with each packet. -/
theorem writeLoop_cc {payloadSize : Nat} (w : PesWriter) (streamId : UInt8) (isStart key : Bool)
    (result : List (List UInt8)) (pts dts : Int) :
  (w.writeLoop streamId isStart key result payloadSize pts dts).1.cc.toNat % 16 =
    (w.cc.toNat + (w.writeLoop streamId isStart key result payloadSize pts dts).2.length) % 16
  := by
  induction payloadSize using Nat.strongRecOn generalizing w isStart result with
  | ind payloadSize ih =>
      rw [writeLoop]
      by_cases hmore : payloadSize > 0 ∧ result ≠ []
      · rw [dif_pos hmore]
        have hcc := toNat_cc w.cc
        dsimp only
        rw [ih _ (Nat.sub_lt hmore.1 (writePacket_pos _ _ _ _ _ _ _ hmore.1)), List.length_cons]
        dsimp only
        omega
      · rw [dif_neg hmore]
        rfl

/-- The packets of a frame are a unit. -/
theorem isUnit_writeLoop (w : PesWriter) (hpid : w.pid.toNat < 8192) (streamId : UInt8)
    (key : Bool) {result : List (List UInt8)} {size : Nat} (pts dts : Int)
    (hsize : result.flatten.length = size) (hpos : 0 < size) :
  ∃ ts, (w.writeLoop streamId true key result size pts dts).2.map TsPacket.parse = ts.map some ∧
    IsUnit w.pid.toNat w.cc.toNat (pesHeader streamId size pts dts ++ result.flatten) ts ∧
    (w.writeLoop streamId true key result size pts dts).1.cc.toNat % 16 =
      (w.cc.toNat + ts.length) % 16
  := by
  obtain ⟨ts, hts, hpids, hstarts, hcounters, hpayload⟩ :=
    w.writeLoop_parse hpid streamId true key result pts dts hsize (fun _ => hpos)
  have hlength := congrArg List.length hts
  rw [List.length_map, List.length_map] at hlength
  refine ⟨ts, hts, ⟨hpids, hstarts, hcounters, hpayload⟩, ?_⟩
  rw [writeLoop_cc, hlength]

end PesWriter

/-- Calls write a frame, if there is one, and the encoder of its stream goes on. -/
inductive WritesFrame (pes : PesWriter) : PesWriter → Option PesFrame → List WriterCall → Prop where
  | none {calls : List WriterCall} (h : WriterCall.pieces calls = []) :
      WritesFrame pes pes none calls
  | some {pes' : PesWriter} {frame : PesFrame} {calls : List WriterCall}
      (hpid : pes'.pid = pes.pid) (hframe : frame.pid = pes.pid.toNat)
      (h : pes.pid.toNat < 8192 → ∃ ts, Reads (WriterCall.pieces calls) ts ∧
        IsUnit frame.pid pes.cc.toNat frame.bytes ts ∧
        pes'.cc.toNat % 16 = (pes.cc.toNat + ts.length) % 16) :
      WritesFrame pes pes' (some frame) calls

/-- A timestamp, and then the packets of a frame, if there is something in it. -/
theorem writesFrame_writeLoop (w : PesWriter) (streamId : UInt8) (key : Bool)
    {result : List (List UInt8)} {data : List UInt8} {size : Nat} (pts dts time : Int)
    (codec : Codec) (hdata : result.flatten = data) (hsize : size = data.length) :
  WritesFrame w (w.writeLoop streamId true key result size pts dts).1
    (if 0 < data.length then some ⟨w.pid.toNat, streamId, pts, dts, data⟩ else none)
    (.appendTimeStamp time ::
      writes (some codec) (w.writeLoop streamId true key result size pts dts).2)
  := by
  subst hdata hsize
  split
  · rename_i hpos
    apply WritesFrame.some (PesWriter.writeLoop_pid _ _ _ _ _ _ _) rfl
    intro hpid
    obtain ⟨ts, hts, hunit, hcc⟩ := w.isUnit_writeLoop hpid streamId key pts dts rfl hpos
    exact ⟨ts, reads_writes hts, hunit, hcc⟩
  · rename_i hnone
    rw [PesWriter.writeLoop, dif_neg fun hmore => hnone hmore.1]
    exact .none rfl

/-! ### Encoders of a stream -/

theorem AudioEncoder.encodeAAC_writesFrame (e : AudioEncoder) (list : List SampleBuf) (time : Int) :
  WritesFrame e.pes (e.encodeAAC list (time * 90)).1.pes
    (if 0 < (list.headD []).length ∧ (list.headD []).length ≤ 0x1fff then
      some ⟨e.pes.pid.toNat, 0xc0, time * 90, time * 90,
        adtsHeader e.demux (list.headD []).length ++ list.headD []⟩
    else none)
    (.appendTimeStamp time :: writes (some .aac) (e.encodeAAC list (time * 90)).2.1)
  := by
  cases list with
  | nil => exact .none rfl
  | cons l list =>
      rw [encodeAAC, List.headD_cons]
      split
      · rename_i hsize
        rw [if_neg (by omega)]
        exact .none rfl
      · rename_i hsize
        have hlength : (adtsHeader e.demux l.length ++ l).length = 7 + l.length
          := List.length_append
        have hdata : [adtsHeader e.demux l.length, l].flatten = adtsHeader e.demux l.length ++ l
          := by rw [List.flatten_cons, List.flatten_cons, List.flatten_nil, List.append_nil]
        have hframe := writesFrame_writeLoop e.pes 0xc0 false (time * 90) (time * 90) time .aac
          hdata hlength.symm
        rw [if_pos (by omega)] at hframe ⊢
        exact hframe

theorem AudioEncoder.encodeMP3_writesFrame (e : AudioEncoder) (list : List SampleBuf) (time : Int) :
  WritesFrame e.pes (e.encodeMP3 list (time * 90)).1.pes
    (if 0 < list.flatten.length then
      some ⟨e.pes.pid.toNat, 0xc0, time * 90, time * 90, list.flatten⟩
    else none)
    (.appendTimeStamp time :: writes (some .mp3) (e.encodeMP3 list (time * 90)).2.1)
  := by
  exact writesFrame_writeLoop e.pes 0xc0 false (time * 90) (time * 90) time .mp3 rfl
    List.length_flatten.symm

/-- What is written of sound data is its frame. -/
theorem AudioEncoder.encodeAudio_writesFrame {e e' : AudioEncoder} {data : Packet ε} {dts : Int}
    {calls : List WriterCall} {ret : Int} (h : e.encodeAudio data dts = some (e', calls, ret)) :
  WritesFrame e.pes e'.pes (e.frame data dts) calls
  := by
  rw [encodeAudio] at h
  rw [frame]
  cases hdemux : e.demux.onDemux data.payload with
  | none =>
      rw [hdemux] at h
      cases h
  | some r =>
      obtain ⟨demux, list, ret'⟩ := r
      rw [hdemux] at h
      dsimp only at h ⊢
      split at h
      · rename_i hret
        rw [if_pos (.inl hret)]
        cases h
        exact .none rfl
      · rename_i hret
        split at h
        · rename_i hheader
          rw [if_pos (.inr hheader)]
          cases h
          exact .none rfl
        · rename_i hheader
          rw [if_neg (not_or.mpr ⟨hret, hheader⟩)]
          split at h
          · rename_i haac
            rw [if_pos haac]
            cases h
            exact encodeAAC_writesFrame { e with demux := demux } list dts
          · rename_i haac
            rw [if_neg haac]
            split at h
            · rename_i hmp3
              rw [if_pos hmp3]
              cases h
              exact encodeMP3_writesFrame { e with demux := demux } list dts
            · rename_i hmp3
              rw [if_neg hmp3]
              cases h
              exact .none rfl

/-- What is written of video data is its frame. -/
theorem VideoEncoder.encodeVideo_writesFrame {e e' : VideoEncoder} {writer writer' : StreamWriter}
    {key : Bool} {data : Packet ε} {dts : Int} {calls : List WriterCall} {ret : Int}
    (h : e.encodeVideo writer key data dts = some (e', writer', calls, ret)) :
  WritesFrame e.pes e'.pes (e.frame writer data dts) calls
  := by
  rw [encodeVideo] at h
  rw [frame]
  cases hdemux : e.demux.onDemux data.payload with
  | none =>
      rw [hdemux] at h
      cases h
  | some r =>
      obtain ⟨demux, list, ret'⟩ := r
      rw [hdemux] at h
      dsimp only at h ⊢
      split at h
      · rename_i hret
        rw [if_pos (.inl hret)]
        cases h
        exact .none rfl
      · rename_i hret
        split at h
        · rename_i hheader
          rw [if_pos (.inr hheader)]
          cases h
          exact .none rfl
        · rename_i hheader
          rw [if_neg (not_or.mpr ⟨hret, hheader⟩)]
          split at h
          · rename_i havc
            rw [if_pos havc]
            cases h
            have hcounted := counted_pushSamples demux writer (counted_startSamples demux) list
            rw [AvcSamples.Counted] at hcounted
            exact writesFrame_writeLoop e.pes 0xe0 key _ (dts * 90) dts .avc rfl hcounted
          · rename_i havc
            rw [if_neg havc]
            cases h
            exact .none rfl

/-- A frame of audio has a codec. -/
theorem AudioEncoder.isSome_pesCodec {e : AudioEncoder} {data : Packet ε} {dts : Int}
    (h : (e.frame data dts).isSome) :
  (e.pesCodec data).isSome
  := by
  rw [frame] at h
  rw [pesCodec]
  cases hdemux : e.demux.onDemux data.payload with
  | none =>
      rw [hdemux] at h
      cases h
  | some r =>
      obtain ⟨demux, list, ret⟩ := r
      rw [hdemux] at h
      dsimp only at h ⊢
      rw [← List.length_flatten]
      split at h
      · cases h
      · rename_i hnone
        rw [if_neg hnone]
        split at h
        · rename_i haac
          rw [if_pos haac]
          split at h
          · rename_i hsize
            rw [if_pos hsize]
            rfl
          · cases h
        · rename_i haac
          rw [if_neg haac]
          split at h
          · rename_i hmp3
            rw [if_pos hmp3]
            split at h
            · rename_i hsize
              rw [if_pos hsize]
              rfl
            · cases h
          · cases h

/-- A frame of video has a codec. -/
theorem VideoEncoder.isSome_pesCodec {e : VideoEncoder} {writer : StreamWriter} {data : Packet ε}
    {dts : Int} (h : (e.frame writer data dts).isSome) :
  (e.pesCodec data).isSome
  := by
  rw [frame] at h
  rw [pesCodec]
  cases hdemux : e.demux.onDemux data.payload with
  | none =>
      rw [hdemux] at h
      cases h
  | some r =>
      obtain ⟨demux, list, ret⟩ := r
      rw [hdemux] at h
      dsimp only at h ⊢
      split at h
      · cases h
      · rename_i hnone
        rw [if_neg hnone]
        split at h
        · rename_i havc
          rw [if_pos havc]
          split at h
          · rename_i hsize
            rw [if_pos]
            · rfl
            · -- without a delimiter and samples there is nothing to write
              by_contra hempty
              rw [not_or, Bool.not_eq_false] at hempty
              have hsamples : ∀ l ∈ list, l.length = 0
                := by
                intro l hl
                by_contra hsome
                exact hempty.2 ⟨l, hl, hsome⟩
              rw [pushSamples_empty _ _ _ hsamples, startSamples, hempty.1] at hsize
              exact Nat.lt_irrefl 0 hsize
          · cases h
        · cases h

/-! ### Counters -/

/-- The counters of the identifiers of a stream are that of its encoder. -/
structure PidCounts (c : Nat → Nat) (type : TsStreamType) (pid : UInt16) (cc : UInt8)
    (pids : List Nat) : Prop where
  set : type ≠ .reserved → c pid.toNat % 16 = cc.toNat % 16
  unset : type = .reserved → ∀ p ∈ pids, c p % 16 = cc.toNat % 16

/-- Other identifiers do not count. -/
theorem PidCounts.update {type : TsStreamType} {pid : UInt16} {cc : UInt8} {pids : List Nat}
    (h : PidCounts c type pid cc pids) {p : Nat} (hp : p ∉ pids)
    (hpid : type ≠ .reserved → pid.toNat ≠ p) (n : Nat) :
  PidCounts (Function.update c p n) type pid cc pids
  := by
  constructor
  · intro hset
    rw [Function.update_of_ne (hpid hset)]
    exact h.set hset
  · intro hunset q hq
    have hne : q ≠ p
      := by
      rintro rfl
      exact hp hq
    rw [Function.update_of_ne hne]
    exact h.unset hunset q hq

/-- A stream that is not set gets one of its identifiers. -/
theorem PidCounts.setType {pid : UInt16} {cc : UInt8} {pids : List Nat}
    (h : PidCounts c .reserved pid cc pids) {type : TsStreamType} {p : UInt16}
    (htype : type ≠ .reserved) (hp : p.toNat ∈ pids) :
  PidCounts c type p cc pids
  := ⟨fun _ => h.unset rfl _ hp, fun hunset => absurd hunset htype⟩

/-- A unit is written with the identifier of a stream. -/
theorem PidCounts.write {type : TsStreamType} {pid : UInt16} {cc cc' : UInt8} {pids : List Nat}
    (h : PidCounts c type pid cc pids) (htype : type ≠ .reserved) {n : Nat}
    (hcc : cc'.toNat % 16 = (cc.toNat + n) % 16) :
  PidCounts (Function.update c pid.toNat (c pid.toNat + n)) type pid cc' pids
  := by
  refine ⟨fun _ => ?_, fun hunset => absurd hunset htype⟩
  have hset := h.set htype
  rw [Function.update_self, hcc]
  omega

namespace TsEncoder

/-- The counters are those of the writers. -/
structure Agrees (e : TsEncoder) (c : Nat → Nat) : Prop where
  pat : c 0x0000 % 16 = e.patWriter.psi.cc.toNat % 16
  pmt : c 0x1001 % 16 = e.pmtWriter.psi.cc.toNat % 16
  audio : PidCounts c e.audioType e.audioPid e.audioEncoder.pes.cc [0x101, 0x102]
  video : PidCounts c e.videoType e.videoPid e.videoEncoder.pes.cc [0x100]

theorem agrees_new : Agrees {} fun _ => 0xff
  := by
  refine ⟨rfl, rfl, ⟨fun _ => rfl, fun _ _ _ => rfl⟩, ⟨fun _ => rfl, fun _ _ _ => rfl⟩⟩

/-- A unit is a map table with the streams that are set, and the clock is in the video. -/
def ListsStreams (e : TsEncoder) (unit : List UInt8) : Prop :=
  e.Complete ∧ ∃ body streams,
    TableSection.ofUnit TsTool.crcMpeg2 unit = some ⟨0x02, 0x0001, body⟩ ∧
    parseMap body = some (e.videoPid.toNat, streams) ∧ streams.Perm e.streams

/-- A unit is the association table with the identifier of the map table. -/
def IsProgram (unit : List UInt8) : Prop :=
  ∃ body, TableSection.ofUnit TsTool.crcMpeg2 unit = some ⟨0x00, 0x0001, body⟩ ∧
    parsePrograms body = some [(0x0001, 0x1001)]

/-- Units are tables, and frames in order. -/
structure Shows (e : TsEncoder) (units : List (Nat × List UInt8)) (frames : List PesFrame) :
    Prop where
  pat : ∀ u ∈ units, u.1 = 0x0000 → IsProgram u.2
  pmt : ∀ u ∈ units, u.1 = 0x1001 → e.ListsStreams u.2
  frames : units.filter (fun u => u.1 ≠ 0x0000 ∧ u.1 ≠ 0x1001) =
    frames.map fun f => (f.pid, f.bytes)

/-- What an encoder is like that writes a multiplex. -/
structure Sound (e : TsEncoder) : Prop where
  consistent : e.Consistent
  current : e.PmtCurrent
  clock : e.videoType ≠ .reserved → e.pmtWriter.pcrPid = e.videoPid

/-- Pieces go on with a multiplex, of tables and frames, and the encoder is as it should be after
them. Streams do not change when both are set. -/
structure Continues (e e' : TsEncoder) (c : Nat → Nat) (pieces : List TsPiece)
    (frames : List PesFrame) (c' : Nat → Nat) : Prop where
  carries : ∃ units, CarriesUnits c pieces units c' ∧ e'.Shows units frames
  sound : e'.Sound
  agrees : e'.Agrees c'
  settled : e.Complete → e.SameStreams e'

variable {e e' e'' : TsEncoder} {frames frames' : List PesFrame}

theorem shows_nil (e : TsEncoder) :
  e.Shows [] []
  := by
  refine ⟨?_, ?_, rfl⟩
  · intro u hu
    cases hu
  · intro u hu
    cases hu

theorem Shows.append (h : e.Shows units frames) (h' : e.Shows units' frames') :
  e.Shows (units ++ units') (frames ++ frames')
  := by
  refine ⟨?_, ?_, ?_⟩
  · intro u hu
    rcases List.mem_append.mp hu with hu | hu
    · exact h.pat u hu
    · exact h'.pat u hu
  · intro u hu
    rcases List.mem_append.mp hu with hu | hu
    · exact h.pmt u hu
    · exact h'.pmt u hu
  · rw [List.filter_append, h.frames, h'.frames, List.map_append]

/-- Tables stay right while the streams stay. -/
theorem Shows.mono (h : e.Shows units frames) (hsettled : e.Complete → e.SameStreams e') :
  e'.Shows units frames
  := by
  refine ⟨h.pat, ?_, h.frames⟩
  intro u hu hpid
  obtain ⟨hcomplete, body, streams, hunit, hparse, hperm⟩ := h.pmt u hu hpid
  have hsame := hsettled hcomplete
  refine ⟨hsame.complete.mpr hcomplete, body, streams, hunit, ?_, ?_⟩
  · rw [hsame.videoPid]
    exact hparse
  · rw [hsame.streams]
    exact hperm

/-- Nothing is written. -/
theorem Continues.refl (h : e.Sound) (hagrees : e.Agrees c) :
  e.Continues e c [] [] c
  := ⟨⟨[], carriesUnits_nil c, e.shows_nil⟩, h, hagrees, fun _ => ⟨rfl, rfl, rfl, rfl⟩⟩

/-! ### Tables -/

/-- The packets of a section are a unit, in which the section is found. -/
theorem isUnit_writeSection (w : PSIWriter) (hpid : w.pid.toNat < 8192) {g : TsTool.Globals}
    (hg : g.Own) (id : UInt16) {buf : List UInt8} (h : buf.length ≤ 1012) :
  ∃ (cc : UInt8) (packets : List (List UInt8)) (ts : List TsPacket) (unit : List UInt8),
    w.writeSection g id 0 0 buf =
      some ({ w with cc := cc }, TsTool.Checksum.crc32.initialized, packets) ∧
    packets.map TsPacket.parse = ts.map some ∧ IsUnit w.pid.toNat w.cc.toNat unit ts ∧
    cc.toNat % 16 = (w.cc.toNat + ts.length) % 16 ∧
    TableSection.ofUnit TsTool.crcMpeg2 unit = some ⟨w.tableId, id.toNat, buf⟩
  := by
  obtain ⟨cc, packets, ts, tableSection, stuffing, hwrite, -, hts, hpids, hstarts, hcounters, hcc,
    hpayload, hparse, -, -⟩ := w.writeSection_reassembles hpid hg id 0 0 h
  exact ⟨cc, packets, ts, _, hwrite, hts, ⟨hpids, hstarts, hcounters, hpayload⟩, hcc,
    TableSection.ofUnit_eq hparse _⟩

theorem parseMap_content (w : PmtWriter) :
  parseMap w.content = some (w.pcrPid.toNat % 8192, w.programs.map ProgramInfo.stream)
  := by
  change parseMap (UInt8.ofNat ((0xe000 ||| w.pcrPid).toNat / 256) ::
    UInt8.ofNat (0xe000 ||| w.pcrPid).toNat :: 0xf0 :: 0x00 ::
    w.programs.flatMap ProgramInfo.entry) = _
  rw [parseMap, if_pos (by decide), parseStreams_entries, toNat_marked]
  rfl

/-- The entries are the streams, when both are set. -/
theorem Consistent.map_currentPrograms (h : e.Consistent) (hcomplete : e.Complete) :
  e.currentPrograms.map ProgramInfo.stream = e.streams
  := by
  obtain ⟨haudio, hvideo⟩ := h.pid_lt hcomplete
  rw [currentPrograms, audioPrograms, videoPrograms, if_neg hcomplete.1, if_neg hcomplete.2,
    streams, ← Nat.mod_eq_of_lt haudio, ← Nat.mod_eq_of_lt hvideo]
  rfl

/-- The identifiers of the streams are none of tables. -/
theorem Consistent.pid_cases (h : e.Consistent) :
  (e.audioType ≠ .reserved → e.audioPid.toNat = 0x101 ∨ e.audioPid.toNat = 0x102) ∧
    (e.videoType ≠ .reserved → e.videoPid.toNat = 0x100)
  := by
  constructor
  · intro hset
    rcases h.audioPid.resolve_left hset with ⟨-, hpid⟩ | ⟨-, hpid⟩
    · left
      rw [hpid]
      rfl
    · right
      rw [hpid]
      rfl
  · intro hset
    rw [(h.videoPid.resolve_left hset).2]
    rfl

/-- The tables do not count for the streams. -/
theorem Agrees.tables (h : e.Agrees c) (hconsistent : e.Consistent) (n n' : Nat)
    {patWriter : PatWriter} {pmtWriter : PmtWriter}
    (hpat : patWriter.psi.cc.toNat % 16 = (c 0x0000 + n) % 16)
    (hpmt : pmtWriter.psi.cc.toNat % 16 = (c 0x1001 + n') % 16) :
  Agrees { e with patWriter := patWriter, pmtWriter := pmtWriter }
    (Function.update (Function.update c 0x0000 (c 0x0000 + n)) 0x1001 (c 0x1001 + n'))
  := by
  obtain ⟨haudio, hvideo⟩ := hconsistent.pid_cases
  refine ⟨?_, ?_, (h.audio.update ?_ ?_ _).update ?_ ?_ _, (h.video.update ?_ ?_ _).update ?_ ?_ _⟩
  · rw [Function.update_of_ne (by decide), Function.update_self, hpat]
  · rw [Function.update_self, hpmt]
  · decide
  · intro hset
    have hpid := haudio hset
    omega
  · decide
  · intro hset
    have hpid := haudio hset
    omega
  · decide
  · intro hset
    have hpid := hvideo hset
    omega
  · decide
  · intro hset
    have hpid := hvideo hset
    omega

/-- The section of a map table has the streams. -/
theorem Sound.listsStreams (h : e.Sound) (hcomplete : e.Complete) {unit : List UInt8}
    (hunit : TableSection.ofUnit TsTool.crcMpeg2 unit =
      some ⟨0x02, 0x0001, e.pmtWriter.content⟩) :
  e.ListsStreams unit
  := by
  refine ⟨hcomplete, e.pmtWriter.content, e.pmtWriter.programs.map ProgramInfo.stream, hunit, ?_,
    ?_⟩
  · have hpid := (h.consistent.pid_lt hcomplete).2
    rw [parseMap_content, h.clock hcomplete.2, Nat.mod_eq_of_lt hpid]
  · rw [← h.consistent.map_currentPrograms hcomplete]
    exact h.current.programs.map _

/-- Both tables. -/
theorem shows_tables {unit unit' : List UInt8} (hpat : IsProgram unit)
    (hpmt : e.ListsStreams unit') :
  e.Shows [(0x0000, unit), (0x1001, unit')] []
  := by
  refine ⟨?_, ?_, rfl⟩
  · intro u hu hpid
    rcases List.mem_cons.mp hu with rfl | hu
    · exact hpat
    · rw [List.mem_singleton.mp hu] at hpid
      cases hpid
  · intro u hu hpid
    rcases List.mem_cons.mp hu with rfl | hu
    · cases hpid
    · rw [List.mem_singleton.mp hu]
      exact hpmt

/-- The tables are units, with the streams there are. -/
theorem continues_writePatPmt (h : e.Sound) (hagrees : e.Agrees c) {g g' : TsTool.Globals}
    (hg : g.Own) {calls : List WriterCall} (hwrite : e.writePatPmt g = some (e', g', calls)) :
  g'.Own ∧ e.SameStreams e' ∧ ∃ c', e.Continues e' c (WriterCall.pieces calls) [] c'
  := by
  obtain ⟨hconsistent, hown, hsame, hcases⟩ := writePatPmt_spec h.consistent hg hwrite
  refine ⟨hown, hsame, ?_⟩
  rw [writePatPmt] at hwrite
  split at hwrite
  · rename_i hset
    have hcomplete : e.Complete
      := by
      rw [Ne, Ne, ← h.consistent.audio.unset, ← h.consistent.video.unset] at hset
      exact hset
    obtain ⟨patCc, hpatWriter⟩ := h.consistent.pat
    obtain ⟨pmtCc, hpsi⟩ := h.consistent.pmt
    have hfits : e.pmtWriter.content.length ≤ 1012
      := by
      have hroom := h.current.fits
      omega
    have hpmtPid : e.pmtWriter.psi.pid.toNat = 0x1001 := by rw [hpsi]; rfl
    have hpatPid : e.patWriter.psi.pid.toNat = 0x0000 := by rw [hpatWriter]; rfl
    have hcontent : e.patWriter.content = [0x00, 0x01, 0xf0, 0x01]
      := by
      rw [hpatWriter]
      change BytesWriter.writeUint16T 0x0001 ++ BytesWriter.writeUint16T (0xe000 ||| 0x1001) = _
      decide
    have hroom : e.patWriter.content.length ≤ 1012
      := by
      rw [hcontent]
      decide
    obtain ⟨cc, pat, ts, unit, hpat, hts, hunit, hcc, htable⟩ :=
      isUnit_writeSection e.patWriter.psi (by omega) hg e.patWriter.transportStreamId hroom
    obtain ⟨cc', pmt, ts', unit', hpmt, hts', hunit', hcc', htable'⟩ :=
      isUnit_writeSection e.pmtWriter.psi (by omega) TsTool.Globals.own_initialized 0x0001 hfits
    rw [PatWriter.writePat, hpat] at hwrite
    change (e.pmtWriter.writePmt TsTool.Checksum.crc32.initialized).bind _ = _ at hwrite
    rw [PmtWriter.writePmt, if_pos (by rw [kSectionMaxSize]; omega), hpmt] at hwrite
    cases hwrite
    -- both tables are units, and the one does not count for the other
    rw [hpatPid] at hunit
    rw [hpmtPid] at hunit'
    have hpatUnit := hunit.congr hagrees.pat.symm
    have hpmtUnit : IsUnit 0x1001 (Function.update c 0x0000 (c 0x0000 + ts.length) 0x1001) unit' ts'
      := by
      rw [Function.update_of_ne (by decide)]
      exact hunit'.congr hagrees.pmt.symm
    have hmultiplex := hpatUnit.multiplex.append hpmtUnit.multiplex
    rw [Function.update_of_ne (by decide : (0x1001 : Nat) ≠ 0x0000)] at hmultiplex
    have hcounted : cc.toNat % 16 = (c 0x0000 + ts.length) % 16 ∧
        cc'.toNat % 16 = (c 0x1001 + ts'.length) % 16
      := by
      have hpatCount := hagrees.pat
      have hpmtCount := hagrees.pmt
      omega
    have hprogram : IsProgram unit
      := by
      rw [hcontent, hpatWriter] at htable
      exact ⟨_, htable, by decide⟩
    have hlists : e.ListsStreams unit'
      := by
      rw [hpsi] at htable'
      exact h.listsStreams hcomplete htable'
    refine ⟨_, ⟨_, ⟨ts ++ ts', ?_, hmultiplex⟩,
      (shows_tables hprogram hlists).mono fun _ => hsame⟩, ⟨hconsistent, ?_, h.clock⟩,
      hagrees.tables h.consistent _ _ hcounted.1 hcounted.2, fun _ => hsame⟩
    · rw [WriterCall.pieces_append]
      exact (reads_writes hts).append (reads_writes hts')
    · exact ⟨h.current.programs, h.current.fits⟩
  · cases hwrite
    exact ⟨c, .refl h hagrees⟩

/-! ### Streams -/

/-- A table with few entries fits. -/
theorem pmtCurrent_of_perm (h : e.pmtWriter.programs.Perm e.currentPrograms) :
  e.PmtCurrent
  := by
  have hfew := e.length_currentPrograms
  refine ⟨h, ?_⟩
  rw [PmtWriter.length_content, h.length_eq]
  omega

/-- The stream of audio is set. -/
theorem Sound.withAudio (h : e.Sound) (hagrees : e.Agrees c) {type : TsStreamType} {pid : UInt16}
    (hcodec : type = .reserved ∨ type = .audioAAC ∧ pid = 0x101 ∨
      type = .audioMp3 ∧ pid = 0x102)
    (hkeeps : type ≠ .reserved ∧ type ≠ e.audioType → e.audioType = .reserved) :
  (e.withAudio type pid).Sound ∧ (e.withAudio type pid).Agrees c
  := by
  rw [TsEncoder.withAudio]
  split
  next hnew =>
    have hunset := hkeeps hnew
    have hset := hcodec.resolve_left hnew.1
    have hprograms := h.current.programs
    rw [currentPrograms, audioPrograms, if_pos hunset, List.nil_append] at hprograms
    refine ⟨⟨h.consistent.changeAudio hset, pmtCurrent_of_perm ?_, h.clock⟩, hagrees.pat,
      hagrees.pmt, ?_, hagrees.video⟩
    · change List.Perm (e.pmtWriter.programs ++ [ProgramInfo.mk type.code pid])
        ((if type = .reserved then [] else [ProgramInfo.mk type.code pid]) ++ e.videoPrograms)
      rw [if_neg hnew.1]
      exact (hprograms.append_right _).trans List.perm_append_comm
    · have hcounts := hagrees.audio
      rw [hunset] at hcounts
      apply hcounts.setType hnew.1
      rcases hset with ⟨-, rfl⟩ | ⟨-, rfl⟩
      · exact List.mem_cons_self
      · exact List.mem_cons_of_mem _ List.mem_cons_self
  next => exact ⟨h, hagrees⟩

/-- The stream of video is set. -/
theorem Sound.withVideo (h : e.Sound) (hagrees : e.Agrees c) {type : TsStreamType} {pid : UInt16}
    (hcodec : type = .reserved ∨ type = .videoH264 ∧ pid = 0x100)
    (hkeeps : type ≠ .reserved ∧ type ≠ e.videoType → e.videoType = .reserved) :
  (e.withVideo type pid).Sound ∧ (e.withVideo type pid).Agrees c
  := by
  rw [TsEncoder.withVideo]
  split
  next hnew =>
    have hunset := hkeeps hnew
    have hset := hcodec.resolve_left hnew.1
    have hprograms := h.current.programs
    rw [currentPrograms, videoPrograms, if_pos hunset, List.append_nil] at hprograms
    refine ⟨⟨h.consistent.changeVideo hset, pmtCurrent_of_perm ?_, fun _ => rfl⟩, hagrees.pat,
      hagrees.pmt, hagrees.audio, ?_⟩
    · change List.Perm (e.pmtWriter.programs ++ [ProgramInfo.mk type.code pid])
        (e.audioPrograms ++ if type = .reserved then [] else [ProgramInfo.mk type.code pid])
      rw [if_neg hnew.1]
      exact hprograms.append_right _
    · have hcounts := hagrees.video
      rw [hunset] at hcounts
      apply hcounts.setType hnew.1
      obtain ⟨-, rfl⟩ := hset
      exact List.mem_singleton_self _
  next => exact ⟨h, hagrees⟩

/-- The streams that are set are in the tables, if audio keeps its type. -/
theorem continues_setStreamType (h : e.Sound) (hagrees : e.Agrees c) {g g' : TsTool.Globals}
    (hg : g.Own) {vc ac : UInt8} (hkeeps : e.KeepsAudio ac) {calls : List WriterCall}
    (hset : e.setStreamType g vc ac = some (e', g', calls)) :
  g'.Own ∧ ∃ c', e.Continues e' c (WriterCall.pieces calls) [] c'
  := by
  obtain ⟨atype, p, vtype, q, hatype, hvtype, hacodec, hvcodec, hresult⟩ :=
    setStreamType_eq h.consistent.pids g vc ac
  have haudio : atype ≠ .reserved ∧ atype ≠ e.audioType → e.audioType = .reserved
    := by
    rw [← hatype]
    exact hkeeps
  have hvideo : vtype ≠ .reserved ∧ vtype ≠ e.videoType → e.videoType = .reserved
    := by
    rw [← hvtype]
    exact h.consistent.pids.unset_of_newVideo
  rw [hset] at hresult
  split at hresult
  · rename_i hnew
    have hincomplete : ¬ e.Complete
      := by
      rintro ⟨haudioSet, hvideoSet⟩
      rcases hnew with hnew | hnew
      · exact haudioSet (haudio hnew)
      · exact hvideoSet (hvideo hnew)
    obtain ⟨hsound, hcounts⟩ := h.withAudio hagrees hacodec haudio
    obtain ⟨hsound', hcounts'⟩ := hsound.withVideo hcounts hvcodec
      (by rw [videoType_withAudio]; exact hvideo)
    obtain ⟨hown, -, c', hcontinues⟩ := continues_writePatPmt hsound' hcounts' hg hresult.symm
    exact ⟨hown, c', hcontinues.carries, hcontinues.sound, hcontinues.agrees,
      fun hcomplete => absurd hcomplete hincomplete⟩
  · cases hresult
    exact ⟨hg, c, .refl h hagrees⟩

/-! ### Frames of streams -/

/-- A frame goes on with the packets of its stream. -/
theorem carriesUnits_of_writesFrame {pes pes' : PesWriter} {frame : Option PesFrame}
    {calls : List WriterCall} (h : WritesFrame pes pes' frame calls) {type : TsStreamType}
    {pid : UInt16} {pids : List Nat} (hcounts : PidCounts c type pid pes.cc pids)
    (hpid : type ≠ .reserved → pes.pid = pid ∧ pid.toNat < 8192)
    (hset : frame.isSome → type ≠ .reserved) :
  ∃ c', (c' = c ∨ type ≠ .reserved ∧ ∃ n, c' = Function.update c pid.toNat n) ∧
    PidCounts c' type pid pes'.cc pids ∧ pes'.pid = pes.pid ∧
    CarriesUnits c (WriterCall.pieces calls) (frame.toList.map fun f => (f.pid, f.bytes)) c' ∧
    ∀ f ∈ frame, f.pid = pid.toNat
  := by
  cases h with
  | none hnone =>
      refine ⟨c, .inl rfl, hcounts, rfl, ?_, ?_⟩
      · rw [hnone]
        exact carriesUnits_nil c
      · intro f hf
        cases hf
  | @some _ frame _ hsame hframe hwrites =>
      have htype := hset rfl
      obtain ⟨rfl, hlt⟩ := hpid htype
      obtain ⟨ts, hreads, hunit, hcc⟩ := hwrites hlt
      have hcounted := hunit.congr (hcounts.set htype).symm
      rw [hframe] at hcounted
      refine ⟨_, .inr ⟨htype, _, rfl⟩, hcounts.write htype hcc, hsame, ⟨ts, hreads, ?_⟩, ?_⟩
      · rw [Option.toList_some, List.map_singleton, hframe]
        exact hcounted.multiplex
      · rintro f ⟨⟩
        exact hframe

/-- One frame, or none. -/
theorem shows_frame {frame : Option PesFrame} (h : ∀ f ∈ frame, f.pid ≠ 0x0000 ∧ f.pid ≠ 0x1001) :
  e.Shows (frame.toList.map fun f => (f.pid, f.bytes)) frame.toList
  := by
  have hunits : ∀ u ∈ frame.toList.map fun f => (f.pid, f.bytes), u.1 ≠ 0x0000 ∧ u.1 ≠ 0x1001
    := by
    intro u hu
    obtain ⟨f, hf, rfl⟩ := List.mem_map.mp hu
    exact h f (Option.mem_toList.mp hf)
  refine ⟨fun u hu hpid => absurd hpid (hunits u hu).1,
    fun u hu hpid => absurd hpid (hunits u hu).2, ?_⟩
  apply List.filter_eq_self.mpr
  intro u hu
  exact decide_eq_true (hunits u hu)

/-- If a frame is written of a packet, its stream is set. -/
def StreamSet (e : TsEncoder) (data : Packet ε) : Prop :=
  (e.pesCodec data).isSome → (if data.isAudio then e.audioType else e.videoType) ≠ .reserved

instance (e : TsEncoder) (data : Packet ε) : Decidable (e.StreamSet data) :=
  inferInstanceAs (Decidable (_ → _ ≠ _))

theorem isSome_pesCodec {writer : StreamWriter} {data : Packet ε} {dts : Int}
    (h : (e.frame writer data dts).isSome) :
  (e.pesCodec data).isSome
  := by
  rw [frame] at h
  rw [pesCodec]
  split at h
  · rename_i haudio
    rw [if_pos haudio]
    exact AudioEncoder.isSome_pesCodec h
  · rename_i haudio
    rw [if_neg haudio]
    split at h
    · rename_i hvideo
      rw [if_pos hvideo]
      exact VideoEncoder.isSome_pesCodec h
    · cases h

/-- A unit of a stream counts for it alone. -/
theorem Agrees.of_counts (h : e.Agrees c) {p : Nat} (hp : p ≠ 0x0000 ∧ p ≠ 0x1001)
    {n : Nat} {audio : AudioEncoder} {video : VideoEncoder}
    (haudio : PidCounts (Function.update c p n) e.audioType e.audioPid audio.pes.cc [0x101, 0x102])
    (hvideo : PidCounts (Function.update c p n) e.videoType e.videoPid video.pes.cc [0x100]) :
  Agrees { e with audioEncoder := audio, videoEncoder := video } (Function.update c p n)
  := by
  refine ⟨?_, ?_, haudio, hvideo⟩
  · rw [Function.update_of_ne hp.1.symm]
    exact h.pat
  · rw [Function.update_of_ne hp.2.symm]
    exact h.pmt

/-- The frame of a packet is a unit of its stream. -/
theorem continues_encode (h : e.Sound) (hagrees : e.Agrees c) {writer writer' : StreamWriter}
    {data : Packet ε} {dts ret : Int} {calls : List WriterCall} (hset : e.StreamSet data)
    (hencode : e.encode writer data dts = some (e', writer', calls, ret)) :
  ∃ c', e.Continues e' c (WriterCall.pieces calls) (e.frame writer data dts).toList c'
  := by
  obtain ⟨hconsistent, hsame, -⟩ := encode_spec h.consistent hencode
  obtain ⟨haudioPid, hvideoPid⟩ := h.consistent.pid_cases
  have hframe : (e.frame writer data dts).isSome →
      (if data.isAudio then e.audioType else e.videoType) ≠ .reserved
    := fun hsome => hset (isSome_pesCodec hsome)
  rw [frame] at hframe ⊢
  rw [encode] at hencode
  split at hencode
  · rename_i haudio
    rw [if_pos haudio, if_pos haudio] at hframe
    rw [if_pos haudio]
    split at hencode
    · rename_i audio calls' ret' hresult
      cases hencode
      have hthirteen : e.audioType ≠ .reserved →
          e.audioEncoder.pes.pid = e.audioPid ∧ e.audioPid.toNat < 8192
        := by
        intro htype
        refine ⟨h.consistent.audio.encoder htype, ?_⟩
        rcases haudioPid htype with hpid | hpid
        · omega
        · omega
      obtain ⟨c', hc', hcounts, -, hcarries, hpids⟩ := carriesUnits_of_writesFrame
        (AudioEncoder.encodeAudio_writesFrame hresult) hagrees.audio hthirteen hframe
      refine ⟨c', ⟨_, hcarries, shows_frame ?_⟩, ⟨hconsistent,
        ⟨h.current.programs, h.current.fits⟩, h.clock⟩, ?_, fun _ => hsame⟩
      · intro f hf
        rw [hpids f hf]
        have hpid := haudioPid (hframe (Option.isSome_iff_exists.mpr ⟨f, hf⟩))
        omega
      · rcases hc' with rfl | ⟨htype, n, rfl⟩
        · exact ⟨hagrees.pat, hagrees.pmt, hcounts, hagrees.video⟩
        · have hpid := haudioPid htype
          apply hagrees.of_counts (by omega) hcounts
          apply hagrees.video.update
          · rw [List.mem_singleton]
            omega
          · intro hvideoType
            have hother := hvideoPid hvideoType
            omega
    · cases hencode
  · rename_i haudio
    rw [if_neg haudio, if_neg haudio] at hframe
    rw [if_neg haudio]
    split at hencode
    · rename_i hvideo
      rw [if_pos hvideo] at hframe ⊢
      split at hencode
      · rename_i video writer₁ calls' ret' hresult
        cases hencode
        have hthirteen : e.videoType ≠ .reserved →
            e.videoEncoder.pes.pid = e.videoPid ∧ e.videoPid.toNat < 8192
          := by
          intro htype
          have hpid := hvideoPid htype
          exact ⟨h.consistent.video.encoder htype, by omega⟩
        obtain ⟨c', hc', hcounts, -, hcarries, hpids⟩ := carriesUnits_of_writesFrame
          (VideoEncoder.encodeVideo_writesFrame hresult) hagrees.video hthirteen hframe
        refine ⟨c', ⟨_, hcarries, shows_frame ?_⟩, ⟨hconsistent,
          ⟨h.current.programs, h.current.fits⟩, h.clock⟩, ?_, fun _ => hsame⟩
        · intro f hf
          rw [hpids f hf]
          have hpid := hvideoPid (hframe (Option.isSome_iff_exists.mpr ⟨f, hf⟩))
          omega
        · rcases hc' with rfl | ⟨htype, n, rfl⟩
          · exact ⟨hagrees.pat, hagrees.pmt, hagrees.audio, hcounts⟩
          · have hpid := hvideoPid htype
            apply hagrees.of_counts (by omega) _ hcounts
            apply hagrees.audio.update
            · rw [List.mem_cons, List.mem_singleton]
              omega
            · intro haudioType
              have hother := haudioPid haudioType
              omega
      · cases hencode
    · rename_i hvideo
      cases hencode
      rw [if_neg hvideo]
      exact ⟨c, .refl h hagrees⟩

end TsEncoder
