import Mathlib.Data.List.Perm.Basic
import Tmms.Library.Runs
import Tmms.Mpegts.TsStreams

/-!
# The streams of the map table

The map table should have one entry for each elementary stream that is set (`PmtCurrent`).  An
entry is added when a stream changes its type, and none is ever taken away.  So the table has the
streams that are set exactly as long as the audio stream, once it is set, keeps its type
(`pmtCurrent_iff_keepsAudio`).  Then a section always fits.
-/

open TransportStream

/-- An entry has five bytes. -/
theorem PmtWriter.length_content (w : PmtWriter) :
  w.content.length = 4 + 5 * w.programs.length
  := by
  have hentries : ∀ programs : List ProgramInfo,
      (programs.flatMap ProgramInfo.entry).length = 5 * programs.length
    := by
    intro programs
    induction programs with
    | nil => rfl
    | cons p programs ih =>
        rw [List.flatMap_cons, List.length_append, ih, List.length_cons, Nat.mul_succ,
          Nat.add_comm]
        rfl
  rw [content, List.length_append, hentries]
  rfl

/-- A section that fits is written. -/
theorem PSIWriter.writeSection_of_fits (w : PSIWriter) (g : TsTool.Globals) (id : UInt16)
    (secNum lastSecNum : UInt8) {buf : List UInt8} (h : buf.length + 3 + 5 + 4 ≤ 1024) :
  ∃ w' g' packets, w.writeSection g id secNum lastSecNum buf = some (w', g', packets)
  := by
  rw [writeSection, if_pos h]
  exact ⟨_, _, _, rfl⟩

namespace TsEncoder

/-- The entry of the stream of audio. -/
def audioProgram (e : TsEncoder) : ProgramInfo := ⟨e.audioType.code, e.audioPid⟩

/-- The entry of the stream of video. -/
def videoProgram (e : TsEncoder) : ProgramInfo := ⟨e.videoType.code, e.videoPid⟩

/-- The entry of the stream of audio, if it is set. -/
def audioPrograms (e : TsEncoder) : List ProgramInfo :=
  if e.audioType = .reserved then [] else [e.audioProgram]

/-- The entry of the stream of video, if it is set. -/
def videoPrograms (e : TsEncoder) : List ProgramInfo :=
  if e.videoType = .reserved then [] else [e.videoProgram]

/-- The entries of the streams that are set. -/
def currentPrograms (e : TsEncoder) : List ProgramInfo := e.audioPrograms ++ e.videoPrograms

/-- The map table has one entry for each stream that is set, and its section fits. -/
structure PmtCurrent (e : TsEncoder) : Prop where
  programs : e.pmtWriter.programs.Perm e.currentPrograms
  fits : e.pmtWriter.content.length + 3 + 5 + 4 ≤ 1024

/-- The stream of audio gets a type. -/
def NewAudio (e : TsEncoder) (ac : UInt8) : Prop :=
  (e.setAudioPid ac).2 ≠ .reserved ∧ (e.setAudioPid ac).2 ≠ e.audioType

/-- The stream of video gets a type. -/
def NewVideo (e : TsEncoder) (vc : UInt8) : Prop :=
  (e.setVideoPid vc).2 ≠ .reserved ∧ (e.setVideoPid vc).2 ≠ e.videoType

/-- The stream of audio gets a type only while it has none. -/
def KeepsAudio (e : TsEncoder) (ac : UInt8) : Prop := e.NewAudio ac → e.audioType = .reserved

instance (e : TsEncoder) (ac : UInt8) : Decidable (e.KeepsAudio ac) :=
  inferInstanceAs (Decidable ((e.setAudioPid ac).2 ≠ .reserved ∧
    (e.setAudioPid ac).2 ≠ e.audioType → e.audioType = .reserved))

/-- A call of `SetStreamType`, with a codec of video and one of audio. It has no result if a
section does not fit. -/
def setStreamTypeStep (s : Option (TsEncoder × TsTool.Globals)) (call : UInt8 × UInt8) :
    Option (TsEncoder × TsTool.Globals) :=
  match s with
  | some (e, g) => (e.setStreamType g call.1 call.2).map fun r => (r.1, r.2.1)
  | none => none

/-! ### One call -/

variable {e e' : TsEncoder}

/-- What a call adds to the programs: an entry if the stream gets a type, and else nothing. -/
structure Adds (entry : TsEncoder → ProgramInfo) (type : TsEncoder → TsStreamType)
    (e e₁ : TsEncoder) (new : Prop) (added : List ProgramInfo) : Prop where
  changes : new → added = [entry e₁] ∧ type e₁ ≠ .reserved
  keeps : ¬ new → added = [] ∧ entry e₁ = entry e ∧ type e₁ = type e

/-- What is new of audio is added. -/
theorem withAudio_adds (h : e.Pids) {type : TsStreamType} {pid : UInt16}
    (hcodec : type = .reserved ∨ type = .audioAAC ∧ pid = 0x101 ∨
      type = .audioMp3 ∧ pid = 0x102) :
  (e.withAudio type pid).Pids ∧ ∃ added,
    (e.withAudio type pid).pmtWriter.programs = e.pmtWriter.programs ++ added ∧
    Adds audioProgram audioType e (e.withAudio type pid) (type ≠ .reserved ∧ type ≠ e.audioType)
      added
  := by
  rw [TsEncoder.withAudio]
  split
  next hnew =>
    exact ⟨⟨.inr (hcodec.resolve_left hnew.1), h.video⟩, [⟨type.code, pid⟩], rfl,
      fun _ => ⟨rfl, hnew.1⟩, fun hnot => absurd hnew hnot⟩
  next hnot =>
    exact ⟨h, [], (List.append_nil _).symm, fun hnew => absurd hnew hnot,
      fun _ => ⟨rfl, rfl, rfl⟩⟩

/-- What is new of video is added, and nothing of audio changes. -/
theorem withVideo_adds (h : e.Pids) {type : TsStreamType} {pid : UInt16}
    (hcodec : type = .reserved ∨ type = .videoH264 ∧ pid = 0x100) :
  (e.withVideo type pid).Pids ∧ (e.withVideo type pid).audioProgram = e.audioProgram ∧
    (e.withVideo type pid).audioType = e.audioType ∧ ∃ added,
    (e.withVideo type pid).pmtWriter.programs = e.pmtWriter.programs ++ added ∧
    Adds videoProgram videoType e (e.withVideo type pid) (type ≠ .reserved ∧ type ≠ e.videoType)
      added
  := by
  rw [TsEncoder.withVideo]
  split
  next hnew =>
    exact ⟨⟨h.audio, .inr (hcodec.resolve_left hnew.1)⟩, rfl, rfl, [⟨type.code, pid⟩], rfl,
      fun _ => ⟨rfl, hnew.1⟩, fun hnot => absurd hnew hnot⟩
  next hnot =>
    exact ⟨h, rfl, rfl, [], (List.append_nil _).symm, fun hnew => absurd hnew hnot,
      fun _ => ⟨rfl, rfl, rfl⟩⟩

theorem videoProgram_withAudio (e : TsEncoder) (type : TsStreamType) (pid : UInt16) :
  (e.withAudio type pid).videoProgram = e.videoProgram
  := by
  rw [TsEncoder.withAudio]
  split
  · rfl
  · rfl

/-- The types that a call sets are those of the codecs. -/
theorem setStreamType_adds (h : e.Pids) (g : TsTool.Globals) (vc ac : UInt8) :
  ∃ e₁ audio video, e₁.Pids ∧
    e₁.pmtWriter.programs = e.pmtWriter.programs ++ (audio ++ video) ∧
    Adds audioProgram audioType e e₁ (e.NewAudio ac) audio ∧
    Adds videoProgram videoType e e₁ (e.NewVideo vc) video ∧
    (e.setStreamType g vc ac = some (e₁, g, []) ∨ e.setStreamType g vc ac = e₁.writePatPmt g)
  := by
  obtain ⟨atype, p, vtype, q, hatype, hvtype, hacodec, hvcodec, hset⟩ :=
    setStreamType_eq h g vc ac
  obtain ⟨hpids, audio, haudio, hadds⟩ := withAudio_adds h hacodec
  obtain ⟨hpids', hprogram, htype, video, hvideo, hadds'⟩ := withVideo_adds hpids hvcodec
  rw [videoType_withAudio] at hadds'
  rw [NewAudio, NewVideo, hatype, hvtype]
  refine ⟨(e.withAudio atype p).withVideo vtype q, audio, video, hpids', ?_, ?_, ?_, ?_⟩
  · rw [hvideo, haudio, List.append_assoc]
  · refine ⟨fun hnew => ?_, fun hnot => ?_⟩
    · rw [hprogram, htype]
      exact hadds.changes hnew
    · rw [hprogram, htype]
      exact hadds.keeps hnot
  · refine ⟨hadds'.changes, fun hnot => ?_⟩
    rw [← videoProgram_withAudio e atype p, ← videoType_withAudio e atype p]
    exact hadds'.keeps hnot
  · rw [hset]
    split
    next => exact .inr rfl
    next hnone =>
      obtain ⟨hnotAudio, hnotVideo⟩ := not_or.mp hnone
      left
      rw [TsEncoder.withVideo, videoType_withAudio, if_neg hnotVideo, TsEncoder.withAudio,
        if_neg hnotAudio]

/-- The tables are written if the section of the map table fits, and no stream changes. -/
theorem writePatPmt_of_fits (g : TsTool.Globals)
    (h : e.pmtWriter.content.length + 3 + 5 + 4 ≤ 1024) :
  ∃ e' g' calls, e.writePatPmt g = some (e', g', calls) ∧ e.SameStreams e' ∧
    e'.pmtWriter.programs = e.pmtWriter.programs
  := by
  rw [writePatPmt]
  split
  · obtain ⟨psi, g₁, pat, hpat⟩ := e.patWriter.psi.writeSection_of_fits g
      e.patWriter.transportStreamId 0 0
      (show e.patWriter.content.length + 3 + 5 + 4 ≤ 1024 from Nat.le_of_ble_eq_true rfl)
    obtain ⟨psi', g₂, pmt, hpmt⟩ := e.pmtWriter.psi.writeSection_of_fits g₁ 0x0001 0 0 h
    have hsize : e.pmtWriter.content.length ≤ kSectionMaxSize
      := by
      rw [kSectionMaxSize]
      omega
    rw [PatWriter.writePat, hpat]
    refine ⟨{ e with
        patWriter := { e.patWriter with psi := psi }
        pmtWriter := { e.pmtWriter with psi := psi' } }, g₂, writes none pat ++ writes none pmt, ?_,
      ⟨rfl, rfl, rfl, rfl⟩, rfl⟩
    change (e.pmtWriter.writePmt g₁).bind _ = _
    rw [PmtWriter.writePmt, if_pos hsize, hpmt]
    rfl
  · exact ⟨e, g, [], rfl, ⟨rfl, rfl, rfl, rfl⟩, rfl⟩

theorem length_currentPrograms (e : TsEncoder) :
  e.currentPrograms.length ≤ 2
  := by
  rw [currentPrograms, audioPrograms, videoPrograms, List.length_append]
  split
  · split
    · exact Nat.zero_le 2
    · exact Nat.le_of_ble_eq_true rfl
  · split
    · exact Nat.le_of_ble_eq_true rfl
    · exact Nat.le_refl 2

/-- The stream of video gets a type only while it has none. -/
theorem Pids.unset_of_newVideo (h : e.Pids) {vc : UInt8} (hnew : e.NewVideo vc) :
  e.videoType = .reserved
  := by
  obtain ⟨type, pid, hvideo, hcodec, -⟩ := h.setVideoPid vc e.audioPid
  obtain ⟨hset, hchanges⟩ := hnew
  have htype := (congrArg Prod.snd hvideo : (e.setVideoPid vc).2 = type)
  rw [htype] at hset hchanges
  rcases h.video with hunset | ⟨havc, -⟩
  · exact hunset
  · rw [havc] at hchanges
    exact absurd (hcodec.resolve_left hset).1 hchanges

/-- The entry of video is the one there was, or it is added. -/
theorem videoPrograms_of_adds (h : e.Pids) {e₁ : TsEncoder} {vc : UInt8}
    {video : List ProgramInfo} (hvideo : Adds videoProgram videoType e e₁ (e.NewVideo vc) video) :
  e₁.videoPrograms = e.videoPrograms ++ video
  := by
  rw [videoPrograms, videoPrograms]
  by_cases hnew : e.NewVideo vc
  · obtain ⟨rfl, hset⟩ := hvideo.changes hnew
    rw [if_neg hset, if_pos (h.unset_of_newVideo hnew), List.nil_append]
  · obtain ⟨rfl, hentry, htype⟩ := hvideo.keeps hnew
    rw [htype, hentry, List.append_nil]

/-- The added entries make the table right exactly if the type of audio is not replaced. -/
theorem programs_perm_iff (h : e.Pids) (hprograms : e.pmtWriter.programs.Perm e.currentPrograms)
    {e₁ : TsEncoder} {vc ac : UInt8} {audio video : List ProgramInfo}
    (hadded : e₁.pmtWriter.programs = e.pmtWriter.programs ++ (audio ++ video))
    (haudio : Adds audioProgram audioType e e₁ (e.NewAudio ac) audio)
    (hvideo : Adds videoProgram videoType e e₁ (e.NewVideo vc) video) :
  e₁.pmtWriter.programs.Perm e₁.currentPrograms ↔ e.KeepsAudio ac
  := by
  have hall : e₁.pmtWriter.programs.Perm (e.audioPrograms ++ (audio ++ e₁.videoPrograms))
    := by
    rw [hadded, videoPrograms_of_adds h hvideo]
    apply (hprograms.append_right _).trans
    rw [currentPrograms, List.append_assoc]
    apply List.Perm.append_left
    rw [← List.append_assoc, ← List.append_assoc]
    exact List.perm_append_comm.append_right _
  rw [currentPrograms, KeepsAudio]
  by_cases hnew : e.NewAudio ac
  · obtain ⟨rfl, hset⟩ := haudio.changes hnew
    have hone : e₁.audioPrograms = [e₁.audioProgram] := if_neg hset
    rw [forall_prop_of_true hnew, hone]
    constructor
    · intro hperm
      have hlength := (hall.symm.trans hperm).length_eq
      rw [List.length_append] at hlength
      by_contra hunset
      rw [audioPrograms, if_neg hunset, List.length_singleton] at hlength
      omega
    · intro hunset
      rwa [audioPrograms, if_pos hunset, List.nil_append] at hall
  · obtain ⟨rfl, hentry, htype⟩ := haudio.keeps hnew
    have hsame : e₁.audioPrograms = e.audioPrograms
      := by rw [audioPrograms, audioPrograms, htype, hentry]
    rw [hsame]
    exact iff_of_true hall fun hnot => absurd hnot hnew

/-- A list of programs is added to by at most one entry. -/
theorem Adds.length_le {entry : TsEncoder → ProgramInfo} {type : TsEncoder → TsStreamType}
    {e₁ : TsEncoder} {new : Prop} {added : List ProgramInfo} (h : Adds entry type e e₁ new added) :
  added.length ≤ 1
  := by
  by_cases hnew : new
  · rw [(h.changes hnew).1]
    exact Nat.le_refl 1
  · rw [(h.keeps hnew).1]
    exact Nat.zero_le 1

/-- After a call the map table is right again exactly if the type of audio is not replaced. -/
theorem pmtCurrent_setStreamType (h : e.Pids) (hcurrent : e.PmtCurrent) (g : TsTool.Globals)
    (vc ac : UInt8) :
  ∃ e' g' calls, e.setStreamType g vc ac = some (e', g', calls) ∧ e'.Pids ∧
    (e'.PmtCurrent ↔ e.KeepsAudio ac)
  := by
  obtain ⟨e₁, audio, video, hpids, hadded, haudio, hvideo, hresult⟩ :=
    setStreamType_adds h g vc ac
  have hperm := programs_perm_iff h hcurrent.programs hadded haudio hvideo
  have hfits : e₁.pmtWriter.content.length + 3 + 5 + 4 ≤ 1024
    := by
    have hfew := e.length_currentPrograms
    have ha := haudio.length_le
    have hv := hvideo.length_le
    rw [PmtWriter.length_content, hadded, List.length_append, List.length_append,
      hcurrent.programs.length_eq]
    omega
  rcases hresult with hdone | hwrite
  · exact ⟨e₁, g, [], hdone, hpids, ⟨fun hright => hperm.mp hright.programs,
      fun hkeeps => ⟨hperm.mpr hkeeps, hfits⟩⟩⟩
  · obtain ⟨e', g', calls, htables, hstreams, hsame⟩ := writePatPmt_of_fits g hfits
    have hprograms : e'.currentPrograms = e₁.currentPrograms
      := by
      rw [currentPrograms, currentPrograms, audioPrograms, audioPrograms, videoPrograms,
        videoPrograms, audioProgram, audioProgram, videoProgram, videoProgram,
        hstreams.audioType, hstreams.videoType, hstreams.audioPid, hstreams.videoPid]
    refine ⟨e', g', calls, hwrite.trans htables, ⟨?_, ?_⟩, ?_⟩
    · rw [hstreams.audioType, hstreams.audioPid]
      exact hpids.audio
    · rw [hstreams.videoType, hstreams.videoPid]
      exact hpids.video
    · rw [← hperm]
      constructor
      · intro hright
        have hprogramsPerm := hright.programs
        rwa [hsame, hprograms] at hprogramsPerm
      · intro hright
        refine ⟨?_, ?_⟩
        · rwa [hsame, hprograms]
        · rw [PmtWriter.length_content, hsame, ← PmtWriter.length_content]
          exact hfits

open Runs

/-- The state is that of a map table that is right. -/
def PmtRight (s : Option (TsEncoder × TsTool.Globals)) : Prop := ∃ p, s = some p ∧ p.1.PmtCurrent

/-- In any sequence of calls the map table describes the streams and its section fits throughout,
exactly if the stream of audio keeps the type that it gets first. -/
theorem pmtCurrent_iff_keepsAudio (g : TsTool.Globals) (calls : List (UInt8 × UInt8)) :
  Throughout setStreamTypeStep PmtRight (some ({}, g)) calls ↔
    Steps setStreamTypeStep (fun s call => ∀ p ∈ s, p.1.KeepsAudio call.2) (some ({}, g)) calls
  := by
  apply throughout_iff_steps (I := fun s => ∀ p ∈ s, p.1.Pids) steps_true
  · intro p hp
    obtain rfl := Option.some.inj hp
    exact ⟨.inl rfl, .inl rfl⟩
  · exact ⟨({}, g), rfl, List.Perm.refl _, Nat.le_of_ble_eq_true rfl⟩
  · rintro s ⟨vc, ac⟩ hpids ⟨⟨e, g⟩, rfl, hcurrent⟩ -
    obtain ⟨e', g', written, hresult, hpids', hiff⟩ :=
      pmtCurrent_setStreamType (hpids (e, g) rfl) hcurrent g vc ac
    have hstep : setStreamTypeStep (some (e, g)) (vc, ac) = some (e', g')
      := by
      rw [setStreamTypeStep]
      dsimp only
      rw [hresult]
      rfl
    rw [hstep]
    constructor
    · intro p hp
      obtain rfl := Option.some.inj hp
      exact hpids'
    · constructor
      · rintro ⟨p, hp, hright⟩ q hq
        obtain rfl := Option.some.inj hp
        obtain rfl := Option.some.inj hq
        exact hiff.mp hright
      · intro hkeeps
        exact ⟨(e', g'), rfl, hiff.mpr (hkeeps (e, g) rfl)⟩

/-- The codec of audio changes from AAC to MP3 and back. -/
theorem not_pmtCurrent_changes :
  ¬ ∀ (g : TsTool.Globals) (calls : List (UInt8 × UInt8)),
      Throughout setStreamTypeStep PmtRight (some ({}, g)) calls
  := by
  intro h
  have hsteps := (pmtCurrent_iff_keepsAudio {} [(0, 10), (7, 0), (0, 2), (0, 10)]).mp (h _ _)
  revert hsteps
  decide +kernel

end TsEncoder
