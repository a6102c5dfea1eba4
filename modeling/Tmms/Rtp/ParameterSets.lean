import Tmms.Rtp.AccessUnits

/-!
# Parameter sets of players

`EncodeVideo` sends the parameter sets once, in front of the first key picture that has none itself,
and remembers that with `sent_sps_pps_`, which is never taken back.  So those of a later sequence
header are only sent where the units of a key picture have them.

Beside the sender stands what its player was sent: the parameter sets of the latest sequence header,
the last ones sent, and whether those of the header are among what was sent since it came.
-/

open VideoSender

/-- What is known of the parameter sets of a player. -/
structure Sets where
  /-- The sets of the latest sequence header. -/
  sps : List UInt8 := []
  pps : List UInt8 := []
  /-- The sets that were sent last. -/
  lastSps : Option (List UInt8) := none
  lastPps : Option (List UInt8) := none
  /-- The set of the header was sent since, or was the last one when it came. -/
  sentSps : Bool := true
  sentPps : Bool := true
  deriving DecidableEq, Repr

namespace Sets

/-- A sequence header comes.  Its sets are to be sent if one of them is not the last one sent. -/
def announce (s : Sets) (sps pps : List UInt8) : Sets :=
  let same : Bool :=
    (sps = [] ∨ s.lastSps = some sps) ∧ (pps = [] ∨ s.lastPps = some pps)
  { s with
    sps := sps
    pps := pps
    sentSps := same || sps.isEmpty
    sentPps := same || pps.isEmpty }

def sendSps (s : Sets) (sps : List UInt8) : Sets :=
  { s with
    lastSps := if sps = [] then s.lastSps else some sps
    sentSps := s.sentSps || sps == s.sps }

def sendPps (s : Sets) (pps : List UInt8) : Sets :=
  { s with
    lastPps := if pps = [] then s.lastPps else some pps
    sentPps := s.sentPps || pps == s.pps }

/-- A unit is sent. -/
def send (s : Sets) (unit : List UInt8) : Sets :=
  match NaluType.ofByte (unit.getD 0 0) with
  | .sps => s.sendSps unit
  | .pps => s.sendPps unit
  | _ => s

/-- A frame is sent, behind the parameter sets if they are inserted. -/
def sendFrame (s : Sets) (m : RtpMuxer) (frame : VideoFrame) : Sets :=
  let s := if inserts m frame then (s.sendSps frame.sps).sendPps frame.pps else s
  frame.samples.foldl send s

/-- A set of the header is not known to have been sent. -/
def Owed (s : Sets) : Prop := ¬ (s.sentSps = true ∧ s.sentPps = true)

end Sets

/-- A sender, and what is known of its player. -/
structure InformedSender where
  sender : VideoSender
  sets : Sets := {}

namespace InformedSender

/-- The demuxer takes parameter sets from a sequence header, maybe those that it has. -/
def Takes (data : List UInt8) (d d' : VideoDemux) (ret : Int) : Prop :=
  VideoDemux.IsSequenceHeader data ∧ ¬ (ret = -1 ∧ d.SameSets d')

instance (data : List UInt8) (d d' : VideoDemux) (ret : Int) : Decidable (Takes data d d' ret) :=
  inferInstanceAs (Decidable (_ ∧ ¬ (_ ∧ _ ∧ _)))

/-- What a sequence header makes known. -/
def announced (s : InformedSender) (call : VideoCall) : Sets :=
  match (reset s.sender.videoDemux).onDemux call.data with
  | some (d, _, ret) =>
      if Takes call.data s.sender.videoDemux d ret then s.sets.announce d.sps d.pps else s.sets
  | none => s.sets

/-- A call. -/
def step (s : InformedSender) (call : VideoCall) : InformedSender where
  sender := s.sender.afterCall call
  sets :=
    match s.sender.frame call with
    | some frame => (s.announced call).sendFrame s.sender.rtp frame
    | none => s.announced call

/-- A call that sends a key picture leaves no parameter set of the latest header unsent. -/
def InForce (s : InformedSender) (call : VideoCall) : Prop :=
  ∀ frame, s.sender.frame call = some frame → frame.hasIdr = true → ¬ (s.step call).sets.Owed

/-- The units of a frame have the parameter sets that were not sent. -/
def Carries (sets : Sets) (frame : VideoFrame) : Prop :=
  (sets.sentSps = true ∨
      ∃ unit ∈ frame.samples, NaluType.ofByte (unit.getD 0 0) = .sps ∧ unit = sets.sps) ∧
    (sets.sentPps = true ∨
      ∃ unit ∈ frame.samples, NaluType.ofByte (unit.getD 0 0) = .pps ∧ unit = sets.pps)

/-- A key picture that comes while parameter sets of the latest header are not sent has them in its
units, or it has none and `sent_sps_pps_` is not set. -/
def Meets (s : InformedSender) (call : VideoCall) : Prop :=
  ∀ frame, s.sender.frame call = some frame → frame.hasIdr = true → s.sets.Owed →
    Carries s.sets frame ∨ (frame.hasSpsPps = false ∧ s.sender.rtp.sentSpsPps = false)

/-- The demuxer has the sets of the latest header, and one that is not there is not to be sent. -/
structure Inv (s : InformedSender) : Prop where
  sps : s.sender.videoDemux.sps = s.sets.sps
  pps : s.sender.videoDemux.pps = s.sets.pps
  noSps : s.sets.sps = [] → s.sets.sentSps = true
  noPps : s.sets.pps = [] → s.sets.sentPps = true

end InformedSender

/-! ### What is sent -/

namespace Sets

theorem send_cases (s : Sets) (unit : List UInt8) :
  (s.send unit).sps = s.sps ∧ (s.send unit).pps = s.pps ∧
    ((s.send unit).sentSps = true ↔ s.sentSps = true ∨
      NaluType.ofByte (unit.getD 0 0) = .sps ∧ unit = s.sps) ∧
    ((s.send unit).sentPps = true ↔ s.sentPps = true ∨
      NaluType.ofByte (unit.getD 0 0) = .pps ∧ unit = s.pps)
  := by
  rw [send]
  cases NaluType.ofByte (unit.getD 0 0) with
  | sps => simp [sendSps]
  | pps => simp [sendPps]
  | idr => simp
  | accessUnitDelimiter => simp
  | other => simp

/-- The units of a frame. -/
theorem sendAll_cases (s : Sets) (units : List (List UInt8)) :
  (units.foldl send s).sps = s.sps ∧ (units.foldl send s).pps = s.pps ∧
    ((units.foldl send s).sentSps = true ↔ s.sentSps = true ∨
      ∃ unit ∈ units, NaluType.ofByte (unit.getD 0 0) = .sps ∧ unit = s.sps) ∧
    ((units.foldl send s).sentPps = true ↔ s.sentPps = true ∨
      ∃ unit ∈ units, NaluType.ofByte (unit.getD 0 0) = .pps ∧ unit = s.pps)
  := by
  induction units generalizing s with
  | nil => simp
  | cons unit units ih =>
      obtain ⟨hsps, hpps, hsentSps, hsentPps⟩ := s.send_cases unit
      obtain ⟨hsps', hpps', hsentSps', hsentPps'⟩ := ih (s.send unit)
      rw [List.foldl_cons, hsps', hpps', hsentSps', hsentPps', hsentSps, hsentPps, hsps, hpps]
      refine ⟨rfl, rfl, ?_, ?_⟩
      · rw [List.exists_mem_cons_iff, or_assoc]
      · rw [List.exists_mem_cons_iff, or_assoc]

/-- A frame leaves the parameter sets of the header sent exactly if they were, or are inserted, or are
among its units. -/
theorem sendFrame_cases (s : Sets) (m : RtpMuxer) (frame : VideoFrame) :
  (s.sendFrame m frame).sps = s.sps ∧ (s.sendFrame m frame).pps = s.pps ∧
    ((s.sendFrame m frame).sentSps = true ↔ s.sentSps = true ∨ inserts m frame ∧ frame.sps = s.sps ∨
      ∃ unit ∈ frame.samples, NaluType.ofByte (unit.getD 0 0) = .sps ∧ unit = s.sps) ∧
    ((s.sendFrame m frame).sentPps = true ↔ s.sentPps = true ∨ inserts m frame ∧ frame.pps = s.pps ∨
      ∃ unit ∈ frame.samples, NaluType.ofByte (unit.getD 0 0) = .pps ∧ unit = s.pps)
  := by
  rw [sendFrame]
  by_cases hinserts : inserts m frame
  · rw [if_pos hinserts]
    obtain ⟨hsps, hpps, hsentSps, hsentPps⟩ :=
      ((s.sendSps frame.sps).sendPps frame.pps).sendAll_cases frame.samples
    rw [hsps, hpps, hsentSps, hsentPps]
    simp only [sendSps, sendPps, Bool.or_eq_true, beq_iff_eq, hinserts, true_and, or_assoc, and_self]
  · rw [if_neg hinserts]
    obtain ⟨hsps, hpps, hsentSps, hsentPps⟩ := s.sendAll_cases frame.samples
    rw [hsps, hpps, hsentSps, hsentPps]
    simp only [hinserts, false_and, false_or, and_self]

end Sets

/-! ### The demuxer -/

namespace VideoSender

variable {m : VideoSender} {call : VideoCall}

theorem videoDemux_afterCall {d : VideoDemux} {list : List SampleBuf} {ret : Int}
    (h : (reset m.videoDemux).onDemux call.data = some (d, list, ret)) :
  (m.afterCall call).videoDemux = d
  := by
  rw [afterCall, VideoSender.encodeVideo, h]
  dsimp only
  by_cases herror : ret = -1
  · rw [if_pos herror]
  · rw [if_neg herror]
    by_cases hheader : isCodecHeader call.data = true
    · rw [if_pos hheader]
    · rw [if_neg hheader]
      by_cases hbframe : d.hasBFrame = true
      · rw [if_pos hbframe]
      · rw [if_neg hbframe]

theorem afterCall_of_none (h : (reset m.videoDemux).onDemux call.data = none) :
  m.afterCall call = m
  := by
  rw [afterCall, VideoSender.encodeVideo, h]

/-- A frame is not found in a sequence header. -/
theorem not_sequenceHeader_of_frame {frame : VideoFrame} (h : m.frame call = some frame) :
  ¬ VideoDemux.IsSequenceHeader call.data ∧
    ∃ d list ret, (reset m.videoDemux).onDemux call.data = some (d, list, ret) ∧ frame = frameOf d list
  := by
  rw [VideoSender.frame] at h
  cases hdemux : (reset m.videoDemux).onDemux call.data with
  | none =>
      rw [hdemux] at h
      cases h
  | some found =>
      obtain ⟨d, list, ret⟩ := found
      rw [hdemux] at h
      dsimp only at h
      split at h
      · cases h
      · rename_i hsent
        cases h
        refine ⟨?_, d, list, ret, rfl, rfl⟩
        intro hheader
        have hlength := VideoDemux.length_of_sequenceHeader hheader hdemux
        apply hsent
        right
        left
        rw [isCodecHeader, hheader.2.2, Bool.and_eq_true]
        exact ⟨decide_eq_true (by omega), rfl⟩

end VideoSender

/-! ### Calls -/

namespace Sets

/-- A sequence header owes only parameter sets that are there. -/
theorem announce_empty (s : Sets) (sps pps : List UInt8) :
  (sps = [] → (s.announce sps pps).sentSps = true) ∧
    (pps = [] → (s.announce sps pps).sentPps = true)
  := by
  rw [announce]
  constructor
  · rintro rfl
    exact Bool.or_true _
  · rintro rfl
    exact Bool.or_true _

end Sets

namespace InformedSender

variable {s : InformedSender} {call : VideoCall}

/-- The parameter sets of the demuxer behind a call are those that were made known last. -/
theorem Inv.announced (hI : s.Inv) (call : VideoCall) :
  Inv ⟨s.sender.afterCall call, s.announced call⟩
  := by
  rw [InformedSender.announced]
  cases hdemux : (reset s.sender.videoDemux).onDemux call.data with
  | none =>
      rw [afterCall_of_none hdemux]
      exact hI
  | some found =>
      obtain ⟨d, list, ret⟩ := found
      have hbehind := videoDemux_afterCall hdemux
      dsimp only
      by_cases htakes : Takes call.data s.sender.videoDemux d ret
      · rw [if_pos htakes]
        obtain ⟨hsps, hpps⟩ := s.sets.announce_empty d.sps d.pps
        exact ⟨congrArg VideoDemux.sps hbehind, congrArg VideoDemux.pps hbehind, hsps, hpps⟩
      · rw [if_neg htakes]
        -- a header that is not taken leaves the parameter sets, as everything else does
        have hsame : s.sender.videoDemux.SameSets d := by
          by_cases hheader : VideoDemux.IsSequenceHeader call.data
          · by_contra hnot
            exact htakes ⟨hheader, fun h => hnot h.2⟩
          · exact (VideoDemux.onDemux_sets hdemux).1 hheader
        refine ⟨?_, ?_, hI.noSps, hI.noPps⟩
        · rw [hbehind]
          exact hsame.1.trans hI.sps
        · rw [hbehind]
          exact hsame.2.trans hI.pps

theorem Inv.step (hI : s.Inv) (call : VideoCall) :
  (s.step call).Inv
  := by
  have hannounced := hI.announced call
  cases hframe : s.sender.frame call with
  | none =>
      rw [InformedSender.step, hframe]
      exact hannounced
  | some frame =>
      obtain ⟨hsps, hpps, hsentSps, hsentPps⟩ := (s.announced call).sendFrame_cases s.sender.rtp frame
      rw [InformedSender.step, hframe]
      refine ⟨hannounced.sps.trans hsps.symm, hannounced.pps.trans hpps.symm, ?_, ?_⟩
      · intro hnil
        exact hsentSps.mpr (.inl (hannounced.noSps (hsps.symm.trans hnil)))
      · intro hnil
        exact hsentPps.mpr (.inl (hannounced.noPps (hpps.symm.trans hnil)))

/-- A call leaves no parameter set unsent exactly if its key picture has those that were, or they
are inserted. -/
theorem inForce_iff_meets (hI : s.Inv) :
  s.InForce call ↔ s.Meets call
  := by
  apply forall_congr'
  intro frame
  apply forall_congr'
  intro hframe
  apply forall_congr'
  intro hidr
  obtain ⟨hheader, d, list, ret, hdemux, rfl⟩ := not_sequenceHeader_of_frame hframe
  have hannounced : s.announced call = s.sets := by
    rw [InformedSender.announced, hdemux]
    dsimp only
    rw [if_neg (fun htakes => hheader htakes.1)]
  obtain ⟨-, -, hsentSps, hsentPps⟩ := s.sets.sendFrame_cases s.sender.rtp (frameOf d list)
  obtain ⟨hdsps, hdpps⟩ := (VideoDemux.onDemux_sets hdemux).1 hheader
  -- what is inserted is what was made known last
  have hsps : (frameOf d list).sps = s.sets.sps := hdsps.trans hI.sps
  have hpps : (frameOf d list).pps = s.sets.pps := hdpps.trans hI.pps
  rw [InformedSender.step, hframe, hannounced]
  dsimp only
  rw [Sets.Owed, not_not, hsentSps, hsentPps, and_iff_left hsps, and_iff_left hpps, or_left_comm,
    or_left_comm (a := s.sets.sentPps = true), ← or_and_left]
  change inserts s.sender.rtp (frameOf d list) ∨ Carries s.sets (frameOf d list) ↔ _
  constructor
  · rintro (hinserts | hcarries) -
    · exact .inr ⟨hinserts.2.2.1, hinserts.1⟩
    · exact .inl hcarries
  · intro h
    by_cases howed : s.sets.Owed
    · rcases h howed with hcarries | ⟨hnone, hsent⟩
      · exact .inr hcarries
      · refine .inl ⟨hsent, hidr, hnone, ?_⟩
        rintro ⟨hsps', hpps'⟩
        exact howed ⟨hI.noSps (hsps.symm.trans hsps'), hI.noPps (hpps.symm.trans hpps')⟩
    · obtain ⟨hsps', hpps'⟩ := not_not.mp howed
      exact .inr ⟨.inl hsps', .inl hpps'⟩

/-- A sender at its start. -/
def start (vpt apt : UInt8) (vssrc assrc : UInt32) : InformedSender where
  sender := VideoSender.init vpt apt vssrc assrc

theorem inv_start (vpt apt : UInt8) (vssrc assrc : UInt32) :
  (start vpt apt vssrc assrc).Inv
  := ⟨rfl, rfl, fun _ => rfl, fun _ => rfl⟩

/-- In every run of calls each key picture leaves no parameter set of the latest header unsent,
exactly if each that comes while there are some has them, or has none and is the first. -/
theorem inForce_iff_meets_run (vpt apt : UInt8) (vssrc assrc : UInt32) (calls : List VideoCall) :
  Runs.Steps step InForce (start vpt apt vssrc assrc) calls ↔
    Runs.Steps step Meets (start vpt apt vssrc assrc) calls
  := by
  apply Runs.steps_iff_steps Runs.steps_true (inv_start vpt apt vssrc assrc)
  exact fun s call hI _ => ⟨inForce_iff_meets hI, fun _ => hI.step call⟩

/-- Two sequence headers, and a key picture behind each. -/
def twoHeaders : List VideoCall :=
  [⟨[0x17, 0, 0, 0, 0, 1, 0x42, 0, 0x1e, 0xff, 0xe1, 0, 4, 0x67, 0x42, 0, 0x1e, 1, 0, 2, 0x68, 0xce], 0⟩,
    ⟨[0x17, 1, 0, 0, 0, 0, 0, 0, 3, 0x65, 0x88, 0x84], 0⟩,
    ⟨[0x17, 0, 0, 0, 0, 1, 0x42, 0, 0x1f, 0xff, 0xe1, 0, 4, 0x67, 0x42, 0, 0x1f, 1, 0, 2, 0x68, 0xce], 40⟩,
    ⟨[0x17, 1, 0, 0, 0, 0, 0, 0, 3, 0x65, 0x88, 0x84], 40⟩]

/-- The parameter sets of the second header are not sent. -/
theorem not_inForce_twoHeaders :
  ¬ ∀ calls, Runs.Steps step InForce (start 96 111 1 2) calls
  := by
  intro h
  obtain ⟨-, -, -, hpicture, -⟩ := h twoHeaders
  have hkey : ((Runs.run step (start 96 111 1 2) (twoHeaders.take 3)).sender.frame
      twoHeaders[3]).map VideoFrame.hasIdr = some true
    := by decide +kernel
  have hunsent : (Runs.run step (start 96 111 1 2) twoHeaders).sets.sentSps = false
    := by decide +kernel
  obtain ⟨frame, hframe, hidr⟩ := Option.map_eq_some_iff.mp hkey
  apply hpicture frame hframe hidr
  rintro ⟨hsent, -⟩
  cases hsent.symm.trans hunsent

end InformedSender
