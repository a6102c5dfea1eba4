import Mathlib.Data.List.TakeWhile
import Tmms.Demux.ParameterSets
import Tmms.Mpegts.TsStreams

/-!
# Access units

`EncodeAvc` makes an access unit of the NAL units of a packet, each behind a start code.  It puts a
delimiter in front if the demuxer has seen none so far, and the parameter sets in front of a key
picture if the demuxer has seen none in the packets so far, and the writer does not have them yet.

So an access unit begins with a delimiter if the demuxer has seen none, or the packet begins with
one (`startsWithAud_unitOf`), and what is in front of its first key picture is known
(`pushSamples_spec`).
-/

/-- A NAL unit of a key picture. -/
def isIdr (nalu : SampleBuf) : Bool := NaluType.ofByte (nalu.getD 0 0) == .idr

/-- NAL units behind start codes. -/
def frames (nalus : List SampleBuf) : List SampleBuf :=
  nalus.flatMap fun nalu => [[0x00, 0x00, 0x01], nalu]

/-- The NAL units behind the start codes. -/
def nalusOf : List SampleBuf → List SampleBuf
  | _ :: nalu :: result => nalu :: nalusOf result
  | _ => []

/-- An access unit that is written: its NAL units, the parameter sets of the latest sequence header,
and the packets it is in. -/
structure AccessUnit where
  nalus : List SampleBuf
  sps : List UInt8
  pps : List UInt8
  packets : List (List UInt8)
  deriving DecidableEq, Repr

namespace AccessUnit

/-- The NAL units in front of the first key picture. -/
def front (u : AccessUnit) : List SampleBuf := u.nalus.takeWhile fun n => !isIdr n

/-- The first NAL unit is a delimiter. -/
def StartsWithAud (u : AccessUnit) : Prop :=
  ∀ n ∈ u.nalus.head?, NaluType.ofByte (n.getD 0 0) = .accessUnitDelimiter

/-- If there is a key picture, and none before, the parameter sets are in front of it. -/
def HasSpsPps (earlier : List SampleBuf) (u : AccessUnit) : Prop :=
  earlier.any isIdr = false → u.nalus.any isIdr = true →
    u.sps ∈ earlier ++ u.front ∧ u.pps ∈ earlier ++ u.front

/-- The packets are what `WriteVideoPes` makes of the NAL units with their start codes. -/
def Packetized (u : AccessUnit) : Prop :=
  ∃ w pts dts key, u.packets = (VideoEncoder.writeVideoPes w (frames u.nalus)
    (frames u.nalus).flatten.length pts dts key).2

end AccessUnit

namespace VideoEncoder

variable {ε : Type}

/-- The demuxer and the samples with which `EncodeVideo` calls `EncodeAvc`. -/
def samples (e : VideoEncoder) (data : Packet ε) : Option (VideoDemux × List SampleBuf) :=
  match e.demux.onDemux data.payload with
  | some (demux, list, ret) =>
      if ret ≠ -1 ∧ ¬ TsTool.isCodecHeader data ∧ demux.codecId = kVideoCodecIDAVC then
        some (demux, list)
      else
        none
  | none => none

/-- The access unit that `EncodeAvc` writes. -/
def unitOf (e : VideoEncoder) (writer : StreamWriter) (list : List SampleBuf) (key : Bool)
    (dts : Int) : AccessUnit where
  nalus := nalusOf (pushSamples e.demux writer (startSamples e.demux) list).2.result
  sps := e.demux.sps
  pps := e.demux.pps
  packets := (e.encodeAvc writer list key dts).2.2

/-- The access unit that `EncodeVideo` writes. -/
def accessUnit (e : VideoEncoder) (writer : StreamWriter) (key : Bool) (data : Packet ε)
    (dts : Int) : Option AccessUnit :=
  (e.samples data).map fun (demux, list) =>
    { e with demux := demux }.unitOf writer list key (dts * 90)

/-- The samples that have bytes. -/
def kept (list : List SampleBuf) : List SampleBuf := list.filter fun l => l.length ≠ 0

/-- The parameter sets that are put in front of a key picture. -/
def parameterSets (d : VideoDemux) : List SampleBuf :=
  (if d.sps ≠ [] then [d.sps] else []) ++ if d.pps ≠ [] then [d.pps] else []

end VideoEncoder

/-! ### Start codes -/

theorem frames_append (nalus more : List SampleBuf) :
  frames (nalus ++ more) = frames nalus ++ frames more
  := List.flatMap_append

theorem nalusOf_frames (nalus : List SampleBuf) :
  nalusOf (frames nalus) = nalus
  := by
  induction nalus with
  | nil => rfl
  | cons nalu nalus ih =>
      change nalu :: nalusOf (frames nalus) = _
      rw [ih]

namespace AvcSamples

/-- NAL units are behind start codes of three bytes. -/
structure Framed (s : AvcSamples) (nalus : List SampleBuf) : Prop where
  startcodeInserted : s.startcodeInserted = true
  result : s.result = frames nalus
  counted : s.Counted

theorem Framed.push {s : AvcSamples} {nalus : List SampleBuf} (h : s.Framed nalus)
    (nalu : SampleBuf) :
  (s.push nalu).Framed (nalus ++ [nalu])
  := by
  have hcounted := h.counted.push nalu
  rw [AvcSamples.push, insertStartCode, if_pos h.startcodeInserted] at hcounted ⊢
  refine ⟨h.startcodeInserted, ?_, hcounted⟩
  rw [frames_append, ← h.result]
  exact List.append_assoc ..

end AvcSamples

namespace VideoEncoder

open AvcSamples

theorem framed_startSamples (d : VideoDemux) :
  (startSamples d).Framed (if d.hasAud then [] else [[0x09, 0xf0]])
  := by
  have hempty : ({} : AvcSamples).Framed [] := ⟨rfl, rfl, rfl⟩
  rw [startSamples]
  cases d.hasAud with
  | true => exact hempty
  | false => exact hempty.push [0x09, 0xf0]

theorem framed_pushSpsPps (d : VideoDemux) (writer : StreamWriter) {s : AvcSamples}
    {nalus : List SampleBuf} (h : s.Framed nalus) :
  (pushSpsPps d writer s).2.Framed (nalus ++ parameterSets d)
  := by
  rw [pushSpsPps, parameterSets, ← List.append_assoc]
  by_cases hsps : d.sps ≠ []
  · rw [if_pos hsps, if_pos hsps]
    dsimp only
    by_cases hpps : d.pps ≠ []
    · rw [if_pos hpps, if_pos hpps]
      exact (h.push d.sps).push d.pps
    · rw [if_neg hpps, if_neg hpps, List.append_nil]
      exact h.push d.sps
  · rw [if_neg hsps, if_neg hsps, List.append_nil]
    dsimp only
    by_cases hpps : d.pps ≠ []
    · rw [if_pos hpps, if_pos hpps]
      exact h.push d.pps
    · rw [if_neg hpps, if_neg hpps, List.append_nil]
      exact h

/-! ### The loop -/

/-- A sample that has bytes goes behind the others, a key picture behind the parameter sets. -/
theorem framed_pushSample (d : VideoDemux) (writer : StreamWriter) {s : AvcSamples}
    {nalus : List SampleBuf} (h : s.Framed nalus) {l : SampleBuf} (hl : l.length ≠ 0) :
  (pushSample d writer s l).2.Framed
      (nalus ++ ((if needsSpsPps d writer l then parameterSets d else []) ++ [l])) ∧
    (needsSpsPps d writer l = false → (pushSample d writer s l).1 = writer)
  := by
  rw [pushSample, if_neg hl]
  cases hneeds : needsSpsPps d writer l with
  | true =>
      have hpushed := (framed_pushSpsPps d writer h).push l
      rw [List.append_assoc] at hpushed
      exact ⟨hpushed, fun hnot => absurd hnot.symm Bool.false_ne_true⟩
  | false => exact ⟨h.push l, fun _ => rfl⟩

theorem kept_cons_of_empty {l : SampleBuf} (hl : l.length = 0) (list : List SampleBuf) :
  kept (l :: list) = kept list
  := List.filter_cons_of_neg (by rw [decide_eq_true_iff]; exact not_not_intro hl)

theorem kept_cons {l : SampleBuf} (hl : l.length ≠ 0) (list : List SampleBuf) :
  kept (l :: list) = l :: kept list
  := List.filter_cons_of_pos (decide_eq_true hl)

/-- More NAL units go behind those there are. -/
theorem framed_pushSamples (d : VideoDemux) (writer : StreamWriter) {s : AvcSamples}
    {nalus : List SampleBuf} (h : s.Framed nalus) (list : List SampleBuf) :
  ∃ more, (pushSamples d writer s list).2.Framed (nalus ++ more)
  := by
  induction list generalizing writer s nalus with
  | nil => exact ⟨[], (List.append_nil nalus).symm ▸ h⟩
  | cons l list ih =>
      by_cases hl : l.length = 0
      · have hsample : pushSample d writer s l = (writer, s) := if_pos hl
        rw [pushSamples, hsample]
        exact ih writer h
      · obtain ⟨more, hmore⟩ := ih (pushSample d writer s l).1 (framed_pushSample d writer h hl).1
        rw [List.append_assoc] at hmore
        exact ⟨_, hmore⟩

/-- What is in front of the first key picture: the samples as they are, and the parameter sets if
they are needed. Without a key picture the writer stays. -/
theorem pushSamples_spec (d : VideoDemux) (writer : StreamWriter) {s : AvcSamples}
    {nalus : List SampleBuf} (h : s.Framed nalus) (list : List SampleBuf) :
  ((kept list).any isIdr = false ∧ (pushSamples d writer s list).1 = writer ∧
      (pushSamples d writer s list).2.Framed (nalus ++ kept list)) ∨
    ∃ n more, (kept list).any isIdr = true ∧ isIdr n = true ∧
      (pushSamples d writer s list).2.Framed (nalus ++ ((kept list).takeWhile (fun n => !isIdr n) ++
        ((if needsSpsPps d writer n then parameterSets d else []) ++ n :: more)))
  := by
  induction list generalizing s nalus with
  | nil => exact .inl ⟨rfl, rfl, (List.append_nil nalus).symm ▸ h⟩
  | cons l list ih =>
      by_cases hl : l.length = 0
      · have hsample : pushSample d writer s l = (writer, s) := if_pos hl
        rw [pushSamples, hsample, kept_cons_of_empty hl]
        exact ih h
      · obtain ⟨hpushed, hwriter⟩ := framed_pushSample d writer h hl
        rw [pushSamples, kept_cons hl]
        dsimp only
        by_cases hidr : isIdr l = true
        · obtain ⟨more, hmore⟩ := framed_pushSamples d (pushSample d writer s l).1 hpushed list
          refine .inr ⟨l, more, ?_, hidr, ?_⟩
          · rw [List.any_cons, hidr, Bool.true_or]
          · rw [List.takeWhile_cons_of_neg (by rw [hidr]; decide), List.nil_append]
            rw [List.append_assoc, List.append_assoc] at hmore
            exact hmore
        · -- in front of a picture that is no key picture nothing is put
          rw [Bool.not_eq_true] at hidr
          have hnot : needsSpsPps d writer l = false
            := by
            rw [needsSpsPps, ← isIdr, hidr]
            rfl
          rw [hnot, if_neg Bool.false_ne_true, List.nil_append] at hpushed
          rw [hwriter hnot, List.any_cons, hidr, Bool.false_or,
            List.takeWhile_cons_of_pos (by rw [hidr]; rfl)]
          rcases ih hpushed with ⟨hnone, hsame, hall⟩ | ⟨n, more, hsome, hn, hall⟩
          · rw [List.append_assoc] at hall
            exact .inl ⟨hnone, hsame, hall⟩
          · rw [List.append_assoc] at hall
            exact .inr ⟨n, more, hsome, hn, hall⟩

/-! ### Access units that are made -/

/-- The demuxer has seen no delimiter, or the samples begin with one. -/
def AudReady (d : VideoDemux) (list : List SampleBuf) : Prop :=
  d.hasAud = true → ∀ n ∈ (kept list).head?, NaluType.ofByte (n.getD 0 0) = .accessUnitDelimiter

/-- In front of the first key picture there will be the parameter sets: the demuxer has them and
has seen none in the packets, or they are in front of it already. -/
def SpsPpsReady (d : VideoDemux) (list earlier : List SampleBuf) : Prop :=
  earlier.any isIdr = false → (kept list).any isIdr = true →
    (d.hasSpsPps = false ∧ (d.sps ≠ [] ∧ isIdr d.sps = false) ∧
      d.pps ≠ [] ∧ isIdr d.pps = false) ∨
    (d.sps ∈ earlier ++ (kept list).takeWhile (fun n => !isIdr n) ∧
      d.pps ∈ earlier ++ (kept list).takeWhile (fun n => !isIdr n))

instance (d : VideoDemux) (list : List SampleBuf) : Decidable (AudReady d list) :=
  inferInstanceAs (Decidable (_ → ∀ n ∈ (kept list).head?, _))

instance (d : VideoDemux) (list earlier : List SampleBuf) :
    Decidable (SpsPpsReady d list earlier) :=
  inferInstanceAs (Decidable (_ → _ → _ ∨ _))

/-- The delimiter that is put in front of the samples. -/
def putAud (d : VideoDemux) : List SampleBuf := if d.hasAud then [] else [[0x09, 0xf0]]

theorem putAud_any (d : VideoDemux) :
  (putAud d).any isIdr = false
  := by
  rw [putAud]
  cases d.hasAud with
  | true => rfl
  | false => rfl

variable (e : VideoEncoder) (writer : StreamWriter) (list : List SampleBuf) (key : Bool) (dts : Int)

/-- The NAL units of an access unit, and what becomes of the writer. -/
theorem unitOf_nalus :
  ((kept list).any isIdr = false ∧
      (pushSamples e.demux writer (startSamples e.demux) list).1 = writer ∧
      (e.unitOf writer list key dts).nalus = putAud e.demux ++ kept list) ∨
    ∃ n more, (kept list).any isIdr = true ∧ isIdr n = true ∧
      (e.unitOf writer list key dts).nalus = putAud e.demux ++
        ((kept list).takeWhile (fun n => !isIdr n) ++
          ((if needsSpsPps e.demux writer n then parameterSets e.demux else []) ++ n :: more))
  := by
  have hnalus : ∀ nalus, (pushSamples e.demux writer (startSamples e.demux) list).2.Framed nalus →
      (e.unitOf writer list key dts).nalus = nalus
    := by
    intro nalus hframed
    rw [unitOf, hframed.result, nalusOf_frames]
  rcases pushSamples_spec e.demux writer (framed_startSamples e.demux) list with
    ⟨hnone, hsame, hframed⟩ | ⟨n, more, hsome, hn, hframed⟩
  · exact .inl ⟨hnone, hsame, hnalus _ hframed⟩
  · exact .inr ⟨n, more, hsome, hn, hnalus _ hframed⟩

/-- What is written is the access unit. -/
theorem packetized_unitOf :
  (e.unitOf writer list key dts).Packetized
  := by
  obtain ⟨more, hframed⟩ := framed_pushSamples e.demux writer (framed_startSamples e.demux) list
  have hnalus : (e.unitOf writer list key dts).nalus =
      (if e.demux.hasAud then [] else [[0x09, 0xf0]]) ++ more
    := by rw [unitOf, hframed.result, nalusOf_frames]
  refine ⟨e.pes, if e.demux.compositionTime > 0 then dts + e.demux.compositionTime * 90 else dts,
    dts, key, ?_⟩
  rw [hnalus, ← hframed.result, ← hframed.counted]
  rfl

/-- An access unit begins with a delimiter. -/
theorem startsWithAud_unitOf (h : AudReady e.demux list) :
  (e.unitOf writer list key dts).StartsWithAud
  := by
  rw [AccessUnit.StartsWithAud]
  cases haud : e.demux.hasAud with
  | false =>
      have hput : putAud e.demux = [[0x09, 0xf0]] := by rw [putAud, haud]; rfl
      have hhead : (e.unitOf writer list key dts).nalus.head? = some [0x09, 0xf0]
        := by
        rcases unitOf_nalus e writer list key dts with ⟨-, -, hnalus⟩ | ⟨_, _, -, -, hnalus⟩
        · rw [hnalus, hput]
          rfl
        · rw [hnalus, hput]
          rfl
      rw [hhead]
      rintro n ⟨⟩
      rfl
  | true =>
      have hput : putAud e.demux = [] := by rw [putAud, haud]; rfl
      have hfirst := h haud
      rcases unitOf_nalus e writer list key dts with ⟨-, -, hnalus⟩ | ⟨n, more, hsome, -, hnalus⟩
      · rw [hnalus, hput]
        exact hfirst
      · -- the first sample is a delimiter, so it is in front of the first key picture
        cases hkept : kept list with
        | nil =>
            rw [hkept] at hsome
            cases hsome
        | cons k rest =>
            rw [hkept] at hfirst
            have htype := hfirst k rfl
            have hidr : isIdr k = false
              := by
              rw [isIdr, htype]
              rfl
            rw [hnalus, hput, hkept, List.takeWhile_cons_of_pos (by rw [hidr]; rfl)]
            rintro _ ⟨⟩
            exact htype

/-- Before the first key picture there are the parameter sets. -/
theorem hasSpsPps_unitOf (hwriter : writer.spsPpsAppended = false) {earlier : List SampleBuf}
    (h : SpsPpsReady e.demux list earlier) :
  (e.unitOf writer list key dts).HasSpsPps earlier
  := by
  intro hearlier hidr
  have hput : ∀ n ∈ putAud e.demux, (!isIdr n) = true
    := by
    intro n hn
    have hnone := List.any_eq_false.mp (putAud_any e.demux) n hn
    rw [Bool.not_eq_true] at hnone
    rw [hnone]
    rfl
  have htaken : ∀ n ∈ (kept list).takeWhile (fun n => !isIdr n), (!isIdr n) = true
    := fun n hn => List.mem_takeWhile_imp (p := fun n => !isIdr n) hn
  rcases unitOf_nalus e writer list key dts with ⟨hnone, -, hnalus⟩ | ⟨n, more, hsome, hn, hnalus⟩
  · rw [hnalus, List.any_append, putAud_any, hnone] at hidr
    cases hidr
  · have hfront := congrArg (List.takeWhile fun n => !isIdr n) hnalus
    rw [List.takeWhile_append_of_pos hput, List.takeWhile_append_of_pos htaken,
      ← AccessUnit.front] at hfront
    rw [hfront]
    change e.demux.sps ∈ _ ∧ e.demux.pps ∈ _
    rcases h hearlier hsome with ⟨hunseen, ⟨hsps, hsps'⟩, hpps, hpps'⟩ | ⟨hsps, hpps⟩
    · have hneeds : needsSpsPps e.demux writer n = true
        := by
        rw [needsSpsPps, ← isIdr, hn, hunseen, hwriter, Bool.not_false, Bool.or_true]
        rfl
      have hsets : parameterSets e.demux = [e.demux.sps, e.demux.pps]
        := by
        rw [parameterSets, if_pos hsps, if_pos hpps]
        rfl
      rw [if_pos hneeds, hsets, List.cons_append, List.cons_append, List.nil_append,
        List.takeWhile_cons_of_pos (by rw [hsps']; rfl),
        List.takeWhile_cons_of_pos (by rw [hpps']; rfl)]
      simp only [List.mem_append, List.mem_cons, true_or, or_true, and_self]
    · simp only [List.mem_append] at hsps hpps ⊢
      exact ⟨hsps.imp_right fun hmem => .inr (.inl hmem),
        hpps.imp_right fun hmem => .inr (.inl hmem)⟩

/-- The writer has the parameter sets only if there was a key picture. -/
theorem spsPpsAppended_unitOf
    (h : (pushSamples e.demux writer (startSamples e.demux) list).1.spsPpsAppended = true) :
  writer.spsPpsAppended = true ∨ (e.unitOf writer list key dts).nalus.any isIdr = true
  := by
  rcases unitOf_nalus e writer list key dts with ⟨-, hsame, -⟩ | ⟨n, more, -, hn, hnalus⟩
  · rw [hsame] at h
    exact .inl h
  · right
    rw [hnalus, List.any_append, List.any_append, List.any_append, List.any_cons, hn]
    simp only [Bool.true_or, Bool.or_true]

end VideoEncoder
