import Tmms.Demux.VideoDemux

/-!
# Parameter sets in force

Demuxing finds NAL units one after another, and what every one of them keeps is kept
(`decodeAvcNalu_keeps`).  So the parameter sets are those of the latest sequence header
(`onDemux_sets`), and a key picture is found only in units that are given out (`onDemux_idr`).
-/

namespace VideoDemux

open BytesReader

/-- A sequence header of AVC. -/
def IsSequenceHeader (data : List UInt8) : Prop :=
  data.getD 0 0 &&& 0x0f = kVideoCodecIDAVC ∧ (data.getD 0 0 &&& 0xf0) >>> 4 ≠ 5 ∧
    data.getD 1 0 = 0

instance (data : List UInt8) : Decidable (IsSequenceHeader data) :=
  inferInstanceAs (Decidable (_ ∧ _ ∧ _))

/-- The parameter sets stay. -/
def SameSets (d d' : VideoDemux) : Prop := d'.sps = d.sps ∧ d'.pps = d.pps

variable {d d' : VideoDemux}

/-! ### What a NAL unit keeps -/

/-- Only flags change with a NAL unit. -/
theorem nalu_eq {b : UInt8} {data : List UInt8} {bytes : Nat}
    (h : (d.checkNaluType b).lookForBFrame data bytes = some d') :
  ∃ hasAud hasIdr hasSpsPps hasBFrame, d' = { d with hasAud, hasIdr, hasSpsPps, hasBFrame }
  := by
  have hchecked : ∃ hasAud hasIdr hasSpsPps, d.checkNaluType b = { d with hasAud, hasIdr, hasSpsPps }
    := by
    rw [checkNaluType]
    cases NaluType.ofByte b with
    | idr => exact ⟨_, _, _, rfl⟩
    | sps => exact ⟨_, _, _, rfl⟩
    | pps => exact ⟨_, _, _, rfl⟩
    | accessUnitDelimiter => exact ⟨_, _, _, rfl⟩
    | other => exact ⟨_, _, _, rfl⟩
  obtain ⟨hasAud, hasIdr, hasSpsPps, hchecked⟩ := hchecked
  rw [hchecked, lookForBFrame] at h
  split at h
  · obtain ⟨hasBFrame, -, rfl⟩ := Option.map_eq_some_iff.mp h
    exact ⟨_, _, _, _, rfl⟩
  · cases h
    exact ⟨_, _, _, _, rfl⟩

section Keeps

variable {K : VideoDemux → List SampleBuf → Prop}

theorem avccLoop_keeps
    (hnalu : ∀ {d d' outs b data bytes s}, K d outs →
      (d.checkNaluType b).lookForBFrame data bytes = some d' → K d' (outs ++ [s]))
    {n : Nat} {data : List UInt8} {outs outs' : List SampleBuf} {ret : Int} (hK : K d outs)
    (h : avccLoop n d data outs = some (d', outs', ret)) :
  K d' outs'
  := by
  induction n generalizing d data outs with
  | zero =>
      cases h
      exact hK
  | succ n ih =>
      rw [avccLoop] at h
      split at h
      · split at h
        · cases h
        · dsimp only at h
          split at h
          · cases h
            exact hK
          · split at h
            next hfound => exact ih (hnalu hK hfound) h
            next => cases h
      · cases h
        exact hK

theorem annexbLoop_keeps
    (hnalu : ∀ {d d' outs b data bytes s}, K d outs →
      (d.checkNaluType b).lookForBFrame data bytes = some d' → K d' (outs ++ [s]))
    {data : List UInt8} {n naluStart pos size : Nat} {outs outs' : List SampleBuf} {ret ret' : Int}
    (hK : K d outs) (h : annexbLoop data n d naluStart pos size outs ret = some (d', outs', ret')) :
  K d' outs'
  := by
  induction n generalizing d naluStart pos size outs ret with
  | zero =>
      cases h
      exact hK
  | succ n ih =>
      rw [annexbLoop] at h
      split at h
      · dsimp only at h
        split at h
        · cases h
          exact hK
        · split at h
          next hfound => exact ih (hnalu hK hfound) h
          next => cases h
      · cases h
        exact hK

theorem annexb_keeps
    (hnalu : ∀ {d d' outs b data bytes s}, K d outs →
      (d.checkNaluType b).lookForBFrame data bytes = some d' → K d' (outs ++ [s]))
    {data : List UInt8} {outs outs' : List SampleBuf} {ret : Int} (hK : K d outs)
    (h : d.decodeAVCNaluAnnexb data outs = some (d', outs', ret)) :
  K d' outs'
  := by
  rw [decodeAVCNaluAnnexb] at h
  split at h
  · cases h
    exact hK
  · exact annexbLoop_keeps hnalu hK h

/-- What every NAL unit keeps is kept, whatever the format is found to be. -/
theorem decodeAvcNalu_keeps
    (hnalu : ∀ {d d' outs b data bytes s}, K d outs →
      (d.checkNaluType b).lookForBFrame data bytes = some d' → K d' (outs ++ [s]))
    (hformat : ∀ {d outs} payloadFormat, K d outs → K { d with payloadFormat } outs)
    {data : List UInt8} {outs outs' : List SampleBuf} {ret : Int} (hK : K d outs)
    (h : d.decodeAvcNalu data outs = some (d', outs', ret)) :
  K d' outs'
  := by
  rw [decodeAvcNalu] at h
  split at h
  · obtain ⟨⟨d₁, outs₁, ret₁⟩, havcc, hrest⟩ := Option.bind_eq_some_iff.mp h
    have hfirst : K d₁ outs₁ := avccLoop_keeps hnalu hK havcc
    dsimp only at hrest
    split at hrest
    · cases hrest
      exact hformat _ hfirst
    · obtain ⟨⟨d₂, outs₂, ret₂⟩, hannexb, hresult⟩ := Option.bind_eq_some_iff.mp hrest
      have hsecond := annexb_keeps hnalu hfirst hannexb
      dsimp only at hresult
      split at hresult
      · cases hresult
        exact hformat _ hsecond
      · cases hresult
        exact hsecond
  · exact avccLoop_keeps hnalu hK h
  · exact annexb_keeps hnalu hK h

end Keeps

theorem sameSets_decodeAvcNalu {data : List UInt8} {outs outs' : List SampleBuf} {ret : Int}
    (h : d.decodeAvcNalu data outs = some (d', outs', ret)) :
  d.SameSets d'
  := by
  apply @decodeAvcNalu_keeps d d' (fun d' _ => d.SameSets d') _ _ data outs outs' ret ⟨rfl, rfl⟩ h
  · intro d₁ d₂ _ _ _ _ _ hsame hfound
    obtain ⟨_, _, _, _, rfl⟩ := nalu_eq hfound
    exact hsame
  · exact fun _ hsame => hsame

/-- What a tag does: a sequence header is decoded, NAL units are looked for, or nothing but the codec
and the composition time changes. -/
theorem onDemux_cases {data : List UInt8} {outs : List SampleBuf} {ret : Int}
    (h : d.onDemux data = some (d', outs, ret)) :
  ∃ codecId compositionTime, ∃ d₁, d₁ = { d with codecId, compositionTime } ∧
    (¬ IsSequenceHeader data ∧ d' = d₁ ∧ outs = [] ∨
      IsSequenceHeader data ∧ 5 ≤ data.length ∧ d' = (d₁.decodeAVCSeqHeader (data.drop 5)).1 ∧
        outs = [] ∨
      ¬ IsSequenceHeader data ∧ d₁.decodeAvcNalu (data.drop 5) [] = some (d', outs, ret))
  := by
  rw [onDemux] at h
  split at h
  · cases h
  · dsimp only at h
    split at h
    next hcodec =>
      cases h
      exact ⟨_, _, _, rfl, .inl ⟨fun hheader => hcodec hheader.1, rfl, rfl⟩⟩
    next hcodec =>
      rw [demuxAVC] at h
      dsimp only at h
      split at h
      next hcommand =>
        cases h
        exact ⟨_, _, _, rfl, .inl ⟨fun hheader => hheader.2.1 hcommand, rfl, rfl⟩⟩
      next hcommand =>
        split at h
        · cases h
        next hlength =>
          refine ⟨data.getD 0 0 &&& 0x0f, int32 (readUint24T (data.drop 2)), _, rfl, ?_⟩
          generalize ({ d with
            codecId := data.getD 0 0 &&& 0x0f
            compositionTime := int32 (readUint24T (data.drop 2)) } : VideoDemux) = d₁ at h ⊢
          split at h
          next htype =>
            cases h
            refine .inr (.inl ⟨⟨not_not.mp hcodec, hcommand, htype⟩, ?_, rfl, rfl⟩)
            omega
          next htype =>
            have hheader : ¬ IsSequenceHeader data := fun hheader => htype hheader.2.2
            split at h
            · exact .inr (.inr ⟨hheader, h⟩)
            · cases h
              exact .inl ⟨hheader, rfl, rfl⟩

/-- The parameter sets are those of the latest sequence header. -/
theorem onDemux_sets {data : List UInt8} {outs : List SampleBuf} {ret : Int}
    (h : d.onDemux data = some (d', outs, ret)) :
  (¬ IsSequenceHeader data → d.SameSets d') ∧
    (IsSequenceHeader data → ∃ d₁, d.SameSets d₁ ∧ d' = (d₁.decodeAVCSeqHeader (data.drop 5)).1)
  := by
  obtain ⟨_, _, d₁, hd₁, hcases⟩ := onDemux_cases h
  have hsame : d.SameSets d₁ := by
    rw [hd₁]
    exact ⟨rfl, rfl⟩
  obtain ⟨hnot, rfl, -⟩ | ⟨hheader, -, hd', -⟩ | ⟨hnot, hnalu⟩ := hcases
  · exact ⟨fun _ => hsame, fun hheader => absurd hheader hnot⟩
  · exact ⟨fun hnot => absurd hheader hnot, fun _ => ⟨d₁, hsame, hd'⟩⟩
  · have hrest := sameSets_decodeAvcNalu hnalu
    exact ⟨fun _ => ⟨hrest.1.trans hsame.1, hrest.2.trans hsame.2⟩,
      fun hheader => absurd hheader hnot⟩

/-- A sequence header has five bytes in front of it. -/
theorem length_of_sequenceHeader {data : List UInt8} {outs : List SampleBuf} {ret : Int}
    (hheader : IsSequenceHeader data) (h : d.onDemux data = some (d', outs, ret)) :
  5 ≤ data.length
  := by
  obtain ⟨_, _, d₁, -, ⟨hnot, -⟩ | ⟨-, hlength, -⟩ | ⟨hnot, -⟩⟩ := onDemux_cases h
  · exact absurd hheader hnot
  · exact hlength
  · exact absurd hheader hnot

/-! ### Key pictures -/

theorem idr_decodeAvcNalu {data : List UInt8} {outs : List SampleBuf} {ret : Int}
    (hd : d.hasIdr = false) (h : d.decodeAvcNalu data [] = some (d', outs, ret)) :
  d'.hasIdr = true → outs ≠ []
  := by
  apply @decodeAvcNalu_keeps d d' (fun d' outs => d'.hasIdr = true → outs ≠ []) _ _ data [] outs ret _ h
  · intro _ _ outs _ _ _ s _ _ _
    exact List.append_ne_nil_of_right_ne_nil outs (List.cons_ne_nil s [])
  · exact fun _ hidr => hidr
  · intro hidr
    rw [hd] at hidr
    cases hidr

theorem hasIdr_decodeAVCSeqHeader (d : VideoDemux) (data : List UInt8) :
  (d.decodeAVCSeqHeader data).1.hasIdr = d.hasIdr
  := by
  rw [decodeAVCSeqHeader]
  dsimp only
  repeat' split
  all_goals rfl

/-- A key picture is found in units that are given out. -/
theorem onDemux_idr {data : List UInt8} {outs : List SampleBuf} {ret : Int}
    (hd : d.hasIdr = false) (h : d.onDemux data = some (d', outs, ret)) (hidr : d'.hasIdr = true) :
  outs ≠ []
  := by
  -- where no units are looked for, the flag stays
  have hstays : d'.hasIdr = false → outs ≠ [] := by
    intro hfalse
    rw [hfalse] at hidr
    cases hidr
  obtain ⟨_, _, d₁, hd₁, ⟨-, rfl, -⟩ | ⟨-, -, hd', -⟩ | ⟨-, hnalu⟩⟩ := onDemux_cases h
  · apply hstays
    rw [hd₁]
    exact hd
  · apply hstays
    rw [hd', hasIdr_decodeAVCSeqHeader, hd₁]
    exact hd
  · have hfirst : d₁.hasIdr = false := by
      rw [hd₁]
      exact hd
    exact idr_decodeAvcNalu hfirst hnalu hidr

end VideoDemux
