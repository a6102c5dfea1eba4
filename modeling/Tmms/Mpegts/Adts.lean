import Tmms.Library.Adts
import Tmms.Mpegts.TsEncoder

/-!
# Frames of AAC

`EncodeAAC` puts a header in front of a raw sample, and takes samples of up to `0x1fff` bytes.  The
length in the header has thirteen bits and counts the header, so the frames of samples of more than
`0x1fff - 7` bytes have lengths that begin again at 0, and a reader loses the stream there
(`resynchronises_iff`).
-/

open TransportStream Adts

namespace AudioEncoder

/-! ### The header -/

theorem aacProfile_lt (type : UInt16) :
  aacObjectType2AacProfile type < 4
  := by
  rw [aacObjectType2AacProfile]
  split
  · decide
  · split
    · decide
    · split
      · decide
      · decide

/-- What the header of a frame says; the length is cut to thirteen bits. -/
def headerOf (d : AudioDemux) (size : Nat) : Header where
  crcAbsent := true
  profile := aacObjectType2AacProfile d.aacObject
  samplingFrequencyIndex := d.aacSampleRate.toNat
  channelConfiguration := d.aacChannel.toNat
  frameLength := (size + 7) % 8192
  rawDataBlocks := 0

/-- The third byte: profile, rate and the high bit of the channels. -/
theorem third_byte {profile rate channel : Nat} (hprofile : profile < 4) (hrate : rate < 16)
    (hchannel : channel < 8) :
  (UInt8.ofNat ((profile <<< 6) &&& 0xc0 ||| (rate <<< 2) &&& 0x3c |||
    (channel >>> 2) &&& 0x01)).toNat = 64 * profile + 4 * rate + channel / 4
  := by
  have hall : ∀ (profile : Fin 4) (rate : Fin 16) (channel : Fin 8),
      (UInt8.ofNat ((profile.val <<< 6) &&& 0xc0 ||| (rate.val <<< 2) &&& 0x3c |||
        (channel.val >>> 2) &&& 0x01)).toNat = 64 * profile.val + 4 * rate.val + channel.val / 4
    := by decide +kernel
  exact hall ⟨profile, hprofile⟩ ⟨rate, hrate⟩ ⟨channel, hchannel⟩

/-- The fourth byte: the low bits of the channels, and the high bits of the length. -/
theorem fourth_byte {channel : Nat} (hchannel : channel < 8) (frameLength : Nat) :
  (UInt8.ofNat ((channel <<< 6) &&& 0xc0 ||| (frameLength >>> 11) &&& 0x03)).toNat =
    64 * (channel % 4) + frameLength / 2048 % 4
  := by
  have hall : ∀ (channel : Fin 8) (high : Fin 4),
      (UInt8.ofNat ((channel.val <<< 6) &&& 0xc0 ||| high.val)).toNat =
        64 * (channel.val % 4) + high.val
    := by decide +kernel
  have hhigh : (frameLength >>> 11) &&& 0x03 = frameLength / 2048 % 4
    := by
    rw [Nat.and_two_pow_sub_one_eq_mod (frameLength >>> 11) 2, Nat.shiftRight_eq_div_pow]
  rw [hhigh]
  exact hall ⟨channel, hchannel⟩ ⟨frameLength / 2048 % 4, Nat.mod_lt _ (by decide)⟩

/-- The fifth byte: the bits of the length in the middle. -/
theorem fifth_byte (frameLength : Nat) :
  (UInt8.ofNat ((frameLength >>> 3) &&& 0xff)).toNat = frameLength / 8 % 256
  := by
  rw [UInt8.toNat_ofNat', Nat.and_two_pow_sub_one_eq_mod (frameLength >>> 3) 8,
    Nat.shiftRight_eq_div_pow, Nat.mod_mod]

/-- The sixth byte: the low bits of the length, and ones. -/
theorem sixth_byte (frameLength : Nat) :
  (UInt8.ofNat ((frameLength <<< 5) &&& 0xe0 ||| 0x1f)).toNat = 32 * (frameLength % 8) + 31
  := by
  have hall : ∀ low : Fin 8, (UInt8.ofNat (low.val <<< 5 ||| 0x1f)).toNat = 32 * low.val + 31
    := by decide +kernel
  have hlow : (frameLength <<< 5) &&& 0xe0 = (frameLength % 8) <<< 5
    := by
    rw [← Nat.and_two_pow_sub_one_eq_mod frameLength 3, Nat.shiftLeft_and_distrib]
    rfl
  rw [hlow]
  exact hall ⟨frameLength % 8, Nat.mod_lt _ (by decide)⟩

/-- The header is read back, but for the length. -/
theorem heads_adtsHeader {d : AudioDemux} (hrate : d.aacSampleRate.toNat < 16)
    (hchannel : d.aacChannel.toNat < 8) (size : Nat) :
  Heads (adtsHeader d size) (headerOf d size)
  := by
  intro rest
  have hprofile := aacProfile_lt d.aacObject
  have hthird := third_byte hprofile hrate hchannel
  have hfourth := fourth_byte hchannel (7 + size)
  have hfifth := fifth_byte (7 + size)
  have hsixth := sixth_byte (7 + size)
  rw [adtsHeader]
  dsimp only [List.cons_append, List.nil_append]
  rw [Header.parse, if_pos (by decide), hthird, hfourth, hfifth, hsixth]
  apply congrArg fun header => some (header, rest)
  rw [headerOf, Header.mk.injEq]
  refine ⟨by decide, ?_, ?_, ?_, ?_, by decide⟩
  · omega
  · omega
  · omega
  · omega

/-! ### The stream -/

/-- A frame: a sample behind its header. -/
def frameOf (d : AudioDemux) (sample : SampleBuf) : List UInt8 :=
  adtsHeader d sample.length ++ sample

/-- The frames of samples are read when their lengths fit, and else the reader stops. -/
theorem parseFrames_frames {d : AudioDemux} (hrate : d.aacSampleRate.toNat < 16)
    (hchannel : d.aacChannel.toNat < 8) {samples : List SampleBuf}
    (hsamples : ∀ l ∈ samples, l.length ≤ 0x1fff) {n : Nat} (hn : samples.length ≤ n) :
  parseFrames n (samples.flatMap (frameOf d)) =
    if ∀ l ∈ samples, l.length + 7 < 8192 then
      some (samples.map fun l => ⟨headerOf d l.length, l⟩)
    else
      none
  := by
  induction samples generalizing n with
  | nil =>
      rw [if_pos fun l hl => nomatch hl]
      cases n with
      | zero => rfl
      | succ n => rfl
  | cons l samples ih =>
      have hheads := heads_adtsHeader hrate hchannel l.length
      have hl := hsamples l List.mem_cons_self
      obtain ⟨n, rfl⟩ : ∃ m, n = m + 1 := ⟨n - 1, by rw [List.length_cons] at hn; omega⟩
      have hcons : (∀ l' ∈ l :: samples, l'.length + 7 < 8192) ↔
          l.length + 7 < 8192 ∧ ∀ l' ∈ samples, l'.length + 7 < 8192
        := List.forall_mem_cons
      rw [List.flatMap_cons, frameOf]
      by_cases hfits : l.length + 7 < 8192
      · have hlength : (headerOf d l.length).frameLength = 7 + l.length
          := by
          change (l.length + 7) % 8192 = 7 + l.length
          omega
        rw [parseFrames_cons hheads rfl hlength,
          ih (fun l' hl' => hsamples l' (List.mem_cons_of_mem _ hl')) (Nat.le_of_succ_le_succ hn)]
        by_cases hrest : ∀ l ∈ samples, l.length + 7 < 8192
        · rw [if_pos hrest, if_pos (hcons.mpr ⟨hfits, hrest⟩)]
          rfl
        · rw [if_neg hrest, if_neg fun hall => hrest (hcons.mp hall).2]
          rfl
      · have hshort : (headerOf d l.length).frameLength < (headerOf d l.length).size
          := by
          change (l.length + 7) % 8192 < 7
          omega
        rw [List.append_assoc, parseFrames_short hheads hshort,
          if_neg fun hall => hfits (hcons.mp hall).1]

/-! ### What is written -/

/-- Samples with their times, encoded one after the other: the packets of each, and what is
returned. -/
def encodeSamples (e : AudioEncoder) : List (SampleBuf × Int) → List (List (List UInt8) × Int)
  | [] => []
  | (sample, pts) :: samples =>
      let (e, packets, ret) := e.encodeAAC [sample] pts
      (packets, ret) :: encodeSamples e samples

/-- The data in the elementary stream of what was written. -/
def streamOf : List (List (List UInt8) × Int) → Option (List UInt8)
  | [] => some []
  | (packets, _) :: written =>
      (elementaryData packets).bind fun data => (streamOf written).map (data ++ ·)

/-- A reader of the stream gets the samples, with the lengths of their frames, and the rate and the
channels there are. -/
def Resynchronises (e : AudioEncoder) (samples : List (SampleBuf × Int)) : Prop :=
  ∃ bytes, streamOf (e.encodeSamples samples) = some bytes ∧
    parseFrames bytes.length bytes = some (samples.map fun (sample, _) =>
      ⟨⟨true, aacObjectType2AacProfile e.demux.aacObject, e.demux.aacSampleRate.toNat,
        e.demux.aacChannel.toNat, sample.length + 7, 0⟩, sample⟩)

/-- The samples that are taken. -/
theorem encodeAAC_ret (e : AudioEncoder) (sample : SampleBuf) (pts : Int) :
  (e.encodeAAC [sample] pts).2.2 = 0 ↔ 0 < sample.length ∧ sample.length ≤ 0x1fff
  := by
  rw [encodeAAC]
  split
  · rename_i hsize
    refine iff_of_false ?_ (by omega)
    intro hzero
    cases hzero
  · rename_i hsize
    exact iff_of_true rfl (by omega)

/-- There are not more samples than bytes in their frames. -/
theorem length_le_frames (d : AudioDemux) (samples : List SampleBuf) :
  samples.length ≤ (samples.flatMap (frameOf d)).length
  := by
  induction samples with
  | nil => exact Nat.le_refl 0
  | cons l samples ih =>
      have hframe : (frameOf d l).length = 7 + l.length := List.length_append
      rw [List.flatMap_cons, List.length_append, List.length_cons]
      omega

/-- A sample that is taken is written as a frame. -/
theorem encodeAAC_frame (e : AudioEncoder) {sample : SampleBuf}
    (h : 0 < sample.length ∧ sample.length ≤ 0x1fff) (pts : Int) :
  (e.encodeAAC [sample] pts).1.demux = e.demux ∧
    elementaryData (e.encodeAAC [sample] pts).2.1 = some (frameOf e.demux sample)
  := by
  have hflat : [adtsHeader e.demux sample.length, sample].flatten = frameOf e.demux sample
    := by rw [List.flatten_cons, List.flatten_cons, List.flatten_nil, List.append_nil, frameOf]
  have hlength : (frameOf e.demux sample).length = 7 + sample.length := List.length_append
  rw [encodeAAC, if_neg (by omega)]
  refine ⟨rfl, ?_⟩
  rw [← hflat]
  apply PesWriter.elementaryData_writeLoop
  · rw [hflat, hlength]
  · omega
  · omega

/-- The stream of samples that are taken are their frames. -/
theorem streamOf_encodeSamples {e : AudioEncoder} {samples : List (SampleBuf × Int)}
    (h : ∀ r ∈ e.encodeSamples samples, r.2 = 0) :
  streamOf (e.encodeSamples samples) = some ((samples.map Prod.fst).flatMap (frameOf e.demux)) ∧
    ∀ l ∈ samples.map Prod.fst, l.length ≤ 0x1fff
  := by
  induction samples generalizing e with
  | nil => exact ⟨rfl, fun l hl => nomatch hl⟩
  | cons s samples ih =>
      obtain ⟨sample, pts⟩ := s
      obtain ⟨hret, hrets⟩ := List.forall_mem_cons.mp h
      have hsample := (e.encodeAAC_ret sample pts).mp hret
      obtain ⟨hdemux, hdata⟩ := e.encodeAAC_frame hsample pts
      obtain ⟨hstream, hsizes⟩ := ih (e := (e.encodeAAC [sample] pts).1) hrets
      rw [hdemux] at hstream
      refine ⟨?_, List.forall_mem_cons.mpr ⟨hsample.2, hsizes⟩⟩
      rw [encodeSamples, streamOf, hdata, Option.bind_some, hstream]
      rfl

/-- A reader stays in step if the lengths of the frames have thirteen bits. -/
theorem resynchronises_iff {e : AudioEncoder} (hrate : e.demux.aacSampleRate < 16)
    (hchannel : e.demux.aacChannel < 8) {samples : List (SampleBuf × Int)}
    (haccepted : ∀ r ∈ e.encodeSamples samples, r.2 = 0) :
  e.Resynchronises samples ↔ ∀ s ∈ samples, s.1.length + 7 < 2 ^ 13
  := by
  obtain ⟨hstream, hsizes⟩ := streamOf_encodeSamples haccepted
  have hread := parseFrames_frames hrate hchannel hsizes (length_le_frames e.demux _)
  have hall : (∀ l ∈ samples.map Prod.fst, l.length + 7 < 8192) ↔
      ∀ s ∈ samples, s.1.length + 7 < 8192
    := List.forall_mem_map
  constructor
  · rintro ⟨bytes, hbytes, hparse⟩
    rw [hstream] at hbytes
    cases hbytes
    rw [hread] at hparse
    split at hparse
    · rename_i hfits
      exact hall.mp hfits
    · cases hparse
  · intro hfits
    refine ⟨_, hstream, ?_⟩
    rw [hread, if_pos (hall.mpr hfits), List.map_map]
    apply congrArg some
    apply List.map_congr_left
    intro s hs
    have hlength : (s.1.length + 7) % 8192 = s.1.length + 7 := Nat.mod_eq_of_lt (hfits s hs)
    rw [Function.comp, headerOf, hlength]

theorem resynchronises_pair :
  Resynchronises { demux := { aacSampleRate := 4, aacChannel := 2 } }
      [([0x21, 0x10, 0x04], 0), ([0x21], 1920)] ↔
    ∀ s ∈ [(([0x21, 0x10, 0x04] : SampleBuf), (0 : Int)), ([0x21], 1920)],
      s.1.length + 7 < 2 ^ 13
  := resynchronises_iff (by decide) (by decide) (by decide +kernel)

/-- A sample of 8185 bytes is taken, and its header has length 0. -/
theorem not_framed_long :
  (({} : AudioEncoder).encodeAAC [List.replicate 8185 0] 0).2.2 = 0 ∧
    ((Header.parse (adtsHeader {} 8185)).map fun r => r.1.frameLength) ≠ some (8185 + 7)
  := by
  refine ⟨?_, by decide +kernel⟩
  rw [encodeAAC_ret, List.length_replicate]
  decide

end AudioEncoder
