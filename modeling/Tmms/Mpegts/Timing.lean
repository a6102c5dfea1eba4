import Tmms.Demux.ParameterSets
import Tmms.Mpegts.TsStreams

/-!
# Times of packets

An AVC packet has a time of decoding in milliseconds and an offset to the time of presentation:
24 bits with a sign.  `ReadUint24T` reads them without the sign, so a time of presentation that is
earlier comes out much later.  `WriteVideoPes` writes both times at 90 kHz, and with a key frame the
time of presentation as the clock reference, which is then after the time of decoding.

So what is read back is right unless the offset is negative, or there is one with a key frame
(`timed_iff`).
-/

open TransportStream Endian

/-! ### Reading back -/

namespace PesWriter

/-- A clock is read back modulo `2 ^ 33`. -/
theorem parsePcr_writePcr (pcr : Int) :
  parsePcr (writePcr pcr) = some (300 * (pcr % 2 ^ 33).toNat)
  := by
  have hor : 0x7E00 ||| (pcr % 8589934592).toNat <<< 15 = (pcr % 8589934592).toNat * 2 ^ 15 + 0x7E00
    := by
    rw [Nat.or_comm, ← Nat.shiftLeft_add_eq_or_of_lt (i := 15) (by decide), Nat.shiftLeft_eq]
  have hlt : (pcr % 8589934592).toNat * 2 ^ 15 + 0x7E00 < 256 ^ 6 := by omega
  rw [parsePcr, if_pos (length_writePcr pcr), writePcr, hor, beNat_beBytes_of_lt hlt]
  apply congrArg some
  omega

/-- The times are read back, and one of them is left out when it is the other. -/
theorem times_pesHeader (streamId : UInt8) (payloadSize : Nat) (pts dts : Int)
    (data : List UInt8) :
  PesTimes.parse (pesHeader streamId payloadSize pts dts ++ data) =
    some ⟨(pts % 2 ^ 33).toNat, if pts = dts then none else some (dts % 2 ^ 33).toNat⟩
  := by
  obtain ⟨l0, l1, flags, headerLen, fields, hheader, hlength, -, hflags, htimes⟩ :=
    pesHeader_fields streamId payloadSize pts dts
  rw [hheader]
  apply (times_of_fields (by decide) hlength htimes).trans
  rw [hflags]
  split
  · rfl
  · rfl

/-- The first packet of a frame carries the times, and the clock reference with a key frame. -/
theorem writeLoop_head {w : PesWriter} {streamId : UInt8} {key : Bool}
    {result : List (List UInt8)} {size : Nat} (hsize : size = result.flatten.length)
    {pts dts : Int} {bytes : List UInt8}
    (hhead : (w.writeLoop streamId true key result size pts dts).2.head? = some bytes) :
  ∃ adaptation payload, contents bytes = some (adaptation, payload) ∧
    PesTimes.parse payload =
      some ⟨(pts % 2 ^ 33).toNat, if pts = dts then none else some (dts % 2 ^ 33).toNat⟩ ∧
    adaptation.bind AdaptationField.pcr = if key then some (writePcr pts) else none
  := by
  rw [writeLoop] at hhead
  split at hhead
  · have hlow : ((w.cc + 1) &&& 0xf).toNat < 16
      := by
      have hcc := toNat_cc w.cc
      omega
    obtain ⟨packet, rest, len, adaptation, hwrite, -, -, ⟨hcontents, -⟩, hpcr⟩ :=
      writePacket_carries (w := { w with cc := (w.cc + 1) &&& 0xf }) hlow streamId true key pts dts
        (Nat.le_of_eq hsize)
    simp only [hwrite] at hhead
    cases hhead
    exact ⟨adaptation, _, hcontents, times_pesHeader streamId size pts dts _, hpcr⟩
  · cases hhead

end PesWriter

/-! ### Packets -/

/-- An FLV tag with an AVC packet that is coded: no command and no sequence header. -/
structure AvcTag where
  first : UInt8
  type : UInt8
  offset : Int
  data : List UInt8
  codec : first &&& 0x0f = kVideoCodecIDAVC
  frame : (first &&& 0xf0) >>> 4 ≠ 5
  coded : type ≠ 0
  fits : -2 ^ 23 ≤ offset ∧ offset < 2 ^ 23

namespace AvcTag

/-- The 24 bits of the offset. -/
def code (tag : AvcTag) : Nat := (tag.offset % 2 ^ 24).toNat

/-- The bytes of the tag. -/
def bytes (tag : AvcTag) : List UInt8 :=
  tag.first :: tag.type :: (beBytes 3 tag.code ++ tag.data)

theorem code_lt (tag : AvcTag) :
  tag.code < 2 ^ 24
  := by
  rw [code]
  omega

/-- A negative offset is `2 ^ 24` too late. -/
theorem code_cases (tag : AvcTag) :
  0 ≤ tag.offset ∧ (tag.code : Int) = tag.offset ∨
    tag.offset < 0 ∧ (tag.code : Int) = tag.offset + 2 ^ 24
  := by
  obtain ⟨hle, hlt⟩ := tag.fits
  rw [code]
  omega

end AvcTag

namespace VideoDemux

/-- The codec and the composition time stay while NAL units are taken. -/
theorem decodeAvcNalu_time {d d' : VideoDemux} {data : List UInt8} {outs outs' : List SampleBuf}
    {ret : Int} (h : d.decodeAvcNalu data outs = some (d', outs', ret)) :
  d'.codecId = d.codecId ∧ d'.compositionTime = d.compositionTime
  := by
  apply @decodeAvcNalu_keeps d d'
    (fun d' _ => d'.codecId = d.codecId ∧ d'.compositionTime = d.compositionTime) _ _ data outs
    outs' ret ⟨rfl, rfl⟩ h
  · intro d₁ d₂ _ _ _ _ _ hsame hfound
    obtain ⟨_, _, _, _, rfl⟩ := nalu_eq hfound
    exact hsame
  · exact fun _ hsame => hsame

/-- The offset is read without its sign. -/
theorem onDemux_time {d d' : VideoDemux} (tag : AvcTag) {outs : List SampleBuf} {ret : Int}
    (h : d.onDemux tag.bytes = some (d', outs, ret)) :
  d'.codecId = kVideoCodecIDAVC ∧ d'.compositionTime = tag.code
  := by
  have hlt := tag.code_lt
  have hthree : (beBytes 3 tag.code ++ tag.data).take 3 = beBytes 3 tag.code
    := List.take_left' (length_beBytes 3 _)
  have hnat : (UInt32.ofNat tag.code).toNat = tag.code
    := by
    rw [UInt32.toNat_ofNat']
    omega
  have hread : int32 (BytesReader.readUint24T (beBytes 3 tag.code ++ tag.data)) = tag.code
    := by
    rw [BytesReader.readUint24T, hthree, beNat_beBytes_of_lt hlt, int32_of_lt (by omega), hnat]
  have hfirst : tag.bytes.getD 0 0 = tag.first := rfl
  have hsecond : tag.bytes.getD 1 0 = tag.type := rfl
  have hlength : ¬ tag.bytes.length < 5
    := by
    rw [AvcTag.bytes, List.length_cons, List.length_cons, List.length_append, length_beBytes]
    omega
  rw [onDemux, if_neg (by omega)] at h
  dsimp only at h
  rw [hfirst, if_neg (not_not_intro tag.codec), demuxAVC] at h
  dsimp only at h
  rw [hfirst, hsecond, if_neg tag.frame, if_neg hlength, if_neg tag.coded] at h
  split at h
  · obtain ⟨hcodec, htime⟩ := decodeAvcNalu_time h
    exact ⟨hcodec.trans tag.codec, htime.trans hread⟩
  · cases h
    exact ⟨tag.codec, hread⟩

end VideoDemux

/-! ### What is written -/

variable {ε : Type}

/-- The first packet that is written. -/
def firstWritten (calls : List WriterCall) : Option (List UInt8) :=
  calls.findSome? fun
    | .write piece => some piece.bytes
    | .appendTimeStamp _ => none

theorem firstWritten_writes (codec : Option Codec) (dts : Int) (packets : List (List UInt8)) :
  firstWritten (.appendTimeStamp dts :: writes codec packets) = packets.head?
  := by
  cases packets with
  | nil => rfl
  | cons bytes packets => rfl

/-- The times in a packet, and the clock if there is a reference. -/
def timesOf (bytes : List UInt8) : Option (PesTimes × Option Nat) := do
  let (adaptation, payload) ← contents bytes
  let times ← PesTimes.parse payload
  some (times, (adaptation.bind AdaptationField.pcr).bind parsePcr)

/-- The times in the first packet are those of a frame at some time in milliseconds, presented at
an offset: one is left out only without an offset, and the clock of a key frame is not after the
time of decoding. -/
def Timed (bytes : List UInt8) (key : Bool) (dts offset : Int) : Prop :=
  ∃ read ∈ timesOf bytes,
    (read.1.pts = 90 * (dts + offset) % 2 ^ 33 ∧ read.1.decoding = 90 * dts % 2 ^ 33 ∧
      (read.1.dts = none → offset = 0)) ∧
    (key = true → ∃ clock ∈ read.2, NotAfter clock read.1.decoding)

instance (bytes : List UInt8) (key : Bool) (dts offset : Int) :
    Decidable (Timed bytes key dts offset) :=
  inferInstanceAs (Decidable (∃ read ∈ timesOf bytes,
    (read.1.pts = 90 * (dts + offset) % 2 ^ 33 ∧ read.1.decoding = 90 * dts % 2 ^ 33 ∧
      (read.1.dts = none → offset = 0)) ∧
    (key = true → ∃ clock ∈ read.2, NotAfter clock read.1.decoding)))

/-- The time of presentation is right if the offset is not negative. -/
theorem AvcTag.same_time_iff (tag : AvcTag) (dts : Int) :
  90 * (dts + tag.code) % 2 ^ 33 = 90 * (dts + tag.offset) % 2 ^ 33 ↔ 0 ≤ tag.offset
  := by
  rcases tag.code_cases with ⟨hle, hcode⟩ | ⟨hlt, hcode⟩
  · rw [hcode]
    exact iff_of_true rfl hle
  · have hlate : 90 * (dts + tag.code) = 90 * (dts + tag.offset) + 90 * 2 ^ 24 := by omega
    rw [hlate]
    generalize 90 * (dts + tag.offset) = time
    omega

/-- A clock that is late, by less than the code of an offset can be, is after the time. -/
theorem notAfter_iff (dts : Int) {late : Nat} (hlate : late < 2 ^ 24) :
  NotAfter (300 * (90 * (dts + late) % 2 ^ 33).toNat) (90 * dts % 2 ^ 33).toNat ↔ late = 0
  := by
  have hclock : 90 * (dts + late) % 2 ^ 33 = 90 * dts % 2 ^ 33 + 90 * late ∨
      90 * (dts + late) % 2 ^ 33 = 90 * dts % 2 ^ 33 + 90 * late - 2 ^ 33
    := by
    omega
  have htime : 0 ≤ 90 * dts % 2 ^ 33 := by omega
  have hpos : 0 ≤ 90 * (dts + late) % 2 ^ 33 := by omega
  generalize 90 * (dts + late) % 2 ^ 33 = clock at hclock hpos
  generalize 90 * dts % 2 ^ 33 = time at hclock htime
  have hticks : 300 * (time.toNat : Int) - (300 * clock.toNat : Nat) = 300 * (time - clock)
    := by
    omega
  have hlag : (time - clock) % 2 ^ 33 = if late = 0 then 0 else 2 ^ 33 - 90 * (late : Int)
    := by
    split
    · omega
    · omega
  rw [NotAfter, hticks, Int.mul_emod_mul_of_pos _ _ (by decide), hlag]
  split
  · exact iff_of_true (by decide) (by assumption)
  · omega

namespace VideoEncoder

/-- The times in the first packet of an access unit. -/
theorem encodeAvc_times {e : VideoEncoder} {late : Nat} (htime : e.demux.compositionTime = late)
    {writer : StreamWriter} {list : List SampleBuf} {key : Bool} {dts : Int} {bytes : List UInt8}
    (hhead : (e.encodeAvc writer list key (dts * 90)).2.2.head? = some bytes) :
  timesOf bytes = some (⟨(90 * (dts + late) % 2 ^ 33).toNat,
      if late = 0 then none else some (90 * dts % 2 ^ 33).toNat⟩,
    if key then some (300 * (90 * (dts + late) % 2 ^ 33).toNat) else none)
  := by
  have hcounted := counted_pushSamples e.demux writer (counted_startSamples e.demux) list
  have hpts : (if e.demux.compositionTime > 0 then dts * 90 + e.demux.compositionTime * 90
      else dts * 90) = 90 * (dts + late)
    := by
    rw [htime]
    split
    · omega
    · omega
  rw [encodeAvc] at hhead
  dsimp only at hhead
  rw [hpts] at hhead
  obtain ⟨adaptation, payload, hcontents, htimes, hpcr⟩ := PesWriter.writeLoop_head hcounted hhead
  rw [timesOf, hcontents]
  dsimp only [Option.bind_eq_bind, Option.bind_some]
  rw [htimes, hpcr]
  dsimp only [Option.bind_some]
  congr 2
  · have hsame : 90 * (dts + (late : Int)) = dts * 90 ↔ late = 0 := by omega
    rw [Int.mul_comm 90 dts]
    simp only [hsame]
  · cases key with
    | false => rfl
    | true => exact PesWriter.parsePcr_writePcr _

/-- The times that are written: that of presentation is late by the code of the offset. -/
theorem encodeVideo_times {e e' : VideoEncoder} {data : Packet ε} {tag : AvcTag}
    (hdata : data.payload = tag.bytes) {writer writer' : StreamWriter} {key : Bool} {dts : Int}
    {calls : List WriterCall} {ret : Int}
    (hencode : e.encodeVideo writer key data dts = some (e', writer', calls, ret))
    {bytes : List UInt8} (hfirst : firstWritten calls = some bytes) :
  timesOf bytes = some (⟨(90 * (dts + tag.code) % 2 ^ 33).toNat,
      if tag.code = 0 then none else some (90 * dts % 2 ^ 33).toNat⟩,
    if key then some (300 * (90 * (dts + tag.code) % 2 ^ 33).toNat) else none)
  := by
  rw [encodeVideo, hdata] at hencode
  cases hdemux : e.demux.onDemux tag.bytes with
  | none =>
      rw [hdemux] at hencode
      cases hencode
  | some r =>
      obtain ⟨demux, list, ret'⟩ := r
      obtain ⟨hcodec, htime⟩ := VideoDemux.onDemux_time tag hdemux
      rw [hdemux] at hencode
      dsimp only at hencode
      rw [if_pos hcodec] at hencode
      split at hencode
      · cases hencode
        cases hfirst
      · split at hencode
        · cases hencode
          cases hfirst
        · cases hencode
          rw [firstWritten_writes] at hfirst
          exact encodeAvc_times htime hfirst

/-- What is written has the times of the packet if the offset is not negative, and there is none
with a key frame. -/
theorem timed_iff {e e' : VideoEncoder} {data : Packet ε} {tag : AvcTag}
    (hdata : data.payload = tag.bytes) {writer writer' : StreamWriter} {key : Bool} {dts : Int}
    {calls : List WriterCall} {ret : Int}
    (hencode : e.encodeVideo writer key data dts = some (e', writer', calls, ret))
    {bytes : List UInt8} (hfirst : firstWritten calls = some bytes) :
  Timed bytes key dts tag.offset ↔ 0 ≤ tag.offset ∧ (key = true → tag.offset = 0)
  := by
  have htimes := encodeVideo_times hdata hencode hfirst
  have hsame := tag.same_time_iff dts
  have hafter := notAfter_iff dts tag.code_lt
  have hzero : 0 ≤ tag.offset → (tag.code = 0 ↔ tag.offset = 0)
    := by
    intro hle
    rcases tag.code_cases with ⟨-, hcode⟩ | ⟨hlt, -⟩
    · omega
    · omega
  have hpos : ∀ time : Int, ((time % 2 ^ 33).toNat : Int) = time % 2 ^ 33
    := by
    intro time
    omega
  have hdecoding : PesTimes.decoding ⟨(90 * (dts + tag.code) % 2 ^ 33).toNat,
      if tag.code = 0 then none else some (90 * dts % 2 ^ 33).toNat⟩ = (90 * dts % 2 ^ 33).toNat
    := by
    rw [PesTimes.decoding]
    split
    · rename_i hcode
      rw [hcode, show ((0 : Nat) : Int) = 0 from rfl, Int.add_zero]
      rfl
    · rfl
  rw [Timed, htimes]
  constructor
  · rintro ⟨read, hread, ⟨hpts, -, -⟩, hclock⟩
    cases hread
    rw [hpos, hsame] at hpts
    refine ⟨hpts, ?_⟩
    intro hkey
    obtain ⟨clock, hmem, hnot⟩ := hclock hkey
    rw [if_pos hkey] at hmem
    cases hmem
    rw [hdecoding] at hnot
    exact (hzero hpts).mp (hafter.mp hnot)
  · rintro ⟨hle, hkey⟩
    refine ⟨_, rfl, ⟨?_, ?_, ?_⟩, ?_⟩
    · rw [hpos, hsame]
      exact hle
    · rw [hdecoding, hpos]
    · intro hnone
      by_contra hoffset
      rw [if_neg fun hcode => hoffset ((hzero hle).mp hcode)] at hnone
      cases hnone
    · intro htrue
      rw [if_pos htrue]
      refine ⟨_, rfl, ?_⟩
      rw [hdecoding]
      exact hafter.mpr ((hzero hle).mpr (hkey htrue))

/-- A tag with a slice, presented at some offset. -/
def slice (first : UInt8) (offset : Int) (codec : first &&& 0x0f = kVideoCodecIDAVC)
    (frame : (first &&& 0xf0) >>> 4 ≠ 5) (fits : -2 ^ 23 ≤ offset ∧ offset < 2 ^ 23) : AvcTag where
  first := first
  type := 1
  offset := offset
  data := [0x00, 0x00, 0x00, 0x02, 0x41, 0x9a]
  codec := codec
  frame := frame
  coded := by decide
  fits := fits

/-- A packet with such a tag. -/
def slicePacket (tag : AvcTag) : Packet Unit where
  size := 11
  capacity := 11
  data := tag.bytes
  ext := ()

/-- What is written of a tag at one second. -/
def written (tag : AvcTag) (key : Bool) :
    Option (VideoEncoder × StreamWriter × List WriterCall × Int) :=
  ({ demux := { naluUnitLength := 3, hasBFrame := true } } : VideoEncoder).encodeVideo {} key
    (slicePacket tag) 1000

theorem timed_iff_late :
  ∃ r ∈ written (slice 0x27 40 (by decide) (by decide) (by decide)) false,
    ∃ bytes ∈ firstWritten r.2.2.1,
      (Timed bytes false 1000 40 ↔ 0 ≤ (40 : Int) ∧ (false = true → (40 : Int) = 0))
  := by
  have hrun : ∃ r ∈ written (slice 0x27 40 (by decide) (by decide) (by decide)) false,
      ∃ bytes ∈ firstWritten r.2.2.1, bytes.length = 188
    := by decide +kernel
  have hdata : (slicePacket (slice 0x27 40 (by decide) (by decide) (by decide))).payload =
      (slice 0x27 40 (by decide) (by decide) (by decide)).bytes
    := rfl
  obtain ⟨r, hwritten, bytes, hfirst, -⟩ := hrun
  exact ⟨r, hwritten, bytes, hfirst, timed_iff hdata hwritten hfirst⟩

/-- A frame that is presented 40 milliseconds before it is decoded, and a key frame that is
presented after it is decoded. -/
theorem not_timed_early :
  (∃ r ∈ written (slice 0x27 (-40) (by decide) (by decide) (by decide)) false,
    ∃ bytes ∈ firstWritten r.2.2.1, ¬ Timed bytes false 1000 (-40)) ∧
  (∃ r ∈ written (slice 0x17 40 (by decide) (by decide) (by decide)) true,
    ∃ bytes ∈ firstWritten r.2.2.1, ¬ Timed bytes true 1000 40)
  := by decide +kernel

end VideoEncoder
