import Tmms.Demux.Reading

/-!
# Bounds of what is demultiplexed

Every byte that is read of an audio tag is inside of it, except that the type of an AAC packet is
taken from the second byte when there is only one.

Of a video tag the bytes behind the first are read before the size is looked at, and where NAL units
stand behind their lengths, the loop does not look whether a length is whole before it takes it away
from the size.  Only one more read leaves the tag: the type of a slice is two codes behind the first
byte, and if the last byte of the tag prevents emulation and the codes are not whole before it, the
byte behind the tag is read (`Overruns`).
-/

open BytesReader ExpGolomb NalBitStream

/-- A call returns, what it reads is inside of the data, and so are the samples. -/
def Within {D : Type} (data : List UInt8) (result : Except ReadFault (D × List Extent × Int)) :
    Prop :=
  ∃ d outs ret, result = .ok (d, outs, ret) ∧ ∀ e ∈ outs, e.Inside data

theorem byteAt_of_lt {data : List UInt8} {pos : Nat} (h : pos < data.length) :
  byteAt data pos = .ok (data.getD pos 0)
  := by
  rw [byteAt, List.getD_eq_getElem?_getD, List.getElem?_eq_getElem h]
  rfl

theorem byteAt_of_le {data : List UInt8} {pos : Nat} (h : data.length ≤ pos) :
  byteAt data pos = .error .outside
  := by rw [byteAt, List.getElem?_eq_none h]

theorem readAt_of_le {data : List UInt8} {pos n : Nat} (h : pos + n ≤ data.length) :
  readAt data pos n = .ok ((data.drop pos).take n)
  := if_pos h

theorem readAt_of_lt {data : List UInt8} {pos n : Nat} (h : data.length < pos + n) :
  readAt data pos n = .error .outside
  := if_neg (Nat.not_le.mpr h)

theorem subSize_of_le {a b : Nat} (h : b ≤ a) :
  subSize a b = a - b
  := if_pos h

theorem toInt32_le (n : Nat) :
  toInt32 n ≤ n
  := by
  rw [toInt32, Int.bmod_eq_emod]
  omega

/-! ### Audio -/

namespace AudioDemux

/-- What is read of an audio tag, and the samples, are inside of it. -/
def InBounds (d : AudioDemux) (data : List UInt8) : Prop := Within data (d.onDemuxWithin data)

/-- A stream in the first two bytes, of which none is left out, and the number of bits that were
read. -/
structure AtStart (s : NalBitStream) (k : Nat) : Prop where
  data : 2 ≤ s.data.length
  len : 2 ≤ s.len
  read : 8 * s.byteIdx = s.bitsCount + k

theorem AtStart.getBit {s : NalBitStream} {k : Nat} (h : AtStart s k) (hk : k < 16) :
  ∃ b s', s.getBit = some (b, s') ∧ AtStart s' (k + 1)
  := by
  obtain ⟨hdata, hlen, hread⟩ := h
  rw [NalBitStream.getBit]
  dsimp only
  by_cases hnone : s.bitsCount = 0
  · have hidx : s.byteIdx < 2 := by omega
    have hin : s.byteIdx < s.data.length := by omega
    have hno : s.isPrevention = false
      := by
      rw [isPrevention, decide_eq_false (show ¬ 2 ≤ s.byteIdx by omega), Bool.and_false,
        Bool.false_and, Bool.false_and]
    have hbyte : s.getByte = some (s.data[s.byteIdx], { s with byteIdx := s.byteIdx + 1 })
      := by
      rw [getByte, if_neg (show ¬ s.len ≤ s.byteIdx by omega), if_pos hin, hno]
      dsimp only
      rw [if_neg Bool.false_ne_true, List.getElem?_eq_getElem hin]
    rw [if_pos hnone, hbyte]
    refine ⟨_, _, rfl, hdata, hlen, ?_⟩
    change 8 * (s.byteIdx + 1) = 7 + (k + 1)
    omega
  · rw [if_neg hnone]
    refine ⟨_, _, rfl, hdata, hlen, ?_⟩
    change 8 * s.byteIdx = s.bitsCount - 1 + (k + 1)
    omega

theorem AtStart.getWord {s : NalBitStream} {k bits : Nat} (h : AtStart s k)
  (hbits : k + bits ≤ 16) :
  ∃ u s', s.getWord bits = some (u, s') ∧ AtStart s' (k + bits)
  := by
  rw [NalBitStream.getWord]
  generalize (0 : UInt16) = u
  induction bits generalizing s k u with
  | zero => exact ⟨u, s, rfl, h⟩
  | succ bits ih =>
      obtain ⟨b, s₁, hbit, h₁⟩ := h.getBit (by omega)
      obtain ⟨u', s', hword, h'⟩ := ih h₁ (by omega) (u <<< 1 ||| b.toUInt16)
      rw [getWordLoop, hbit]
      refine ⟨u', s', hword, ?_⟩
      rwa [Nat.add_assoc, Nat.add_comm 1] at h'

theorem AtStart.aacFields {s : NalBitStream} (h : AtStart s 0) (d : AudioDemux) :
  ∃ d', d.aacFields s = some d'
  := by
  obtain ⟨object, s₁, hobject, h₁⟩ := h.getWord (show 0 + 5 ≤ 16 by decide)
  obtain ⟨rate, s₂, hrate, h₂⟩ := h₁.getWord (show 0 + 5 + 4 ≤ 16 by decide)
  obtain ⟨channel, s₃, hchannel, -⟩ := h₂.getWord (show 0 + 5 + 4 + 4 ≤ 16 by decide)
  rw [AudioDemux.aacFields, hobject, Option.bind_eq_bind, Option.bind_some]
  dsimp only
  rw [hrate, Option.bind_some]
  dsimp only
  rw [hchannel, Option.bind_some]
  exact ⟨_, rfl⟩

theorem aacSequenceHeaderWithin_ok (d : AudioDemux) (data : List UInt8) {pos size : Nat}
  (h : pos + size = data.length) :
  ∃ d' ret, d.aacSequenceHeaderWithin data pos size = .ok (d', ret)
  := by
  have hle := toInt32_le size
  rw [aacSequenceHeaderWithin]
  generalize toInt32 (size : Int) = len at hle ⊢
  split
  case isTrue => exact ⟨_, _, rfl⟩
  case isFalse hlen =>
    have hdrop : 2 ≤ (data.drop pos).length
      := by
      rw [List.length_drop]
      omega
    have hstart : AtStart { data := data.drop pos, len := len } 0
      := ⟨hdrop, Int.not_lt.mp hlen, rfl⟩
    obtain ⟨d', hfields⟩ := hstart.aacFields d
    rw [hfields]
    exact ⟨_, _, rfl⟩

/-- The type of an AAC packet is looked for in the second byte. -/
theorem demuxAACWithin_iff (d : AudioDemux) {data : List UInt8} (hdata : 1 ≤ data.length) :
  Within data (d.demuxAACWithin data data.length) ↔ data.length ≠ 1
  := by
  rw [demuxAACWithin]
  by_cases hone : data.length = 1
  · rw [byteAt_of_le (Nat.le_of_eq hone)]
    constructor
    · rintro ⟨_, _, _, hok, -⟩
      cases hok
    · intro hne
      cases hne hone
  · apply iff_of_true _ hone
    have htwo : 2 ≤ data.length := by omega
    rw [byteAt_of_lt (show 1 < data.length by omega)]
    change Within data (if _ then _ else _)
    split
    · rw [subSize_of_le htwo]
      split
      · obtain ⟨d', ret, hheader⟩ :=
          d.aacSequenceHeaderWithin_ok data (show 2 + (data.length - 2) = data.length by omega)
        rw [readAt_of_le (show 2 + (data.length - 2) ≤ data.length by omega), hheader]
        exact ⟨_, _, _, rfl, nofun⟩
      · exact ⟨_, _, _, rfl, nofun⟩
    · split
      · split
        · exact ⟨_, _, _, rfl, nofun⟩
        · refine ⟨_, _, _, rfl, fun e he => ?_⟩
          rw [List.mem_singleton.mp he, Extent.Inside, subSize_of_le htwo]
          exact Nat.le_of_eq (Nat.add_sub_of_le htwo)
      · exact ⟨_, _, _, rfl, nofun⟩

/-- A tag of one byte is the only one that is read beyond its end. -/
theorem inBounds (d : AudioDemux) (data : List UInt8) :
  d.InBounds data ↔ ¬ (data.length = 1 ∧ data.getD 0 0 >>> 4 &&& 0x0f = kAudioCodecIDAAC)
  := by
  rw [InBounds, onDemuxWithin]
  dsimp only
  split
  case isTrue hnone =>
    apply iff_of_true ⟨_, _, _, rfl, nofun⟩
    rintro ⟨hone, -⟩
    omega
  case isFalse hsome =>
    have hpos : 1 ≤ data.length := by omega
    rw [byteAt_of_lt hpos]
    change Within data (if _ then _ else _) ↔ _
    split
    case isTrue hformat =>
      apply iff_of_true
      · refine ⟨_, _, _, rfl, fun e he => ?_⟩
        rw [List.mem_singleton.mp he, Extent.Inside, subSize_of_le hpos]
        exact Nat.le_of_eq (Nat.add_sub_of_le hpos)
      · rintro ⟨-, hAAC⟩
        cases hformat.symm.trans hAAC
    case isFalse =>
      split
      case isTrue hformat =>
        rw [demuxAACWithin_iff _ hpos]
        exact ⟨fun hne h => hne h.1, fun h hone => h ⟨hone, hformat⟩⟩
      case isFalse hformat =>
        exact iff_of_true ⟨_, _, _, rfl, nofun⟩ fun h => hformat h.2

end AudioDemux

/-! ### The type of a slice -/

namespace VideoDemux

/-- A NAL unit of a slice that ends with a byte that prevents emulation, and has less than two whole
codes before.  Sizes from 2^31 on are no sizes of a stream. -/
def CutsShort : List UInt8 → Prop
  | [] => False
  | b :: payload =>
      (b &&& 0x1f = 5 ∨ b &&& 0x1f = 1 ∨ b &&& 0x1f = 2) ∧ payload.length < 2 ^ 31 ∧
        prevents payload (payload.length - 1) = true ∧
          (behind ((unescape payload).flatMap (lastBits · 8))).bind behind = none

/-- `CheckBFrame` with turns enough. -/
def isBFrame (bytes : Nat) (data : List UInt8) : Bool :=
  (checkBFrameWithin (8 * data.length + 9) bytes data).toOption.getD false

theorem length_pos_of_prevents {data : List UInt8} (h : prevents data (data.length - 1) = true) :
  2 < data.length
  := by
  rw [prevents, Bool.and_eq_true, Bool.and_eq_true, Bool.and_eq_true, decide_eq_true_eq] at h
  have htwo := h.1.1.2
  omega

/-- The last byte is left out. -/
theorem unescape_of_last {data : List UInt8} (h : prevents data (data.length - 1) = true) :
  unescape data = unescapeFrom data 0 (data.length - 1)
  := by
  have hpos := length_pos_of_prevents h
  obtain ⟨n, hn⟩ := Nat.exists_eq_add_of_lt (show 0 < data.length by omega)
  have hlast : prevents data n = true
    := by
    rwa [hn, Nat.zero_add, Nat.add_sub_cancel] at h
  rw [unescape, hn, Nat.zero_add, Nat.add_sub_cancel, unescapeFrom, unescapeFrom,
    List.range'_1_concat, List.filter_append, Nat.zero_add, List.filter_singleton, hlast]
  exact congrArg _ (List.append_nil _)

/-- The length of the stream of a NAL unit. -/
theorem streamSize {bytes : Nat} (h : bytes < 2 ^ 32) :
  (toInt32 (subSize bytes 1) = (bytes : Int) - 1 ∧ 0 < bytes ∧ bytes ≤ 2 ^ 31) ∨
    ((toInt32 (subSize bytes 1)).toNat = 0 ∧ (bytes = 0 ∨ 2 ^ 31 < bytes))
  := by
  by_cases hnone : bytes = 0
  · right
    subst hnone
    exact ⟨by decide, Or.inl rfl⟩
  · have hsize : subSize bytes 1 = bytes - 1 := subSize_of_le (by omega)
    by_cases hfits : bytes ≤ 2 ^ 31
    · left
      rw [hsize, toInt32_of_fits (by omega) (by omega)]
      omega
    · right
      rw [hsize, toInt32, Int.bmod_eq_emod]
      split <;> omega

theorem length_bits_le (data : List UInt8) (i n : Nat) :
  ((unescapeFrom data i n).flatMap (lastBits · 8)).length ≤ 8 * n
  := by
  have hbytes : (unescapeFrom data i n).length ≤ n
    := by
    rw [unescapeFrom, List.length_map]
    apply Nat.le_trans (List.length_filter_le _ _)
    rw [List.length_range']
  have hlength (b : UInt8) : (lastBits b 8).length = 8 := rfl
  rw [List.length_flatMap, List.map_congr_left (fun b _ => hlength b), List.map_const',
    List.sum_replicate_nat]
  omega

/-- The stream of a slice. -/
def sliceStream (payload : List UInt8) (bytes : Nat) : NalBitStream :=
  { data := payload, len := toInt32 (subSize bytes 1) }

theorem checkBFrameWithin_slice {b : UInt8}
  (htype : b &&& 0x1f = 5 ∨ b &&& 0x1f = 1 ∨ b &&& 0x1f = 2) (payload : List UInt8)
  (turns bytes : Nat) :
  checkBFrameWithin turns bytes (b :: payload) =
    ((sliceStream payload bytes).getUEWithin turns >>= fun first =>
      first.2.getUEWithin turns >>= fun second => .ok (decide (second.1 = 1 ∨ second.1 = 6)))
  := if_pos htype

/-- Both codes of a stream are read. -/
theorem checkBFrameWithin_fits {b : UInt8} {payload : List UInt8} {bytes : Nat}
  (hfits : (sliceStream payload bytes).Fits) {turns : Nat}
  (hturns : 8 * (sliceStream payload bytes).len.toNat + 8 < turns) :
  ∃ found, checkBFrameWithin turns bytes (b :: payload) = .ok found
  := by
  by_cases htype : b &&& 0x1f = 5 ∨ b &&& 0x1f = 1 ∨ b &&& 0x1f = 2
  · obtain ⟨code, s₁, hfirst, hfits₁, hlen⟩ := hfits.getUEWithin hturns
    rw [← hlen] at hturns
    obtain ⟨code', s₂, hsecond, -, -⟩ := hfits₁.getUEWithin hturns
    rw [checkBFrameWithin_slice htype, hfirst]
    change ∃ found, (s₁.getUEWithin turns >>= _) = _
    rw [hsecond]
    exact ⟨_, rfl⟩
  · exact ⟨false, if_neg htype⟩

/-- A stream that cuts short is not read, and one that ends with whole codes is. -/
theorem checkBFrameWithin_atEnd {b : UInt8}
  (htype : b &&& 0x1f = 5 ∨ b &&& 0x1f = 1 ∨ b &&& 0x1f = 2) {payload : List UInt8} {bytes : Nat}
  (hend : (sliceStream payload bytes).AtEnd) :
  ((behind (sliceStream payload bytes).rest).bind behind = none ∧
      ∀ turns found, checkBFrameWithin turns bytes (b :: payload) ≠ .ok found) ∨
    ((behind (sliceStream payload bytes).rest).bind behind ≠ none ∧
      ∀ turns, (sliceStream payload bytes).rest.length < turns →
        ∃ found, checkBFrameWithin turns bytes (b :: payload) = .ok found)
  := by
  simp only [checkBFrameWithin_slice htype]
  cases hfirst : behind (sliceStream payload bytes).rest with
  | none =>
      left
      refine ⟨rfl, fun turns found => ?_⟩
      cases hread : (sliceStream payload bytes).getUEWithin turns with
      | error fault => rintro ⟨⟩
      | ok r => cases hend.getUEWithin_ne_ok hfirst turns r hread
  | some bits =>
      rw [Option.bind_some]
      have hmore : bits.length < (sliceStream payload bytes).rest.length
        := by
        rw [behind] at hfirst
        split at hfirst
        case isTrue hle =>
          rw [← Option.some.inj hfirst, List.length_drop]
          omega
        case isFalse => cases hfirst
      cases hsecond : behind bits with
      | none =>
          left
          refine ⟨rfl, fun turns found => ?_⟩
          cases hread : (sliceStream payload bytes).getUEWithin turns with
          | error fault => rintro ⟨⟩
          | ok r =>
              obtain ⟨code, s₁, hmany, hend₁, hrest₁⟩ := hend.getUEWithin hfirst
                (show _ < turns + ((sliceStream payload bytes).rest.length + 1) by omega)
              rw [getUEWithin_mono hread (Nat.le_add_right _ _)] at hmany
              injection hmany with hr
              change (r.2.getUEWithin turns >>= _) ≠ _
              rw [hr]
              cases hread' : s₁.getUEWithin turns with
              | error fault => rintro ⟨⟩
              | ok r' => cases hend₁.getUEWithin_ne_ok (hrest₁ ▸ hsecond) turns r' hread'
      | some bits' =>
          right
          refine ⟨Option.some_ne_none bits', fun turns hturns => ?_⟩
          obtain ⟨code, s₁, hread, hend₁, hrest₁⟩ := hend.getUEWithin hfirst hturns
          rw [← hrest₁] at hsecond hmore
          obtain ⟨code', s₂, hread', -, -⟩ := hend₁.getUEWithin hsecond (Nat.lt_trans hmore hturns)
          rw [hread]
          change ∃ found, (s₁.getUEWithin turns >>= _) = _
          rw [hread']
          exact ⟨_, rfl⟩

theorem sliceStream_len_eq (payload : List UInt8) (bytes : Nat) :
  (sliceStream payload bytes).len = toInt32 (subSize bytes 1)
  := by rw [sliceStream]

/-- The sizes that a stream is read with are those of the bytes, or none are read. -/
theorem sliceStream_len {payload : List UInt8} {bytes : Nat} (hbytes : bytes < 2 ^ 32) :
  ((sliceStream payload bytes).len.toNat = bytes - 1 ∧ bytes ≤ 2 ^ 31) ∨
    (sliceStream payload bytes).len.toNat = 0
  := by
  rw [sliceStream_len_eq]
  obtain ⟨hlen, hpos, hfits⟩ | ⟨hlen, -⟩ := streamSize hbytes
  · left
    rw [hlen]
    omega
  · right
    exact hlen

theorem sliceStream_fits {payload : List UInt8} {bytes : Nat} (hle : bytes ≤ payload.length + 1)
  (hbytes : bytes < 2 ^ 32)
  (hlast : ¬ (bytes = payload.length + 1 ∧ bytes ≤ 2 ^ 31 ∧
    prevents payload (payload.length - 1) = true)) :
  (sliceStream payload bytes).Fits
  := by
  have hlen := @sliceStream_len payload bytes hbytes
  constructor
  · exact Nat.zero_le 8
  · intro i hi
    change i < payload.length
    omega
  · intro i hi hprevents
    change i + 1 < payload.length
    by_cases hbehind : i + 1 < payload.length
    · exact hbehind
    · exfalso
      have hi' : i = payload.length - 1 := by omega
      apply hlast
      refine ⟨by omega, by omega, ?_⟩
      rw [← hi']
      exact hprevents

theorem sliceStream_atEnd {payload : List UInt8} {bytes : Nat} (hwhole : bytes = payload.length + 1)
  (hsize : bytes ≤ 2 ^ 31) (hprevents : prevents payload (payload.length - 1) = true) :
  (sliceStream payload bytes).AtEnd
  := by
  have hpos := length_pos_of_prevents hprevents
  have hlen : (sliceStream payload bytes).len = payload.length
    := by
    rw [sliceStream_len_eq]
    obtain ⟨hlen, -, -⟩ | ⟨-, hnot⟩ := streamSize (show bytes < 2 ^ 32 by omega)
    · rw [hlen]
      omega
    · omega
  constructor
  · exact Nat.zero_le 8
  · exact hlen
  · change 0 < payload.length
    omega
  · exact hprevents

/-- `CheckBFrame` fails exactly of slices that cut short at the end of the data. -/
theorem checkBFrame_cases {data : List UInt8} (hdata : data ≠ []) {bytes : Nat}
  (hle : bytes ≤ data.length) (hbytes : bytes < 2 ^ 32) :
  (bytes = data.length ∧ CutsShort data ∧ ∀ turns b, checkBFrameWithin turns bytes data ≠ .ok b) ∨
    (¬ (bytes = data.length ∧ CutsShort data) ∧ ∀ turns, 8 * data.length + 8 < turns →
      ∃ b, checkBFrameWithin turns bytes data = .ok b)
  := by
  cases data with
  | nil => cases hdata rfl
  | cons b payload =>
      rw [List.length_cons] at hle
      by_cases htype : b &&& 0x1f = 5 ∨ b &&& 0x1f = 1 ∨ b &&& 0x1f = 2
      case neg =>
        right
        refine ⟨fun h => htype h.2.1, fun turns _ => ⟨false, ?_⟩⟩
        rw [checkBFrameWithin]
        exact if_neg htype
      case pos =>
        by_cases hlast : bytes = payload.length + 1 ∧ bytes ≤ 2 ^ 31 ∧
            prevents payload (payload.length - 1) = true
        case neg =>
          right
          have hfits := sliceStream_fits hle hbytes hlast
          constructor
          · rintro ⟨hwhole, -, hsize, hprevents, -⟩
            rw [List.length_cons] at hwhole
            exact hlast ⟨hwhole, by omega, hprevents⟩
          · intro turns hturns
            apply checkBFrameWithin_fits hfits
            have hlen := @sliceStream_len payload bytes hbytes
            rw [List.length_cons] at hturns
            omega
        case pos =>
          obtain ⟨hwhole, hsize, hprevents⟩ := hlast
          have hend := sliceStream_atEnd hwhole hsize hprevents
          have hrest : (sliceStream payload bytes).rest =
              (unescape payload).flatMap (lastBits · 8)
            := by
            rw [unescape_of_last hprevents]
            rfl
          have hbits := length_bits_le payload 0 (payload.length - 1)
          rw [← unescape_of_last hprevents, ← hrest] at hbits
          obtain ⟨hnone, hfail⟩ | ⟨hsome, hok⟩ := checkBFrameWithin_atEnd htype hend
          · left
            rw [hrest] at hnone
            exact ⟨hwhole, ⟨htype, by omega, hprevents, hnone⟩, hfail⟩
          · right
            rw [hrest] at hsome
            refine ⟨fun h => hsome h.2.2.2.2, fun turns hturns => hok turns ?_⟩
            rw [List.length_cons] at hturns
            omega

theorem checkBFrameWithin_mono {data : List UInt8} {n m bytes : Nat} {b : Bool}
  (h : checkBFrameWithin n bytes data = .ok b) (hle : n ≤ m) :
  checkBFrameWithin m bytes data = .ok b
  := by
  cases data with
  | nil => cases h
  | cons first payload =>
      by_cases htype : first &&& 0x1f = 5 ∨ first &&& 0x1f = 1 ∨ first &&& 0x1f = 2
      case neg =>
        rw [checkBFrameWithin, if_neg htype] at h
        rw [checkBFrameWithin, if_neg htype, h]
      case pos =>
        rw [checkBFrameWithin_slice htype] at h
        rw [checkBFrameWithin_slice htype]
        cases hfirst : (sliceStream payload bytes).getUEWithin n with
        | error fault =>
            rw [hfirst] at h
            cases h
        | ok r =>
            rw [hfirst] at h
            change (r.2.getUEWithin n >>= _) = _ at h
            rw [getUEWithin_mono hfirst hle]
            change (r.2.getUEWithin m >>= _) = _
            cases hsecond : r.2.getUEWithin n with
            | error fault =>
                rw [hsecond] at h
                cases h
            | ok r' =>
                rw [hsecond] at h
                rw [getUEWithin_mono hsecond hle]
                exact h

/-- The flag behind a NAL unit does not depend on the turns. -/
theorem lookWithin_ok {turns : Nat} {d d' : VideoDemux} {data : List UInt8} {bytes : Nat}
  (hdata : data ≠ []) (hle : bytes ≤ data.length) (hbytes : bytes < 2 ^ 32)
  (h : d.lookWithin turns data bytes = .ok d') :
  d' = { d with hasBFrame := d.hasBFrame || isBFrame bytes data } ∧
    ¬ (d.hasBFrame = false ∧ bytes = data.length ∧ CutsShort data)
  := by
  rw [lookWithin] at h
  cases hflag : d.hasBFrame with
  | true =>
      rw [hflag] at h
      injection h with h
      rw [Bool.true_or, ← hflag, h]
      exact ⟨rfl, fun hcuts => by cases hflag.symm.trans (h ▸ hcuts.1)⟩
  | false =>
      rw [hflag] at h
      cases hcheck : checkBFrameWithin turns bytes data with
      | error fault =>
          rw [hcheck] at h
          cases h
      | ok b =>
          rw [hcheck] at h
          injection h with h
          obtain ⟨-, -, hfail⟩ | ⟨hnot, hok⟩ := checkBFrame_cases hdata hle hbytes
          · cases hfail turns b hcheck
          · obtain ⟨b', hb'⟩ := hok (8 * data.length + 9) (Nat.lt_succ_self _)
            have hmore :=
              checkBFrameWithin_mono hcheck (Nat.le_add_right turns (8 * data.length + 9))
            rw [checkBFrameWithin_mono hb' (Nat.le_add_left _ turns)] at hmore
            injection hmore with hb
            have hfound : isBFrame bytes data = b
              := by
              rw [isBFrame, hb', hb]
              rfl
            rw [Bool.false_or, hfound]
            exact ⟨h.symm, fun hcuts => hnot hcuts.2⟩

/-- With turns enough there is a flag, if no slice cuts short. -/
theorem lookWithin_of_not {turns : Nat} {d : VideoDemux} {data : List UInt8} {bytes : Nat}
  (hdata : data ≠ []) (hle : bytes ≤ data.length) (hbytes : bytes < 2 ^ 32)
  (hturns : 8 * data.length + 8 < turns)
  (h : ¬ (d.hasBFrame = false ∧ bytes = data.length ∧ CutsShort data)) :
  ∃ d', d.lookWithin turns data bytes = .ok d'
  := by
  rw [lookWithin]
  cases hflag : d.hasBFrame with
  | true => exact ⟨d, rfl⟩
  | false =>
      obtain ⟨hwhole, hcuts, -⟩ | ⟨-, hok⟩ := checkBFrame_cases hdata hle hbytes
      · cases h ⟨hflag, hwhole, hcuts⟩
      · obtain ⟨b, hb⟩ := hok turns hturns
        rw [hb]
        exact ⟨_, rfl⟩

/-! ### NAL units behind their lengths -/

/-- The loop over NAL units leaves the data: a length is not whole, or the last NAL unit cuts short
when no frame was found that is bidirectional. -/
inductive Overruns (d : VideoDemux) : Bool → List UInt8 → Prop
  | length {flag : Bool} {data : List UInt8} :
      1 < data.length → data.length ≤ d.naluUnitLength.toNat → Overruns d flag data
  | slice {data : List UInt8} :
      d.naluUnitLength.toNat + 1 < data.length →
      d.naluSize data = (data.drop (d.naluUnitLength.toNat + 1)).length →
      CutsShort (data.drop (d.naluUnitLength.toNat + 1)) → Overruns d false data
  | next {flag : Bool} {data : List UInt8} :
      d.naluUnitLength.toNat + 1 < data.length →
      d.naluSize data ≤ (data.drop (d.naluUnitLength.toNat + 1)).length →
      Overruns d (flag || isBFrame (d.naluSize data) (data.drop (d.naluUnitLength.toNat + 1)))
        (data.drop (d.naluUnitLength.toNat + 1 + d.naluSize data)) →
      Overruns d flag data

theorem naluSize_congr {d d' : VideoDemux} (h : d'.naluUnitLength = d.naluUnitLength)
  (data : List UInt8) :
  d'.naluSize data = d.naluSize data
  := by rw [naluSize, naluSize, h]

theorem naluSize_lt (d : VideoDemux) (data : List UInt8) :
  d.naluSize data < 2 ^ 32
  := by
  rw [naluSize]
  split
  · exact UInt32.toNat_lt _
  · split
    · exact Nat.lt_trans (UInt16.toNat_lt _) (by decide)
    · exact UInt32.toNat_lt _

/-- Only the length is read. -/
theorem naluSize_take (d : VideoDemux) (data : List UInt8) :
  d.naluSize (data.take d.fieldSize) = d.naluSize data
  := by
  rw [naluSize, naluSize, fieldSize]
  split
  · rw [readUint32T, readUint32T, List.take_take, Nat.min_self]
  · split
    · rw [readUint16T, readUint16T, List.take_take, Nat.min_self]
    · cases data with
      | nil => rfl
      | cons b data => rfl

@[simp]
theorem checkNaluType_naluUnitLength (d : VideoDemux) (b : UInt8) :
  (d.checkNaluType b).naluUnitLength = d.naluUnitLength
  := by
  rw [checkNaluType]
  split <;> rfl

@[simp]
theorem checkNaluType_hasBFrame (d : VideoDemux) (b : UInt8) :
  (d.checkNaluType b).hasBFrame = d.hasBFrame
  := by
  rw [checkNaluType]
  split <;> rfl

/-- A turn of the loop fails, ends it, or takes a NAL unit. -/
theorem avccWithin_succ (turns : Nat) {data : List UInt8} (n : Nat) {d : VideoDemux}
  {pos size start nalu : Nat} (outs : List Extent) (hsize : pos + size = data.length)
  (hmore : 1 < size) (hstart : start = pos + (d.naluUnitLength.toNat + 1))
  (hnalu : nalu = d.naluSize (data.drop pos)) :
  (size ≤ d.naluUnitLength.toNat ∧
      avccWithin turns data (n + 1) d pos size outs = .error .outside) ∨
    ((start = data.length ∨ data.length < start + nalu) ∧ d.naluUnitLength.toNat < size ∧
      avccWithin turns data (n + 1) d pos size outs = .ok (d, outs, -1)) ∨
    (start < data.length ∧ start + nalu ≤ data.length ∧
      avccWithin turns data (n + 1) d pos size outs =
        ((d.checkNaluType (data.getD start 0)).lookWithin turns (data.drop start) nalu >>= fun d' =>
        avccWithin turns data n d' (start + nalu) (data.length - (start + nalu))
          (outs ++ [⟨start, nalu⟩])))
  := by
  have hlt := d.naluSize_lt (data.drop pos)
  rw [← hnalu] at hlt
  by_cases hfield : pos + d.fieldSize ≤ data.length
  case neg =>
    left
    rw [avccWithin, if_pos hmore, readAt_of_lt (Nat.lt_of_not_le hfield)]
    refine ⟨?_, rfl⟩
    rw [fieldSize] at hfield
    split at hfield
    case isTrue hthree =>
      rw [hthree]
      change size ≤ 3
      omega
    case isFalse => split at hfield <;> omega
  case pos =>
    have hrun : avccWithin turns data (n + 1) d pos size outs =
        if nalu > subSize size (d.naluUnitLength.toNat + 1) ∨
            subSize size (d.naluUnitLength.toNat + 1) = 0 then
          .ok (d, outs, -1)
        else
          byteAt data start >>= fun b =>
            (d.checkNaluType b).lookWithin turns (data.drop start) nalu >>= fun d' =>
              avccWithin turns data n d' (start + nalu)
                (subSize (subSize size (d.naluUnitLength.toNat + 1)) nalu)
                (outs ++ [⟨start, nalu⟩])
      := by
      rw [avccWithin, if_pos hmore, readAt_of_le hfield, hstart, hnalu, ← naluSize_take]
      rfl
    rw [hrun]
    have hunit := d.naluUnitLength.toNat_lt
    by_cases hle : size ≤ d.naluUnitLength.toNat
    · left
      rw [subSize, if_neg (show ¬ d.naluUnitLength.toNat + 1 ≤ size by omega), if_neg (by omega),
        byteAt_of_le (by omega)]
      exact ⟨hle, rfl⟩
    · right
      rw [subSize_of_le (show d.naluUnitLength.toNat + 1 ≤ size by omega)]
      by_cases hend : nalu > size - (d.naluUnitLength.toNat + 1) ∨
          size - (d.naluUnitLength.toNat + 1) = 0
      · left
        rw [if_pos hend]
        exact ⟨by omega, by omega, rfl⟩
      · right
        have hin : start < data.length := by omega
        rw [if_neg hend, byteAt_of_lt hin, subSize_of_le (by omega),
          show size - (d.naluUnitLength.toNat + 1) - nalu = data.length - (start + nalu) by omega]
        exact ⟨hin, by omega, rfl⟩

/-- The number of bytes behind a position. -/
theorem length_of_drop {data rest : List UInt8} {pos size : Nat} (hrest : data.drop pos = rest)
  (hsize : pos + size = data.length) :
  rest.length = size
  := by
  rw [← hrest, List.length_drop]
  omega

/-- What a NAL unit does to the flag. -/
theorem lookWithin_checked {turns : Nat} {d d' : VideoDemux} {data : List UInt8}
  {start nalu : Nat} (b : UInt8) (hin : start < data.length) (hnalu : start + nalu ≤ data.length)
  (hlt : nalu < 2 ^ 32)
  (h : (d.checkNaluType b).lookWithin turns (data.drop start) nalu = .ok d') :
  d'.naluUnitLength = d.naluUnitLength ∧
    d'.hasBFrame = (d.hasBFrame || isBFrame nalu (data.drop start)) ∧
    ¬ (d.hasBFrame = false ∧ nalu = (data.drop start).length ∧ CutsShort (data.drop start))
  := by
  have hlength : (data.drop start).length = data.length - start := List.length_drop
  have hsome : data.drop start ≠ [] := List.ne_nil_of_length_pos (by omega)
  obtain ⟨hd', hcuts⟩ := lookWithin_ok hsome (by omega) hlt h
  rw [checkNaluType_hasBFrame] at hd' hcuts
  rw [hd']
  exact ⟨checkNaluType_naluUnitLength d b, rfl, hcuts⟩

theorem Overruns.congr {d d' : VideoDemux} {flag : Bool} {rest : List UInt8}
  (h : Overruns d flag rest) (hunit : d'.naluUnitLength = d.naluUnitLength) :
  Overruns d' flag rest
  := by
  induction h with
  | length hmore hle =>
      rw [← hunit] at hle
      exact .length hmore hle
  | slice hmore hnalu hcuts =>
      rw [← hunit] at hmore hnalu hcuts
      rw [← naluSize_congr hunit] at hnalu
      exact .slice hmore hnalu hcuts
  | next hmore hnalu hoverruns ih =>
      rw [← hunit] at hmore hnalu ih
      rw [← naluSize_congr hunit] at hnalu ih
      exact .next hmore hnalu ih

theorem Overruns.one_lt {d : VideoDemux} {flag : Bool} {rest : List UInt8}
  (h : Overruns d flag rest) :
  1 < rest.length
  := by
  cases h with
  | length hmore _ => exact hmore
  | slice hmore _ _ => omega
  | next hmore _ _ => omega

/-- The first NAL unit is whole if its length is. -/
theorem Overruns.whole {d : VideoDemux} {flag : Bool} {rest : List UInt8}
  (h : Overruns d flag rest) (hwhole : d.naluUnitLength.toNat < rest.length) :
  d.naluUnitLength.toNat + 1 < rest.length ∧
    d.naluUnitLength.toNat + 1 + d.naluSize rest ≤ rest.length
  := by
  cases h with
  | length _ hle => omega
  | slice hmore hnalu _ =>
      rw [List.length_drop] at hnalu
      omega
  | next hmore hnalu _ =>
      rw [List.length_drop] at hnalu
      omega

/-- A loop that overruns has no result. -/
theorem Overruns.avccWithin_ne_ok {d : VideoDemux} {flag : Bool} {rest : List UInt8}
  (h : Overruns d flag rest) (turns n : Nat) {data : List UInt8} {pos size : Nat}
  (hflag : d.hasBFrame = flag) (hrest : data.drop pos = rest) (hsize : pos + size = data.length)
  (outs : List Extent) (r : VideoDemux × List Extent × Int) :
  avccWithin turns data n d pos size outs ≠ .ok r
  := by
  induction n generalizing d flag rest pos size outs with
  | zero => nofun
  | succ n ih =>
      have hlength := length_of_drop hrest hsize
      have hmore := h.one_lt
      rw [hlength] at hmore
      obtain ⟨-, hrun⟩ | ⟨hend, hwhole, -⟩ | ⟨hin, hle, hrun⟩ :=
        avccWithin_succ turns n outs hsize hmore rfl rfl
      · rw [hrun]
        nofun
      · rw [← hlength] at hwhole
        obtain ⟨hlt, hle⟩ := h.whole hwhole
        rw [hrest] at hend
        omega
      · rw [hrun]
        cases hlook : (d.checkNaluType (data.getD (pos + (d.naluUnitLength.toNat + 1)) 0)).lookWithin
            turns (data.drop (pos + (d.naluUnitLength.toNat + 1)))
            (d.naluSize (data.drop pos)) with
        | error fault => nofun
        | ok d' =>
            obtain ⟨hunit, hflag', hcuts⟩ := lookWithin_checked _ hin hle (d.naluSize_lt _) hlook
            change avccWithin turns data n d' _ _ _ ≠ _
            rw [← List.drop_drop, hrest] at hflag' hcuts
            cases h with
            | length _ hle => omega
            | slice _ hnalu hshort => cases hcuts ⟨hflag, hnalu, hshort⟩
            | next _ _ hoverruns =>
                rw [hflag] at hflag'
                apply ih (hoverruns.congr hunit) hflag'
                · rw [hrest, Nat.add_assoc pos, ← List.drop_drop, hrest]
                · omega

/-- A loop that does not overrun has a result, and takes samples that are inside. -/
theorem avccWithin_ok {data : List UInt8} {turns : Nat} (hturns : 8 * data.length + 8 < turns)
  {n : Nat} {d : VideoDemux} {pos size : Nat} (hn : size < n) (hsize : pos + size = data.length)
  (h : ¬ Overruns d d.hasBFrame (data.drop pos)) {outs : List Extent}
  (houts : ∀ e ∈ outs, e.Inside data) :
  Within data (avccWithin turns data n d pos size outs)
  := by
  induction n generalizing d pos size outs with
  | zero => cases hn
  | succ n ih =>
      have hlength : (data.drop pos).length = size := length_of_drop rfl hsize
      by_cases hmore : 1 < size
      case neg =>
        rw [avccWithin, if_neg hmore]
        exact ⟨d, outs, 0, rfl, houts⟩
      case pos =>
        obtain ⟨hle, -⟩ | ⟨-, -, hrun⟩ | ⟨hin, hle, hrun⟩ :=
          avccWithin_succ turns n outs hsize hmore rfl rfl
        · rw [← hlength] at hle hmore
          cases h (.length hmore hle)
        · rw [hrun]
          exact ⟨d, outs, -1, rfl, houts⟩
        · have hbehind : (data.drop pos).drop (d.naluUnitLength.toNat + 1) =
              data.drop (pos + (d.naluUnitLength.toNat + 1)) := List.drop_drop
          have hrest : (data.drop (pos + (d.naluUnitLength.toNat + 1))).length =
              data.length - (pos + (d.naluUnitLength.toNat + 1)) := List.length_drop
          have hnot : ¬ (d.hasBFrame = false ∧
              d.naluSize (data.drop pos) =
                (data.drop (pos + (d.naluUnitLength.toNat + 1))).length ∧
              CutsShort (data.drop (pos + (d.naluUnitLength.toNat + 1))))
            := by
            rintro ⟨hflag, hnalu, hcuts⟩
            rw [← hbehind] at hnalu hcuts
            apply h
            rw [hflag]
            exact .slice (by omega) hnalu hcuts
          have hnalu : d.naluSize (data.drop pos) ≤
              (data.drop (pos + (d.naluUnitLength.toNat + 1))).length
            := by omega
          rw [← checkNaluType_hasBFrame d
            (data.getD (pos + (d.naluUnitLength.toNat + 1)) 0)] at hnot
          obtain ⟨d', hlook⟩ := lookWithin_of_not (List.ne_nil_of_length_pos (by omega)) hnalu
            (d.naluSize_lt _) (show _ < turns by omega) hnot
          obtain ⟨hunit, hflag, -⟩ := lookWithin_checked _ hin hle (d.naluSize_lt _) hlook
          rw [hrun, hlook]
          apply ih
          · omega
          · omega
          · intro hoverruns
            rw [← hbehind] at hnalu
            have hskip : data.drop (pos + (d.naluUnitLength.toNat + 1) + d.naluSize (data.drop pos)) =
                (data.drop pos).drop (d.naluUnitLength.toNat + 1 + d.naluSize (data.drop pos))
              := by rw [List.drop_drop, Nat.add_assoc pos]
            have hnext := hoverruns.congr hunit.symm
            rw [hflag, ← hbehind, hskip] at hnext
            exact h (.next (by omega) hnalu hnext)
          · intro e he
            obtain he | he := List.mem_append.mp he
            · exact houts e he
            · rw [List.mem_singleton.mp he]
              exact hle

/-! ### NAL units behind start codes -/

/-- What is looked for is behind where it is looked for, or it is the end. -/
theorem findWithin_ok {data : List UInt8} {n p : Nat} (hn : data.length < n + p) (hp : 0 < n) :
  ∃ q, findWithin data n p = .ok q ∧ q ≤ data.length ∧ (q = data.length ∨ p < q)
  := by
  induction n generalizing p with
  | zero => cases hp
  | succ n ih =>
      rw [findWithin]
      by_cases hin : p + 1 < data.length
      case neg =>
        rw [if_neg hin]
        exact ⟨data.length, rfl, Nat.le_refl _, Or.inl rfl⟩
      case pos =>
        rw [if_pos hin, byteAt_of_lt (show p < data.length by omega),
          byteAt_of_lt (show p - 1 < data.length by omega),
          byteAt_of_lt (show p - 2 < data.length by omega)]
        change ∃ q, (if data.getD p 0 = 0x01 ∧ data.getD (p - 1) 0 = 0x00 ∧
          data.getD (p - 2) 0 = 0x00 then _ else _) = _ ∧ _
        split
        · exact ⟨p + 1, rfl, Nat.le_of_lt hin, Or.inr (Nat.lt_succ_self p)⟩
        · obtain ⟨q, hq, hle, hlt⟩ := ih (show data.length < n + (p + 1) by omega) (by omega)
          exact ⟨q, hq, hle, hlt.imp_right fun hlt => by omega⟩

/-- The loop behind start codes takes NAL units from behind the pointer, and what it reads of them
stays behind their ends. -/
theorem annexbWithin_ok {data : List UInt8} {turns : Nat} (hturns : 8 * data.length + 8 < turns)
  {n : Nat} {d : VideoDemux} {naluStart pos size : Nat} (hn : data.length < n + naluStart)
  (hstart : naluStart < data.length → pos + 3 ≤ naluStart) (hpos : 0 < n)
  (hsize : pos + size = data.length) {outs : List Extent} (houts : ∀ e ∈ outs, e.Inside data)
  (ret : Int) :
  Within data (annexbWithin turns data n d naluStart pos size outs ret)
  := by
  induction n generalizing d naluStart pos size outs ret with
  | zero => cases hpos
  | succ n ih =>
      rw [annexbWithin]
      by_cases hin : naluStart < data.length
      case neg =>
        rw [if_neg hin]
        exact ⟨d, outs, ret, rfl, houts⟩
      case pos =>
        have hbefore := hstart hin
        obtain ⟨naluNext, hnext, hle, hlt⟩ :=
          @findWithin_ok data turns (naluStart + 1 + 2) (by omega) (by omega)
        have hnalu := toInt32_le (naluNext - naluStart)
        rw [Int.ofNat_sub (by omega)] at hnalu
        have hless : toInt32 (naluNext - naluStart) < 2 ^ 31 := Int.bmod_lt (by decide)
        rw [if_pos hin, hnext]
        change Within data (if toInt32 (naluNext - naluStart) < 0 ∨ _ then _ else _)
        generalize toInt32 (naluNext - naluStart) = nalu at hnalu hless ⊢
        split
        case isTrue => exact ⟨d, outs, -1, rfl, houts⟩
        case isFalse hsome =>
          obtain ⟨bytes, rfl⟩ := Int.eq_ofNat_of_zero_le (show 0 ≤ nalu by omega)
          have hlength : (data.drop pos).length = data.length - pos := List.length_drop
          have hbytes : bytes < 2 ^ 32 := by omega
          have hnot : ¬ ((d.checkNaluType (data.getD naluStart 0)).hasBFrame = false ∧
              bytes = (data.drop pos).length ∧ CutsShort (data.drop pos))
            := by
            rintro ⟨-, hwhole, -⟩
            omega
          obtain ⟨d', hlook⟩ := lookWithin_of_not (List.ne_nil_of_length_pos (by omega))
            (by omega) hbytes (show _ < turns by omega) hnot
          rw [byteAt_of_lt hin]
          change Within data (lookWithin turns _ (data.drop pos) bytes >>= _)
          rw [hlook]
          change Within data (annexbWithin turns data n d' naluNext (pos + bytes)
            (subSize size bytes) (outs ++ [⟨pos, bytes⟩]) 0)
          rw [subSize_of_le (by omega)]
          apply ih
          · omega
          · intro _
            omega
          · omega
          · omega
          · intro e he
            obtain he | he := List.mem_append.mp he
            · exact houts e he
            · rw [List.mem_singleton.mp he]
              change pos + bytes ≤ data.length
              omega

theorem decodeAVCNaluAnnexbWithin_ok {data : List UInt8} {turns : Nat}
  (hturns : 8 * data.length + 8 < turns) (d : VideoDemux) {pos size : Nat}
  (hsize : pos + size = data.length) {outs : List Extent} (houts : ∀ e ∈ outs, e.Inside data) :
  Within data (d.decodeAVCNaluAnnexbWithin turns data pos size outs)
  := by
  rw [decodeAVCNaluAnnexbWithin]
  split
  case isTrue => exact ⟨d, outs, -1, rfl, houts⟩
  case isFalse =>
    obtain ⟨naluStart, hfind, -, hlt⟩ := @findWithin_ok data turns (pos + 2) (by omega) (by omega)
    rw [hfind]
    apply annexbWithin_ok hturns
    · omega
    · intro hin
      omega
    · omega
    · exact hsize
    · exact houts

/-! ### Sequence headers -/

/-- A parameter set that is copied is inside. -/
theorem parameterSetWithin_ok {fits : Int → Int → Bool}
  (hfits : ∀ length size, fits length size = true → length ≤ size) {data : List UInt8}
  {pos size : Nat} (hsize : pos + size = data.length) :
  ∃ set, parameterSetWithin fits data pos size = .ok set ∧
    ∀ bytes ∈ set, 3 ≤ size ∧ pos + 3 + bytes.length ≤ data.length
  := by
  rw [parameterSetWithin]
  split
  case isTrue => exact ⟨none, rfl, nofun⟩
  case isFalse hthree =>
    rw [byteAt_of_lt (show pos < data.length by omega)]
    change ∃ set, (if _ ≠ _ then _ else _) = _ ∧ _
    split
    case isTrue => exact ⟨none, rfl, nofun⟩
    case isFalse =>
      rw [readAt_of_le (show pos + 3 ≤ data.length by omega), subSize_of_le (show 3 ≤ size by omega)]
      change ∃ set, (if parameterSetLength ((data.drop pos).take 3) > 0 ∧ _ then _ else _) = _ ∧ _
      split
      case isFalse => exact ⟨none, rfl, nofun⟩
      case isTrue hlength =>
        have hle := hfits _ _ hlength.2
        have hin : pos + 3 + (parameterSetLength ((data.drop pos).take 3)).toNat ≤ data.length
          := by omega
        rw [readAt_of_le hin]
        refine ⟨_, rfl, fun bytes hbytes => ⟨by omega, ?_⟩⟩
        rw [← Option.some.inj hbytes]
        apply Nat.le_trans _ hin
        apply Nat.add_le_add_left
        rw [List.length_take]
        exact Nat.min_le_left _ _

/-- What is copied of a sequence header is inside of it. -/
theorem decodeAVCSeqHeaderWithin_ok (d : VideoDemux) {data : List UInt8} {pos size : Nat}
  (hsize : pos + size = data.length) :
  ∃ d' ret, d.decodeAVCSeqHeaderWithin data pos size = .ok (d', ret)
  := by
  rw [decodeAVCSeqHeaderWithin]
  split
  case isTrue => exact ⟨_, _, rfl⟩
  case isFalse hfive =>
    obtain ⟨sps, hsps, hin⟩ := @parameterSetWithin_ok (fun length size => length < size)
      (fun length size h => Int.le_of_lt (of_decide_eq_true h)) data (pos + 5) (size - 5) (by omega)
    rw [readAt_of_le (show pos + 5 ≤ data.length by omega), subSize_of_le (by omega)]
    change ∃ d' ret, (parameterSetWithin _ data (pos + 5) (size - 5) >>= _) = _
    rw [hsps]
    cases sps with
    | none => exact ⟨_, _, rfl⟩
    | some sps =>
        obtain ⟨hthree, hle⟩ := hin sps rfl
        obtain ⟨pps, hpps, -⟩ := @parameterSetWithin_ok (fun length size => length ≤ size)
          (fun length size h => of_decide_eq_true h) data (pos + 5 + 3 + sps.length)
          (size - 5 - 3 - sps.length) (by omega)
        change ∃ d' ret, (parameterSetWithin _ data (pos + 5 + 3 + sps.length)
          (subSize (subSize (size - 5) 3) sps.length) >>= _) = _
        rw [subSize_of_le hthree, subSize_of_le (by omega), hpps]
        cases pps with
        | none => exact ⟨_, _, rfl⟩
        | some pps => exact ⟨_, _, rfl⟩

/-! ### Tags -/

theorem decodeAvcNaluWithin_iff (d : VideoDemux) {data : List UInt8} {pos size : Nat}
  (hsize : pos + size = data.length) :
  (∃ turns, Within data (d.decodeAvcNaluWithin turns data pos size)) ↔
    (d.payloadFormat ≠ .annexB → ¬ Overruns d d.hasBFrame (data.drop pos))
  := by
  constructor
  · rintro ⟨turns, d', outs, ret, hok, -⟩ hformat hoverruns
    have hfail := hoverruns.avccWithin_ne_ok turns turns rfl rfl hsize []
    rw [decodeAvcNaluWithin] at hok
    cases hpayload : d.payloadFormat with
    | annexB => cases hformat hpayload
    | avcc =>
        rw [hpayload] at hok
        cases hfail _ hok
    | unknowed =>
        rw [hpayload] at hok
        change (avccWithin turns data turns d pos size [] >>= _) = _ at hok
        cases hrun : avccWithin turns data turns d pos size [] with
        | ok r => cases hfail r hrun
        | error fault =>
            rw [hrun] at hok
            cases hok
  · intro h
    have hturns := Nat.lt_succ_self (8 * data.length + 8)
    have hnil : ∀ e ∈ ([] : List Extent), e.Inside data := nofun
    refine ⟨8 * data.length + 9, ?_⟩
    rw [decodeAvcNaluWithin]
    cases hpayload : d.payloadFormat with
    | annexB => exact decodeAVCNaluAnnexbWithin_ok hturns d hsize hnil
    | avcc =>
        apply avccWithin_ok hturns (by omega) hsize _ hnil
        exact h (by rw [hpayload]; nofun)
    | unknowed =>
        obtain ⟨d', outs, ret, hrun, houts⟩ := avccWithin_ok hturns
          (show size < 8 * data.length + 9 by omega) hsize (h (by rw [hpayload]; nofun)) hnil
        change Within data (avccWithin _ data _ d pos size [] >>= _)
        rw [hrun]
        change Within data (if ret = 0 then _ else _)
        split
        · exact ⟨_, outs, 0, rfl, houts⟩
        · obtain ⟨d'', outs', ret', hrun', houts'⟩ :=
            decodeAVCNaluAnnexbWithin_ok hturns d' hsize houts
          rw [hrun']
          change Within data (if ret' = 0 then _ else _)
          split
          · exact ⟨_, outs', 0, rfl, houts'⟩
          · exact ⟨_, outs', -1, rfl, houts'⟩

/-- What is behind the first five bytes. -/
theorem packetWithin_iff (d : VideoDemux) {data : List UInt8} (type : UInt8)
  (hfive : 5 ≤ data.length) :
  (∃ turns, Within data (d.packetWithin turns data type)) ↔
    (type = 1 → d.payloadFormat ≠ .annexB → ¬ Overruns d d.hasBFrame (data.drop 5))
  := by
  have hsize : 5 + subSize data.length 5 = data.length
    := by
    rw [subSize_of_le hfive]
    omega
  by_cases hheader : type = 0
  · apply iff_of_true
    · obtain ⟨d', ret, hd'⟩ := d.decodeAVCSeqHeaderWithin_ok hsize
      refine ⟨0, ?_⟩
      rw [packetWithin, if_pos hheader, hd']
      exact ⟨_, _, _, rfl, nofun⟩
    · intro hone
      cases hheader.symm.trans hone
  · by_cases hnalu : type = 1
    · simp only [packetWithin, if_neg hheader, if_pos hnalu]
      rw [decodeAvcNaluWithin_iff d hsize]
      exact ⟨fun h _ => h, fun h => h hnalu⟩
    · apply iff_of_true
      · refine ⟨0, ?_⟩
        rw [packetWithin, if_neg hheader, if_neg hnalu]
        exact ⟨_, _, _, rfl, nofun⟩
      · exact fun hone => absurd hone hnalu

theorem demuxAVCWithin_iff (d : VideoDemux) {data : List UInt8} (hone : 1 ≤ data.length) :
  (∃ turns, Within data (d.demuxAVCWithin turns data)) ↔
    ((data.getD 0 0 &&& 0xf0) >>> 4 ≠ 5 → 5 ≤ data.length ∧
      (data.getD 1 0 = 1 → d.payloadFormat ≠ .annexB →
        ¬ Overruns d d.hasBFrame (data.drop 5)))
  := by
  by_cases hframe : (data.getD 0 0 &&& 0xf0) >>> 4 = 5
  case pos =>
    apply iff_of_true
    · refine ⟨0, ?_⟩
      rw [demuxAVCWithin, byteAt_of_lt hone]
      change Within data (if (data.getD 0 0 &&& 0xf0) >>> 4 = 5 then _ else _)
      rw [if_pos hframe]
      exact ⟨_, _, _, rfl, nofun⟩
    · exact fun h => absurd hframe h
  case neg =>
    have hrun (turns : Nat) : d.demuxAVCWithin turns data =
        (byteAt data 1 >>= fun type => readAt data 2 3 >>= fun cst =>
          { d with compositionTime := int32 (readUint24T cst) }.packetWithin turns data type)
      := by
      rw [demuxAVCWithin, byteAt_of_lt hone]
      exact if_neg hframe
    simp only [hrun]
    by_cases hfive : 5 ≤ data.length
    case neg =>
      apply iff_of_false
      · rintro ⟨turns, _, _, _, hok, -⟩
        rw [readAt_of_lt (show data.length < 2 + 3 by omega)] at hok
        cases hbyte : byteAt data 1 with
        | error fault =>
            rw [hbyte] at hok
            cases hok
        | ok type =>
            rw [hbyte] at hok
            cases hok
      · exact fun h => hfive (h hframe).1
    case pos =>
      rw [byteAt_of_lt (show 1 < data.length by omega),
        readAt_of_le (show 2 + 3 ≤ data.length from hfive)]
      refine (packetWithin_iff _ _ hfive).trans ?_
      constructor
      · intro h _
        exact ⟨hfive, fun htype hformat hoverruns => h htype hformat (hoverruns.congr rfl)⟩
      · intro h htype hformat hoverruns
        exact (h hframe).2 htype hformat (hoverruns.congr rfl)

/-- With turns enough, what is read of a video tag, and the samples, are inside of it. -/
def InBounds (d : VideoDemux) (data : List UInt8) : Prop :=
  ∃ turns, Within data (d.onDemuxWithin turns data)

/-- There is a first byte, four more where something else than an information frame of AVC follows,
and NAL units behind their lengths do not overrun. -/
def Whole (d : VideoDemux) (data : List UInt8) : Prop :=
  1 ≤ data.length ∧
    (data.getD 0 0 &&& 0x0f = kVideoCodecIDAVC → (data.getD 0 0 &&& 0xf0) >>> 4 ≠ 5 →
      5 ≤ data.length ∧
        (data.getD 1 0 = 1 → d.payloadFormat ≠ .annexB → ¬ Overruns d d.hasBFrame (data.drop 5)))

theorem inBounds (d : VideoDemux) (data : List UInt8) :
  d.InBounds data ↔ d.Whole data
  := by
  rw [Whole]
  by_cases hone : 1 ≤ data.length
  case neg =>
    apply iff_of_false
    · rintro ⟨turns, d', outs, ret, hok, -⟩
      rw [onDemuxWithin, byteAt_of_le (by omega)] at hok
      cases hok
    · exact fun h => hone h.1
  case pos =>
    have hrun (turns : Nat) : d.onDemuxWithin turns data =
        if data.getD 0 0 &&& 0x0f ≠ kVideoCodecIDAVC then
          .ok ({ d with codecId := data.getD 0 0 &&& 0x0f }, [], -1)
        else
          { d with codecId := data.getD 0 0 &&& 0x0f }.demuxAVCWithin turns data
      := by
      rw [onDemuxWithin, byteAt_of_lt hone]
      rfl
    by_cases hcodec : data.getD 0 0 &&& 0x0f = kVideoCodecIDAVC
    case neg =>
      apply iff_of_true
      · refine ⟨0, ?_⟩
        rw [hrun, if_pos hcodec]
        exact ⟨_, _, _, rfl, nofun⟩
      · exact ⟨hone, fun h => absurd h hcodec⟩
    case pos =>
      simp only [InBounds, hrun, if_neg (not_not.mpr hcodec)]
      rw [demuxAVCWithin_iff _ hone]
      constructor
      · intro h
        refine ⟨hone, fun _ hframe => ?_⟩
        obtain ⟨hfive, hnot⟩ := h hframe
        exact ⟨hfive, fun htype hformat hoverruns =>
          hnot htype hformat (hoverruns.congr rfl)⟩
      · rintro ⟨-, h⟩ hframe
        obtain ⟨hfive, hnot⟩ := h hcodec hframe
        exact ⟨hfive, fun htype hformat hoverruns =>
          hnot htype hformat (hoverruns.congr rfl)⟩

end VideoDemux

/-- Tags are read inside of their data exactly if they are no AAC tags of one byte, and if video
tags are whole. -/
theorem demux_inBounds_iff (audio : AudioDemux) (video : VideoDemux) (data : List UInt8) :
  (audio.InBounds data ↔
    ¬ (data.length = 1 ∧ data.getD 0 0 >>> 4 &&& 0x0f = kAudioCodecIDAAC)) ∧
  (video.InBounds data ↔ video.Whole data)
  := ⟨audio.inBounds data, video.inBounds data⟩

/-- An AAC tag of one byte, a video tag without a byte, and a video tag of which the last NAL unit
has no whole code. -/
theorem not_inBounds_short :
  ¬ ({} : AudioDemux).InBounds [0xaf] ∧ ¬ ({} : VideoDemux).InBounds [] ∧
    ¬ ({} : VideoDemux).InBounds [0x27, 1, 0, 0, 0, 4, 0x41, 0, 0, 3]
  := by
  refine ⟨?_, ?_, ?_⟩
  · rw [AudioDemux.inBounds]
    exact not_not.mpr ⟨rfl, by decide⟩
  · rw [VideoDemux.inBounds]
    exact fun h => absurd h.1 (by decide)
  · rw [VideoDemux.inBounds]
    intro h
    apply (h.2 (by decide) (by decide)).2 (by decide) (by decide)
    apply VideoDemux.Overruns.slice (by decide) (by decide)
    exact ⟨by decide, by decide, by decide, by decide⟩
