import Tmms.Demux.Bounds

/-!
# NAL units behind their lengths

`DecodeAVCNaluIAvcc` on NAL units that each stand behind their length, in as many bytes as the
sequence header says.  Two and four bytes are read as they are.  One byte is read as a `char`, which
has a sign, and of three bytes only the first is read.  So the units come back when their lengths
are of two or four bytes, or of one byte and below 128 (`splits_iff`); and the last of them must not
be a slice that makes the decoder read behind the data.
-/

open BytesReader Endian

/-- The bytes of an interval. -/
def Extent.bytes (data : List UInt8) (e : Extent) : List UInt8 := (data.drop e.start).take e.size

namespace VideoDemux

/-! ### Framing -/

/-- The number of bytes of a length that the sequence header announces. -/
def lengthSize (d : VideoDemux) : Nat := d.naluUnitLength.toNat + 1

/-- NAL units, each behind its length. -/
def framed (w : Nat) (units : List (List UInt8)) : List UInt8 :=
  units.flatMap fun u => beBytes w u.length ++ u

/-- Where NAL units stand that are framed from a position on. -/
def extentsOf (w : Nat) : Nat → List (List UInt8) → List Extent
  | _, [] => []
  | pos, u :: units => ⟨pos + w, u.length⟩ :: extentsOf w (pos + w + u.length) units

/-- What stands where the first NAL unit is framed. -/
theorem framed_cons (w : Nat) (u : List UInt8) (units : List (List UInt8)) :
  framed w (u :: units) = beBytes w u.length ++ (u ++ framed w units)
  := by
  rw [framed, List.flatMap_cons, List.append_assoc]
  rfl

/-- The first NAL unit is behind its length, and the others are behind it. -/
theorem drop_framed {w pos : Nat} {u : List UInt8} {units : List (List UInt8)} {data : List UInt8}
    (h : data.drop pos = framed w (u :: units)) :
  data.drop (pos + w) = u ++ framed w units ∧ data.drop (pos + w + u.length) = framed w units
  := by
  have hunit : data.drop (pos + w) = u ++ framed w units
    := by
    rw [← List.drop_drop, h, framed_cons]
    exact List.drop_left' (length_beBytes w _)
  refine ⟨hunit, ?_⟩
  rw [← List.drop_drop, hunit]
  exact List.drop_left' rfl

/-- The length of a NAL unit is read as it was written. -/
def ReadsLength (d : VideoDemux) (size : Nat) : Prop :=
  d.naluSize (beBytes d.lengthSize size) = size

theorem ReadsLength.congr {d d' : VideoDemux} (h : d'.naluUnitLength = d.naluUnitLength)
    (size : Nat) :
  d'.ReadsLength size ↔ d.ReadsLength size
  := by rw [ReadsLength, ReadsLength, naluSize_congr h, lengthSize, lengthSize, h]

/-- Only the bytes of a length are read. -/
theorem naluSize_framed (d : VideoDemux) (size : Nat) (rest : List UInt8) :
  d.naluSize (beBytes d.lengthSize size ++ rest) = d.naluSize (beBytes d.lengthSize size)
  := by
  have hle : d.fieldSize ≤ (beBytes d.lengthSize size).length
    := by
    rw [length_beBytes, lengthSize, fieldSize]
    split
    · rename_i hfour
      rw [hfour]
      decide
    · split
      · rename_i htwo
        rw [htwo]
        decide
      · omega
  rw [← naluSize_take d (_ ++ rest), List.take_append_of_le_length hle, naluSize_take]

/-- A `char` as an `uint32_t`: itself, or beyond all lengths of three bytes. -/
theorem char_cases (b : UInt8) :
  b.toNat < 128 ∧ (UInt32.ofInt b.toInt8.toInt).toNat = b.toNat ∨
    128 ≤ b.toNat ∧ 2 ^ 24 ≤ (UInt32.ofInt b.toInt8.toInt).toNat
  := forall_uint8 (P := fun b =>
    b.toNat < 128 ∧ (UInt32.ofInt b.toInt8.toInt).toNat = b.toNat ∨
      128 ≤ b.toNat ∧ 2 ^ 24 ≤ (UInt32.ofInt b.toInt8.toInt).toNat) (by decide +kernel) b

/-- Two and four bytes are read as they are, one byte if it is below 128, and three never. -/
theorem readsLength_iff {d : VideoDemux} (hunit : d.naluUnitLength < 4) {size : Nat}
    (hpos : 0 < size) (hlt : size < 256 ^ d.lengthSize) :
  d.ReadsLength size ↔
    d.naluUnitLength = 1 ∨ d.naluUnitLength = 3 ∨ d.naluUnitLength = 0 ∧ size < 128
  := by
  have hcases : d.naluUnitLength = 0 ∨ d.naluUnitLength = 1 ∨ d.naluUnitLength = 2 ∨
      d.naluUnitLength = 3
    := forall_uint8 (P := fun n => n < 4 → n = 0 ∨ n = 1 ∨ n = 2 ∨ n = 3) (by decide +kernel) _
      hunit
  rw [ReadsLength, naluSize]
  rw [lengthSize] at hlt ⊢
  rcases hcases with hone | htwo | hthree | hfour
  · -- one byte
    rw [hone] at hlt ⊢
    change size < 256 ^ 1 at hlt
    have hbyte : (UInt8.ofNat size).toNat = size := by rw [UInt8.toNat_ofNat']; omega
    have hchar := char_cases (UInt8.ofNat size)
    rw [hbyte] at hchar
    change (UInt32.ofInt (UInt8.ofNat size).toInt8.toInt).toNat = size ↔ _
    constructor
    · intro hsame
      right
      right
      refine ⟨rfl, ?_⟩
      omega
    · rintro (hne | hne | ⟨-, hsmall⟩)
      · cases hne
      · cases hne
      · omega
  · -- two bytes
    rw [htwo] at hlt ⊢
    change size < 256 ^ 2 at hlt
    refine iff_of_true ?_ (.inl rfl)
    change (readUint16T (beBytes 2 size)).toNat = size
    rw [readUint16T, List.take_of_length_le (Nat.le_of_eq (length_beBytes 2 size)),
      beNat_beBytes_of_lt hlt, UInt16.toNat_ofNat']
    exact Nat.mod_eq_of_lt hlt
  · -- three bytes, of which the first is read
    rw [hthree] at hlt ⊢
    change size < 256 ^ 3 at hlt
    have hbyte : (UInt8.ofNat (size / 256 / 256)).toNat = size / 65536
      := by
      rw [UInt8.toNat_ofNat', Nat.div_div_eq_div_mul]
      omega
    have hchar := char_cases (UInt8.ofNat (size / 256 / 256))
    rw [hbyte] at hchar
    change (UInt32.ofInt (UInt8.ofNat (size / 256 / 256)).toInt8.toInt).toNat = size ↔ _
    refine iff_of_false ?_ ?_
    · omega
    · rintro (hne | hne | ⟨hne, -⟩)
      · cases hne
      · cases hne
      · cases hne
  · -- four bytes
    rw [hfour] at hlt ⊢
    change size < 256 ^ 4 at hlt
    refine iff_of_true ?_ (.inr (.inl rfl))
    change (readUint32T (beBytes 4 size)).toNat = size
    rw [readUint32T, List.take_of_length_le (Nat.le_of_eq (length_beBytes 4 size)),
      beNat_beBytes_of_lt hlt, UInt32.toNat_ofNat']
    exact Nat.mod_eq_of_lt hlt

/-! ### Splitting -/

/-- The first length is refused: nothing is behind it, or less than it says. -/
def RefusesFirst (d : VideoDemux) (data : List UInt8) : Prop :=
  1 < data.length ∧ d.naluUnitLength.toNat < data.length ∧
    (data.length = d.lengthSize ∨ data.length < d.lengthSize + d.naluSize data)

instance (d : VideoDemux) (data : List UInt8) : Decidable (d.RefusesFirst data) :=
  inferInstanceAs (Decidable (1 < data.length ∧ d.naluUnitLength.toNat < data.length ∧
    (data.length = d.lengthSize ∨ data.length < d.lengthSize + d.naluSize data)))

/-- A turn of the loop ends it, refuses the length, or takes a NAL unit. -/
theorem avccWithin_cases {turns n : Nat} {d : VideoDemux} {data : List UInt8} {pos size : Nat}
    {outs : List Extent} (hsize : pos + size = data.length) {r : VideoDemux × List Extent × Int}
    (h : avccWithin turns data (n + 1) d pos size outs = .ok r) :
  (size ≤ 1 ∧ r = (d, outs, 0)) ∨ (d.RefusesFirst (data.drop pos) ∧ r = (d, outs, -1)) ∨
    ∃ d' start nalu, start = pos + d.lengthSize ∧ nalu = d.naluSize (data.drop pos) ∧
      start < data.length ∧ start + nalu ≤ data.length ∧
      d'.naluUnitLength = d.naluUnitLength ∧
      d'.hasBFrame = (d.hasBFrame || isBFrame nalu (data.drop start)) ∧
      ¬ (d.hasBFrame = false ∧ nalu = (data.drop start).length ∧ CutsShort (data.drop start)) ∧
      avccWithin turns data n d' (start + nalu) (data.length - (start + nalu))
        (outs ++ [⟨start, nalu⟩]) = .ok r
  := by
  have hlength : (data.drop pos).length = size := length_of_drop rfl hsize
  have hw : d.lengthSize = d.naluUnitLength.toNat + 1 := rfl
  by_cases hmore : 1 < size
  · right
    obtain ⟨-, hrun⟩ | ⟨hend, hwhole, hrun⟩ | ⟨hin, hle, hrun⟩ :=
      avccWithin_succ turns n outs hsize hmore (show pos + d.lengthSize = _ from rfl) rfl
    · rw [hrun] at h
      cases h
    · left
      rw [hrun] at h
      cases h
      refine ⟨⟨?_, ?_, ?_⟩, rfl⟩
      · omega
      · omega
      · omega
    · right
      rw [hrun] at h
      cases hlook : (d.checkNaluType (data.getD (pos + d.lengthSize) 0)).lookWithin turns
          (data.drop (pos + d.lengthSize)) (d.naluSize (data.drop pos)) with
      | error fault =>
          rw [hlook] at h
          cases h
      | ok d' =>
          rw [hlook] at h
          obtain ⟨hunit, hflag, hcuts⟩ := lookWithin_checked _ hin hle (d.naluSize_lt _) hlook
          exact ⟨d', _, _, rfl, rfl, hin, hle, hunit, hflag, hcuts, h⟩
  · left
    rw [avccWithin, if_neg hmore] at h
    cases h
    exact ⟨by omega, rfl⟩

/-- Samples are added behind those there are. -/
theorem avccWithin_adds {turns n : Nat} {d d' : VideoDemux} {data : List UInt8}
    {pos size : Nat} {outs outs' : List Extent} {ret : Int} (hsize : pos + size = data.length)
    (h : avccWithin turns data n d pos size outs = .ok (d', outs', ret)) :
  outs <+: outs'
  := by
  induction n generalizing d pos size outs with
  | zero => cases h
  | succ n ih =>
      rcases avccWithin_cases hsize h with ⟨-, hr⟩ | ⟨-, hr⟩ |
        ⟨d₁, start, nalu, -, -, -, hle, -, -, -, hrun⟩
      · cases hr
        exact List.prefix_rfl
      · cases hr
        exact List.prefix_rfl
      · exact (List.prefix_append _ _).trans (ih (Nat.add_sub_of_le hle) hrun)

/-- A turn of the loop ends it with an error, as the length is wrong, or takes a NAL unit of the
length that was read. -/
theorem avccWithin_cons {turns n : Nat} {d : VideoDemux} {data u : List UInt8}
    {units : List (List UInt8)} {pos size : Nat} {outs : List Extent}
    (hrest : data.drop pos = framed d.lengthSize (u :: units)) (hsize : pos + size = data.length)
    (hpos : 0 < u.length) {r : VideoDemux × List Extent × Int}
    (h : avccWithin turns data (n + 1) d pos size outs = .ok r) :
  (¬ d.ReadsLength u.length ∧ r.2.2 = -1) ∨
    ∃ d' start nalu, d'.naluUnitLength = d.naluUnitLength ∧ start = pos + d.lengthSize ∧
      nalu = d.naluSize (beBytes d.lengthSize u.length) ∧ start + nalu ≤ data.length ∧
      avccWithin turns data n d' (start + nalu) (data.length - (start + nalu))
        (outs ++ [⟨start, nalu⟩]) = .ok r
  := by
  have hlength : size = d.lengthSize + (u.length + (framed d.lengthSize units).length)
    := by
    rw [← length_of_drop hrest hsize, framed_cons, List.length_append, List.length_append,
      length_beBytes]
  have hnalu : d.naluSize (data.drop pos) = d.naluSize (beBytes d.lengthSize u.length)
    := by rw [hrest, framed_cons, naluSize_framed]
  have hw : 0 < d.lengthSize := Nat.succ_pos _
  rcases avccWithin_cases hsize h with ⟨hend, -⟩ | ⟨hrefused, rfl⟩ |
    ⟨d', start, nalu, hstart, hread, -, hle, hunit, -, -, hrun⟩
  · omega
  · left
    refine ⟨?_, rfl⟩
    intro hreads
    obtain ⟨-, -, hend⟩ := hrefused
    rw [hnalu, hreads, length_of_drop rfl hsize] at hend
    omega
  · exact .inr ⟨d', start, nalu, hunit, hstart, hread.trans hnalu, hle, hrun⟩

/-- When all lengths are read as they were written, a run that ends gives the NAL units. -/
theorem avccWithin_reads {turns n : Nat} {d d' : VideoDemux} {data : List UInt8}
    {units : List (List UInt8)} {pos size : Nat} {outs outs' : List Extent} {ret : Int}
    (hrest : data.drop pos = framed d.lengthSize units) (hsize : pos + size = data.length)
    (hpos : ∀ u ∈ units, 0 < u.length) (hreads : ∀ u ∈ units, d.ReadsLength u.length)
    (h : avccWithin turns data n d pos size outs = .ok (d', outs', ret)) :
  outs' = outs ++ extentsOf d.lengthSize pos units ∧ ret = 0
  := by
  induction units generalizing n d pos size outs with
  | nil =>
      have hnone : size = 0 := (length_of_drop hrest hsize).symm
      cases n with
      | zero => cases h
      | succ n =>
          rw [avccWithin, if_neg (by omega)] at h
          cases h
          exact ⟨(List.append_nil _).symm, rfl⟩
  | cons u units ih =>
      obtain ⟨hread, hreads⟩ := List.forall_mem_cons.mp hreads
      obtain ⟨hu, hpos⟩ := List.forall_mem_cons.mp hpos
      cases n with
      | zero => cases h
      | succ n =>
          rcases avccWithin_cons hrest hsize hu h with
            ⟨hwrong, -⟩ | ⟨d₁, start, nalu, hunit, rfl, rfl, hle, hrun⟩
          · exact absurd hread hwrong
          · have hw : d₁.lengthSize = d.lengthSize := congrArg (·.toNat + 1) hunit
            rw [hread] at hle hrun
            obtain ⟨houts, hret⟩ := ih (hw ▸ (drop_framed hrest).2) (Nat.add_sub_of_le hle) hpos
              (fun u' hu' => (ReadsLength.congr hunit _).mpr (hreads u' hu')) hrun
            rw [hw, List.append_assoc] at houts
            exact ⟨houts, hret⟩

/-- A run that gives the NAL units has read their lengths as they were written. -/
theorem avccWithin_only {turns n : Nat} {d d' : VideoDemux} {data : List UInt8}
    {units : List (List UInt8)} {pos size : Nat} {outs : List Extent}
    (hrest : data.drop pos = framed d.lengthSize units) (hsize : pos + size = data.length)
    (hpos : ∀ u ∈ units, 0 < u.length)
    (h : avccWithin turns data n d pos size outs =
      .ok (d', outs ++ extentsOf d.lengthSize pos units, 0)) :
  ∀ u ∈ units, d.ReadsLength u.length
  := by
  induction units generalizing n d pos size outs with
  | nil => exact fun u hu => nomatch hu
  | cons u units ih =>
      obtain ⟨hu, hpos⟩ := List.forall_mem_cons.mp hpos
      cases n with
      | zero => cases h
      | succ n =>
          rcases avccWithin_cons hrest hsize hu h with
            ⟨-, hret⟩ | ⟨d₁, start, nalu, hunit, rfl, hnalu, hle, hrun⟩
          · cases hret
          · have hw : d₁.lengthSize = d.lengthSize := congrArg (·.toNat + 1) hunit
            -- the sample that was added is the one that is returned
            have hsame : nalu = u.length
              := by
              obtain ⟨more, hmore⟩ := avccWithin_adds (Nat.add_sub_of_le hle) hrun
              rw [List.append_assoc] at hmore
              injection List.append_cancel_left hmore with hextent
              injection hextent
            subst hsame
            have hrun' : avccWithin turns data n d₁ (pos + d.lengthSize + u.length)
                (data.length - (pos + d.lengthSize + u.length))
                (outs ++ [⟨pos + d.lengthSize, u.length⟩]) =
                .ok (d', (outs ++ [⟨pos + d.lengthSize, u.length⟩]) ++
                  extentsOf d₁.lengthSize (pos + d.lengthSize + u.length) units, 0)
              := by
              rw [hrun, hw, List.append_assoc]
              rfl
            have hrest' := ih (hw ▸ (drop_framed hrest).2) (Nat.add_sub_of_le hle) hpos hrun'
            exact List.forall_mem_cons.mpr ⟨hnalu.symm,
              fun u' hu' => (ReadsLength.congr hunit _).mp (hrest' u' hu')⟩

/-- The list that is returned without an error is that of the NAL units. -/
def Splits (d : VideoDemux) (units : List (List UInt8)) : Prop :=
  ∃ turns d', d.decodeAVCNaluIAvccWithin turns (framed d.lengthSize units) 0
    (framed d.lengthSize units).length [] = .ok (d', extentsOf d.lengthSize 0 units, 0)

theorem Splits.reads {d : VideoDemux} {units : List (List UInt8)} (h : d.Splits units)
    (hpos : ∀ u ∈ units, 0 < u.length) :
  ∀ u ∈ units, d.ReadsLength u.length
  := by
  obtain ⟨turns, d', hrun⟩ := h
  exact avccWithin_only rfl (Nat.zero_add _) hpos hrun

/-- NAL units come back when their lengths are of two or four bytes, or of one byte and below 128,
and the last one is no slice that cuts short. -/
theorem splits_iff {d : VideoDemux} (hunit : d.naluUnitLength < 4) {units : List (List UInt8)}
    (hunits : ∀ u ∈ units, 0 < u.length ∧ u.length < 256 ^ d.lengthSize) :
  d.Splits units ↔
    (units = [] ∨ d.naluUnitLength = 1 ∨ d.naluUnitLength = 3 ∨
      d.naluUnitLength = 0 ∧ ∀ u ∈ units, u.length < 128) ∧
    ¬ Overruns d d.hasBFrame (framed d.lengthSize units)
  := by
  have hpos : ∀ u ∈ units, 0 < u.length := fun u hu => (hunits u hu).1
  have hreads : (∀ u ∈ units, d.ReadsLength u.length) ↔
      units = [] ∨ d.naluUnitLength = 1 ∨ d.naluUnitLength = 3 ∨
        d.naluUnitLength = 0 ∧ ∀ u ∈ units, u.length < 128
    := by
    have hiff := fun u hu => readsLength_iff hunit (hunits u hu).1 (hunits u hu).2
    constructor
    · intro hall
      cases units with
      | nil => exact .inl rfl
      | cons u units =>
          right
          rcases (hiff u List.mem_cons_self).mp (hall u List.mem_cons_self) with
            htwo | hfour | ⟨hone, -⟩
          · exact .inl htwo
          · exact .inr (.inl hfour)
          · refine .inr (.inr ⟨hone, ?_⟩)
            intro u' hu'
            rcases (hiff u' hu').mp (hall u' hu') with htwo | hfour | ⟨-, hsmall⟩
            · cases hone.symm.trans htwo
            · cases hone.symm.trans hfour
            · exact hsmall
    · rintro (rfl | htwo | hfour | ⟨hone, hsmall⟩) u hu
      · cases hu
      · exact (hiff u hu).mpr (.inl htwo)
      · exact (hiff u hu).mpr (.inr (.inl hfour))
      · exact (hiff u hu).mpr (.inr (.inr ⟨hone, hsmall u hu⟩))
  rw [← hreads]
  constructor
  · intro h
    refine ⟨h.reads hpos, ?_⟩
    intro hover
    obtain ⟨turns, d', hrun⟩ := h
    exact hover.avccWithin_ne_ok turns turns rfl rfl (Nat.zero_add _) [] _ hrun
  · rintro ⟨hread, hover⟩
    obtain ⟨d', outs, ret, hrun, -⟩ :=
      avccWithin_ok (Nat.lt_succ_self (8 * (framed d.lengthSize units).length + 8))
        (show (framed d.lengthSize units).length < 8 * (framed d.lengthSize units).length + 9
          by omega)
        (Nat.zero_add _) hover (List.forall_mem_nil _)
    obtain ⟨rfl, rfl⟩ := avccWithin_reads rfl (Nat.zero_add _) hpos hread hrun
    exact ⟨_, d', hrun⟩

theorem splits_iff_four :
  Splits { naluUnitLength := 3 } [[0x06, 0x05], [0x41]] ↔
    ([([0x06, 0x05] : List UInt8), [0x41]] = [] ∨ (3 : UInt8) = 1 ∨ (3 : UInt8) = 3 ∨
      (3 : UInt8) = 0 ∧ ∀ u ∈ [([0x06, 0x05] : List UInt8), [0x41]], u.length < 128) ∧
    ¬ Overruns { naluUnitLength := 3 } false (framed 4 [[0x06, 0x05], [0x41]])
  := splits_iff (by decide) (by decide)

/-- A NAL unit of two bytes behind a length of three bytes, and one of 128 bytes behind a length of
one byte. -/
theorem not_splits_three :
  ¬ Splits { naluUnitLength := 2 } [[0x06, 0x05]] ∧
    ¬ Splits { naluUnitLength := 0 } [List.replicate 128 0x06]
  := by
  have hthree : ¬ ReadsLength { naluUnitLength := 2 } 2
    := by
    rw [ReadsLength]
    decide +kernel
  have hone : ¬ ReadsLength { naluUnitLength := 0 } 128
    := by
    rw [ReadsLength]
    decide +kernel
  have hwrong : ∀ {d : VideoDemux} {u : List UInt8}, 0 < u.length → ¬ d.ReadsLength u.length →
      ¬ d.Splits [u]
    := by
    intro d u hpos hnot h
    exact hnot (h.reads (List.forall_mem_singleton.mpr hpos) u List.mem_cons_self)
  constructor
  · exact hwrong (by decide) hthree
  · apply hwrong
    · rw [List.length_replicate]
      decide
    · rw [List.length_replicate]
      exact hone

end VideoDemux
