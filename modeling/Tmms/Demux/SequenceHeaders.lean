import Tmms.Demux.VideoDemux

/-!
# AVC sequence headers

`DecodeAVCSeqHeader` assigns the profile and the size of lengths first, then the SPS, and then the
PPS, and returns as soon as something is wrong.  It returns 0 exactly of records with one SPS and
one PPS of at most `0x7fff` bytes, and then they are the current ones.  But of another record what
was read up to the error stays, and so all or nothing changes only if that is what is there already
(`allOrNothing_iff`).
-/

open BytesReader Endian

/-! ### Parameter sets -/

/-- Bytes begin with a single parameter set of a length that an `int16_t` can have, and go on with
others. The count has five bits. -/
structure BeginsWith (data set rest : List UInt8) : Prop where
  bytes : ∃ count : UInt8, data = count :: (beBytes 2 set.length ++ (set ++ rest)) ∧
    count &&& 0x1f = 1
  pos : 0 < set.length
  fits : set.length < 2 ^ 15

/-- A length that an `int16_t` can have is read, and others are negative. -/
theorem int16_cases (n : UInt16) :
  n.toNat < 2 ^ 15 ∧ n.toInt16.toInt = n.toNat ∨ 2 ^ 15 ≤ n.toNat ∧ n.toInt16.toInt < 0
  := by
  have hbits : n.toInt16.toInt = n.toBitVec.toInt := rfl
  have hlt := n.toNat_lt
  have hnat : n.toBitVec.toNat = n.toNat := rfl
  rw [hbits, BitVec.toInt_eq_toNat_cond, hnat]
  split
  · omega
  · omega

namespace VideoDemux

theorem parameterSetLength_cons (count b0 b1 : UInt8) (bytes : List UInt8) :
  parameterSetLength (count :: b0 :: b1 :: bytes) =
    (UInt16.ofNat (beNat [b0, b1])).toInt16.toInt
  := rfl

/-- The bytes of a parameter set that the decoder takes. -/
def setOf (data : List UInt8) : List UInt8 := (data.drop 3).take (parameterSetLength data).toNat

/-- The bytes behind it. -/
def behindSet (data : List UInt8) : List UInt8 :=
  (data.drop 3).drop (parameterSetLength data).toNat

/-- What the decoder looks at says if there is a parameter set. -/
theorem beginsWith_iff {data set rest : List UInt8} :
  BeginsWith data set rest ↔
    (3 ≤ data.length ∧ data.getD 0 0 &&& 0x1f = 1 ∧ 0 < parameterSetLength data ∧
      parameterSetLength data ≤ data.length - 3) ∧ set = setOf data ∧ rest = behindSet data
  := by
  constructor
  · rintro ⟨⟨count, rfl, hcount⟩, hpos, hfits⟩
    have hbytes : beNat (beBytes 2 set.length) = set.length := beNat_beBytes_of_lt (by omega)
    have hlength : parameterSetLength (count :: (beBytes 2 set.length ++ (set ++ rest))) =
        set.length
      := by
      have hnat : (UInt16.ofNat set.length).toNat = set.length
        := by
        rw [UInt16.toNat_ofNat']
        omega
      change (UInt16.ofNat (beNat (beBytes 2 set.length))).toInt16.toInt = _
      rw [hbytes]
      rcases int16_cases (UInt16.ofNat set.length) with ⟨-, hsame⟩ | ⟨hge, -⟩
      · rw [hsame, hnat]
      · omega
    have hdrop : (count :: (beBytes 2 set.length ++ (set ++ rest))).drop 3 = set ++ rest := rfl
    have htotal : (count :: (beBytes 2 set.length ++ (set ++ rest))).length =
        3 + (set.length + rest.length)
      := by
      rw [List.length_cons, List.length_append, length_beBytes, List.length_append]
      omega
    rw [setOf, behindSet, hlength, hdrop, htotal, Int.toNat_natCast, List.take_left' rfl,
      List.drop_left' rfl]
    refine ⟨⟨by omega, hcount, by omega, by omega⟩, rfl, rfl⟩
  · rintro ⟨⟨hthree, hcount, hpos, hle⟩, rfl, rfl⟩
    match data, hthree with
    | count :: b0 :: b1 :: bytes, _ =>
        have hlt : beNat [b0, b1] < 256 ^ 2 := beNat_lt [b0, b1]
        have hnat : (UInt16.ofNat (beNat [b0, b1])).toNat = beNat [b0, b1]
          := by
          rw [UInt16.toNat_ofNat']
          omega
        have hlength : parameterSetLength (count :: b0 :: b1 :: bytes) = beNat [b0, b1] ∧
            beNat [b0, b1] < 2 ^ 15
          := by
          rw [parameterSetLength_cons] at hpos ⊢
          rcases int16_cases (UInt16.ofNat (beNat [b0, b1])) with ⟨hsmall, hsame⟩ | ⟨-, hneg⟩
          · rw [hnat] at hsmall hsame
            exact ⟨hsame, hsmall⟩
          · omega
        obtain ⟨hlength, hsmall⟩ := hlength
        have hset : (setOf (count :: b0 :: b1 :: bytes)).length = beNat [b0, b1]
          := by
          rw [setOf, hlength, Int.toNat_natCast, List.length_take]
          rw [hlength] at hle
          simp only [List.length_cons] at hle
          apply Nat.min_eq_left
          change _ ≤ bytes.length
          omega
        rw [hlength] at hpos
        refine ⟨⟨count, ?_, hcount⟩, by omega, by omega⟩
        have hbytes : beBytes 2 (beNat [b0, b1]) = [b0, b1] := beBytes_beNat [b0, b1]
        rw [hset, hbytes, setOf, behindSet, List.take_append_drop]
        rfl

/-- A single SPS is behind the first five bytes, and something is behind it. -/
def TakesSps (data sps : List UInt8) : Prop :=
  ∃ behind, BeginsWith (data.drop 5) sps behind ∧ behind ≠ []

/-- A record with one SPS and one PPS; more may be behind them. -/
def IsRecord (data sps pps : List UInt8) : Prop :=
  ∃ behind rest, BeginsWith (data.drop 5) sps behind ∧ BeginsWith behind pps rest

theorem takesSps_iff {data sps : List UInt8} :
  TakesSps data sps ↔
    (3 ≤ (data.drop 5).length ∧ (data.drop 5).getD 0 0 &&& 0x1f = 1 ∧
      0 < parameterSetLength (data.drop 5) ∧
      parameterSetLength (data.drop 5) < (data.drop 5).length - 3) ∧ sps = setOf (data.drop 5)
  := by
  have hbehind : behindSet (data.drop 5) ≠ [] ↔
      (parameterSetLength (data.drop 5)).toNat < (data.drop 5).length - 3
    := by
    rw [← List.length_pos_iff, behindSet, List.length_drop, List.length_drop]
    omega
  constructor
  · rintro ⟨_, hbegins, hsome⟩
    obtain ⟨⟨hthree, hcount, hpos, -⟩, hset, rfl⟩ := beginsWith_iff.mp hbegins
    have hmore := hbehind.mp hsome
    exact ⟨⟨hthree, hcount, hpos, by omega⟩, hset⟩
  · rintro ⟨⟨hthree, hcount, hpos, hlt⟩, hset⟩
    exact ⟨_, beginsWith_iff.mpr ⟨⟨hthree, hcount, hpos, Int.le_of_lt hlt⟩, hset, rfl⟩,
      hbehind.mpr (by omega)⟩

/-- The set is known from the bytes. -/
theorem TakesSps.unique {data sps sps' : List UInt8} (h : TakesSps data sps)
    (h' : TakesSps data sps') :
  sps = sps'
  := (takesSps_iff.mp h).2.trans (takesSps_iff.mp h').2.symm

theorem isRecord_iff {data sps pps : List UInt8} :
  IsRecord data sps pps ↔
    TakesSps data sps ∧
    (3 ≤ (behindSet (data.drop 5)).length ∧ (behindSet (data.drop 5)).getD 0 0 &&& 0x1f = 1 ∧
      0 < parameterSetLength (behindSet (data.drop 5)) ∧
      parameterSetLength (behindSet (data.drop 5)) ≤ (behindSet (data.drop 5)).length - 3) ∧
    pps = setOf (behindSet (data.drop 5))
  := by
  constructor
  · rintro ⟨_, _, hsps, hpps⟩
    have hsome := (beginsWith_iff.mp hpps).1.1
    have hbehind := (beginsWith_iff.mp hsps).2.2
    obtain ⟨hlooks, hset, -⟩ := beginsWith_iff.mp hpps
    subst hbehind
    exact ⟨⟨_, hsps, List.ne_nil_of_length_pos (by omega)⟩, hlooks, hset⟩
  · rintro ⟨⟨_, hsps, -⟩, hlooks, hset⟩
    have hbehind := (beginsWith_iff.mp hsps).2.2
    subst hbehind
    exact ⟨_, _, hsps, beginsWith_iff.mpr ⟨hlooks, hset, rfl⟩⟩

/-! ### Records -/

/-- The first five bytes are assigned. -/
def withFields (d : VideoDemux) (data : List UInt8) : VideoDemux :=
  { d with
    configVersion := data.getD 0 0
    profile := data.getD 1 0
    profileCom := data.getD 2 0
    level := data.getD 3 0
    naluUnitLength := data.getD 4 0 &&& 0x03 }

/-- What is assigned: nothing, the fields, an SPS too, or all. -/
theorem decodeAVCSeqHeader_cases (d : VideoDemux) (data : List UInt8) :
  (data.length < 5 ∧ d.decodeAVCSeqHeader data = (d, -1)) ∨
  (5 ≤ data.length ∧ (∀ sps, ¬ TakesSps data sps) ∧
    d.decodeAVCSeqHeader data = (d.withFields data, -1)) ∨
  (∃ sps, 5 ≤ data.length ∧ TakesSps data sps ∧ (∀ pps, ¬ IsRecord data sps pps) ∧
    d.decodeAVCSeqHeader data = ({ d.withFields data with sps := sps }, -1)) ∨
  ∃ sps pps, 5 ≤ data.length ∧ IsRecord data sps pps ∧
    d.decodeAVCSeqHeader data = ({ d.withFields data with sps := sps, pps := pps }, 0)
  := by
  generalize hr : d.decodeAVCSeqHeader data = r
  unfold decodeAVCSeqHeader at hr
  split at hr
  case isTrue hfew => exact .inl ⟨hfew, hr.symm⟩
  case isFalse hfew =>
    have hfive : 5 ≤ data.length := Nat.le_of_not_lt hfew
    right
    dsimp only at hr
    split at hr
    case isTrue hthree =>
      refine .inl ⟨hfive, fun sps hsps => ?_, hr.symm⟩
      have hlooks := (takesSps_iff.mp hsps).1
      omega
    case isFalse hthree =>
      split at hr
      case isTrue hcount =>
        refine .inl ⟨hfive, fun sps hsps => ?_, hr.symm⟩
        exact hcount (takesSps_iff.mp hsps).1.2.1
      case isFalse hcount =>
        split at hr
        case isFalse hlength =>
          refine .inl ⟨hfive, fun sps hsps => ?_, hr.symm⟩
          exact hlength (takesSps_iff.mp hsps).1.2.2
        case isTrue hlength =>
          right
          have hsps : TakesSps data (setOf (data.drop 5)) :=
            takesSps_iff.mpr ⟨⟨Nat.le_of_not_lt hthree, not_not.mp hcount, hlength⟩, rfl⟩
          -- the SPS is assigned here, whatever the PPS will be
          split at hr
          case isTrue hpps =>
            refine .inl ⟨_, hfive, hsps, fun pps hrecord => ?_, hr.symm⟩
            have hlooks : 3 ≤ (behindSet (data.drop 5)).length := (isRecord_iff.mp hrecord).2.1.1
            exact absurd hpps (Nat.not_lt_of_le hlooks)
          case isFalse hpps =>
            split at hr
            case isTrue hnone =>
              refine .inl ⟨_, hfive, hsps, fun pps hrecord => ?_, hr.symm⟩
              exact hnone (isRecord_iff.mp hrecord).2.1.2.1
            case isFalse hnone =>
              split at hr
              case isFalse hbad =>
                refine .inl ⟨_, hfive, hsps, fun pps hrecord => ?_, hr.symm⟩
                exact hbad (isRecord_iff.mp hrecord).2.1.2.2
              case isTrue hgood =>
                refine .inr ⟨_, _, hfive, isRecord_iff.mpr ⟨hsps, ?_, rfl⟩, hr.symm⟩
                exact ⟨Nat.le_of_not_lt hpps, not_not.mp hnone, hgood⟩

/-! ### All or nothing -/

/-- What is kept of a sequence header. -/
structure SameHeader (d d' : VideoDemux) : Prop where
  sps : d'.sps = d.sps
  pps : d'.pps = d.pps
  naluUnitLength : d'.naluUnitLength = d.naluUnitLength
  profile : d'.profile = d.profile
  profileCom : d'.profileCom = d.profileCom
  level : d'.level = d.level

/-- The parameter sets of a record are the current ones, and so is its size of lengths. -/
structure Current (data : List UInt8) (d : VideoDemux) : Prop where
  isRecord : IsRecord data d.sps d.pps
  naluUnitLength : d.naluUnitLength = data.getD 4 0 &&& 0x03

/-- The call takes a record or leaves what is kept as it was, and it takes all that are records. -/
def AllOrNothing (d : VideoDemux) (data : List UInt8) : Prop :=
  let r := d.decodeAVCSeqHeader data
  (r.2 = 0 ∧ Current data r.1 ∨ r.2 = -1 ∧ SameHeader d r.1) ∧
  ((∃ sps pps, IsRecord data sps pps) → r.2 = 0)

/-- The bytes behind the version are what is kept. -/
def Repeats (d : VideoDemux) (data : List UInt8) : Prop :=
  data.getD 1 0 = d.profile ∧ data.getD 2 0 = d.profileCom ∧ data.getD 3 0 = d.level ∧
  data.getD 4 0 &&& 0x03 = d.naluUnitLength

theorem sameHeader_withFields {d : VideoDemux} {data : List UInt8} :
  SameHeader d (d.withFields data) ↔ Repeats d data
  := by
  constructor
  · rintro ⟨-, -, hlength, hprofile, hcom, hlevel⟩
    exact ⟨hprofile, hcom, hlevel, hlength⟩
  · rintro ⟨hprofile, hcom, hlevel, hlength⟩
    exact ⟨rfl, rfl, hlength, hprofile, hcom, hlevel⟩

theorem sameHeader_withSps {d : VideoDemux} {data sps : List UInt8} :
  SameHeader d { d.withFields data with sps := sps } ↔ Repeats d data ∧ sps = d.sps
  := by
  rw [← sameHeader_withFields]
  constructor
  · rintro ⟨hsps, hpps, hlength, hprofile, hcom, hlevel⟩
    exact ⟨⟨rfl, hpps, hlength, hprofile, hcom, hlevel⟩, hsps⟩
  · rintro ⟨⟨-, hpps, hlength, hprofile, hcom, hlevel⟩, hsps⟩
    exact ⟨hsps, hpps, hlength, hprofile, hcom, hlevel⟩

theorem IsRecord.takesSps {data sps pps : List UInt8} (h : IsRecord data sps pps) :
  TakesSps data sps
  := (isRecord_iff.mp h).1

/-- Something is behind the first five bytes of a record. -/
theorem TakesSps.length_gt {data sps : List UInt8} (h : TakesSps data sps) : 5 < data.length := by
  have hthree := (takesSps_iff.mp h).1.1
  rw [List.length_drop] at hthree
  omega

/-- Bytes that are no record are refused, and then nothing may have been assigned. -/
theorem allOrNothing_of_refused {d d' : VideoDemux} {data : List UInt8}
    (hrefused : d.decodeAVCSeqHeader data = (d', -1))
    (hnone : ∀ sps pps, ¬ IsRecord data sps pps) :
  AllOrNothing d data ↔ SameHeader d d'
  := by
  unfold AllOrNothing
  rw [hrefused]
  constructor
  · rintro ⟨⟨hzero, -⟩ | ⟨-, hsame⟩, -⟩
    · cases hzero
    · exact hsame
  · intro hsame
    exact ⟨.inr ⟨rfl, hsame⟩, fun ⟨sps, pps, hrecord⟩ => absurd hrecord (hnone sps pps)⟩

/-- A sequence header changes all or nothing exactly if it is a record, if it is too short for the
first fields, or if the fields, and the SPS where one is taken, are what is kept already. -/
theorem allOrNothing_iff (d : VideoDemux) (data : List UInt8) :
  AllOrNothing d data ↔
    (∃ sps pps, IsRecord data sps pps) ∨ data.length < 5 ∨
    (Repeats d data ∧ ∀ sps, TakesSps data sps → sps = d.sps)
  := by
  rcases decodeAVCSeqHeader_cases d data with ⟨hfew, hrefused⟩ | ⟨hfive, hno, hrefused⟩ |
    ⟨sps, hfive, hsps, hno, hrefused⟩ | ⟨sps, pps, hfive, hrecord, htaken⟩
  · have hnone : ∀ sps pps, ¬ IsRecord data sps pps
      := by
      intro sps pps hrecord
      have hgt := hrecord.takesSps.length_gt
      omega
    rw [allOrNothing_of_refused hrefused hnone]
    exact iff_of_true ⟨rfl, rfl, rfl, rfl, rfl, rfl⟩ (.inr (.inl hfew))
  · have hnone : ∀ sps pps, ¬ IsRecord data sps pps := fun sps _ hrecord => hno sps hrecord.takesSps
    rw [allOrNothing_of_refused hrefused hnone, sameHeader_withFields]
    constructor
    · intro hrepeats
      exact .inr (.inr ⟨hrepeats, fun sps hsps => absurd hsps (hno sps)⟩)
    · rintro (⟨sps, pps, hrecord⟩ | hfew | ⟨hrepeats, -⟩)
      · exact absurd hrecord (hnone sps pps)
      · omega
      · exact hrepeats
  · have hnone : ∀ sps pps, ¬ IsRecord data sps pps
      := by
      intro sps' pps hrecord
      rw [← hsps.unique hrecord.takesSps] at hrecord
      exact hno pps hrecord
    rw [allOrNothing_of_refused hrefused hnone, sameHeader_withSps]
    constructor
    · rintro ⟨hrepeats, hsame⟩
      exact .inr (.inr ⟨hrepeats, fun sps' hsps' => (hsps'.unique hsps).trans hsame⟩)
    · rintro (⟨sps', pps, hrecord⟩ | hfew | ⟨hrepeats, hsame⟩)
      · exact absurd hrecord (hnone sps' pps)
      · omega
      · exact ⟨hrepeats, hsame sps hsps⟩
  · refine iff_of_true ?_ (.inl ⟨sps, pps, hrecord⟩)
    unfold AllOrNothing
    rw [htaken]
    exact ⟨.inl ⟨rfl, hrecord, rfl⟩, fun _ => rfl⟩

/-- The new SPS stays with the old PPS when the record ends behind it. -/
theorem not_allOrNothing_noPps :
  ¬ AllOrNothing
    { configVersion := 1
      profile := 0x42
      level := 0x1f
      naluUnitLength := 3
      sps := [0x67]
      pps := [0x68] }
    [0x01, 0x42, 0x00, 0x1f, 0xff, 0xe1, 0x00, 0x02, 0x67, 0x64, 0x00]
  := by
  rintro ⟨⟨hzero, -⟩ | ⟨-, hsame⟩, -⟩
  · revert hzero
    decide
  · have hsps := hsame.sps
    revert hsps
    decide

end VideoDemux
