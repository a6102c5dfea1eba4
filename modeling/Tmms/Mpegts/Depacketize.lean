import Tmms.Library.TransportStream
import Tmms.Mpegts.PesWriter

/-!
# Reading what was written

The packets that `writeLoop` writes are read back as the standard says: the header of the
elementary stream and the samples in order are the payload, and stuffing fills the last packet
(`depacketizes`).
-/

open TransportStream ByteBuffer

namespace PesWriter

/-! ### Bytes of a header -/

theorem toNat_control {cc : UInt8} (h : cc.toNat < 16) :
  ((0x10 : UInt8) ||| cc).toNat = 16 + cc.toNat ∧
    (((0x10 : UInt8) ||| cc) ||| 0x20).toNat = 48 + cc.toNat
  := forall_uint8 (P := fun cc => cc.toNat < 16 → ((0x10 : UInt8) ||| cc).toNat = 16 + cc.toNat ∧
    (((0x10 : UInt8) ||| cc) ||| 0x20).toNat = 48 + cc.toNat) (by decide +kernel) cc h

/-- The high bits of the identifier, with the flag of the first packet. -/
theorem toNat_val {pid : UInt16} (h : pid.toNat < 8192) :
  (pid >>> 8).toUInt8.toNat = pid.toNat / 256 ∧
    (pid >>> 8 ||| 0x40).toUInt8.toNat = 64 + pid.toNat / 256
  := by
  have hshift : (pid >>> 8).toNat = pid.toNat / 256
    := by
    rw [UInt16.toNat_shiftRight, Nat.shiftRight_eq_div_pow]
    rfl
  have hor : pid.toNat / 256 ||| 64 = 64 + pid.toNat / 256
    := by
    rw [Nat.or_comm]
    exact (Nat.two_pow_add_eq_or_of_lt (i := 6) (by omega) 1).symm
  constructor
  · rw [UInt16.toNat_toUInt8, hshift]
    omega
  · rw [UInt16.toNat_toUInt8, UInt16.toNat_or, hshift, show (0x40 : UInt16).toNat = 64 from rfl,
      hor]
    omega

theorem toNat_low (pid : UInt16) :
  pid.toUInt8.toNat = pid.toNat % 256
  := UInt16.toNat_toUInt8 pid

/-! ### Times -/

/-- Fifteen bits and a marker, in two bytes. -/
theorem half_of_bytes {a : Nat} (h : a < 32768) :
  (256 * ((2 * a + 1) / 2 ^ 8 % 2 ^ 8) + (2 * a + 1) % 2 ^ 8) / 2 = a ∧
    (2 * a + 1) % 2 ^ 8 % 2 = 1
  := by
  omega

/-- Four bits, three bits and a marker, in a byte. -/
theorem parts_of_byte {a b : Nat} (ha : a < 16) (hb : b < 8) :
  (16 * a + (2 * b + 1)) % 2 ^ 8 / 16 = a ∧ (16 * a + (2 * b + 1)) % 2 ^ 8 % 2 = 1 ∧
    (16 * a + (2 * b + 1)) % 2 ^ 8 / 2 % 8 = b
  := by
  omega

/-- A time in its three parts. -/
theorem parts_of_time (pts : Int) :
  1073741824 * (pts / ↑(2 ^ 30 : Nat) % 8).toNat + 32768 * (pts / ↑(2 ^ 15 : Nat) % 32768).toNat +
      (pts % 32768).toNat =
    (pts % 8589934592).toNat
  := by
  omega

/-- A time is read back modulo `2 ^ 33`. -/
theorem parseTimestamp_writePts (fourbits : Nat) (h : fourbits < 16) (pts : Int) :
  parseTimestamp fourbits (writePts fourbits pts) = some (pts % 8589934592).toNat
  := by
  have hor : ∀ a b : Nat, b < 2 → a <<< 1 ||| b = 2 * a + b
    := by
    intro a b hb
    rw [← Nat.shiftLeft_add_eq_or_of_lt (i := 1) hb, Nat.shiftLeft_eq]
    omega
  have hfirst : fourbits <<< 4 ||| ((pts >>> (30 : Nat)) % 8).toNat <<< 1 ||| 1 =
      16 * fourbits + (2 * ((pts >>> (30 : Nat)) % 8).toNat + 1)
    := by
    rw [Nat.or_assoc, hor _ 1 (by omega), ← Nat.shiftLeft_add_eq_or_of_lt (i := 4) (by omega),
      Nat.shiftLeft_eq]
    omega
  rw [writePts, hfirst, hor _ 1 (by omega), hor _ 1 (by omega), parseTimestamp]
  simp only [UInt8.toNat_ofNat', Nat.shiftRight_eq_div_pow, Int.shiftRight_eq_div_pow]
  obtain ⟨hfour, hmark, hhigh⟩ :=
    parts_of_byte h (b := (pts / ↑(2 ^ 30 : Nat) % 8).toNat) (by omega)
  obtain ⟨hmiddle, hmark'⟩ := half_of_bytes (a := (pts / ↑(2 ^ 15 : Nat) % 32768).toNat) (by omega)
  obtain ⟨hlow, hmark''⟩ := half_of_bytes (a := (pts % 32768).toNat) (by omega)
  rw [if_pos ⟨hfour, hmark, hmark', hmark''⟩, hhigh, hmiddle, hlow, parts_of_time]

/-- The length in the header: of what follows it, or 0. -/
def packetLength (payloadSize headerLen : Nat) : Nat :=
  if payloadSize + headerLen + 3 > 0xffff then 0 else payloadSize + headerLen + 3

theorem packetLength_lt (payloadSize headerLen : Nat) :
  packetLength payloadSize headerLen < 65536
  := by
  rw [packetLength]
  split
  · decide
  · omega

/-- The two bytes of the length. -/
theorem bytes_packetLength (payloadSize headerLen : Nat)
    (h : payloadSize + headerLen + 3 < 2 ^ 31) {len : Int}
    (hlen : len = if toInt32 (payloadSize + headerLen + 3) > 0xffff then 0
      else toInt32 (payloadSize + headerLen + 3)) :
  256 * (UInt8.ofNat ((len >>> (8 : Nat)) % 256).toNat).toNat + (UInt8.ofNat (len % 256).toNat).toNat =
    packetLength payloadSize headerLen
  := by
  have hfits : toInt32 (payloadSize + headerLen + 3) = payloadSize + headerLen + 3
    := toInt32_of_fits (by omega) (by omega)
  have hnat : len = (packetLength payloadSize headerLen : Nat)
    := by
    rw [hlen, hfits, packetLength]
    split
    · rw [if_pos (by omega)]
      rfl
    · rw [if_neg (by omega)]
      omega
  have hlt := packetLength_lt payloadSize headerLen
  rw [hnat, UInt8.toNat_ofNat', UInt8.toNat_ofNat', Int.shiftRight_eq_div_pow]
  omega

/-- The fields of the header: the length, how many times there are, and their bytes. -/
theorem pesHeader_fields (streamId : UInt8) (payloadSize : Nat) (pts dts : Int) :
  ∃ (l0 l1 flags headerLen : UInt8) (fields : List UInt8),
    pesHeader streamId payloadSize pts dts =
      0x00 :: 0x00 :: 0x01 :: streamId :: l0 :: l1 :: 0x80 :: flags :: headerLen :: fields ∧
    headerLen.toNat = fields.length ∧
    (payloadSize + 13 < 2 ^ 31 →
      256 * l0.toNat + l1.toNat = packetLength payloadSize fields.length) ∧
    flags.toNat / 64 = (if pts = dts then 2 else 3) ∧
    parseTimestamps (flags.toNat / 64) fields =
      some ((pts % 8589934592).toNat, (dts % 8589934592).toNat)
  := by
  by_cases htimes : pts = dts
  · subst htimes
    have hparse := parseTimestamp_writePts 2 (by decide) pts
    rw [pesHeader, if_neg (not_not_intro rfl), if_neg (not_not_intro rfl), if_pos (rfl : pts = pts)]
    refine ⟨_, _, _, _, writePts 2 pts, rfl, rfl, fun hsize => ?_, by decide, ?_⟩
    · exact bytes_packetLength payloadSize 5 (by omega) rfl
    · rw [parseTimestamps, if_pos (by decide), hparse]
      rfl
  · have hpts := parseTimestamp_writePts 3 (by decide) pts
    have hdts := parseTimestamp_writePts 1 (by decide) dts
    rw [pesHeader, if_pos htimes, if_pos htimes, if_neg htimes]
    refine ⟨_, _, _, _, writePts 3 pts ++ writePts 1 dts, rfl, rfl, fun hsize => ?_, by decide, ?_⟩
    · exact bytes_packetLength payloadSize 10 (by omega) rfl
    · rw [parseTimestamps, if_neg (by decide), if_pos (by decide)]
      have hfirst : (writePts 3 pts ++ writePts 1 dts).take 5 = writePts 3 pts := rfl
      have hsecond : (writePts 3 pts ++ writePts 1 dts).drop 5 = writePts 1 dts := rfl
      rw [hfirst, hsecond, hpts, hdts]

/-- The header of the elementary stream is read back, and has a length that is right or 0. -/
theorem parse_pesHeader (streamId : UInt8) {payloadSize : Nat} (pts dts : Int)
    {data : List UInt8} (hdata : data.length = payloadSize) (hsize : payloadSize + 13 < 2 ^ 31) :
  ∃ length, PesPacket.parse (pesHeader streamId payloadSize pts dts ++ data) =
    some ⟨streamId, length, (pts % 8589934592).toNat, (dts % 8589934592).toNat, data⟩
  := by
  obtain ⟨l0, l1, flags, headerLen, fields, hheader, hlength, hpacket, -, htimes⟩ :=
    pesHeader_fields streamId payloadSize pts dts
  rw [hheader]
  refine ⟨_, parse_of_fields (by decide) hlength ?_ htimes⟩
  rw [hpacket hsize, packetLength, hdata]
  split
  · exact .inl rfl
  · right
    omega

/-! ### Packets -/

/-- The second byte of a packet. -/
def val (w : PesWriter) (isStart : Bool) : UInt8 :=
  (if isStart then w.pid >>> 8 ||| 0x40 else w.pid >>> 8).toUInt8

theorem toNat_val_eq {w : PesWriter} (hpid : w.pid.toNat < 8192) (isStart : Bool) :
  (w.val isStart).toNat = (if isStart then 64 else 0) + w.pid.toNat / 256
  := by
  cases isStart with
  | false =>
      rw [if_neg Bool.false_ne_true, Nat.zero_add]
      exact (toNat_val hpid).1
  | true => exact (toNat_val hpid).2

/-- What a packet says of itself is read back. -/
theorem fields_eq {w : PesWriter} (hpid : w.pid.toNat < 8192) (isStart : Bool) :
  (w.val isStart).toNat / 128 = 0 ∧
    decide ((w.val isStart).toNat / 64 % 2 = 1) = isStart ∧
    256 * ((w.val isStart).toNat % 32) + w.pid.toUInt8.toNat = w.pid.toNat
  := by
  rw [toNat_val_eq hpid, toNat_low]
  cases isStart with
  | false =>
      rw [if_neg Bool.false_ne_true, decide_eq_false_iff_not]
      omega
  | true =>
      rw [if_pos rfl, decide_eq_true_eq]
      omega

/-- A packet carries an adaptation field and a payload, and is read back with its header if the
identifier has thirteen bits. -/
def Carries (w : PesWriter) (isStart : Bool) (packet : List UInt8)
    (adaptation : Option AdaptationField) (payload : List UInt8) : Prop :=
  contents packet = some (adaptation, payload) ∧
    (w.pid.toNat < 8192 → TsPacket.parse packet =
      some ⟨isStart, w.pid.toNat, w.cc.toNat, adaptation, payload⟩)

/-- The header is read back, whatever the packet carries. -/
theorem carries_of_contents {w : PesWriter} {isStart : Bool} {b3 : UInt8}
    (hb3 : b3.toNat / 64 = 0 ∧ b3.toNat % 16 = w.cc.toNat) {body payload : List UInt8}
    {adaptation : Option AdaptationField}
    (h : contents (0x47 :: w.val isStart :: w.pid.toUInt8 :: b3 :: body) =
      some (adaptation, payload)) :
  w.Carries isStart (0x47 :: w.val isStart :: w.pid.toUInt8 :: b3 :: body) adaptation payload
  := by
  refine ⟨h, ?_⟩
  intro hpid
  obtain ⟨herror, hstart, hidentifier⟩ := fields_eq hpid isStart
  rw [parse_of_contents herror hb3.1 h, hstart, hidentifier, hb3.2]

/-- A packet that is full. -/
theorem carries_plain {w : PesWriter} (hcc : w.cc.toNat < 16) (isStart : Bool)
    {payload : List UInt8} (h : payload.length = 184) :
  w.Carries isStart (w.tsHeader isStart ++ payload) none payload
  := by
  obtain ⟨hcontrol, _⟩ := toNat_control hcc
  change w.Carries isStart
    (0x47 :: w.val isStart :: w.pid.toUInt8 :: (0x10 ||| w.cc) :: payload) _ _
  exact carries_of_contents (by omega) (contents_of_payload (by omega) h)

/-- A packet that is filled up in front. -/
theorem carries_stuffed {w : PesWriter} (hcc : w.cc.toNat < 16) (isStart : Bool) {stuffing : Nat}
    (hpos : 0 < stuffing) {payload : List UInt8} (h : stuffing + payload.length = 184) :
  w.Carries isStart ([0x47, w.val isStart, w.pid.toUInt8, (0x10 ||| w.cc) ||| 0x20,
      UInt8.ofNat (stuffing - 1)] ++ (stuffingField stuffing ++ payload))
    (some ⟨none, stuffing - 2⟩) payload
  := by
  obtain ⟨_, hcontrol⟩ := toNat_control hcc
  have hfield := length_stuffingField hpos
  have hparse : AdaptationField.parse (stuffingField stuffing) = some ⟨none, stuffing - 2⟩
    := by
    rw [stuffingField]
    split
    · rename_i hone
      rw [hone]
      rfl
    · exact parse_stuffing (stuffing - 2)
  have hlength : (UInt8.ofNat (stuffing - 1)).toNat = (stuffingField stuffing).length
    := by
    rw [hfield, UInt8.toNat_ofNat']
    omega
  exact carries_of_contents (by omega)
    (contents_of_adaptation (by omega) hlength hparse (by omega))

/-- The first packet of a key frame. -/
theorem carries_keyed {w : PesWriter} (hcc : w.cc.toNat < 16) {pcr : List UInt8}
    (hpcr : pcr.length = 6) (stuffing : Nat) (payload : List UInt8)
    (h : stuffing + payload.length = 176) :
  w.Carries true (([0x47, w.val true, w.pid.toUInt8, (0x10 ||| w.cc) ||| 0x20,
      7 + UInt8.ofNat stuffing, 0x10] ++ pcr) ++ (List.replicate stuffing 0xff ++ payload))
    (some ⟨some pcr, stuffing⟩) payload
  := by
  obtain ⟨_, hcontrol⟩ := toNat_control hcc
  have hfield : ((0x10 : UInt8) :: (pcr ++ List.replicate stuffing 0xff)).length = 7 + stuffing
    := by
    rw [List.length_cons, List.length_append, hpcr, List.length_replicate]
    omega
  have hlength : ((7 : UInt8) + UInt8.ofNat stuffing).toNat =
      ((0x10 : UInt8) :: (pcr ++ List.replicate stuffing 0xff)).length
    := by
    rw [hfield, UInt8.toNat_add, UInt8.toNat_ofNat', show (7 : UInt8).toNat = 7 from rfl]
    omega
  have hbytes : ([0x47, w.val true, w.pid.toUInt8, (0x10 ||| w.cc) ||| 0x20,
      7 + UInt8.ofNat stuffing, 0x10] ++ pcr) ++ (List.replicate stuffing 0xff ++ payload) =
      0x47 :: w.val true :: w.pid.toUInt8 :: ((0x10 ||| w.cc) ||| 0x20) ::
        (7 + UInt8.ofNat stuffing) ::
          ((0x10 :: (pcr ++ List.replicate stuffing 0xff)) ++ payload)
    := by simp only [List.cons_append, List.nil_append, List.append_assoc]
  rw [hbytes]
  exact carries_of_contents (by omega)
    (contents_of_adaptation (by omega) hlength (parse_pcr hpcr stuffing) (by omega))

/-- The buffer before the samples are copied: what is in front of them is read as the header of
a packet, whatever the samples are. -/
theorem header_eq {w : PesWriter} (hcc : w.cc.toNat < 16) (isStart key : Bool) (pts : Int)
    {part : List UInt8}
    (hpart : part = [] ∨ ∃ rest, part = 0x00 :: 0x00 :: rest) {headerLen : Nat}
    (hheader : (w.front isStart key pts).length + part.length = headerLen) {room : Nat}
    (hroom : headerLen + room = 188) (stuffing : Nat) (hstuffing : stuffing ≤ room) :
  ∃ bytes, (if stuffing > 0 then
        addStuffing (blank (w.front isStart key pts ++ part)) headerLen stuffing
      else blank (w.front isStart key pts ++ part)) =
      bytes ++ List.replicate (room - stuffing) 0 ∧
    bytes.length + (room - stuffing) = 188 ∧
    ∀ data : List UInt8, data.length = room - stuffing →
      ∃ adaptation, w.Carries isStart (bytes ++ data) adaptation (part ++ data) ∧
        adaptation.bind AdaptationField.pcr =
          if isStart && key then some (writePcr pts) else none
  := by
  subst hheader
  have hlength := w.length_front isStart key pts
  have hblank : blank (w.front isStart key pts ++ part) =
      w.front isStart key pts ++ (part ++ List.replicate room 0)
    := by
    rw [blank, List.length_append, List.append_assoc]
    congr 3
    omega
  rw [hblank]
  by_cases hkeyed : (isStart && key) = true
  · obtain ⟨rfl, rfl⟩ : isStart = true ∧ key = true := by simpa using hkeyed
    have hpcr := length_writePcr pts
    rw [if_pos hkeyed] at hlength
    rw [hlength] at hroom ⊢
    have hfront : w.front true true pts = [0x47, w.val true, w.pid.toUInt8,
        (0x10 ||| w.cc) ||| 0x20, 7, 0x10] ++ writePcr pts
      := rfl
    refine ⟨([0x47, w.val true, w.pid.toUInt8, (0x10 ||| w.cc) ||| 0x20,
      7 + UInt8.ofNat stuffing, 0x10] ++ writePcr pts) ++ (List.replicate stuffing 0xff ++ part),
      ?_, ?_, ?_⟩
    · rw [hfront]
      split
      · rw [addStuffing_keyed _ _ _ _ hpcr (by rwa [List.length_replicate]), List.drop_replicate]
        simp only [List.append_assoc]
      · have hzero : stuffing = 0 := by omega
        rw [hzero]
        simp only [List.append_assoc]
        rfl
    · simp only [List.length_append, List.length_cons, List.length_nil, hpcr,
        List.length_replicate]
      omega
    · intro data hdata
      refine ⟨some ⟨some (writePcr pts), stuffing⟩, ?_, rfl⟩
      have hcarries := carries_keyed hcc hpcr stuffing (part ++ data)
        (by rw [List.length_append]; omega)
      rw [List.append_assoc, List.append_assoc (List.replicate stuffing 0xff)]
      exact hcarries
  · rw [if_neg hkeyed] at hlength
    rw [hlength] at hroom ⊢
    have hfront : w.front isStart key pts = [0x47, w.val isStart, w.pid.toUInt8, 0x10 ||| w.cc]
      := if_neg hkeyed
    rw [hfront]
    rcases Nat.eq_zero_or_pos stuffing with hzero | hpos
    · subst hzero
      refine ⟨[0x47, w.val isStart, w.pid.toUInt8, 0x10 ||| w.cc] ++ part, ?_, ?_, ?_⟩
      · rw [if_neg (Nat.lt_irrefl 0), List.append_assoc]
        rfl
      · rw [List.length_append]
        exact hroom
      · intro data hdata
        refine ⟨none, ?_, (if_neg hkeyed).symm⟩
        rw [List.append_assoc]
        apply carries_plain hcc isStart
        rw [List.length_append]
        omega
    · refine ⟨[0x47, w.val isStart, w.pid.toUInt8, (0x10 ||| w.cc) ||| 0x20,
        UInt8.ofNat (stuffing - 1)] ++ (stuffingField stuffing ++ part), ?_, ?_, ?_⟩
      · have hsecond : (part ++ List.replicate room (0 : UInt8)).getD 1 0 = 0
          := by
          rcases hpart with rfl | ⟨rest, rfl⟩
          · rw [List.nil_append, List.getD_eq_getElem?_getD, List.getElem?_replicate]
            split
            · rfl
            · rfl
          · rfl
        rw [if_pos hpos, addStuffing_plain _ _ _ hcc hsecond hpos
          (by rwa [List.length_replicate]), List.drop_replicate, List.append_assoc,
          List.append_assoc (stuffingField stuffing)]
      · simp only [List.length_append, List.length_cons, List.length_nil,
          length_stuffingField hpos]
        omega
      · intro data hdata
        refine ⟨some ⟨none, stuffing - 2⟩, ?_, (if_neg hkeyed).symm⟩
        rw [List.append_assoc, List.append_assoc (stuffingField stuffing)]
        apply carries_stuffed hcc isStart hpos
        rw [List.length_append]
        omega

/-- A packet is read back, with as many bytes of the samples as went into it, and the clock
reference of a key frame. -/
theorem writePacket_carries {w : PesWriter} (hcc : w.cc.toNat < 16) (streamId : UInt8)
    (isStart key : Bool) {result : List (List UInt8)} {payloadSize : Nat} (pts dts : Int)
    (hsize : payloadSize ≤ result.flatten.length) :
  ∃ packet rest len adaptation,
    w.writePacket streamId isStart key result payloadSize pts dts = (packet, rest, len) ∧
    len ≤ payloadSize ∧ rest.flatten = result.flatten.drop len ∧
    w.Carries isStart packet adaptation
      (pesPart streamId isStart payloadSize pts dts ++ result.flatten.take len) ∧
    adaptation.bind AdaptationField.pcr = if isStart && key then some (writePcr pts) else none
  := by
  have hle := w.length_header_le streamId isStart key payloadSize pts dts
  have hpart : pesPart streamId isStart payloadSize pts dts = [] ∨
      ∃ rest, pesPart streamId isStart payloadSize pts dts = 0x00 :: 0x00 :: rest
    := by
    cases isStart with
    | false => exact .inl rfl
    | true => exact .inr ⟨_, rfl⟩
  have hheader := w.writeHeader_eq streamId isStart key payloadSize pts dts
  change _ = (blank (_ ++ pesPart streamId isStart payloadSize pts dts),
    _ + (pesPart streamId isStart payloadSize pts dts).length) at hheader
  generalize hsum : (w.front isStart key pts).length +
    (pesPart streamId isStart payloadSize pts dts).length = headerLen at hle hheader
  have hstuffing : 188 - headerLen - min (188 - headerLen) payloadSize ≤ 188 - headerLen
    := Nat.sub_le _ _
  obtain ⟨bytes, hbuf, hbytes, hcarries⟩ := header_eq hcc isStart key pts hpart hsum
    (Nat.add_sub_of_le (Nat.le_trans hle (by decide))) _ hstuffing
  have hlen : 188 - headerLen - (188 - headerLen - min (188 - headerLen) payloadSize) =
      min (188 - headerLen) payloadSize
    := by omega
  rw [hlen] at hbuf hbytes hcarries
  obtain ⟨hcopied, hrest⟩ := copySamples_eq result bytes
    (List.replicate (min (188 - headerLen) payloadSize) 0) (min (188 - headerLen) payloadSize)
    hbytes List.length_replicate (Nat.le_trans (Nat.min_le_right _ _) hsize)
  have htaken : (result.flatten.take (min (188 - headerLen) payloadSize)).length =
      min (188 - headerLen) payloadSize
    := by
    rw [List.length_take]
    exact Nat.min_eq_left (Nat.le_trans (Nat.min_le_right _ _) hsize)
  obtain ⟨adaptation, hadaptation⟩ := hcarries _ htaken
  refine ⟨_, _, _, adaptation, ?_, Nat.min_le_right (188 - headerLen) payloadSize, hrest,
    hadaptation⟩
  rw [writePacket, hheader, ← hcopied]
  dsimp only
  rw [hbuf]

/-! ### Frames -/

/-- What is read from the packets of a frame: packets of the identifier, numbered on from a
counter, the first one marked, and in their payloads one packet of an elementary stream with the
times modulo `2 ^ 33` and the data. -/
def Depacketizes (pid : UInt16) (cc : UInt8) (streamId : UInt8) (pts dts : Int)
    (data : List UInt8) (packets : List (List UInt8)) : Prop :=
  ∃ ts : List TsPacket, packets.map TsPacket.parse = ts.map some ∧
    (∀ t ∈ ts, t.pid = pid.toNat) ∧
    ts.map TsPacket.payloadUnitStart = true :: List.replicate (ts.length - 1) false ∧
    ts.map TsPacket.continuity = (List.range ts.length).map (fun i => (cc.toNat + 1 + i) % 16) ∧
    ∃ length, PesPacket.parse (ts.flatMap TsPacket.payload) =
      some ⟨streamId, length, (pts % 2 ^ 33).toNat, (dts % 2 ^ 33).toNat, data⟩

/-- The counter of the next packet. -/
theorem toNat_cc (cc : UInt8) :
  ((cc + 1) &&& 0xf).toNat = (cc.toNat + 1) % 16
  := forall_uint8 (P := fun cc => ((cc + 1) &&& 0xf).toNat = (cc.toNat + 1) % 16)
    (by decide +kernel) cc

/-- When the loop ends, the header and all samples are written. -/
theorem nothing_left {payloadSize : Nat} {isStart : Bool} {result : List (List UInt8)}
    (hsize : result.flatten.length = payloadSize) (hpos : isStart = true → 0 < payloadSize)
    (hmore : ¬ (payloadSize > 0 ∧ result ≠ [])) :
  isStart = false ∧ result.flatten = []
  := by
  have hnone : result.flatten.length = 0
    := by
    by_contra hsome
    apply hmore
    refine ⟨by omega, ?_⟩
    rintro rfl
    exact hsome rfl
  refine ⟨?_, List.eq_nil_of_length_eq_zero hnone⟩
  cases isStart with
  | false => rfl
  | true => exact absurd (hpos rfl) (by omega)

/-- The loop writes packets whose payloads are the rest of the samples, behind the header in the
first turn. -/
theorem writeLoop_parse {payloadSize : Nat} (w : PesWriter) (hpid : w.pid.toNat < 8192)
    (streamId : UInt8) (isStart key : Bool) (result : List (List UInt8)) (pts dts : Int)
    (hsize : result.flatten.length = payloadSize) (hpos : isStart = true → 0 < payloadSize) :
  ∃ ts : List TsPacket,
    (w.writeLoop streamId isStart key result payloadSize pts dts).2.map TsPacket.parse =
      ts.map some ∧
    (∀ t ∈ ts, t.pid = w.pid.toNat) ∧
    (ts.map TsPacket.payloadUnitStart =
      if isStart then true :: List.replicate (ts.length - 1) false
      else List.replicate ts.length false) ∧
    ts.map TsPacket.continuity =
      (List.range ts.length).map (fun i => (w.cc.toNat + 1 + i) % 16) ∧
    ts.flatMap TsPacket.payload =
      pesPart streamId isStart payloadSize pts dts ++ result.flatten
  := by
  induction payloadSize using Nat.strongRecOn generalizing w isStart result with
  | ind payloadSize ih =>
      rw [writeLoop]
      by_cases hmore : payloadSize > 0 ∧ result ≠ []
      · rw [dif_pos hmore]
        have hcc := toNat_cc w.cc
        have hlow : ((w.cc + 1) &&& 0xf).toNat < 16 := by omega
        have hgoes := writePacket_pos { w with cc := (w.cc + 1) &&& 0xf } streamId isStart key
          result pts dts hmore.1
        obtain ⟨packet, rest, len, adaptation, hwrite, hle, hrest, ⟨-, hparse⟩, -⟩ :=
          writePacket_carries (w := { w with cc := (w.cc + 1) &&& 0xf }) hlow streamId isStart key
            pts dts (Nat.le_of_eq hsize.symm)
        rw [hwrite] at hgoes
        obtain ⟨ts, hts, hpids, hstarts, hcounters, hpayload⟩ :=
          ih (payloadSize - len) (Nat.sub_lt hmore.1 hgoes) { w with cc := (w.cc + 1) &&& 0xf }
            hpid false rest (by rw [hrest, List.length_drop, hsize])
            (fun h => nomatch h)
        simp only [hwrite]
        refine ⟨⟨isStart, w.pid.toNat, ((w.cc + 1) &&& 0xf).toNat, adaptation,
          pesPart streamId isStart payloadSize pts dts ++ result.flatten.take len⟩ :: ts,
          ?_, ?_, ?_, ?_, ?_⟩
        · rw [List.map_cons, List.map_cons, hparse hpid, hts]
        · intro t ht
          rcases List.mem_cons.mp ht with rfl | ht
          · rfl
          · exact hpids t ht
        · rw [if_neg Bool.false_ne_true] at hstarts
          rw [List.map_cons, hstarts, List.length_cons, Nat.add_sub_cancel]
          cases isStart with
          | false => rfl
          | true => rfl
        · rw [List.map_cons, hcounters, List.length_cons, List.range_succ_eq_map, List.map_cons,
            List.map_map, hcc, Nat.add_zero]
          congr 1
          apply List.map_congr_left
          intro i _
          dsimp only [Function.comp]
          omega
        · rw [List.flatMap_cons, hpayload, hrest, List.append_assoc]
          congr 1
          exact List.take_append_drop len result.flatten
      · obtain ⟨hlater, hnone⟩ := nothing_left hsize hpos hmore
        subst hlater
        rw [dif_neg hmore]
        refine ⟨[], rfl, ?_, rfl, rfl, ?_⟩
        · intro t ht
          cases ht
        · exact hnone.symm

/-- What the packets carry, whatever the identifier is. -/
theorem payloads_writeLoop {payloadSize : Nat} (w : PesWriter) (streamId : UInt8)
    (isStart key : Bool) (result : List (List UInt8)) (pts dts : Int)
    (hsize : result.flatten.length = payloadSize) (hpos : isStart = true → 0 < payloadSize) :
  payloads (w.writeLoop streamId isStart key result payloadSize pts dts).2 =
    some (pesPart streamId isStart payloadSize pts dts ++ result.flatten)
  := by
  induction payloadSize using Nat.strongRecOn generalizing w isStart result with
  | ind payloadSize ih =>
      rw [writeLoop]
      by_cases hmore : payloadSize > 0 ∧ result ≠ []
      · rw [dif_pos hmore]
        have hcc := toNat_cc w.cc
        have hgoes := writePacket_pos { w with cc := (w.cc + 1) &&& 0xf } streamId isStart key
          result pts dts hmore.1
        obtain ⟨packet, rest, len, adaptation, hwrite, hle, hrest, ⟨hcontents, -⟩, -⟩ :=
          writePacket_carries (w := { w with cc := (w.cc + 1) &&& 0xf })
            (show ((w.cc + 1) &&& 0xf).toNat < 16 by omega) streamId isStart key pts dts
            (Nat.le_of_eq hsize.symm)
        rw [hwrite] at hgoes
        have hpayloads := ih (payloadSize - len) (Nat.sub_lt hmore.1 hgoes)
          { w with cc := (w.cc + 1) &&& 0xf } false rest
          (by rw [hrest, List.length_drop, hsize]) (fun h => nomatch h)
        simp only [hwrite]
        rw [payloads, hcontents, Option.bind_some]
        dsimp only
        rw [hpayloads, Option.map_some, hrest, List.append_assoc]
        congr 2
        exact List.take_append_drop len result.flatten
      · obtain ⟨hlater, hnone⟩ := nothing_left hsize hpos hmore
        subst hlater
        rw [dif_neg hmore, hnone]
        rfl

/-- The data of a frame are those of its samples. -/
theorem elementaryData_writeLoop (w : PesWriter) (streamId : UInt8) (key : Bool)
    {result : List (List UInt8)} {payloadSize : Nat} (pts dts : Int)
    (hsize : result.flatten.length = payloadSize) (hpos : 0 < payloadSize)
    (hfits : payloadSize + 13 < 2 ^ 31) :
  elementaryData (w.writeLoop streamId true key result payloadSize pts dts).2 =
    some result.flatten
  := by
  obtain ⟨length, hparse⟩ := parse_pesHeader streamId pts dts hsize hfits
  rw [elementaryData, payloads_writeLoop w streamId true key result pts dts hsize fun _ => hpos,
    Option.bind_some, show pesPart streamId true payloadSize pts dts =
      pesHeader streamId payloadSize pts dts from rfl, hparse]
  rfl

/-- The packets that the two functions write for the samples of a frame are read back. -/
theorem depacketizes (w : PesWriter) (result : List (List UInt8)) (pts dts : Int) (key : Bool)
    (hpid : w.pid < 0x1FFF) (hpos : 0 < result.flatten.length)
    (hsize : result.flatten.length + 13 < 2 ^ 31) :
  Depacketizes w.pid w.cc 0xe0 pts dts result.flatten
      (VideoEncoder.writeVideoPes w result result.flatten.length pts dts key).2 ∧
    Depacketizes w.pid w.cc 0xc0 dts dts result.flatten
      (AudioEncoder.writeAudioPes w result result.flatten.length dts).2
  := by
  have hidentifier : w.pid.toNat < 8192 := Nat.lt_trans (UInt16.lt_iff_toNat_lt.mp hpid) (by decide)
  have hframe : ∀ (streamId : UInt8) (pts : Int) (key : Bool),
      Depacketizes w.pid w.cc streamId pts dts result.flatten
        (w.writeLoop streamId true key result result.flatten.length pts dts).2
    := by
    intro streamId pts key
    obtain ⟨ts, hts, hpids, hstarts, hcounters, hpayload⟩ :=
      w.writeLoop_parse hidentifier streamId true key result pts dts rfl (fun _ => hpos)
    refine ⟨ts, hts, hpids, hstarts, hcounters, ?_⟩
    rw [hpayload]
    exact parse_pesHeader streamId pts dts rfl hsize
  exact ⟨hframe 0xe0 pts key, hframe 0xc0 dts false⟩

/-- A key frame of four bytes in three samples, one of them empty. -/
theorem depacketizes_keyFrame :
  Depacketizes 256 0xff 0xe0 180000 90000 [1, 2, 3, 4]
      (VideoEncoder.writeVideoPes ⟨256, 0xff⟩ [[1, 2, 3], [], [4]] 4 180000 90000 true).2 ∧
    Depacketizes 256 0xff 0xc0 90000 90000 [1, 2, 3, 4]
      (AudioEncoder.writeAudioPes ⟨256, 0xff⟩ [[1, 2, 3], [], [4]] 4 90000).2
  := depacketizes ⟨256, 0xff⟩ [[1, 2, 3], [], [4]] 180000 90000 true (by decide) (by decide)
    (by decide)

end PesWriter
