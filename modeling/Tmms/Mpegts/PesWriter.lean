import Tmms.Base.Bytes
import Tmms.Library.ByteBuffer

/-!
# Writing elementary streams

`WriteVideoPes` and `WriteAudioPes` cut the samples of a frame into packets of 188 bytes.  The
first packet has the PES header, and before it, with a key frame, an adaptation field with the
clock reference.  The last packet is filled up by stuffing: it goes behind the adaptation field
if there is one, and else into a new one, for which the header moves up in the buffer.

The two differ in the stream id, and audio has one time and no key frames.
-/

open Endian ByteBuffer

/-- The fields of an encoder that writing uses. `cc_` is its bit pattern. -/
structure PesWriter where
  pid : UInt16
  cc : UInt8
  deriving DecidableEq, Repr

namespace PesWriter

/-! ### The first bytes -/

/-- `TsTool::WritePts`. -/
def writePts (fourbits : Nat) (pts : Int) : List UInt8 :=
  let first := fourbits <<< 4 ||| ((pts >>> (30 : Nat)) % 8).toNat <<< 1 ||| 1
  let middle := ((pts >>> (15 : Nat)) % 32768).toNat <<< 1 ||| 1
  let last := (pts % 32768).toNat <<< 1 ||| 1
  [UInt8.ofNat first, UInt8.ofNat (middle >>> 8), UInt8.ofNat middle, UInt8.ofNat (last >>> 8),
    UInt8.ofNat last]

/-- `WritePcr`: 33 bits of the clock, and an extension of 0. -/
def writePcr (pcr : Int) : List UInt8 :=
  beBytes 6 (0x7E00 ||| (pcr % 8589934592).toNat <<< 15)

/-- The offset that `get_start_payload` gives. -/
def startPayload (buf : List UInt8) : Nat :=
  if buf.getD 3 0 &&& 0x20 ≠ 0 then 5 + (buf.getD 4 0).toNat else 4

/-- The header of the elementary stream. -/
def pesHeader (streamId : UInt8) (payloadSize : Nat) (pts dts : Int) : List UInt8 :=
  let headerLen : Nat := if pts ≠ dts then 10 else 5
  let flags : Nat := if pts ≠ dts then 0x03 else 0x02
  let len := toInt32 (payloadSize + headerLen + 3)
  let len := if len > 0xffff then 0 else len
  [0x00, 0x00, 0x01, streamId, UInt8.ofNat ((len >>> (8 : Nat)) % 256).toNat,
      UInt8.ofNat (len % 256).toNat, 0x80, UInt8.ofNat (flags <<< 6), UInt8.ofNat headerLen]
    ++ if flags = 0x02 then writePts 0x02 pts else writePts 0x03 pts ++ writePts 0x01 dts

/-- The first four bytes. -/
def tsHeader (w : PesWriter) (isStart : Bool) : List UInt8 :=
  let val := w.pid >>> 8
  let val := if isStart then val ||| 0x40 else val
  [0x47, val.toUInt8, w.pid.toUInt8, 0x10 ||| w.cc]

/-- The adaptation field of a key frame, and the offset behind it. -/
def writeAdaptation (buf : List UInt8) (pts : Int) : List UInt8 × Nat :=
  let buf := store buf 3 [buf.getD 3 0 ||| 0x20]
  let buf := store buf 4 [1, 0x10]
  let pcr := writePcr pts
  let buf := store buf (startPayload buf) pcr
  let buf := store buf 4 [buf.getD 4 0 + UInt8.ofNat pcr.length]
  (buf, startPayload buf)

/-- The buffer with everything before the payload, and the offset of the payload. -/
def writeHeader (w : PesWriter) (streamId : UInt8) (isStart key : Bool) (payloadSize : Nat)
    (pts dts : Int) : List UInt8 × Nat :=
  let buf := store (List.replicate 188 0) 0 (w.tsHeader isStart)
  if isStart then
    let (buf, q) := if key then writeAdaptation buf pts else (buf, 4)
    let header := pesHeader streamId payloadSize pts dts
    (store buf q header, q + header.length)
  else
    (buf, 4)

/-- The packet is filled up. -/
def addStuffing (buf : List UInt8) (headerLen stuffing : Nat) : List UInt8 :=
  if buf.getD 3 0 &&& 0x20 ≠ 0 then
    let afLen := (buf.getD 4 0).toNat + 1
    let buf := memmove buf (4 + afLen + stuffing) (4 + afLen) (headerLen - (4 + afLen))
    let buf := store buf 4 [buf.getD 4 0 + UInt8.ofNat stuffing]
    memset buf (4 + afLen) 0xff stuffing
  else
    let buf := memmove buf (4 + stuffing) 4 (headerLen - 4)
    let buf := store buf 3 [buf.getD 3 0 ||| 0x20]
    let buf := store buf 4 [UInt8.ofNat (stuffing - 1)]
    if stuffing > 2 then
      let buf := store buf 5 [0x00]
      memset buf 6 0xff (stuffing - 2)
    else
      buf

/-- The inner loop: bytes of the samples fill the end of the packet. -/
def copySamples (buf : List UInt8) (slen : Nat) :
    List (List UInt8) → List UInt8 × List (List UInt8)
  | [] => (buf, [])
  | sbuf :: result =>
      if slen > 0 then
        if sbuf.length ≤ slen then
          copySamples (store buf (188 - slen) sbuf) (slen - sbuf.length) result
        else
          (store buf (188 - slen) (sbuf.take slen), sbuf.drop slen :: result)
      else
        (buf, sbuf :: result)

/-- One turn of the outer loop, from the header on: the packet, what is left of the samples, and
how many bytes of them went. -/
def writePacket (w : PesWriter) (streamId : UInt8) (isStart key : Bool)
    (result : List (List UInt8)) (payloadSize : Nat) (pts dts : Int) :
    List UInt8 × List (List UInt8) × Nat :=
  let (buf, headerLen) := w.writeHeader streamId isStart key payloadSize pts dts
  let len := min (188 - headerLen) payloadSize
  let stuffing := 188 - headerLen - len
  let buf := if stuffing > 0 then addStuffing buf headerLen stuffing else buf
  let (buf, result) := copySamples buf len result
  (buf, result, len)

/-! ### The header of a packet -/

/-- The flag of the adaptation field. -/
theorem keyed_and (cc : UInt8) :
  ((0x10 ||| cc) ||| 0x20) &&& 0x20 ≠ 0
  := forall_uint8 (P := fun cc => ((0x10 ||| cc) ||| 0x20) &&& 0x20 ≠ 0) (by decide +kernel) cc

theorem length_writePcr (pcr : Int) :
  (writePcr pcr).length = 6
  := length_beBytes 6 _

/-- A buffer of zeros with something at its beginning. -/
def blank (bytes : List UInt8) : List UInt8 := bytes ++ List.replicate (188 - bytes.length) 0

theorem store_blank (bytes more : List UInt8) :
  store (blank bytes) bytes.length more = blank (bytes ++ more)
  := by
  rw [blank, store_front bytes _ more rfl, List.drop_replicate, blank, List.length_append,
    List.append_assoc, Nat.sub_sub]

/-- The adaptation field has the clock reference. -/
theorem writeAdaptation_eq (b0 b1 b2 cc : UInt8) (pts : Int) :
  writeAdaptation (blank [b0, b1, b2, 0x10 ||| cc]) pts =
    (blank ([b0, b1, b2, (0x10 ||| cc) ||| 0x20, 7, 0x10] ++ writePcr pts), 12)
  := by
  have hpcr := length_writePcr pts
  have hstart : ∀ (n : UInt8) (more : List UInt8),
      startPayload (blank (b0 :: b1 :: b2 :: ((0x10 ||| cc) ||| 0x20) :: n :: more)) = 5 + n.toNat
    := fun n more => if_pos (keyed_and cc)
  have hflags : store (store (blank [b0, b1, b2, 0x10 ||| cc]) 3
      [(blank [b0, b1, b2, 0x10 ||| cc]).getD 3 0 ||| 0x20]) 4 [1, 0x10] =
      blank [b0, b1, b2, (0x10 ||| cc) ||| 0x20, 1, 0x10]
    := rfl
  have hstore := store_blank [b0, b1, b2, (0x10 ||| cc) ||| 0x20, 1, 0x10] (writePcr pts)
  have hlength : store (blank ([b0, b1, b2, (0x10 ||| cc) ||| 0x20, 1, 0x10] ++ writePcr pts)) 4
      [1 + UInt8.ofNat 6] =
      blank ([b0, b1, b2, (0x10 ||| cc) ||| 0x20, 7, 0x10] ++ writePcr pts)
    := rfl
  rw [writeAdaptation, hflags, hstart, hpcr]
  rw [show 5 + (1 : UInt8).toNat =
    [b0, b1, b2, (0x10 ||| cc) ||| 0x20, 1, (0x10 : UInt8)].length from rfl, hstore]
  change (store _ 4 [1 + UInt8.ofNat 6], startPayload (store _ 4 [1 + UInt8.ofNat 6])) = _
  rw [hlength]
  exact congrArg _ (hstart 7 (0x10 :: writePcr pts))

/-- The bytes before the payload of the elementary stream. -/
def front (w : PesWriter) (isStart key : Bool) (pts : Int) : List UInt8 :=
  if isStart && key then
    [(0x47 : UInt8), (w.pid >>> 8 ||| 0x40).toUInt8, w.pid.toUInt8, (0x10 ||| w.cc) ||| 0x20, 7,
      0x10] ++ writePcr pts
  else
    w.tsHeader isStart

/-- What `writeHeader` writes. -/
theorem writeHeader_eq (w : PesWriter) (streamId : UInt8) (isStart key : Bool)
    (payloadSize : Nat) (pts dts : Int) :
  w.writeHeader streamId isStart key payloadSize pts dts =
    (blank (w.front isStart key pts ++
        if isStart then pesHeader streamId payloadSize pts dts else []),
      (w.front isStart key pts).length +
        (if isStart then pesHeader streamId payloadSize pts dts else []).length)
  := by
  have hheader : store (List.replicate 188 0) 0 (w.tsHeader isStart) = blank (w.tsHeader isStart)
    := rfl
  rw [writeHeader, hheader]
  cases isStart with
  | false => rfl
  | true =>
      cases key with
      | false =>
          have hstore := store_blank (w.tsHeader true) (pesHeader streamId payloadSize pts dts)
          exact Prod.ext hstore rfl
      | true =>
          have hadaptation := writeAdaptation_eq 0x47 (w.pid >>> 8 ||| 0x40).toUInt8
            w.pid.toUInt8 w.cc pts
          have hlength : (w.front true true pts).length = 12
            := by
            have hfront : (w.front true true pts).length = (writePcr pts).length + 6 := rfl
            rw [hfront, length_writePcr]
          have hstore := store_blank (w.front true true pts)
            (pesHeader streamId payloadSize pts dts)
          have hbytes : w.tsHeader true =
              [(0x47 : UInt8), (w.pid >>> 8 ||| 0x40).toUInt8, w.pid.toUInt8, 0x10 ||| w.cc]
            := rfl
          rw [hlength] at hstore ⊢
          simp only [if_true, hbytes, hadaptation]
          exact Prod.ext hstore rfl

/-! ### Stuffing -/

/-- What stuffing of some length without an adaptation field puts behind its length. -/
def stuffingField (stuffing : Nat) : List UInt8 :=
  if stuffing = 1 then [] else 0x00 :: List.replicate (stuffing - 2) 0xff

theorem length_stuffingField {stuffing : Nat} (h : 0 < stuffing) :
  (stuffingField stuffing).length = stuffing - 1
  := by
  rw [stuffingField]
  split
  · rename_i hone
    rw [hone]
    rfl
  · rw [List.length_cons, List.length_replicate]
    omega

/-- Behind an adaptation field. -/
theorem addStuffing_keyed (b0 b1 b2 cc : UInt8) {pcr part zeros : List UInt8}
    (hpcr : pcr.length = 6) {stuffing : Nat} (h : stuffing ≤ zeros.length) :
  addStuffing (([b0, b1, b2, (0x10 ||| cc) ||| 0x20, 7, 0x10] ++ pcr) ++ (part ++ zeros))
      (12 + part.length) stuffing =
    ([b0, b1, b2, (0x10 ||| cc) ||| 0x20, 7 + UInt8.ofNat stuffing, 0x10] ++ pcr) ++
      (List.replicate stuffing 0xff ++ (part ++ zeros.drop stuffing))
  := by
  have hfront : ∀ length : UInt8,
      12 = ([b0, b1, b2, (0x10 ||| cc) ||| 0x20, length, 0x10] ++ pcr).length
    := by
    intro length
    rw [List.length_append, hpcr]
    rfl
  have hbranch : ∀ moved, memmove
      (([b0, b1, b2, (0x10 ||| cc) ||| 0x20, 7, 0x10] ++ pcr) ++ (part ++ zeros))
        (12 + stuffing) 12 (12 + part.length - 12) = moved →
      addStuffing (([b0, b1, b2, (0x10 ||| cc) ||| 0x20, 7, 0x10] ++ pcr) ++ (part ++ zeros))
          (12 + part.length) stuffing =
        memset (store moved 4 [moved.getD 4 0 + UInt8.ofNat stuffing]) 12 0xff stuffing
    := by
    rintro _ rfl
    exact if_pos (keyed_and cc)
  have hgap := memmove_gap ([b0, b1, b2, (0x10 ||| cc) ||| 0x20, 7, 0x10] ++ pcr) part zeros
    stuffing (hfront 7) (Nat.add_sub_cancel_left 12 _)
  have hlength : stuffing = ((part ++ zeros).take stuffing).length
    := by
    rw [List.length_take, List.length_append]
    omega
  rw [hbranch _ hgap]
  exact memset_append _ (part ++ zeros.drop stuffing) 0xff (hfront (7 + UInt8.ofNat stuffing))
    hlength

/-- The header has no flag of an adaptation field. -/
theorem plain_and {cc : UInt8} (hcc : cc.toNat < 16) :
  (0x10 ||| cc) &&& 0x20 = 0
  := forall_uint8 (P := fun cc => cc.toNat < 16 → (0x10 ||| cc) &&& 0x20 = 0) (by decide +kernel)
    cc hcc

/-- In front of everything else. -/
theorem addStuffing_plain (b0 b1 b2 : UInt8) {cc : UInt8} (hcc : cc.toNat < 16)
    {part zeros : List UInt8} (hpart : (part ++ zeros).getD 1 0 = 0) {stuffing : Nat}
    (hpos : 0 < stuffing) (h : stuffing ≤ zeros.length) :
  addStuffing ([b0, b1, b2, 0x10 ||| cc] ++ (part ++ zeros)) (4 + part.length) stuffing =
    [b0, b1, b2, (0x10 ||| cc) ||| 0x20, UInt8.ofNat (stuffing - 1)] ++
      (stuffingField stuffing ++ (part ++ zeros.drop stuffing))
  := by
  have hbranch : ∀ moved, memmove ([b0, b1, b2, 0x10 ||| cc] ++ (part ++ zeros))
      (4 + stuffing) 4 (4 + part.length - 4) = moved →
      addStuffing ([b0, b1, b2, 0x10 ||| cc] ++ (part ++ zeros)) (4 + part.length) stuffing =
        if stuffing > 2 then
          memset (store (store (store moved 3 [moved.getD 3 0 ||| 0x20]) 4
            [UInt8.ofNat (stuffing - 1)]) 5 [0x00]) 6 0xff (stuffing - 2)
        else
          store (store moved 3 [moved.getD 3 0 ||| 0x20]) 4 [UInt8.ofNat (stuffing - 1)]
    := by
    rintro _ rfl
    exact if_neg (not_not_intro (plain_and hcc))
  have hgap := memmove_gap (i := 4) [b0, b1, b2, 0x10 ||| cc] part zeros stuffing rfl
    (Nat.add_sub_cancel_left 4 _)
  have hlength : ((part ++ zeros).take stuffing).length = stuffing
    := by
    rw [List.length_take, List.length_append]
    omega
  have hsecond : 1 < stuffing → ((part ++ zeros).take stuffing).getD 1 0 = 0
    := by
    intro hmore
    rw [List.getD_eq_getElem?_getD, List.getElem?_take, if_pos hmore,
      ← List.getD_eq_getElem?_getD, hpart]
  rw [hbranch _ hgap, stuffingField]
  generalize (part ++ zeros).take stuffing = gap at hlength hsecond
  -- the flags stay 0 when there are two bytes, as a start code begins with two of 0
  cases gap with
  | nil =>
      rw [← hlength] at hpos
      exact absurd hpos (Nat.lt_irrefl 0)
  | cons g0 gap =>
      cases gap with
      | nil =>
          rw [← hlength]
          rfl
      | cons g1 gap =>
          cases gap with
          | nil =>
              have hzero : g1 = 0 := hsecond (by rw [← hlength]; exact Nat.one_lt_two)
              subst hzero
              rw [← hlength]
              rfl
          | cons g2 gap =>
              have hlong : stuffing > 2 := by rw [← hlength]; exact Nat.le_add_left 3 _
              have hrest : stuffing - 2 = (g2 :: gap).length := by rw [← hlength]; rfl
              rw [if_pos hlong, if_neg (by omega)]
              exact memset_append
                [b0, b1, b2, (0x10 ||| cc) ||| 0x20, UInt8.ofNat (stuffing - 1), 0x00]
                (part ++ zeros.drop stuffing) 0xff rfl hrest

/-! ### Samples -/

/-- The samples fill the end of a packet, as far as they go. -/
theorem copySamples_eq (result : List (List UInt8)) (bytes back : List UInt8) (slen : Nat)
    (hbytes : bytes.length + slen = 188) (hback : back.length = slen)
    (hslen : slen ≤ result.flatten.length) :
  (copySamples (bytes ++ back) slen result).1 = bytes ++ result.flatten.take slen ∧
    (copySamples (bytes ++ back) slen result).2.flatten = result.flatten.drop slen
  := by
  induction result generalizing bytes back slen with
  | nil =>
      have hzero : slen = 0 := Nat.le_zero.mp hslen
      subst hzero
      have hnone : back = [] := List.eq_nil_of_length_eq_zero hback
      subst hnone
      exact ⟨rfl, rfl⟩
  | cons sbuf result ih =>
      rw [copySamples]
      rcases Nat.eq_zero_or_pos slen with hzero | hpos
      · subst hzero
        have hnone : back = [] := List.eq_nil_of_length_eq_zero hback
        rw [if_neg (Nat.lt_irrefl 0), hnone]
        exact ⟨rfl, rfl⟩
      · have hoffset : 188 - slen = bytes.length := by omega
        rw [if_pos hpos, hoffset, List.flatten_cons]
        split
        · rename_i hfits
          obtain ⟨hbuf, hresult⟩ := ih (bytes ++ sbuf) (back.drop sbuf.length)
            (slen - sbuf.length) (by rw [List.length_append]; omega) (by rw [List.length_drop, hback])
            (by rw [List.flatten_cons, List.length_append] at hslen; omega)
          rw [store_front bytes back sbuf rfl, ← List.append_assoc, List.take_append,
            List.take_of_length_le hfits, List.drop_append, List.drop_eq_nil_of_le hfits,
            ← List.append_assoc]
          exact ⟨hbuf, hresult⟩
        · rename_i hlong
          have hmore : slen ≤ sbuf.length := Nat.le_of_not_le hlong
          have hend : (sbuf.take slen).length = slen
            := by
            rw [List.length_take]
            omega
          rw [store_front bytes back (sbuf.take slen) rfl, hend, ← hback, List.drop_length,
            List.append_nil, hback, List.take_append_of_le_length hmore, List.flatten_cons,
            List.drop_append_of_le_length hmore]
          exact ⟨rfl, rfl⟩

/-! ### The loop -/

theorem length_pesHeader (streamId : UInt8) (payloadSize : Nat) (pts dts : Int) :
  (pesHeader streamId payloadSize pts dts).length = if pts ≠ dts then 19 else 14
  := by
  rw [pesHeader]
  split
  · rfl
  · rfl

/-- The part of a packet that belongs to the header of the elementary stream. -/
def pesPart (streamId : UInt8) (isStart : Bool) (payloadSize : Nat) (pts dts : Int) :
    List UInt8 :=
  if isStart then pesHeader streamId payloadSize pts dts else []

theorem length_front (w : PesWriter) (isStart key : Bool) (pts : Int) :
  (w.front isStart key pts).length = if isStart && key then 12 else 4
  := by
  rw [front]
  split
  · rw [List.length_append, length_writePcr]
    rfl
  · rfl

/-- There is room for payload in every packet. -/
theorem length_header_le (w : PesWriter) (streamId : UInt8) (isStart key : Bool)
    (payloadSize : Nat) (pts dts : Int) :
  (w.front isStart key pts).length +
    (pesPart streamId isStart payloadSize pts dts).length ≤ 31
  := by
  have hfront : (w.front isStart key pts).length ≤ 12
    := by
    rw [length_front]
    split
    · exact Nat.le_refl 12
    · decide
  have hpart : (pesPart streamId isStart payloadSize pts dts).length ≤ 19
    := by
    rw [pesPart]
    split
    · rw [length_pesHeader]
      split
      · exact Nat.le_refl 19
      · decide
    · exact Nat.zero_le 19
  omega

theorem writePacket_pos (w : PesWriter) (streamId : UInt8) (isStart key : Bool)
    (result : List (List UInt8)) {payloadSize : Nat} (pts dts : Int) (h : payloadSize > 0) :
  0 < (w.writePacket streamId isStart key result payloadSize pts dts).2.2
  := by
  have hle := w.length_header_le streamId isStart key payloadSize pts dts
  rw [writePacket, writeHeader_eq]
  rw [pesPart] at hle
  dsimp only
  omega

/-- The loop of `WriteVideoPes` and `WriteAudioPes`: the encoder after it, and what went to the
writer. -/
def writeLoop (w : PesWriter) (streamId : UInt8) (isStart key : Bool)
    (result : List (List UInt8)) (payloadSize : Nat) (pts dts : Int) :
    PesWriter × List (List UInt8) :=
  if _h : payloadSize > 0 ∧ result ≠ [] then
    let w := { w with cc := (w.cc + 1) &&& 0xf }
    let packet := w.writePacket streamId isStart key result payloadSize pts dts
    let (w', packets) :=
      writeLoop w streamId false key packet.2.1 (payloadSize - packet.2.2) pts dts
    (w', packet.1 :: packets)
  else
    (w, [])
  termination_by payloadSize
  decreasing_by
    exact Nat.sub_lt _h.1 (writePacket_pos _ _ _ _ _ _ _ _h.1)

end PesWriter

/-- `VideoEncoder::WriteVideoPes`. -/
def VideoEncoder.writeVideoPes (w : PesWriter) (result : List (List UInt8)) (payloadSize : Nat)
    (pts dts : Int) (key : Bool) : PesWriter × List (List UInt8) :=
  w.writeLoop 0xe0 true key result payloadSize pts dts

/-- `AudioEncoder::WriteAudioPes`. -/
def AudioEncoder.writeAudioPes (w : PesWriter) (result : List (List UInt8)) (payloadSize : Nat)
    (dts : Int) : PesWriter × List (List UInt8) :=
  w.writeLoop 0xc0 true false result payloadSize dts dts
