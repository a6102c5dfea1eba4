import Mathlib.Logic.Function.Iterate
import Tmms.Rtmp.PacketSize
import Tmms.Rtmp.Overloads

/-!
# Reading the chunks of a message

What `ParseMessage` makes of the chunks `BuildChunk` writes for one message, when the chunk
stream of the receiver mirrors the one of the sender.  The headers of each chunk are read
back, and the payload grows chunk by chunk until the packet is full.  Only the timestamp is
not always the one that was sent: `received` and `again` say what the first chunk and each
further chunk make of it.
-/

open BytesReader BytesWriter Endian

/-! ### Basic headers -/

namespace ChunkReader

/-- The chunk stream id of a one-byte basic header. -/
theorem basicHeader_one {fmt : RtmpFmt} {cs : UInt32} (hge : 2 ≤ cs.toNat)
    (hlt : cs.toNat < 64) (x : List UInt8) :
  basicHeader ((fmt.toByte ||| cs.toUInt8) :: x) = some (fmt, cs, 1)
  := by
  have hlow : (fmt.toByte ||| cs.toUInt8) &&& 0x3F = cs.toUInt8 := fmt.toByte_or_and hlt
  have hfmt : RtmpFmt.ofByte (fmt.toByte ||| cs.toUInt8) = fmt := fmt.ofByte_toByte_or hlt
  have hnat : cs.toUInt8.toNat = cs.toNat := by
    rw [UInt32.toNat_toUInt8]
    omega
  have hcs : cs.toUInt8.toUInt32 = cs := by
    apply UInt32.toNat_inj.mp
    rw [UInt8.toNat_toUInt32, hnat]
  have h0 : cs.toUInt8 ≠ 0 := by
    rintro h
    rw [h, UInt8.toNat_zero] at hnat
    omega
  have h1 : cs.toUInt8 ≠ 1 := by
    rintro h
    rw [h, UInt8.toNat_one] at hnat
    omega
  simp only [basicHeader, hlow, if_neg h0, if_neg h1, hfmt, hcs]

/-- A basic header is read back. -/
theorem basicHeader_write (fmt : RtmpFmt) {cs : UInt32} (hge : 2 ≤ cs.toNat)
    (hle : cs.toNat ≤ 65599) (x : List UInt8) :
  basicHeader (ChunkWriter.basicHeader fmt cs ++ x)
    = some (fmt, cs, (ChunkWriter.basicHeader fmt cs).length)
  := by
  rw [ChunkWriter.basicHeader]
  split
  next h =>
    apply basicHeader_one hge
    apply UInt32.lt_iff_toNat_lt.mp h
  next h64 =>
    rw [UInt32.lt_iff_toNat_lt] at h64
    simp only [UInt32.reduceToNat, Nat.not_lt] at h64
    have hsub : (cs - 64).toNat = cs.toNat - 64 := by
      apply UInt32.toNat_sub_of_le
      rw [UInt32.le_iff_toNat_le]
      apply h64
    split
    next h320 =>
      rw [UInt32.lt_iff_toNat_lt] at h320
      have hcs : 64 + (cs - 64).toUInt8.toUInt32 = cs := by
        apply UInt32.toNat_inj.mp
        simp only [UInt32.reduceAdd, UInt32.reduceToNat] at h320
        rw [UInt32.toNat_add, UInt8.toNat_toUInt32, UInt32.toNat_toUInt8, hsub]
        simp only [UInt32.reduceToNat]
        omega
      have h0 : fmt.toByte &&& 0x3F = 0 := by
        cases fmt <;> rfl
      have hfmt : RtmpFmt.ofByte fmt.toByte = fmt := by
        cases fmt <;> rfl
      simp only [basicHeader, List.cons_append, h0, if_true, hfmt, hcs]
      rfl
    next h320 =>
      have hcs : 64 + (UInt8.ofNat (cs - 64).toUInt16.toNat).toUInt32
          + (UInt8.ofNat ((cs - 64).toUInt16.toNat / 256)).toUInt32 * 256 = cs := by
        apply UInt32.toNat_inj.mp
        simp only [UInt32.toNat_add, UInt32.toNat_mul, UInt8.toNat_toUInt32, UInt8.toNat_ofNat',
          UInt32.toNat_toUInt16, hsub, UInt32.reduceToNat]
        omega
      have h1 : (fmt.toByte ||| 1) &&& 0x3F = 1 := fmt.toByte_or_and (n := 1) (by decide)
      have hfmt : RtmpFmt.ofByte (fmt.toByte ||| 1) = fmt :=
        fmt.ofByte_toByte_or (n := 1) (by decide)
      have h10 : (1 : UInt8) ≠ 0 := by decide
      simp only [basicHeader, leBytes, List.cons_append, h1, if_neg h10, if_true, hfmt, hcs]
      rfl

end ChunkReader

/-! ### Message headers -/

/-- The timestamp field of a message header. -/
def timestampField (v : UInt32) : UInt32 := if extendedMark ≤ v then extendedMark else v

theorem toNat_timestampField_lt (v : UInt32) :
  (timestampField v).toNat < 2 ^ 24
  := by
  rw [timestampField]
  split
  · decide
  next h =>
    rw [UInt32.le_iff_toNat_le] at h
    simp only [extendedMark, UInt32.reduceToNat] at h
    omega

/-- The field announces an extended timestamp exactly when there is one. -/
theorem timestampField_beq (v : UInt32) :
  (timestampField v == extendedMark) = decide (extendedMark ≤ v)
  := by
  rw [timestampField]
  split
  next h => simp [h]
  next h =>
    have hne : v ≠ extendedMark := by
      rintro rfl
      apply h (UInt32.le_refl _)
    simp [h, hne]

/-- What `BuildChunk` has made sure of when it writes a message header: a header that leaves
fields out leaves out what the previous header has. -/
structure HeaderFor (fmt : RtmpFmt) (st : OutStream) (h : RtmpMsgHeader) (v : UInt32) : Prop where
  msgSid : fmt ≠ .fmt0 → (st.header.getD {}).msgSid = h.msgSid
  msgType : fmt = .fmt2 ∨ fmt = .fmt3 → (st.header.getD {}).msgType = h.msgType
  msgLen : fmt = .fmt2 ∨ fmt = .fmt3 → (st.header.getD {}).msgLen = h.msgLen
  delta : fmt = .fmt3 → st.delta = v

/-- The chunk stream of a receiver that has read all a sender wrote. -/
def OutStream.mirror (st : OutStream) : ChunkStream :=
  ⟨st.header, none, st.delta, decide (extendedMark ≤ st.delta)⟩

/-- The packet of a message, `k` bytes of whose payload arrived. -/
def partPacket (h : RtmpMsgHeader) (data : List UInt8) (k : Nat) (ts : UInt32) : RtmpPacket where
  size := UInt32.ofNat k
  capacity := h.msgLen
  data := data.take k
  ext := { h with timestamp := ts }

/-- The chunk stream at the payload of a chunk that carries the timestamp `v`, with `k` bytes
of the message there, where the header got a timestamp and a delta from the headers read. -/
def opened (prev h : RtmpMsgHeader) (data : List UInt8) (k : Nat) (v : UInt32)
    (r : UInt32 × UInt32) : OpenStream :=
  ⟨prev, partPacket h data k r.1, r.2, decide (extendedMark ≤ v)⟩

/-- The timestamp and the delta after the message header of a first chunk. -/
def headerTimes (fmt : RtmpFmt) (prev : RtmpMsgHeader) (v : UInt32) : UInt32 × UInt32 :=
  match fmt with
  | .fmt0 => (timestampField v, 0)
  | .fmt1 => (timestampField v + prev.timestamp, timestampField v)
  | .fmt2 => (timestampField v + prev.timestamp, timestampField v)
  | .fmt3 => (v + prev.timestamp, v)

/-- The timestamp and the delta after all headers of a first chunk. -/
def received (fmt : RtmpFmt) (prev : RtmpMsgHeader) (v : UInt32) : UInt32 × UInt32 :=
  if fmt = .fmt0 then
    (timestampField v, 0)
  else if extendedMark ≤ v then
    (byteSwap v + prev.timestamp, byteSwap v)
  else
    (v + prev.timestamp, v)

/-- The timestamp and the delta after the headers of a further chunk. -/
def again (v : UInt32) (r : UInt32 × UInt32) : UInt32 × UInt32 :=
  if extendedMark ≤ v then
    (byteSwap v + r.1, byteSwap v)
  else
    (if r.1 = 0 then r.2 + r.1 else r.1, r.2)

/-- A message header is read back. -/
theorem readHeader_messageHeader {fmt : RtmpFmt} {st : OutStream} {h : RtmpMsgHeader}
    {v : UInt32} (hfor : HeaderFor fmt st h v) (hpos : h.msgLen ≠ 0)
    (hlen : h.msgLen.toNat < 2 ^ 24) (data : List UInt8) (chunkSize : Int) (x : List UInt8) :
  st.mirror.readHeader fmt h.csId chunkSize (ChunkWriter.messageHeader fmt h v ++ x)
    = opened (st.header.getD {}) h data 0 v (headerTimes fmt (st.header.getD {}) v)
  := by
  have hts := toNat_timestampField_lt v
  cases fmt with
  | fmt0 =>
      generalize hm : ChunkWriter.messageHeader .fmt0 h v ++ x = m
      have h0 : readUint24T m = timestampField v := by
        rw [← hm]
        apply readUint24T_write hts (writeUint24T h.msgLen ++ (writeUint8T h.msgType ++
          storeUint32 h.msgSid) ++ x)
      have h3 : readUint24T (m.drop 3) = h.msgLen := by
        rw [← hm]
        apply readUint24T_write hlen (writeUint8T h.msgType ++ storeUint32 h.msgSid ++ x)
      have h6 : readUint8T (m.drop 6) = h.msgType := by
        rw [← hm]
        rfl
      have h7 : loadUint32 (m.drop 7) = h.msgSid := by
        rw [← hm]
        apply loadUint32_store h.msgSid x
      simp only [ChunkStream.readHeader, ChunkStream.openPacket, ChunkStream.openLen,
        OutStream.mirror, h0, h3, h6, h7, timestampField_beq, Option.getD_none]
      rfl
  | fmt1 =>
      generalize hm : ChunkWriter.messageHeader .fmt1 h v ++ x = m
      have h0 : readUint24T m = timestampField v := by
        rw [← hm]
        apply readUint24T_write hts (writeUint24T h.msgLen ++ writeUint8T h.msgType ++ x)
      have h3 : readUint24T (m.drop 3) = h.msgLen := by
        rw [← hm]
        apply readUint24T_write hlen (writeUint8T h.msgType ++ x)
      have h6 : readUint8T (m.drop 6) = h.msgType := by
        rw [← hm]
        rfl
      simp only [ChunkStream.readHeader, ChunkStream.openPacket, ChunkStream.openLen,
        ChunkStream.prev, OutStream.mirror, h0, h3, h6, timestampField_beq, Option.getD_none,
        hfor.msgSid (by decide)]
      rfl
  | fmt2 =>
      have h0 : readUint24T (ChunkWriter.messageHeader .fmt2 h v ++ x) = timestampField v :=
        readUint24T_write hts x
      simp only [ChunkStream.readHeader, ChunkStream.openPacket, ChunkStream.openLen,
        ChunkStream.prev, OutStream.mirror, h0, timestampField_beq, Option.getD_none,
        hfor.msgSid (by decide), hfor.msgType (by decide), hfor.msgLen (by decide),
        if_neg hpos]
      rfl
  | fmt3 =>
      simp only [ChunkStream.readHeader, ChunkStream.openPacket, ChunkStream.openLen,
        ChunkStream.prev, OutStream.mirror, Option.getD_none,
        hfor.msgSid (by decide), hfor.msgType (by decide), hfor.msgLen (by decide),
        hfor.delta rfl, if_neg hpos]
      rfl

/-! ### The headers of a chunk -/

namespace ChunkWriter

theorem length_messageHeader (fmt : RtmpFmt) (h : RtmpMsgHeader) (v : UInt32) :
  (messageHeader fmt h v).length = fmt.headerSize
  := by
  cases fmt with
  | fmt0 => rfl
  | fmt1 => rfl
  | fmt2 => rfl
  | fmt3 => rfl

/-- A basic header is followed by something in every chunk. -/
theorem basicHeader_ne_nil (fmt : RtmpFmt) (cs : UInt32) :
  basicHeader fmt cs ≠ []
  := by
  obtain ⟨b, bytes, hb, -⟩ := basicHeader_cons fmt cs
  rw [hb]
  apply List.cons_ne_nil

end ChunkWriter

open ChunkWriter in
/-- The extended field is read where it was written. -/
theorem ChunkReader.readRest_extendedField (s : ChunkReader) (fmt : RtmpFmt) (cs : UInt32)
    {o : OpenStream} {v : UInt32} (hext : o.ext = decide (extendedMark ≤ v)) (parsed : Nat)
    (x : List UInt8) :
  s.readRest fmt cs o parsed (extendedField v ++ x)
    = s.readBody cs (o.withExt fmt (extendedField v ++ x))
      (parsed + (extendedField v).length) x
  := by
  rw [readRest, OpenStream.withExt, hext, extendedField]
  by_cases hv : extendedMark ≤ v
  · have hlen : ¬ (storeUint32 v ++ x).length < 4 := by
      rw [List.length_append, length_storeUint32]
      omega
    simp only [hv, decide_true, if_true, if_neg hlen, length_storeUint32,
      List.drop_left' (length_storeUint32 v)]
  · simp [hv]

open ChunkWriter in
/-- The extended timestamp of a first chunk is read as `received` says. -/
theorem withExt_headerTimes (fmt : RtmpFmt) (prev h : RtmpMsgHeader) (data : List UInt8)
    (v : UInt32) (x : List UInt8) :
  (opened prev h data 0 v (headerTimes fmt prev v)).withExt fmt (extendedField v ++ x)
    = opened prev h data 0 v (received fmt prev v)
  := by
  rw [OpenStream.withExt, extendedField]
  by_cases hv : extendedMark ≤ v
  · simp only [opened, hv, decide_true, if_true, OpenStream.readExt, readUint32T_store]
    cases fmt with
    | fmt0 => rfl
    | fmt1 => simp [received, partPacket, hv]
    | fmt2 => simp [received, partPacket, hv]
    | fmt3 => simp [received, partPacket, hv]
  · cases fmt with
    | fmt0 => simp [opened, received, headerTimes, hv]
    | fmt1 => simp [opened, received, headerTimes, timestampField, hv]
    | fmt2 => simp [opened, received, headerTimes, timestampField, hv]
    | fmt3 => simp [opened, received, headerTimes, hv]

/-- The message header of a further chunk only makes up for a timestamp of zero. -/
theorem readHeader_toStream (h : RtmpMsgHeader) (data : List UInt8) (k : Nat) (v : UInt32)
    (r : UInt32 × UInt32) (cs : UInt32) (chunkSize : Int) (x : List UInt8) :
  (opened { h with timestamp := r.1 } h data k v r).toStream.readHeader .fmt3 cs chunkSize x
    = opened { h with timestamp := r.1 } h data k v (if r.1 = 0 then r.2 + r.1 else r.1, r.2)
  := rfl

open ChunkWriter in
/-- The extended timestamp of a further chunk is read as `again` says. -/
theorem withExt_again (h : RtmpMsgHeader) (data : List UInt8) (k : Nat) (v : UInt32)
    (r : UInt32 × UInt32) (x : List UInt8) :
  (opened { h with timestamp := r.1 } h data k v
      (if r.1 = 0 then r.2 + r.1 else r.1, r.2)).withExt .fmt3 (extendedField v ++ x)
    = opened { h with timestamp := r.1 } h data k v (again v r)
  := by
  rw [OpenStream.withExt, extendedField, again]
  by_cases hv : extendedMark ≤ v
  · simp only [opened, hv, decide_true, if_true, OpenStream.readExt, readUint32T_store]
    rfl
  · simp [opened, hv]

section Chunks

open ChunkWriter

variable {s : ChunkReader} {h : RtmpMsgHeader} {v : UInt32} {x : List UInt8}

/-- A pass over a chunk reads its message header behind its basic header. -/
theorem pass_basicHeader (fmt : RtmpFmt) (hge : 2 ≤ h.csId.toNat) (hle : h.csId.toNat ≤ 65599)
    (hx : x ≠ []) {m : List UInt8} (hm : m.length = fmt.headerSize) :
  s.pass (basicHeader fmt h.csId ++ (m ++ x))
    = s.readRest fmt h.csId
      ((s.streams h.csId).readHeader fmt h.csId s.inChunkSize (m ++ x))
      ((basicHeader fmt h.csId ++ m).length) x
  := by
  have hb := ChunkReader.basicHeader_write fmt hge hle (m ++ x)
  have hdrop : (basicHeader fmt h.csId ++ (m ++ x)).drop (basicHeader fmt h.csId).length
      = m ++ x := List.drop_left
  have hbasic := List.length_pos_of_ne_nil (basicHeader_ne_nil fmt h.csId)
  have hpos := List.length_pos_of_ne_nil hx
  rw [ChunkReader.pass_of_header s hb, hdrop, List.drop_left' hm, List.length_append, hm]
  · simp only [List.length_append]
    omega
  · rw [hdrop]
    apply List.append_ne_nil_of_right_ne_nil m hx
  · rw [hdrop, List.length_append]
    omega

/-- The headers of a first chunk are read. -/
theorem pass_firstHeader {fmt : RtmpFmt} {st : OutStream} (hge : 2 ≤ h.csId.toNat)
    (hle : h.csId.toNat ≤ 65599) (hfor : HeaderFor fmt st h v) (hpos : h.msgLen ≠ 0)
    (hlen : h.msgLen.toNat < 2 ^ 24) (hs : s.streams h.csId = st.mirror) (data : List UInt8)
    (hx : x ≠ []) :
  s.pass (firstHeader fmt h v ++ x)
    = s.readBody h.csId
      (opened (st.header.getD {}) h data 0 v (received fmt (st.header.getD {}) v))
      (firstHeader fmt h v).length x
  := by
  have hxv : extendedField v ++ x ≠ [] := List.append_ne_nil_of_right_ne_nil _ hx
  rw [firstHeader, List.append_assoc, List.append_assoc,
    pass_basicHeader fmt hge hle hxv (length_messageHeader fmt h v), hs,
    readHeader_messageHeader hfor hpos hlen data, ChunkReader.readRest_extendedField s fmt _ rfl,
    withExt_headerTimes, ← List.length_append, List.append_assoc]

/-- The headers of a further chunk are read. -/
theorem pass_nextHeader {data : List UInt8} {k : Nat} {r : UInt32 × UInt32}
    (hge : 2 ≤ h.csId.toNat) (hle : h.csId.toNat ≤ 65599)
    (hs : s.streams h.csId
      = (opened { h with timestamp := r.1 } h data k v r).toStream) (hx : x ≠ []) :
  s.pass (nextHeader h v ++ x)
    = s.readBody h.csId (opened { h with timestamp := r.1 } h data k v (again v r))
      (nextHeader h v).length x
  := by
  have hxv : extendedField v ++ x ≠ [] := List.append_ne_nil_of_right_ne_nil _ hx
  have hpass := pass_basicHeader (s := s) (m := []) .fmt3 hge hle hxv rfl
  rw [List.nil_append, List.append_nil] at hpass
  rw [nextHeader, List.append_assoc, hpass, hs, readHeader_toStream,
    ChunkReader.readRest_extendedField s .fmt3 _ rfl, withExt_again, ← List.length_append]

end Chunks

/-! ### The payload of a chunk -/

section Payload

variable {s : ChunkReader} {h : RtmpMsgHeader} {data : List UInt8} {k : Nat}

theorem space_partPacket (hdata : data.length = h.msgLen.toNat) (hlen : data.length < 2 ^ 24)
    (hk : k ≤ data.length) (ts : UInt32) :
  (partPacket h data k ts).space = data.length - k
  := by
  have hsize : (UInt32.ofNat k).toNat = k := UInt32.toNat_ofNat_of_lt' (show k < 2 ^ 32 by omega)
  have htake : (data.take k).length = k := List.length_take_of_le hk
  have hfilled : (partPacket h data k ts).Filled := by
    constructor
    · rw [partPacket, hsize, htake]
    · rw [partPacket, hsize, ← hdata]
      apply hk
  have hspace := hfilled.space_eq (show h.msgLen.toNat < 2 ^ 31 by omega)
  rw [hspace]
  simp only [partPacket, htake, hdata]

/-- The next `j` bytes of the payload. -/
theorem append_partPacket (hlen : data.length < 2 ^ 24) (j : Nat) (hj : k + j ≤ data.length)
    (ts : UInt32) :
  (partPacket h data k ts).append ((data.drop k).take j) = partPacket h data (k + j) ts
  := by
  have hsize : (UInt32.ofNat k).toNat = k := UInt32.toNat_ofNat_of_lt' (show k < 2 ^ 32 by omega)
  have htake : ((data.drop k).take j).length = j := by
    rw [List.length_take, List.length_drop]
    omega
  simp only [partPacket, Packet.append, hsize, htake, List.take_take, Nat.min_self,
    UInt32.ofNat_add, List.take_add]

/-- The last chunk of a message hands its packet on. -/
theorem readBody_last (hdata : data.length = h.msgLen.toNat) (hlen : data.length < 2 ^ 24)
    (hk : k ≤ data.length) (hlast : (data.length : Int) - k ≤ s.inChunkSize) (cs : UInt32)
    (prev : RtmpMsgHeader) (v : UInt32) (r : UInt32 × UInt32) (parsed : Nat) (y : List UInt8) :
  let packet := ChunkReader.completed (partPacket h data data.length r.1)
  s.readBody cs (opened prev h data k v r) parsed (data.drop k ++ y)
    = .take ((s.set cs ⟨some { h with timestamp := r.1 }, none, r.2,
        decide (extendedMark ≤ v)⟩).messageComplete packet)
      (parsed + (data.length - k)) [packet]
  := by
  have hspace := space_partPacket hdata hlen hk r.1
  have hmin : min (partPacket h data k r.1).space s.inChunkSize = (data.length - k : Nat) := by
    omega
  have hthere : ¬ (((data.length - k : Nat) : Int) < 0 ∨
      ((data.drop k ++ y).length : Int) < (data.length - k : Nat)) := by
    rw [List.length_append, List.length_drop]
    omega
  have htake : (data.drop k ++ y).take (data.length - k)
      = (data.drop k).take (data.length - k) := by
    apply List.take_append_of_le_length
    apply Nat.le_of_eq
    rw [List.length_drop]
  have hfull : (partPacket h data data.length r.1).space = 0 := by
    rw [space_partPacket hdata hlen (Nat.le_refl _)]
    omega
  have hsum : k + (data.length - k) = data.length := by omega
  simp only [ChunkReader.readBody, opened, hmin, if_neg hthere, Int.toNat_natCast, htake,
    append_partPacket hlen (data.length - k) (Nat.le_of_eq hsum), hsum, hfull, if_true]
  rfl

/-- Any other chunk adds its payload to the packet. -/
theorem readBody_more (hdata : data.length = h.msgLen.toNat) (hlen : data.length < 2 ^ 24)
    {c : Nat} (hc : s.inChunkSize = c) (hmore : k + c < data.length) (cs : UInt32)
    (prev : RtmpMsgHeader) (v : UInt32) (r : UInt32 × UInt32) (parsed : Nat) (y : List UInt8) :
  s.readBody cs (opened prev h data k v r) parsed ((data.drop k).take c ++ y)
    = .take (s.set cs (opened { h with timestamp := r.1 } h data (k + c) v r).toStream)
      (parsed + c) []
  := by
  have hspace := space_partPacket hdata hlen (show k ≤ data.length by omega) r.1
  have hmin : min (partPacket h data k r.1).space s.inChunkSize = c := by omega
  have htake : ((data.drop k).take c).length = c := by
    rw [List.length_take, List.length_drop]
    omega
  have hthere : ¬ ((c : Int) < 0 ∨ (((data.drop k).take c ++ y).length : Int) < c) := by
    rw [List.length_append, htake]
    omega
  have hfull : (partPacket h data (k + c) r.1).space ≠ 0 := by
    rw [space_partPacket hdata hlen (Nat.le_of_lt hmore)]
    omega
  simp only [ChunkReader.readBody, opened, hmin, if_neg hthere, Int.toNat_natCast,
    List.take_left' htake, append_partPacket hlen c (Nat.le_of_lt hmore), if_neg hfull]
  rfl

end Payload

/-! ### The chunks of a message -/

namespace ChunkWriter

/-- The loop changes neither the tables nor the chunk size. -/
theorem buildBody_frame (h : RtmpMsgHeader) (timestamp : UInt32) (body : List UInt8)
    (fuel : Nat) (w : ChunkWriter) (bytesParsed : UInt32) :
  (buildBody h timestamp body fuel w bytesParsed).streams = w.streams ∧
    (buildBody h timestamp body fuel w bytesParsed).outChunkSize = w.outChunkSize
  := by
  induction fuel generalizing w bytesParsed with
  | zero => exact ⟨rfl, rfl⟩
  | succ fuel ih =>
      rw [buildBody]
      split
      · split
        · exact ⟨rfl, rfl⟩
        · apply ih
      · exact ⟨rfl, rfl⟩

section Loop

variable {w : ChunkWriter} {h : RtmpMsgHeader} {k : Nat}

/-- The bytes of a message that are still to be sent. -/
theorem int32_left (hlen : h.msgLen.toNat < 2 ^ 31) (hk : k ≤ h.msgLen.toNat) :
  int32 (h.msgLen - UInt32.ofNat k) = h.msgLen.toNat - k
  := by
  have hsize : (UInt32.ofNat k).toNat = k := UInt32.toNat_ofNat_of_lt' (show k < 2 ^ 32 by omega)
  have hsub : (h.msgLen - UInt32.ofNat k).toNat = h.msgLen.toNat - k := by
    rw [UInt32.toNat_sub_of_le, hsize]
    rw [UInt32.le_iff_toNat_le, hsize]
    apply hk
  rw [int32_of_lt, hsub]
  · omega
  · omega

/-- The last turn of the loop sends what is left. -/
theorem buildBody_last (hlen : h.msgLen.toNat < 2 ^ 31) (hk : k ≤ h.msgLen.toNat)
    (hlast : (h.msgLen.toNat : Int) - k ≤ w.outChunkSize) (v : UInt32) (body : List UInt8)
    (fuel : Nat) :
  buildBody h v body (fuel + 1) w (UInt32.ofNat k)
    = w.pushBody ((body.drop k).take (h.msgLen.toNat - k))
  := by
  have hmin : min ((h.msgLen.toNat : Int) - k) w.outChunkSize = (h.msgLen.toNat - k : Nat) := by
    omega
  have hnode : (((h.msgLen.toNat - k : Nat) : Int) % 2 ^ 64).toNat = h.msgLen.toNat - k := by
    omega
  have hend : UInt32.ofNat k + UInt32.ofInt ((h.msgLen.toNat - k : Nat) : Int) = h.msgLen := by
    rw [uint32_ofInt (by omega), ← UInt32.ofNat_add, Nat.add_sub_of_le hk, UInt32.ofNat_toNat]
  have hsize : (UInt32.ofNat k).toNat = k := UInt32.toNat_ofNat_of_lt' (show k < 2 ^ 32 by omega)
  simp only [buildBody, int32_left hlen hk, hmin, hnode, hsize, hend, UInt32.lt_irrefl, if_false]

/-- Any other turn sends a chunk. Then the loop ends if `out_buffer_` is full, or it writes the
headers of the next chunk. -/
theorem buildBody_more (hlen : h.msgLen.toNat < 2 ^ 31) {c : Nat} (hc : w.outChunkSize = c)
    (hmore : k + c < h.msgLen.toNat) (v : UInt32) (body : List UInt8) (fuel : Nat) :
  buildBody h v body (fuel + 1) w (UInt32.ofNat k)
    = if outBufferSize ≤ w.outCurrent then w.pushBody ((body.drop k).take c) else
      buildBody h v body fuel ((w.pushBody ((body.drop k).take c)).pushHeader (nextHeader h v))
        (UInt32.ofNat (k + c))
  := by
  have hmin : min ((h.msgLen.toNat : Int) - k) w.outChunkSize = c := by omega
  have hnode : ((c : Int) % 2 ^ 64).toNat = c := by omega
  have hsum : UInt32.ofNat k + UInt32.ofInt (c : Int) = UInt32.ofNat (k + c) := by
    rw [uint32_ofInt (by omega), ← UInt32.ofNat_add]
  have hsize : (UInt32.ofNat k).toNat = k := UInt32.toNat_ofNat_of_lt' (show k < 2 ^ 32 by omega)
  have hlt : UInt32.ofNat (k + c) < h.msgLen := by
    rw [UInt32.lt_iff_toNat_lt, UInt32.toNat_ofNat']
    omega
  have hcurrent (bytes : List UInt8) : (w.pushBody bytes).outCurrent = w.outCurrent := rfl
  simp only [buildBody, int32_left hlen (show k ≤ h.msgLen.toNat by omega), hmin, hnode, hsize,
    hsum, hlt, if_true, hcurrent]

end Loop

end ChunkWriter

/-- The packet handed on at the end of a message. -/
def handedOn (h : RtmpMsgHeader) (data : List UInt8) (r : UInt32 × UInt32) : RtmpPacket :=
  ChunkReader.completed (partPacket h data data.length r.1)

/-- The reader at the end of a message. -/
def ChunkReader.finish (s : ChunkReader) (h : RtmpMsgHeader) (data : List UInt8) (v : UInt32)
    (r : UInt32 × UInt32) : ChunkReader :=
  (s.set h.csId ⟨some { h with timestamp := r.1 }, none, r.2,
    decide (extendedMark ≤ v)⟩).messageComplete (handedOn h data r)

section Message

open ChunkWriter

variable {h : RtmpMsgHeader} {data : List UInt8} {c : Nat}

/-- One chunk fewer is left after a chunk. -/
theorem chunks_left {n : Nat} (hpos : 0 < c) (hmore : c < n) :
  (n - 1) / c = (n - c - 1) / c + 1
  := by
  have hn : n - 1 = n - c - 1 + c := by omega
  rw [hn, Nat.add_div_right _ hpos]

/-- A chunk that is not the last of its message, once its headers are read. -/
theorem pass_more {s : ChunkReader} {hd : List UInt8} {prev : RtmpMsgHeader} {k : Nat}
    {v : UInt32} {r : UInt32 × UInt32} (hdata : data.length = h.msgLen.toNat)
    (hlen : data.length < 2 ^ 24) (hpos : 0 < c) (hs : s.inChunkSize = c)
    (hmore : k + c < data.length)
    (hpass : ∀ x, x ≠ [] →
      s.pass (hd ++ x) = s.readBody h.csId (opened prev h data k v r) hd.length x) :
  s.pass (hd ++ (data.drop k).take c)
    = .take (s.set h.csId (opened { h with timestamp := r.1 } h data (k + c) v r).toStream)
      (hd ++ (data.drop k).take c).length []
  := by
  have htake : ((data.drop k).take c).length = c := by
    rw [List.length_take, List.length_drop]
    omega
  have hbody := readBody_more hdata hlen hs hmore h.csId prev v r hd.length []
  rw [List.append_nil] at hbody
  rw [hpass, hbody, List.length_append, htake]
  apply List.ne_nil_of_length_pos
  omega

/-- The last chunk of a message, once its headers are read. -/
theorem pass_last {s : ChunkReader} {hd : List UInt8} {prev : RtmpMsgHeader} {k : Nat}
    {v : UInt32} {r : UInt32 × UInt32} (hdata : data.length = h.msgLen.toNat)
    (hlen : data.length < 2 ^ 24) (hk : k < data.length)
    (hlast : (data.length : Int) - k ≤ s.inChunkSize)
    (hpass : ∀ x, x ≠ [] →
      s.pass (hd ++ x) = s.readBody h.csId (opened prev h data k v r) hd.length x) :
  s.pass (hd ++ data.drop k)
    = .take (s.finish h data v r) (hd ++ data.drop k).length [handedOn h data r]
  := by
  have hbody := readBody_last hdata hlen (Nat.le_of_lt hk) hlast h.csId prev v r hd.length []
  rw [List.append_nil] at hbody
  rw [hpass, hbody, List.length_append, List.length_drop]
  · rfl
  · apply List.ne_nil_of_length_pos
    rw [List.length_drop]
    omega

/-- Reading the chunks the loop writes, the headers of the first of which are read already,
hands the packet on. The induction is on the turns of the loop. -/
theorem run_buildBody (hge : 2 ≤ h.csId.toNat) (hle : h.csId.toNat ≤ 65599)
    (hdata : data.length = h.msgLen.toNat) (hlen : data.length < 2 ^ 24) (hpos : 0 < c)
    (v : UInt32) (fuel : Nat) :
  ∀ (w : ChunkWriter) (s : ChunkReader) (hd : List UInt8) (prev : RtmpMsgHeader) (k : Nat)
    (r : UInt32 × UInt32), w.outChunkSize = c → s.inChunkSize = c → k < data.length →
    data.length - k ≤ fuel →
    w.outCurrent + (data.length - k - 1) / c * (nextHeader h v).length ≤ outBufferSize →
    (∀ x, x ≠ [] →
      s.pass (hd ++ x) = s.readBody h.csId (opened prev h data k v r) hd.length x) →
  ∃ nodes, (buildBody h v data fuel w (UInt32.ofNat k)).sendingBufs = w.sendingBufs ++ nodes ∧
    ∀ y, Pass.run ChunkReader.pass s (hd ++ (nodes.flatten ++ y))
      = (Pass.run ChunkReader.pass
          (s.finish h data v ((again v)^[(data.length - k - 1) / c] r)) y).after
        [handedOn h data ((again v)^[(data.length - k - 1) / c] r)]
  := by
  induction fuel with
  | zero =>
      intro w s hd prev k r _ _ hk hfuel
      omega
  | succ fuel ih =>
      intro w s hd prev k r hw hs hk hfuel hfit hpass
      by_cases hmore : k + c < data.length
      · have hleft := chunks_left hpos (show c < data.length - k by omega)
        have hnext : 0 < (nextHeader h v).length := by
          rw [nextHeader, List.length_append]
          have hbasic := List.length_pos_of_ne_nil (basicHeader_ne_nil .fmt3 h.csId)
          omega
        rw [hleft, Nat.succ_mul] at hfit
        rw [hdata] at hlen hmore
        rw [buildBody_more (by omega) hw hmore, if_neg (by omega), hleft]
        rw [← hdata] at hlen hmore
        have htake := pass_more hdata hlen hpos hs hmore hpass
        have hsub : data.length - k - c - 1 = data.length - (k + c) - 1 := by omega
        rw [hsub] at hleft hfit ⊢
        obtain ⟨nodes, hnodes, hrun⟩ := ih
          ((w.pushBody ((data.drop k).take c)).pushHeader (nextHeader h v))
          (s.set h.csId (opened { h with timestamp := r.1 } h data (k + c) v r).toStream)
          (nextHeader h v) { h with timestamp := r.1 } (k + c) (again v r) hw hs hmore
          (by omega)
          (by
            simp only [pushHeader, pushBody]
            omega)
          (by
            intro x hx
            apply pass_nextHeader hge hle (ChunkReader.streams_set ..) hx)
        use (data.drop k).take c :: nextHeader h v :: nodes
        constructor
        · rw [hnodes]
          simp only [pushHeader, pushBody, List.append_assoc, List.cons_append, List.nil_append]
        · intro y
          have hrun := hrun y
          rw [ChunkReader.finish, ChunkReader.set_set] at hrun
          rw [List.flatten_cons, List.flatten_cons, List.append_assoc, ← List.append_assoc hd,
            ChunkReader.incremental.run_append_of_take htake, List.append_assoc, hrun,
            Function.iterate_succ_apply]
          rfl
      · have hzero : (data.length - k - 1) / c = 0 := Nat.div_eq_of_lt (by omega)
        have hall : (data.drop k).take (h.msgLen.toNat - k) = data.drop k := by
          rw [← hdata, ← List.length_drop, List.take_length]
        rw [buildBody_last (by omega) (hdata ▸ Nat.le_of_lt hk) (by omega), hall, hzero,
          Function.iterate_zero, id]
        have htake := pass_last hdata hlen hk (show (data.length : Int) - k ≤ s.inChunkSize by omega)
          hpass
        use [data.drop k], rfl
        intro y
        rw [List.flatten_singleton, ← List.append_assoc,
          ChunkReader.incremental.run_append_of_take htake]

end Message
