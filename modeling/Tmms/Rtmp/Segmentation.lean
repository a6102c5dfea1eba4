import Tmms.Rtmp.ChunkReader

/-!
# Reading chunks does not depend on the reads

A turn of the loop of `ParseMessage` that returns for want of bytes has changed the chunk
stream already: the packet is allocated and its header, the delta and the extended flag
are set.  When more bytes have arrived the chunk is read again from its first byte, and
every one of these changes is made again with the same result.  So `ChunkReader.pass` is
an incremental parser, and the packets, the unread bytes and the tables are those of one
run on the whole stream, however it was cut into reads.
-/

open BytesReader

namespace ChunkStream

/-! ### The message header -/

/-- The message header is read from its own bytes only. -/
theorem readHeader_append
    (st : ChunkStream) {fmt : RtmpFmt} (csid : UInt32) (chunkSize : Int) {h : List UInt8}
    (hlen : fmt.headerSize ≤ h.length) (c : List UInt8) :
  st.readHeader fmt csid chunkSize (h ++ c) = st.readHeader fmt csid chunkSize h
  := by
  have hts : 3 ≤ h.length → readUint24T (h ++ c) = readUint24T h := by
    intro hn
    apply readUint24T_append hn
  have hmsgLen : 6 ≤ h.length → readUint24T ((h ++ c).drop 3) = readUint24T (h.drop 3) := by
    intro hn
    rw [List.drop_append_of_le_length (by omega)]
    apply readUint24T_append
    rw [List.length_drop]
    omega
  have hmsgType : 7 ≤ h.length → readUint8T ((h ++ c).drop 6) = readUint8T (h.drop 6) := by
    intro hn
    rw [List.drop_append_of_le_length (by omega)]
    apply readUint8T_append
    rw [List.length_drop]
    omega
  have hmsgSid : 11 ≤ h.length → loadUint32 ((h ++ c).drop 7) = loadUint32 (h.drop 7) := by
    intro hn
    rw [List.drop_append_of_le_length (by omega)]
    apply loadUint32_append
    rw [List.length_drop]
    omega
  cases fmt with
  | fmt0 =>
      simp only [RtmpFmt.headerSize] at hlen
      simp only [readHeader, openPacket, openLen, hts (by omega), hmsgLen (by omega),
        hmsgType (by omega), hmsgSid (by omega)]
  | fmt1 =>
      simp only [RtmpFmt.headerSize] at hlen
      simp only [readHeader, openPacket, openLen, hts (by omega), hmsgLen (by omega),
        hmsgType (by omega)]
  | fmt2 =>
      simp only [RtmpFmt.headerSize] at hlen
      simp only [readHeader, openPacket, openLen, hts (by omega)]
      rfl
  | fmt3 => rfl

/-- Reading a message header again changes nothing. -/
theorem readHeader_readHeader
    (st : ChunkStream) (fmt : RtmpFmt) (csid : UInt32) (chunkSize : Int) (h : List UInt8) :
  (st.readHeader fmt csid chunkSize h).toStream.readHeader fmt csid chunkSize h
    = st.readHeader fmt csid chunkSize h
  := by
  cases fmt with
  | fmt0 => rfl
  | fmt1 => rfl
  | fmt2 => rfl
  | fmt3 =>
      simp only [readHeader, OpenStream.toStream, openPacket, prev, Option.getD_some]
      by_cases hts : (st.openPacket .fmt3 csid chunkSize h).ext.timestamp = 0
      · simp only [openPacket] at hts
        simp only [hts, if_true, ite_self]
      · simp only [openPacket] at hts
        simp only [hts, if_false]

/-- Reading a message header again after the extended timestamp leaves the flag as it is,
and the extended timestamp is read again. -/
theorem readHeader_readExt
    (st : ChunkStream) (fmt : RtmpFmt) (csid : UInt32) (chunkSize : Int) (h x y : List UInt8) :
  let o := st.readHeader fmt csid chunkSize h
  let o' := (o.readExt fmt x).toStream.readHeader fmt csid chunkSize h
  o'.ext = o.ext ∧ o'.readExt fmt y = o.readExt fmt y
  := by
  cases fmt with
  | fmt0 => exact ⟨rfl, rfl⟩
  | fmt1 => exact ⟨rfl, rfl⟩
  | fmt2 => exact ⟨rfl, rfl⟩
  | fmt3 => exact ⟨rfl, rfl⟩

end ChunkStream

namespace ChunkReader

/-! ### The tables -/

@[simp]
theorem streams_set (s : ChunkReader) (csid : UInt32) (st : ChunkStream) :
  (s.set csid st).streams csid = st
  := Function.update_self ..

theorem streams_set_of_ne (s : ChunkReader) {csid csid' : UInt32} (st : ChunkStream)
    (h : csid' ≠ csid) :
  (s.set csid st).streams csid' = s.streams csid'
  := Function.update_of_ne h ..

@[simp]
theorem inChunkSize_set (s : ChunkReader) (csid : UInt32) (st : ChunkStream) :
  (s.set csid st).inChunkSize = s.inChunkSize
  := rfl

@[simp]
theorem set_set (s : ChunkReader) (csid : UInt32) (st st' : ChunkStream) :
  (s.set csid st).set csid st' = s.set csid st'
  := by
  simp only [set, Function.update_idem]

/-- The rest of a chunk overwrites the entries of its chunk stream. -/
theorem readRest_set
    (s : ChunkReader) (fmt : RtmpFmt) (csid : UInt32) (st : ChunkStream) (o : OpenStream)
    (parsed : Nat) (h : List UInt8) :
  (s.set csid st).readRest fmt csid o parsed h = s.readRest fmt csid o parsed h
  := by
  simp only [readRest, readBody, set_set, inChunkSize_set]

/-! ### The basic header -/

/-- The basic header takes one to three bytes, all of them there. -/
theorem basicHeader_size {b : List UInt8} {fmt : RtmpFmt} {csid : UInt32} {n : Nat}
    (h : basicHeader b = some (fmt, csid, n)) :
  0 < n ∧ n ≤ b.length
  := by
  unfold basicHeader at h
  grind

/-- The basic header is read from its own bytes only. -/
theorem basicHeader_append {b : List UInt8} {r : RtmpFmt × UInt32 × Nat}
    (h : basicHeader b = some r) (c : List UInt8) :
  basicHeader (b ++ c) = some r
  := by
  unfold basicHeader at h ⊢
  grind

/-! ### The rest of a chunk -/

/-- A chunk waits for its payload with its headers in the tables. -/
theorem readBody_wait {s s' : ChunkReader} {csid : UInt32} {o : OpenStream} {parsed : Nat}
    {body : List UInt8} (h : s.readBody csid o parsed body = .wait s') :
  s' = s.set csid o.toStream
  := by
  simp only [readBody] at h
  split at h
  · apply (Pass.wait.inj h).symm
  · split at h
    · cases h
    · cases h

/-- A chunk that is taken is taken to the end of its payload, which is there. -/
theorem readBody_take {s s' : ChunkReader} {csid : UInt32} {o : OpenStream} {parsed n : Nat}
    {body : List UInt8} {out : List RtmpPacket}
    (h : s.readBody csid o parsed body = .take s' n out) :
  parsed ≤ n ∧ n ≤ parsed + body.length ∧
    ∀ c, s.readBody csid o parsed (body ++ c) = .take s' n out
  := by
  simp only [readBody] at h
  split at h
  · cases h
  next hb =>
    have hbytes : (min o.packet.space s.inChunkSize).toNat ≤ body.length := by omega
    constructor
    · split at h <;> cases h <;> omega
    constructor
    · split at h <;> cases h <;> omega
    · intro c
      have hb' : ¬ (min o.packet.space s.inChunkSize < 0 ∨
          ((body ++ c).length : Int) < min o.packet.space s.inChunkSize) := by
        rw [List.length_append]
        omega
      simp only [readBody, if_neg hb', List.take_append_of_le_length hbytes]
      apply h

/-- A chunk waits with its message header in the tables, and with the extended timestamp
when that was there to be read. -/
theorem readRest_wait {s s' : ChunkReader} {fmt : RtmpFmt} {csid : UInt32} {o : OpenStream}
    {parsed : Nat} {h : List UInt8} (hw : s.readRest fmt csid o parsed h = .wait s') :
  s' = s.set csid o.toStream ∨
    o.ext = true ∧ 4 ≤ h.length ∧ s' = s.set csid (o.readExt fmt h).toStream
  := by
  rw [readRest] at hw
  split at hw
  next hext =>
    split at hw
    · left
      apply (Pass.wait.inj hw).symm
    next hlen =>
      right
      use hext, by omega
      apply readBody_wait hw
  · left
    apply readBody_wait hw

/-- A chunk that is taken does not depend on the bytes behind it. -/
theorem readRest_take {s s' : ChunkReader} {fmt : RtmpFmt} {csid : UInt32} {o : OpenStream}
    {parsed n : Nat} {h : List UInt8} {out : List RtmpPacket}
    (ht : s.readRest fmt csid o parsed h = .take s' n out) :
  parsed ≤ n ∧ n ≤ parsed + h.length ∧
    ∀ c, s.readRest fmt csid o parsed (h ++ c) = .take s' n out
  := by
  rw [readRest] at ht
  split at ht
  next hext =>
    split at ht
    · cases ht
    next hlen =>
      obtain ⟨hge, hle, happ⟩ := readBody_take ht
      rw [List.length_drop] at hle
      use by omega, by omega
      intro c
      have hshort : ¬ (h ++ c).length < 4 := by
        rw [List.length_append]
        omega
      have hread : o.readExt fmt (h ++ c) = o.readExt fmt h := by
        simp only [OpenStream.readExt, readUint32T_append (show 4 ≤ h.length by omega)]
      rw [readRest, if_pos hext, if_neg hshort, hread,
        List.drop_append_of_le_length (by omega)]
      apply happ
  next hext =>
    obtain ⟨hge, hle, happ⟩ := readBody_take ht
    use hge, hle
    intro c
    rw [readRest, if_neg hext]
    apply happ

/-- Only the extended timestamp and what it makes of the message header count once it is
there. -/
theorem readRest_congr (s : ChunkReader) {fmt : RtmpFmt} (csid : UInt32) {o o' : OpenStream}
    (parsed : Nat) {h : List UInt8} (hlen : 4 ≤ h.length) (hext : o.ext = true)
    (hext' : o'.ext = o.ext) (hread : o'.readExt fmt h = o.readExt fmt h) :
  s.readRest fmt csid o' parsed h = s.readRest fmt csid o parsed h
  := by
  have hlong : ¬ h.length < 4 := by omega
  rw [readRest, if_pos (hext'.trans hext), if_neg hlong, hread, readRest, if_pos hext,
    if_neg hlong]

/-! ### The loop -/

/-- What a pass does once the headers of the chunk are there. -/
theorem pass_of_header (s : ChunkReader) {b : List UInt8} {fmt : RtmpFmt} {csid : UInt32}
    {n : Nat} (hb : basicHeader b = some (fmt, csid, n)) (h1 : 1 < b.length)
    (hne : b.drop n ≠ []) (hlen : fmt.headerSize ≤ (b.drop n).length) :
  s.pass b = s.readRest fmt csid
    ((s.streams csid).readHeader fmt csid s.inChunkSize (b.drop n))
    (n + fmt.headerSize) ((b.drop n).drop fmt.headerSize)
  := by
  rw [pass, if_neg (by omega), hb]
  dsimp only
  rw [if_neg]
  rintro (h | h)
  · apply hne h
  · omega

/-- A pass waits where it is as long as the headers of the chunk are not there. -/
theorem pass_cases (s : ChunkReader) (b : List UInt8) :
  s.pass b = .wait s ∨
    ∃ fmt csid n, basicHeader b = some (fmt, csid, n) ∧ 1 < b.length ∧ b.drop n ≠ [] ∧
      fmt.headerSize ≤ (b.drop n).length
  := by
  by_cases h1 : b.length ≤ 1
  · left
    rw [pass, if_pos h1]
  cases hb : basicHeader b with
  | none =>
      left
      rw [pass, if_neg h1, hb]
  | some r =>
      obtain ⟨fmt, csid, n⟩ := r
      by_cases h : b.drop n = [] ∨ (b.drop n).length < fmt.headerSize
      · left
        rw [pass, if_neg h1, hb]
        dsimp only
        rw [if_pos h]
      · rw [not_or] at h
        obtain ⟨hne, hlen⟩ := h
        right
        use fmt, csid, n, rfl, by omega, hne, by omega

/-- The headers of a chunk are read from their own bytes only. -/
theorem pass_append_of_header (s : ChunkReader) {b : List UInt8} {fmt : RtmpFmt}
    {csid : UInt32} {n : Nat} (hb : basicHeader b = some (fmt, csid, n)) (h1 : 1 < b.length)
    (hne : b.drop n ≠ []) (hlen : fmt.headerSize ≤ (b.drop n).length) (c : List UInt8) :
  s.pass (b ++ c) = s.readRest fmt csid
    ((s.streams csid).readHeader fmt csid s.inChunkSize (b.drop n))
    (n + fmt.headerSize) ((b.drop n).drop fmt.headerSize ++ c)
  := by
  obtain ⟨-, hn⟩ := basicHeader_size hb
  have hdrop : (b ++ c).drop n = b.drop n ++ c := List.drop_append_of_le_length hn
  rw [pass_of_header s (basicHeader_append hb c), hdrop,
    ChunkStream.readHeader_append _ _ _ hlen, List.drop_append_of_le_length hlen]
  · rw [List.length_append]
    omega
  · rw [hdrop]
    apply List.append_ne_nil_of_left_ne_nil hne
  · rw [hdrop, List.length_append]
    omega

/-- `ParseMessage` is incremental. -/
theorem incremental : Pass.Incremental pass where
  idle := by
    intro s
    rfl
  progress := by
    intro s s' b n out h
    obtain hw | ⟨fmt, csid, m, hb, h1, hne, hlen⟩ := s.pass_cases b
    · cases h.symm.trans hw
    obtain ⟨hm, hmb⟩ := basicHeader_size hb
    rw [pass_of_header s hb h1 hne hlen] at h
    obtain ⟨hge, hle, -⟩ := readRest_take h
    simp only [List.length_drop] at hle hlen
    omega
  take_append := by
    intro s s' b n out h c
    obtain hw | ⟨fmt, csid, m, hb, h1, hne, hlen⟩ := s.pass_cases b
    · cases h.symm.trans hw
    rw [pass_of_header s hb h1 hne hlen] at h
    obtain ⟨-, -, happ⟩ := readRest_take h
    rw [pass_append_of_header s hb h1 hne hlen]
    apply happ
  wait_append := by
    intro s s' b h c
    obtain hw | ⟨fmt, csid, m, hb, h1, hne, hlen⟩ := s.pass_cases b
    · cases h.symm.trans hw
      rfl
    rw [pass_of_header s hb h1 hne hlen] at h
    rw [pass_append_of_header s' hb h1 hne hlen, pass_append_of_header s hb h1 hne hlen]
    obtain rfl | ⟨hext, hext4, rfl⟩ := readRest_wait h
    · rw [readRest_set, streams_set, inChunkSize_set, ChunkStream.readHeader_readHeader]
    · rw [readRest_set, streams_set, inChunkSize_set]
      apply readRest_congr
      · rw [List.length_append]
        omega
      · apply hext
      · apply (ChunkStream.readHeader_readExt _ _ _ _ _ _ []).1
      · apply (ChunkStream.readHeader_readExt ..).2

end ChunkReader

namespace RtmpReceiver

/-! ### Reads -/

/-- What the reader of a receiver has done: its tables, the unread bytes and the packets
handed to `MessageComplete`. -/
def result (c : RtmpReceiver) : Pass.Result ChunkReader UInt8 RtmpPacket :=
  ⟨c.reader, c.unread, c.delivered⟩

/-- A read feeds its bytes to the reader. It counts them too, and may report the count,
which changes nothing that is read. -/
theorem result_onRead (c : RtmpReceiver) (bytes : List UInt8) :
  (c.onRead bytes).result = Pass.feed ChunkReader.pass c.result bytes
  := by
  simp only [onRead, parseMessage, sendBytesRecv]
  split
  · rfl
  · rfl

/-- Successive reads feed their bytes one after another. -/
theorem result_onReads (c : RtmpReceiver) (reads : List (List UInt8)) :
  (c.onReads reads).result = reads.foldl (Pass.feed ChunkReader.pass) c.result
  := by
  induction reads generalizing c with
  | nil => rfl
  | cons bytes reads ih =>
      rw [onReads, List.foldl_cons, List.foldl_cons, ← result_onRead]
      apply ih

/-- Reads into an empty buffer are one run on all their bytes. -/
theorem result_onReads_eq_parse {c : RtmpReceiver} (hc : c.unread = [])
    (reads : List (List UInt8)) :
  (c.onReads reads).result = (c.reader.parse reads.flatten).after c.delivered
  := by
  have hstart : c.result = (Pass.Result.mk c.reader [] []).after c.delivered := by
    rw [result, hc, Pass.Result.after, List.append_nil]
  rw [result_onReads, hstart, Pass.foldl_feed_after, ChunkReader.parse,
    ← ChunkReader.incremental.feedAll_eq_run]
  rfl

/-- The packets handed to `MessageComplete`, the unread bytes and the tables do not depend
on how the bytes of a stream were cut into reads. -/
theorem onReads_segmentation {c : RtmpReceiver} (hc : c.unread = [])
    {reads reads' : List (List UInt8)} (h : reads.flatten = reads'.flatten) :
  (c.onReads reads).delivered = (c.onReads reads').delivered ∧
    (c.onReads reads).unread = (c.onReads reads').unread ∧
    (c.onReads reads).reader = (c.onReads reads').reader
  := by
  have hr : (c.onReads reads).result = (c.onReads reads').result := by
    rw [result_onReads_eq_parse hc, result_onReads_eq_parse hc, h]
  constructor
  · apply congrArg Pass.Result.out hr
  constructor
  · apply congrArg Pass.Result.unread hr
  · apply congrArg Pass.Result.state hr

/-- A chunk cut inside its message header. -/
theorem onReads_segmentation_cut :
  let chunk : List UInt8 := [3, 0, 0, 9, 0, 0, 1, 8, 1, 0, 0, 0, 7]
  let c : RtmpReceiver := {}
  (c.onReads [chunk.take 5, chunk.drop 5]).delivered = (c.onReads [chunk]).delivered
  := (onReads_segmentation rfl rfl).1

end RtmpReceiver
