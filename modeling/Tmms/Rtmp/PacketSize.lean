import Tmms.Rtmp.Segmentation

/-!
# The size of a received packet

The capacity of a packet is set when its message is begun, the length in its header by
every chunk of the message.  The packet is handed to `MessageComplete` when it is full, so
its size is the length the message was begun with, and the length in its header is the one
its last chunk names.
-/

open BytesReader

namespace ChunkStream

/-- The length a chunk puts in the header of its packet: the announced one, or the previous
one. -/
def namedLen (st : ChunkStream) (fmt : RtmpFmt) (h : List UInt8) : UInt32 :=
  if fmt = .fmt0 ∨ fmt = .fmt1 then readUint24T (h.drop 3) else st.prev.msgLen

/-- The length the message of a chunk was begun with, or is begun with by the chunk. -/
def begunLen (st : ChunkStream) (fmt : RtmpFmt) (chunkSize : Int) (h : List UInt8) : UInt32 :=
  match st.packet with
  | some p => p.capacity
  | none => st.openLen fmt chunkSize h

/-- How many of these bytes arrived with earlier chunks. -/
def begunSize (st : ChunkStream) : UInt32 :=
  match st.packet with
  | some p => p.size
  | none => 0

/-- Whether a chunk has an extended timestamp. -/
def extended (st : ChunkStream) (fmt : RtmpFmt) (h : List UInt8) : Bool :=
  if fmt = .fmt3 then st.ext else readUint24T h == extendedMark

/-! ### What a chunk header does to the lengths -/

/-- A message header leaves the packet as it was begun, and names a length. -/
theorem readHeader_lengths (st : ChunkStream) (fmt : RtmpFmt) (csid : UInt32) (chunkSize : Int)
    (h : List UInt8) :
  let o := st.readHeader fmt csid chunkSize h
  o.packet.capacity = st.begunLen fmt chunkSize h ∧ o.packet.size = st.begunSize ∧
    o.packet.ext.msgLen = st.namedLen fmt h ∧ o.ext = st.extended fmt h
  := by
  have hopen : (st.openPacket fmt csid chunkSize h).capacity = st.begunLen fmt chunkSize h ∧
      (st.openPacket fmt csid chunkSize h).size = st.begunSize := by
    rw [openPacket, begunLen, begunSize]
    cases st.packet with
    | none => constructor <;> rfl
    | some p => constructor <;> rfl
  obtain ⟨hcap, hsize⟩ := hopen
  cases fmt with
  | fmt0 => exact ⟨hcap, hsize, rfl, rfl⟩
  | fmt1 => exact ⟨hcap, hsize, rfl, rfl⟩
  | fmt2 => exact ⟨hcap, hsize, rfl, rfl⟩
  | fmt3 => exact ⟨hcap, hsize, rfl, rfl⟩

end ChunkStream

/-- The chunk stream with the extended timestamp read, if there is one. -/
def OpenStream.withExt (o : OpenStream) (fmt : RtmpFmt) (h : List UInt8) : OpenStream :=
  if o.ext then o.readExt fmt h else o

/-- The extended timestamp changes no length. -/
theorem OpenStream.withExt_lengths (o : OpenStream) (fmt : RtmpFmt) (h : List UInt8) :
  (o.withExt fmt h).packet.capacity = o.packet.capacity ∧
    (o.withExt fmt h).packet.size = o.packet.size ∧
    (o.withExt fmt h).packet.ext.msgLen = o.packet.ext.msgLen
  := by
  rw [withExt]
  split
  · rw [readExt]
    split
    · use rfl, rfl
    · use rfl, rfl
  · use rfl, rfl

namespace ChunkReader

/-! ### Last chunks -/

/-- The size of an extended timestamp, if there is one. -/
def extSize (ext : Bool) : Nat := if ext then 4 else 0

/-- The size of all headers of a chunk whose basic header takes `n` bytes. -/
def headersSize (s : ChunkReader) (b : List UInt8) (fmt : RtmpFmt) (csid : UInt32) (n : Nat) :
    Nat :=
  n + fmt.headerSize + extSize ((s.streams csid).extended fmt (b.drop n))

/-- The input begins with a whole chunk, and the chunk brings what is missing of its
message: `n` is the size of its basic header. -/
structure LastChunk (s : ChunkReader) (b : List UInt8) (fmt : RtmpFmt) (csid : UInt32)
    (n : Nat) : Prop where
  basic : basicHeader b = some (fmt, csid, n)
  one_lt : 1 < b.length
  ne_nil : b.drop n ≠ []
  header : fmt.headerSize ≤ (b.drop n).length
  missing_nonneg : 0 ≤ int32 ((s.streams csid).begunLen fmt s.inChunkSize (b.drop n)
    - (s.streams csid).begunSize)
  missing_le : int32 ((s.streams csid).begunLen fmt s.inChunkSize (b.drop n)
    - (s.streams csid).begunSize) ≤ s.inChunkSize
  body : s.headersSize b fmt csid n + int32 ((s.streams csid).begunLen fmt s.inChunkSize
    (b.drop n) - (s.streams csid).begunSize) ≤ b.length

/-- A payload completes its packet exactly when it is what is missing of it, and is there. -/
theorem readBody_out {s : ChunkReader} {csid : UInt32} {o : OpenStream} {parsed : Nat}
    {body : List UInt8} {p : RtmpPacket} :
  (∃ s' n out, s.readBody csid o parsed body = .take s' n out ∧ p ∈ out) ↔
    0 ≤ o.packet.space ∧ o.packet.space ≤ s.inChunkSize ∧ o.packet.space ≤ body.length ∧
      p = completed (o.packet.append (body.take o.packet.space.toNat))
  := by
  rw [readBody]
  dsimp only
  split
  next hwait =>
    constructor
    · rintro ⟨s', n, out, h, -⟩
      cases h
    · rintro ⟨h0, hle, hbody, -⟩
      omega
  next hthere =>
    have hlen : (body.take (min o.packet.space s.inChunkSize).toNat).length
        = (min o.packet.space s.inChunkSize).toNat := by
      rw [List.length_take]
      omega
    have hspace : (o.packet.append (body.take (min o.packet.space s.inChunkSize).toNat)).space
        = o.packet.space - (min o.packet.space s.inChunkSize).toNat := by
      rw [Packet.space_append, hlen]
      rw [hlen]
      omega
    split
    next hfull =>
      have hmin : min o.packet.space s.inChunkSize = o.packet.space := by omega
      rw [hmin]
      constructor
      · rintro ⟨s', n, out, h, hp⟩
        obtain ⟨-, -, rfl⟩ := Pass.take.inj h
        use by omega, by omega, by omega
        apply List.mem_singleton.mp hp
      · rintro ⟨-, -, -, rfl⟩
        refine ⟨_, _, _, rfl, ?_⟩
        apply List.mem_singleton_self
    next hmore =>
      constructor
      · rintro ⟨s', n, out, h, hp⟩
        obtain ⟨-, -, rfl⟩ := Pass.take.inj h
        cases hp
      · rintro ⟨h0, hle, hbody, -⟩
        omega

/-- The size of a packet that is handed on is its capacity. -/
theorem size_completed {p : RtmpPacket} {bytes : List UInt8} (h : bytes.length = p.space) :
  (completed (p.append bytes)).size = p.capacity
  := by
  have hspace : (p.append bytes).space = 0 := by
    rw [Packet.space_append (Int.le_of_eq h), h, Int.sub_self]
  apply Packet.space_eq_zero.mp hspace

/-- The chunk stream with all headers of a chunk read. -/
def openChunk (s : ChunkReader) (b : List UInt8) (fmt : RtmpFmt) (csid : UInt32) (n : Nat) :
    OpenStream :=
  ((s.streams csid).readHeader fmt csid s.inChunkSize (b.drop n)).withExt fmt
    ((b.drop n).drop fmt.headerSize)

/-- The packet a last chunk completes. -/
def lastPacket (s : ChunkReader) (b : List UInt8) (fmt : RtmpFmt) (csid : UInt32) (n : Nat) :
    RtmpPacket :=
  let packet := (s.openChunk b fmt csid n).packet
  completed (packet.append ((b.drop (s.headersSize b fmt csid n)).take packet.space.toNat))

/-- The packet of a chunk is as it was begun, and its header has the length the chunk
names. -/
theorem openChunk_lengths (s : ChunkReader) (b : List UInt8) (fmt : RtmpFmt) (csid : UInt32)
    (n : Nat) :
  let o := s.openChunk b fmt csid n
  o.packet.space = int32 ((s.streams csid).begunLen fmt s.inChunkSize (b.drop n)
      - (s.streams csid).begunSize) ∧
    o.packet.capacity = (s.streams csid).begunLen fmt s.inChunkSize (b.drop n) ∧
    o.packet.ext.msgLen = (s.streams csid).namedLen fmt (b.drop n)
  := by
  obtain ⟨hcap, hsize, hlen, -⟩ :=
    (s.streams csid).readHeader_lengths fmt csid s.inChunkSize (b.drop n)
  obtain ⟨hcap', hsize', hlen'⟩ := OpenStream.withExt_lengths
    ((s.streams csid).readHeader fmt csid s.inChunkSize (b.drop n)) fmt
    ((b.drop n).drop fmt.headerSize)
  rw [openChunk]
  dsimp only
  rw [hcap', hlen']
  constructor
  · rw [Packet.space, hcap', hsize', hcap, hsize]
  · use hcap

/-- A last chunk completes a packet as long as its message was begun, with the length the
chunk names in its header. -/
theorem LastChunk.lengths {s : ChunkReader} {b : List UInt8} {fmt : RtmpFmt} {csid : UInt32}
    {n : Nat} (h : s.LastChunk b fmt csid n) :
  (s.lastPacket b fmt csid n).size
      = (s.streams csid).begunLen fmt s.inChunkSize (b.drop n) ∧
    (s.lastPacket b fmt csid n).ext.msgLen = (s.streams csid).namedLen fmt (b.drop n)
  := by
  obtain ⟨hspace, hcap, hlen⟩ := s.openChunk_lengths b fmt csid n
  constructor
  · rw [← hcap]
    apply size_completed
    have hnonneg := h.missing_nonneg
    have hbody := h.body
    rw [hspace, List.length_take, List.length_drop]
    omega
  · apply hlen

/-- The rest of a chunk completes its packet exactly when what is missing of it is there,
behind the extended timestamp if there is one. -/
theorem readRest_out {s : ChunkReader} {fmt : RtmpFmt} {csid : UInt32} {o : OpenStream}
    {parsed : Nat} {h : List UInt8} {p : RtmpPacket} :
  (∃ s' n out, s.readRest fmt csid o parsed h = .take s' n out ∧ p ∈ out) ↔
    0 ≤ (o.withExt fmt h).packet.space ∧ (o.withExt fmt h).packet.space ≤ s.inChunkSize ∧
      extSize o.ext + (o.withExt fmt h).packet.space ≤ h.length ∧
      p = completed ((o.withExt fmt h).packet.append
        ((h.drop (extSize o.ext)).take (o.withExt fmt h).packet.space.toNat))
  := by
  rw [readRest, OpenStream.withExt]
  cases hext : o.ext with
  | true =>
      simp only [if_true, extSize]
      by_cases hlen : h.length < 4
      · rw [if_pos hlen]
        constructor
        · rintro ⟨s', n, out, ht, -⟩
          cases ht
        · rintro ⟨h0, -, hbody, -⟩
          omega
      · rw [if_neg hlen, readBody_out, List.length_drop]
        constructor
        · rintro ⟨h0, hle, hbody, hp⟩
          use h0, hle, by omega
        · rintro ⟨h0, hle, hbody, hp⟩
          use h0, hle, by omega
  | false =>
      simp only [Bool.false_eq_true, if_false, extSize, List.drop_zero]
      rw [readBody_out]
      constructor
      · rintro ⟨h0, hle, hbody, hp⟩
        use h0, hle, by omega
      · rintro ⟨h0, hle, hbody, hp⟩
        use h0, hle, by omega

/-- Where the headers of a chunk are there, a pass gives a packet exactly when the chunk
brings what is missing of its message. -/
theorem pass_out_of_header {s : ChunkReader} {b : List UInt8} {fmt : RtmpFmt}
    {csid : UInt32} {n : Nat} (hb : basicHeader b = some (fmt, csid, n)) (h1 : 1 < b.length)
    (hne : b.drop n ≠ []) (hlen : fmt.headerSize ≤ (b.drop n).length) {p : RtmpPacket} :
  (∃ s' m out, s.pass b = .take s' m out ∧ p ∈ out) ↔
    s.LastChunk b fmt csid n ∧ p = s.lastPacket b fmt csid n
  := by
  obtain ⟨hspace, -, -⟩ := s.openChunk_lengths b fmt csid n
  obtain ⟨-, -, -, hext⟩ :=
    (s.streams csid).readHeader_lengths fmt csid s.inChunkSize (b.drop n)
  obtain ⟨-, hn⟩ := basicHeader_size hb
  rw [pass_of_header s hb h1 hne hlen, readRest_out, lastPacket, headersSize, ← hext]
  rw [openChunk] at hspace ⊢
  rw [hspace, List.length_drop, List.length_drop, List.drop_drop, List.drop_drop]
  rw [List.length_drop] at hlen
  constructor
  · rintro ⟨h0, hle, hbody, hp⟩
    constructor
    · constructor
      · apply hb
      · apply h1
      · apply hne
      · rw [List.length_drop]
        apply hlen
      · apply h0
      · apply hle
      · rw [headersSize, ← hext]
        omega
    · apply hp
  · rintro ⟨hlast, hp⟩
    have hbody := hlast.body
    rw [headersSize, ← hext] at hbody
    use hlast.missing_nonneg, hlast.missing_le, by omega

/-- A pass gives a packet exactly at a last chunk. -/
theorem pass_out {s : ChunkReader} {b : List UInt8} {p : RtmpPacket} :
  (∃ s' m out, s.pass b = .take s' m out ∧ p ∈ out) ↔
    ∃ fmt csid n, s.LastChunk b fmt csid n ∧ p = s.lastPacket b fmt csid n
  := by
  constructor
  · rintro ⟨s', m, out, ht, hp⟩
    obtain hw | ⟨fmt, csid, n, hb, h1, hne, hlen⟩ := s.pass_cases b
    · cases hw.symm.trans ht
    use fmt, csid, n
    apply (pass_out_of_header hb h1 hne hlen).mp
    use s', m, out
  · rintro ⟨fmt, csid, n, hlast, hp⟩
    apply (pass_out_of_header hlast.basic hlast.one_lt hlast.ne_nil hlast.header).mpr
    use hlast

end ChunkReader

namespace RtmpReceiver

open ChunkReader

/-! ### Delivered packets -/

/-- Every last chunk the reader meets in the bytes of the reads names the length its message
was begun with. -/
def LengthsKept (s : ChunkReader) (reads : List (List UInt8)) : Prop :=
  ∀ t b fmt csid n, Pass.Reaches pass s reads.flatten t b → t.LastChunk b fmt csid n →
    (t.streams csid).namedLen fmt (b.drop n)
      = (t.streams csid).begunLen fmt t.inChunkSize (b.drop n)

/-- The size of every packet handed to `MessageComplete` is the length in its header exactly
when every last chunk names the length its message was begun with. -/
theorem delivered_size_iff (s : ChunkReader) (reads : List (List UInt8)) :
  (∀ p ∈ (onReads { reader := s } reads).delivered, p.size = p.ext.msgLen) ↔
    LengthsKept s reads
  := by
  have hdelivered : (onReads { reader := s } reads).delivered
      = (Pass.run pass s reads.flatten).out :=
    congrArg Pass.Result.out (result_onReads_eq_parse (c := { reader := s }) rfl reads)
  rw [hdelivered]
  constructor
  · intro h t b fmt csid n hr hlast
    obtain ⟨t', m, out, ht, hp⟩ := pass_out.mpr ⟨fmt, csid, n, hlast, rfl⟩
    obtain ⟨hsize, hlen⟩ := hlast.lengths
    rw [← hsize, ← hlen]
    apply Eq.symm
    apply h
    apply (incremental.mem_run_out s reads.flatten _).mpr
    use t, b, t', m, out
  · intro h p hp
    obtain ⟨t, b, t', m, out, hr, ht, hp⟩ := (incremental.mem_run_out ..).mp hp
    obtain ⟨fmt, csid, n, hlast, rfl⟩ := pass_out.mp ⟨t', m, out, ht, hp⟩
    obtain ⟨hsize, hlen⟩ := hlast.lengths
    rw [hsize, hlen]
    apply (h t b fmt csid n hr hlast).symm

/-- A message begun with a length of 2 whose second chunk, of format 0, announces 1000. -/
theorem delivered_size_announced_again :
  ¬ ∀ reads, ∀ p ∈ (onReads {} reads).delivered, p.size = p.ext.msgLen
  := by
  intro h
  have hfalse := h [[2, 0, 0, 0, 0, 0, 4, 1, 0, 0, 0, 0, 0, 0, 0, 1],
    [3, 0, 0, 0, 0, 0, 2, 8, 1, 0, 0, 0, 7], [3, 0, 0, 0, 0, 3, 232, 8, 1, 0, 0, 0, 7]]
  revert hfalse
  decide +kernel

end RtmpReceiver
