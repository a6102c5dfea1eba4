import Tmms.Rtmp.PacketSize

/-!
# The size of the chunks that are received

A Set Chunk Size message may have any 32 bits, and they become an `int32_t` as they are.  As long as
every such message announces a size from 1 to `2 ^ 31 - 1`, so is the size that is kept, a chunk that
is there is taken, and something of its message is taken with it.
-/

open BytesReader

namespace ChunkReader

/-- A Set Chunk Size message announces a size that an `int32_t` can be. -/
def Announces (p : RtmpPacket) : Prop :=
  p.type = kRtmpMsgTypeChunkSize.toNat → 4 ≤ p.payload.length →
    1 ≤ (readUint32T p.payload).toNat ∧ (readUint32T p.payload).toNat < 2 ^ 31

/-- The bytes of a message that are copied from a chunk, whose basic header takes `n` bytes. -/
def share (s : ChunkReader) (b : List UInt8) (fmt : RtmpFmt) (csid : UInt32) (n : Nat) : Int :=
  min (s.openChunk b fmt csid n).packet.space s.inChunkSize

/-- The size is one of the chunks, a chunk brings something if its message is not empty, and it is
taken once it is there, with something behind its basic header. -/
structure Usable (s : ChunkReader) : Prop where
  size_pos : 1 ≤ s.inChunkSize
  size_lt : s.inChunkSize < 2 ^ 31
  share_pos : ∀ b fmt csid n, 0 < s.share b fmt csid n ∨
    (s.share b fmt csid n = 0 ∧ (s.openChunk b fmt csid n).packet.capacity = 0)
  progress : ∀ b fmt csid n, basicHeader b = some (fmt, csid, n) → n < b.length →
    s.headersSize b fmt csid n + s.share b fmt csid n ≤ b.length →
      ∃ s' m out, s.pass b = .take s' m out

/-! ### Packets in progress -/

/-- A packet is not full, unless it is empty. -/
structure Open (p : RtmpPacket) : Prop where
  space_nonneg : 0 ≤ p.space
  capacity_zero : p.space = 0 → p.capacity = 0

/-- What a chunk stream keeps. -/
structure Tidy (st : ChunkStream) : Prop where
  packet : ∀ p ∈ st.packet, Open p
  msgLen : st.prev.msgLen.toNat < 2 ^ 24

/-- A new packet is open. -/
theorem open_newPacket {size : UInt32} (h : size.toNat < 2 ^ 31) (ext : RtmpMsgHeader) :
  Open (Packet.newPacket size ext)
  := by
  have hspace : (Packet.newPacket size ext).space = size.toNat
    := by
    rw [Packet.space, Packet.newPacket]
    dsimp only
    rw [UInt32.sub_zero, int32_of_lt h]
  constructor
  · rw [hspace]
    omega
  · intro hzero
    rw [hspace] at hzero
    change size = 0
    apply UInt32.toNat_inj.mp
    rw [UInt32.toNat_zero]
    omega

theorem readUint24T_lt (data : List UInt8) :
  (readUint24T data).toNat < 2 ^ 24
  := by
  have hlt := Endian.beNat_lt (data.take 3)
  have hlen : (data.take 3).length ≤ 3 := by
    rw [List.length_take]
    omega
  have hpow : 256 ^ (data.take 3).length ≤ 256 ^ 3 := Nat.pow_le_pow_right (by decide) hlen
  rw [readUint24T, UInt32.toNat_ofNat']
  omega

/-- The length that a message is begun with. -/
theorem openLen_lt {st : ChunkStream} (hst : Tidy st) (fmt : RtmpFmt) {chunkSize : Int}
    (hpos : 1 ≤ chunkSize) (hlt : chunkSize < 2 ^ 31) (h : List UInt8) :
  (st.openLen fmt chunkSize h).toNat < 2 ^ 31
  := by
  rw [ChunkStream.openLen]
  split
  · exact Nat.lt_trans (readUint24T_lt _) (by decide)
  · split
    · obtain ⟨n, rfl⟩ := Int.eq_ofNat_of_zero_le (show 0 ≤ chunkSize by omega)
      rw [uint32_ofInt (by omega), UInt32.toNat_ofNat']
      omega
    · exact Nat.lt_trans hst.msgLen (by decide)

/-- What a chunk stream has once the headers of a chunk are read. -/
structure OpenTidy (o : OpenStream) : Prop where
  packet : Open o.packet
  msgLen : o.packet.ext.msgLen.toNat < 2 ^ 24
  prev : o.prev.msgLen.toNat < 2 ^ 24

theorem OpenTidy.tidy {o : OpenStream} (h : OpenTidy o) :
  Tidy o.toStream
  := by
  constructor
  · intro p hp
    rw [← Option.some.inj hp]
    exact h.packet
  · exact h.prev

theorem open_congr {p p' : RtmpPacket} (h : Open p) (hcapacity : p'.capacity = p.capacity)
    (hsize : p'.size = p.size) :
  Open p'
  := by
  have hspace : p'.space = p.space := by rw [Packet.space, Packet.space, hcapacity, hsize]
  constructor
  · rw [hspace]
    exact h.space_nonneg
  · rw [hspace, hcapacity]
    exact h.capacity_zero

theorem openTidy_readHeader {st : ChunkStream} (hst : Tidy st) (fmt : RtmpFmt) (csid : UInt32)
    {chunkSize : Int} (hpos : 1 ≤ chunkSize) (hlt : chunkSize < 2 ^ 31) (h : List UInt8) :
  OpenTidy (st.readHeader fmt csid chunkSize h)
  := by
  obtain ⟨hcapacity, hsize, hlen, -⟩ := st.readHeader_lengths fmt csid chunkSize h
  constructor
  · cases hpacket : st.packet with
    | some p =>
        rw [ChunkStream.begunLen, hpacket] at hcapacity
        rw [ChunkStream.begunSize, hpacket] at hsize
        exact open_congr (hst.packet p hpacket) hcapacity hsize
    | none =>
        rw [ChunkStream.begunLen, hpacket] at hcapacity
        rw [ChunkStream.begunSize, hpacket] at hsize
        exact open_congr (open_newPacket (openLen_lt hst fmt hpos hlt h) {}) hcapacity hsize
  · rw [hlen, ChunkStream.namedLen]
    split
    · exact readUint24T_lt _
    · exact hst.msgLen
  · cases fmt with
    | fmt0 => exact hst.msgLen
    | fmt1 => exact hst.msgLen
    | fmt2 => exact hst.msgLen
    | fmt3 => exact hst.msgLen

theorem OpenTidy.withExt {o : OpenStream} (h : OpenTidy o) (fmt : RtmpFmt) (bytes : List UInt8) :
  OpenTidy (o.withExt fmt bytes)
  := by
  obtain ⟨hcapacity, hsize, hlen⟩ := o.withExt_lengths fmt bytes
  constructor
  · exact open_congr h.packet hcapacity hsize
  · rw [hlen]
    exact h.msgLen
  · rw [OpenStream.withExt]
    split
    · rw [OpenStream.readExt]
      split
      · exact h.prev
      · exact h.prev
    · exact h.prev

/-! ### What a pass keeps -/

/-- The size is one of the chunks, and the chunk streams are tidy. -/
structure Inv (s : ChunkReader) : Prop where
  size_pos : 1 ≤ s.inChunkSize
  size_lt : s.inChunkSize < 2 ^ 31
  tidy : ∀ csid, Tidy (s.streams csid)

theorem inv_new :
  Inv {}
  := by
  refine ⟨by decide, by decide, fun csid => ⟨nofun, ?_⟩⟩
  change (0 : UInt32).toNat < 2 ^ 24
  decide

theorem Inv.set {s : ChunkReader} (h : Inv s) (csid : UInt32) {st : ChunkStream} (hst : Tidy st) :
  Inv (s.set csid st)
  := by
  refine ⟨h.size_pos, h.size_lt, fun csid' => ?_⟩
  by_cases hcsid : csid' = csid
  · rw [hcsid, streams_set]
    exact hst
  · rw [streams_set_of_ne s st hcsid]
    exact h.tidy csid'

/-- A message changes the size only if it announces one. -/
theorem Inv.messageComplete {s : ChunkReader} (h : Inv s) {p : RtmpPacket} (hp : Announces p) :
  Inv (s.messageComplete p)
  := by
  rw [ChunkReader.messageComplete]
  split
  case isTrue htype =>
    rw [handleChunkSize]
    split
    case isTrue hlen =>
      obtain ⟨hpos, hlt⟩ := hp htype hlen
      have hsize := int32_of_lt hlt
      refine ⟨?_, ?_, h.tidy⟩
      · change 1 ≤ int32 _
        omega
      · change int32 _ < _
        omega
    case isFalse => exact h
  case isFalse =>
    split
    · rw [handleAckWindowSize]
      split
      · exact ⟨h.size_pos, h.size_lt, h.tidy⟩
      · exact h
    · exact h

/-- What a payload that is there does: it is taken, and the packet is open or handed on. -/
theorem Inv.readBody_cases {s : ChunkReader} (h : Inv s) (csid : UInt32) {o : OpenStream}
    (ho : OpenTidy o) (parsed : Nat) (body : List UInt8) :
  ((body.length : Int) < min o.packet.space s.inChunkSize ∧
      s.readBody csid o parsed body = .wait (s.set csid o.toStream)) ∨
    (min o.packet.space s.inChunkSize ≤ body.length ∧
      ∃ s' n out, s.readBody csid o parsed body = .take s' n out ∧
        ((∀ p ∈ out, Announces p) → Inv s'))
  := by
  have hspace := ho.packet.space_nonneg
  have hpos := h.size_pos
  rw [readBody]
  dsimp only
  by_cases hshort : (body.length : Int) < min o.packet.space s.inChunkSize
  · left
    rw [if_pos (Or.inr hshort)]
    exact ⟨hshort, rfl⟩
  · right
    refine ⟨Int.not_lt.mp hshort, ?_⟩
    rw [if_neg (by omega)]
    have hlen : (body.take (min o.packet.space s.inChunkSize).toNat).length
        = (min o.packet.space s.inChunkSize).toNat := by
      rw [List.length_take]
      omega
    have hleft : (o.packet.append (body.take (min o.packet.space s.inChunkSize).toNat)).space
        = o.packet.space - (min o.packet.space s.inChunkSize).toNat := by
      rw [Packet.space_append, hlen]
      rw [hlen]
      omega
    split
    next hfull =>
      refine ⟨_, _, _, rfl, fun hout => ?_⟩
      apply Inv.messageComplete
      · refine h.set csid ⟨?_, ho.msgLen⟩
        rintro p ⟨⟩
      · exact hout _ (List.mem_singleton_self _)
    next hmore =>
      refine ⟨_, _, _, rfl, fun _ => ?_⟩
      apply h.set csid
      constructor
      · intro p hp
        rw [← Option.some.inj hp]
        constructor
        · rw [hleft]
          omega
        · exact fun hzero => absurd hzero hmore
      · exact ho.msgLen

/-- The payload of a chunk is behind its extended timestamp, if there is one. -/
theorem readRest_eq (s : ChunkReader) (fmt : RtmpFmt) (csid : UInt32) (o : OpenStream)
    (parsed : Nat) (h : List UInt8) :
  s.readRest fmt csid o parsed h =
    if h.length < extSize o.ext then .wait (s.set csid o.toStream)
    else s.readBody csid (o.withExt fmt h) (parsed + extSize o.ext) (h.drop (extSize o.ext))
  := by
  rw [readRest, OpenStream.withExt, extSize]
  by_cases hext : o.ext = true
  · rw [if_pos hext, if_pos hext, if_pos hext]
  · rw [if_neg hext, if_neg hext, if_neg hext, if_neg (Nat.not_lt_zero _), List.drop_zero,
      Nat.add_zero]

/-- A pass keeps the size a size, as long as the messages it hands on announce one. -/
theorem Inv.pass {s : ChunkReader} (h : Inv s) (b : List UInt8) :
  Pass.Leaves Inv Announces (s.pass b)
  := by
  obtain hwait | ⟨fmt, csid, n, hb, h1, hne, hlen⟩ := s.pass_cases b
  · rw [hwait]
    exact h
  · have ho := openTidy_readHeader (h.tidy csid) fmt csid h.size_pos h.size_lt (b.drop n)
    rw [pass_of_header s hb h1 hne hlen, readRest_eq]
    by_cases hshort : ((b.drop n).drop fmt.headerSize).length <
        extSize ((s.streams csid).readHeader fmt csid s.inChunkSize (b.drop n)).ext
    · rw [if_pos hshort]
      exact h.set csid ho.tidy
    · rw [if_neg hshort]
      have hext := ho.withExt fmt ((b.drop n).drop fmt.headerSize)
      obtain ⟨-, hwait⟩ | ⟨-, s', m, out, htake, hinv⟩ := h.readBody_cases csid hext _ _
      · rw [hwait]
        exact h.set csid hext.tidy
      · rw [htake]
        exact hinv

/-- Reading to the end keeps the size a size. -/
theorem Inv.parse {s : ChunkReader} (h : Inv s) {b : List UInt8}
    (hout : ∀ p ∈ (s.parse b).out, Announces p) :
  Inv (s.parse b).state
  := incremental.keeps_run (fun _ b hs => hs.pass b) h hout

/-! ### Chunks that are there -/

theorem Inv.openTidy {s : ChunkReader} (h : Inv s) (b : List UInt8) (fmt : RtmpFmt)
    (csid : UInt32) (n : Nat) :
  OpenTidy (s.openChunk b fmt csid n)
  := (openTidy_readHeader (h.tidy csid) fmt csid h.size_pos h.size_lt (b.drop n)).withExt fmt _

theorem Inv.usable {s : ChunkReader} (h : Inv s) :
  Usable s
  := by
  have hpos := h.size_pos
  refine ⟨hpos, h.size_lt, ?_, ?_⟩
  · intro b fmt csid n
    have hopen := (h.openTidy b fmt csid n).packet
    have hspace := hopen.space_nonneg
    rw [share]
    by_cases hzero : (s.openChunk b fmt csid n).packet.space = 0
    · right
      exact ⟨by omega, hopen.capacity_zero hzero⟩
    · left
      omega
  · intro b fmt csid n hb hn hthere
    have hspace := (h.openTidy b fmt csid n).packet.space_nonneg
    obtain ⟨hn0, -⟩ := basicHeader_size hb
    obtain ⟨-, -, -, hext⟩ :=
      (s.streams csid).readHeader_lengths fmt csid s.inChunkSize (b.drop n)
    have ho := openTidy_readHeader (h.tidy csid) fmt csid h.size_pos h.size_lt (b.drop n)
    have hlength : (b.drop n).length = b.length - n := List.length_drop
    have hrest : ((b.drop n).drop fmt.headerSize).length = b.length - n - fmt.headerSize := by
      rw [List.length_drop, hlength]
    rw [headersSize, ← hext, share, openChunk] at hthere
    rw [openChunk] at hspace
    rw [pass_of_header s hb (by omega) (List.ne_nil_of_length_pos (by omega)) (by omega)]
    generalize (s.streams csid).readHeader fmt csid s.inChunkSize (b.drop n) = o at *
    rw [readRest_eq, if_neg (by omega)]
    obtain ⟨hshort, -⟩ | ⟨-, s', m, out, htake, -⟩ := h.readBody_cases csid
      (ho.withExt fmt ((b.drop n).drop fmt.headerSize)) (n + fmt.headerSize + extSize o.ext)
      (((b.drop n).drop fmt.headerSize).drop (extSize o.ext))
    · rw [List.length_drop] at hshort
      omega
    · exact ⟨s', m, out, htake⟩

end ChunkReader

namespace RtmpReceiver

/-- As long as every Set Chunk Size message announces a size, the reader is usable. -/
theorem usable_of_announces (reads : List (List UInt8))
    (h : ∀ p ∈ (({} : RtmpReceiver).onReads reads).delivered, ChunkReader.Announces p) :
  ChunkReader.Usable (({} : RtmpReceiver).onReads reads).reader
  := by
  have hresult := @result_onReads_eq_parse {} rfl reads
  have hdelivered := congrArg Pass.Result.out hresult
  have hreader := congrArg Pass.Result.state hresult
  rw [Pass.Result.after_out] at hdelivered
  rw [Pass.Result.after_state] at hreader
  change (onReads {} reads).delivered = _ at hdelivered
  change (onReads {} reads).reader = _ at hreader
  rw [hdelivered] at h
  rw [hreader]
  apply ChunkReader.Inv.usable
  apply ChunkReader.inv_new.parse
  exact fun p hp => h p (List.mem_append_right _ hp)

/-- A Set Chunk Size message of 4096 in two reads. -/
theorem usable_of_announces_size :
  ChunkReader.Usable (({} : RtmpReceiver).onReads
    [[2, 0, 0, 0, 0, 0, 4, 1, 0, 0], [0, 0, 0, 0, 16, 0]]).reader
  := by
  apply usable_of_announces
  simp only [ChunkReader.Announces]
  decide +kernel

/-- A Set Chunk Size message of 0. -/
theorem not_usable_zero :
  ¬ ∀ reads, ChunkReader.Usable (({} : RtmpReceiver).onReads reads).reader
  := by
  intro h
  have hpos := (h [[2, 0, 0, 0, 0, 0, 4, 1, 0, 0, 0, 0, 0, 0, 0, 0]]).size_pos
  revert hpos
  decide +kernel

end RtmpReceiver
