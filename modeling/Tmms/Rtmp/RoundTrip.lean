import Tmms.Rtmp.ChunkSync

/-!
# Sending and receiving messages

The receiver mirrors the sender: with no bytes under way, every chunk stream of the receiver
has the previous header, the delta and the extended flag that the chunk stream of the sender
calls for, and no message in progress.  A message keeps it so, and is handed on as it was
sent, when its timestamp survives the trip (`TimestampKept`); whole batches follow.

An extended timestamp is written in the order of the host and read in network order, and the
receiver does not keep the one of a header of format 0.  So no absolute timestamp survives
that is extended, and a delta that is extended survives only when its bytes are the same in
both orders and the message is a single chunk.
-/

open BytesReader BytesWriter Endian

/-- A message as it is given to `BuildChunk`: the header and the payload of its packet, the
timestamp, and whether format 0 is asked for. -/
structure OutMessage where
  packet : RtmpPacket
  timestamp : UInt32
  fmt0 : Bool
  csId_ge : 2 ≤ packet.ext.csId.toNat
  csId_le : packet.ext.csId.toNat ≤ 65599
  length_eq : packet.data.length = packet.ext.msgLen.toNat
  length_pos : 0 < packet.data.length
  length_lt : packet.data.length < 2 ^ 24

/-- What the receiver should see. -/
def OutMessage.message (m : OutMessage) : Message where
  csId := m.packet.ext.csId
  msgType := m.packet.ext.msgType
  msgSid := m.packet.ext.msgSid
  timestamp := m.timestamp
  payload := m.packet.data

namespace ChunkWriter

variable (w : ChunkWriter) (m : OutMessage)

/-- `BuildChunk(PacketPtr &&)` on a message. -/
def build : ChunkWriter := w.buildChunk m.packet m.timestamp m.fmt0

/-- The chunk stream of a message. -/
def streamOf : OutStream := w.streams m.packet.ext.csId

/-- Whether a message is sent with a delta. -/
def deltaOf : Bool := useDelta (w.streamOf m) m.packet.ext m.timestamp m.fmt0

/-- The format a message is begun in. -/
def fmtOf : RtmpFmt := chooseFmt (w.deltaOf m) (w.streamOf m) m.packet.ext m.timestamp

/-- The delta or the absolute timestamp the chunks of a message carry. -/
def carriedOf : UInt32 := carried (w.deltaOf m) (w.streamOf m) m.timestamp

/-- The number of chunks of a message behind the first. -/
def furtherChunks : Nat := (m.packet.data.length - 1) / w.outChunkSize.toNat

/-- The chunk headers of a message fit in what is left of `out_buffer_`. -/
def Fits : Prop :=
  w.outCurrent + ((firstHeader (w.fmtOf m) m.packet.ext (w.carriedOf m)).length
    + w.furtherChunks m * (nextHeader m.packet.ext (w.carriedOf m)).length) ≤ outBufferSize

/-- A message leaves the chunk size of its receiver at the one of the sender. -/
def KeepsChunkSize : Prop :=
  m.packet.ext.msgType = kRtmpMsgTypeChunkSize → 4 ≤ m.packet.data.length →
    int32 (readUint32T m.packet.data) = w.outChunkSize

/-- The timestamp of a message survives: what is sent of it is not extended, or it is a delta
that fits in a single chunk and has the same bytes in both orders. -/
def TimestampKept : Prop :=
  w.carriedOf m < extendedMark ∨
    (w.deltaOf m = true ∧ w.furtherChunks m = 0 ∧ byteSwap (w.carriedOf m) = w.carriedOf m)

end ChunkWriter

/-- The receiver has read all that was sent, and mirrors the sender. -/
structure Sync (w : ChunkWriter) (s : ChunkReader) : Prop where
  chunkSize : s.inChunkSize = w.outChunkSize
  streams : ∀ cs, s.streams cs = (w.streams cs).mirror

namespace ChunkWriter

/-! ### Timestamps -/

/-- A message is sent with a delta only behind a header of the same message stream that is
not later. -/
theorem useDelta_true {st : OutStream} {h : RtmpMsgHeader} {timestamp : UInt32} {fmt0 : Bool}
    (hd : useDelta st h timestamp fmt0 = true) :
  (st.header.getD {}).timestamp ≤ timestamp ∧ (st.header.getD {}).msgSid = h.msgSid
  := by
  rw [useDelta, Bool.and_eq_true] at hd
  obtain ⟨-, hd⟩ := hd
  cases hst : st.header with
  | none =>
      rw [hst] at hd
      cases hd
  | some prev =>
      rw [hst, Bool.and_eq_true, decide_eq_true_eq, beq_iff_eq] at hd
      use hd.1, hd.2.symm

/-- What a header leaves out is what the previous header has. -/
theorem headerFor (st : OutStream) (h : RtmpMsgHeader) (timestamp : UInt32) (fmt0 : Bool) :
  let d := useDelta st h timestamp fmt0
  HeaderFor (chooseFmt d st h timestamp) st h (carried d st timestamp)
  := by
  intro d
  cases hd : d with
  | false => constructor <;> simp [chooseFmt]
  | true =>
      obtain ⟨-, hsid⟩ := useDelta_true hd
      constructor
      · intro _
        apply hsid
      · simp only [chooseFmt, if_true]
        split
        next h => simp [h.1]
        next h => simp
      · simp only [chooseFmt, if_true]
        split
        next h => simp [h.2]
        next h => simp
      · simp only [chooseFmt, carried, if_true]
        split
        next h =>
          split
          next h => simp [h]
          next h => simp
        next h => simp

/-- A further chunk without an extended timestamp changes nothing, where a timestamp of zero
goes with a delta of zero. -/
theorem again_of_lt {v : UInt32} {r : UInt32 × UInt32} (hv : v < extendedMark)
    (hr : r.1 = 0 → r.2 = 0) :
  again v r = r
  := by
  have hle : ¬ extendedMark ≤ v := UInt32.not_le.mpr hv
  rw [again, if_neg hle]
  split
  next h0 =>
    rw [hr h0, h0]
    apply Prod.ext
    · simp [h0]
    · simp [hr h0]
  next h0 => rfl

/-- The timestamp the sender keeps is the one of the message. -/
theorem header_nextStream (st : OutStream) (h : RtmpMsgHeader) (timestamp : UInt32)
    (fmt0 : Bool) :
  let d := useDelta st h timestamp fmt0
  (nextStream (chooseFmt d st h timestamp) st h (carried d st timestamp)).header
    = some { h with timestamp := timestamp }
  := by
  intro d
  cases hd : d with
  | false => simp [nextStream, chooseFmt, carried]
  | true =>
      have hfmt : chooseFmt true st h timestamp ≠ .fmt0 := by
        rw [ne_eq, chooseFmt_eq_fmt0]
        decide
      have hts : (st.header.getD {}).timestamp + (timestamp - (st.header.getD {}).timestamp)
          = timestamp := by grind
      simp only [nextStream, if_neg hfmt, carried, if_true, hts]

/-- The delta the sender keeps is the one the chunks of the message carry, or zero behind an
absolute timestamp. -/
theorem delta_nextStream (st : OutStream) (h : RtmpMsgHeader) (timestamp : UInt32)
    (fmt0 : Bool) :
  let d := useDelta st h timestamp fmt0
  let v := carried d st timestamp
  (nextStream (chooseFmt d st h timestamp) st h v).delta = if d then v else 0
  := by
  intro d v
  have hfor := headerFor st h timestamp fmt0
  have hzero := chooseFmt_eq_fmt0 d st h timestamp
  cases hf : chooseFmt d st h timestamp with
  | fmt0 =>
      rw [hzero.mp hf]
      rfl
  | fmt1 =>
      rw [hf] at hzero
      have hd : d = true := by simpa using hzero
      rw [if_pos hd]
      rfl
  | fmt2 =>
      rw [hf] at hzero
      have hd : d = true := by simpa using hzero
      rw [if_pos hd]
      rfl
  | fmt3 =>
      have hdelta := hfor.delta hf
      rw [hf] at hzero
      have hd : d = true := by simpa using hzero
      rw [if_pos hd]
      apply hdelta

/-- A delta and the previous timestamp give the timestamp of the message. -/
theorem carried_add (st : OutStream) (timestamp : UInt32) :
  carried true st timestamp + (st.header.getD {}).timestamp = timestamp
  := by
  simp only [carried, if_true]
  grind

/-- What the first chunk of a message makes of a timestamp that is not extended, or of a
delta with the same bytes in both orders. -/
theorem received_eq (st : OutStream) (h : RtmpMsgHeader) (timestamp : UInt32) (fmt0 : Bool) :
  let d := useDelta st h timestamp fmt0
  let v := carried d st timestamp
  (v < extendedMark ∨ d = true ∧ byteSwap v = v) →
    received (chooseFmt d st h timestamp) (st.header.getD {}) v
      = (timestamp, if d then v else 0)
  := by
  intro d v hkept
  have hzero := chooseFmt_eq_fmt0 d st h timestamp
  cases hd : d with
  | false =>
      rw [hd] at hzero hkept
      have hv : ¬ extendedMark ≤ timestamp := by
        apply UInt32.not_le.mpr
        simpa [v, hd, carried] using hkept
      simp [received, timestampField, hzero.mpr rfl, v, hd, carried, hv]
  | true =>
      rw [hd] at hzero hkept
      have hfmt : chooseFmt true st h timestamp ≠ .fmt0 := by simpa using hzero
      have hadd : v + (st.header.getD {}).timestamp = timestamp := by
        simp only [v, hd]
        apply carried_add
      rw [received, if_neg hfmt, if_pos rfl]
      split
      next hle =>
        obtain hlt | ⟨-, hswap⟩ := hkept
        · exact absurd hle (UInt32.not_le.mpr hlt)
        · rw [hswap, hadd]
      next hle => rw [hadd]

/-- The timestamp and the delta all chunks of a message give its receiver. -/
def receivedOf (w : ChunkWriter) (m : OutMessage) : UInt32 × UInt32 :=
  (again (w.carriedOf m))^[w.furtherChunks m]
    (received (w.fmtOf m) ((w.streamOf m).header.getD {}) (w.carriedOf m))

/-- A timestamp that is kept is the one of the message after all chunks, and leaves the
receiver's chunk stream the mirror of the sender's. -/
theorem received_kept {w : ChunkWriter} {m : OutMessage} (hk : w.TimestampKept m) :
  (w.receivedOf m).1 = m.timestamp ∧
    ⟨some { m.packet.ext with timestamp := (w.receivedOf m).1 }, none, (w.receivedOf m).2,
        decide (extendedMark ≤ w.carriedOf m)⟩
      = (nextStream (w.fmtOf m) (w.streamOf m) m.packet.ext (w.carriedOf m)).mirror
  := by
  have hheader : (nextStream (w.fmtOf m) (w.streamOf m) m.packet.ext (w.carriedOf m)).header
      = some { m.packet.ext with timestamp := m.timestamp } := header_nextStream ..
  have hdelta : (nextStream (w.fmtOf m) (w.streamOf m) m.packet.ext (w.carriedOf m)).delta
      = if w.deltaOf m then w.carriedOf m else 0 := delta_nextStream ..
  have hreceived : received (w.fmtOf m) ((w.streamOf m).header.getD {}) (w.carriedOf m)
      = (m.timestamp, if w.deltaOf m then w.carriedOf m else 0) := by
    apply received_eq (w.streamOf m) m.packet.ext m.timestamp m.fmt0
    obtain hlt | ⟨hd, -, hswap⟩ := hk
    · left
      apply hlt
    · right
      use hd, hswap
  have hr : w.receivedOf m = (m.timestamp, if w.deltaOf m then w.carriedOf m else 0) := by
    rw [receivedOf, hreceived]
    obtain hlt | ⟨-, hzero, -⟩ := hk
    · apply Function.iterate_fixed
      apply again_of_lt hlt
      intro h0
      split
      next hd =>
        have hle := (useDelta_true hd).1
        simp only [carriedOf, hd, carried, if_true]
        grind
      next hd => rfl
    · rw [hzero, Function.iterate_zero, id]
  have hext : decide (extendedMark ≤ w.carriedOf m)
      = decide (extendedMark ≤ if w.deltaOf m then w.carriedOf m else 0) := by
    split
    next hd => rfl
    next hd =>
      obtain hlt | ⟨hd', -, -⟩ := hk
      · rw [decide_eq_false (UInt32.not_le.mpr hlt)]
        rfl
      · exact absurd hd' hd
  rw [hr]
  use rfl
  rw [OutStream.mirror, hheader, hdelta, hext]

/-! ### One message -/

/-- The packet handed on at the end of a message has all of its payload. -/
theorem message_handedOn (h : RtmpMsgHeader) {data : List UInt8} (hlen : data.length < 2 ^ 24)
    (r : UInt32 × UInt32) :
  (handedOn h data r).message = ⟨h.csId, h.msgType, h.msgSid, r.1, data⟩
  := by
  have hsize : (UInt32.ofNat data.length).toNat = data.length :=
    UInt32.toNat_ofNat_of_lt' (show data.length < 2 ^ 32 by omega)
  simp only [handedOn, ChunkReader.completed, partPacket, Packet.message, Packet.payload,
    List.take_length, hsize]

/-- A message that keeps the chunk size changes no table of the reader, whatever its type. -/
theorem messageComplete_handedOn {w : ChunkWriter} {m : OutMessage} (s : ChunkReader)
    (hs : s.inChunkSize = w.outChunkSize) (hkeep : w.KeepsChunkSize m) (r : UInt32 × UInt32) :
  (s.messageComplete (handedOn m.packet.ext m.packet.data r)).inChunkSize = w.outChunkSize ∧
    (s.messageComplete (handedOn m.packet.ext m.packet.data r)).streams = s.streams
  := by
  have hpayload : (handedOn m.packet.ext m.packet.data r).payload = m.packet.data :=
    congrArg Message.payload (message_handedOn m.packet.ext m.length_lt r)
  have htype : (handedOn m.packet.ext m.packet.data r).type = m.packet.ext.msgType.toNat := rfl
  rw [ChunkReader.messageComplete, htype]
  split
  next htype =>
    have hchunk : m.packet.ext.msgType = kRtmpMsgTypeChunkSize := by
      apply UInt8.toNat_inj.mp
      exact_mod_cast htype
    rw [ChunkReader.handleChunkSize, hpayload]
    split
    next h4 =>
      use hkeep hchunk h4
    next h4 => use hs
  next htype =>
    split
    · rw [ChunkReader.handleAckWindowSize]
      split
      · use hs
      · use hs
    · use hs

/-- What a message leaves in the tables. -/
theorem streams_build (w : ChunkWriter) (m : OutMessage) :
  (w.build m).streams = Function.update w.streams m.packet.ext.csId
      (nextStream (w.fmtOf m) (w.streamOf m) m.packet.ext (w.carriedOf m)) ∧
    (w.build m).outChunkSize = w.outChunkSize
  := by
  apply buildBody_frame

/-- A message is read to its end and handed on, with the timestamp its chunks give it. -/
theorem run_build {w : ChunkWriter} {s : ChunkReader} {m : OutMessage} (hsync : Sync w s)
    (hfit : w.Fits m) :
  ∃ nodes, (w.build m).sendingBufs = w.sendingBufs ++ nodes ∧
    ∀ y, Pass.run ChunkReader.pass s (nodes.flatten ++ y)
      = (Pass.run ChunkReader.pass
          (s.finish m.packet.ext m.packet.data (w.carriedOf m) (w.receivedOf m)) y).after
        [handedOn m.packet.ext m.packet.data (w.receivedOf m)]
  := by
  have hpos := w.outChunkSize_pos
  have hc : w.outChunkSize = (w.outChunkSize.toNat : Int) := by omega
  have hmsgLen : m.packet.ext.msgLen ≠ 0 := by
    intro h0
    have hlen := m.length_eq
    rw [h0, UInt32.toNat_zero] at hlen
    have hpos := m.length_pos
    omega
  have hlt : m.packet.ext.msgLen.toNat < 2 ^ 24 := by
    rw [← m.length_eq]
    apply m.length_lt
  have hfor : HeaderFor (w.fmtOf m) (w.streamOf m) m.packet.ext (w.carriedOf m) :=
    headerFor ..
  have hroom : (w.pushHeader (firstHeader (w.fmtOf m) m.packet.ext (w.carriedOf m))).outCurrent
      + (m.packet.data.length - 0 - 1) / w.outChunkSize.toNat
        * (nextHeader m.packet.ext (w.carriedOf m)).length ≤ outBufferSize := by
    rw [pushHeader, Nat.add_assoc]
    apply hfit
  have hpass : ∀ x, x ≠ [] → s.pass (firstHeader (w.fmtOf m) m.packet.ext (w.carriedOf m) ++ x)
      = s.readBody m.packet.ext.csId (opened ((w.streamOf m).header.getD {}) m.packet.ext
          m.packet.data 0 (w.carriedOf m)
          (received (w.fmtOf m) ((w.streamOf m).header.getD {}) (w.carriedOf m)))
        (firstHeader (w.fmtOf m) m.packet.ext (w.carriedOf m)).length x := by
    intro x hx
    apply pass_firstHeader m.csId_ge m.csId_le hfor hmsgLen hlt (hsync.streams _) _ hx
  obtain ⟨nodes, hnodes, hrun⟩ := run_buildBody m.csId_ge m.csId_le m.length_eq m.length_lt
    (show 0 < w.outChunkSize.toNat by omega) (w.carriedOf m) (m.packet.ext.msgLen.toNat + 1)
    ((w.pushHeader (firstHeader (w.fmtOf m) m.packet.ext (w.carriedOf m))).set
      m.packet.ext.csId (nextStream (w.fmtOf m) (w.streamOf m) m.packet.ext (w.carriedOf m)))
    s (firstHeader (w.fmtOf m) m.packet.ext (w.carriedOf m)) ((w.streamOf m).header.getD {}) 0
    (received (w.fmtOf m) ((w.streamOf m).header.getD {}) (w.carriedOf m)) hc
    (hsync.chunkSize.trans hc) m.length_pos (by have hlen := m.length_eq; omega) hroom hpass
  use firstHeader (w.fmtOf m) m.packet.ext (w.carriedOf m) :: nodes
  constructor
  · apply hnodes.trans
    simp only [set, pushHeader, List.append_assoc, List.singleton_append]
  · intro y
    rw [List.flatten_cons, List.append_assoc]
    apply hrun

/-- A message whose timestamp is kept leaves the receiver the mirror of the sender. -/
theorem sync_build {w : ChunkWriter} {s : ChunkReader} {m : OutMessage} (hsync : Sync w s)
    (hkeep : w.KeepsChunkSize m) (hkept : w.TimestampKept m) :
  Sync (w.build m) (s.finish m.packet.ext m.packet.data (w.carriedOf m) (w.receivedOf m))
  := by
  obtain ⟨-, hmirror⟩ := received_kept hkept
  obtain ⟨hstreams, hsize⟩ := w.streams_build m
  obtain ⟨hchunk, hread⟩ := messageComplete_handedOn (s.set m.packet.ext.csId
    ⟨some { m.packet.ext with timestamp := (w.receivedOf m).1 }, none, (w.receivedOf m).2,
      decide (extendedMark ≤ w.carriedOf m)⟩) hsync.chunkSize hkeep (w.receivedOf m)
  constructor
  · rw [ChunkReader.finish, hchunk, hsize]
  · intro cs
    rw [ChunkReader.finish, hread, hstreams]
    by_cases hcs : cs = m.packet.ext.csId
    · rw [hcs, ChunkReader.streams_set, Function.update_self]
      apply hmirror
    · rw [ChunkReader.streams_set_of_ne _ _ hcs, Function.update_of_ne hcs]
      apply hsync.streams

/-! ### Batches -/

/-- The messages of a batch, one after another. -/
def buildAll (w : ChunkWriter) (batch : List OutMessage) : ChunkWriter := batch.foldl build w

/-- The bytes of the nodes of all batches. When one is sent, `CheckAndSend` clears the nodes
before the next is built. -/
def emitted (w : ChunkWriter) : List (List OutMessage) → List UInt8
  | [] => []
  | batch :: batches =>
    (w.buildAll batch).sendingBufs.flatten ++ (w.buildAll batch).checkAndSend.emitted batches

/-- A property of every message of a batch and the sender it is given to. -/
def AllBuilt (P : ChunkWriter → OutMessage → Prop) (w : ChunkWriter) : List OutMessage → Prop
  | [] => True
  | m :: batch => P w m ∧ (w.build m).AllBuilt P batch

/-- A property of every message of all batches and the sender it is given to. -/
def AllSent (P : ChunkWriter → OutMessage → Prop) (w : ChunkWriter) :
    List (List OutMessage) → Prop
  | [] => True
  | batch :: batches =>
    w.AllBuilt P batch ∧ (w.buildAll batch).checkAndSend.AllSent P batches

/-- What makes a message arrive as it was sent. -/
structure Arrives (w : ChunkWriter) (m : OutMessage) : Prop where
  fits : w.Fits m
  keepsChunkSize : w.KeepsChunkSize m
  timestampKept : w.TimestampKept m

/-- A batch arrives as it was sent. -/
theorem run_buildAll {w : ChunkWriter} {s : ChunkReader} {batch : List OutMessage}
    (hsync : Sync w s) (hall : w.AllBuilt Arrives batch) :
  ∃ nodes s' packets, (w.buildAll batch).sendingBufs = w.sendingBufs ++ nodes ∧
    Sync (w.buildAll batch) s' ∧
    packets.map Packet.message = batch.map OutMessage.message ∧
    ∀ y, Pass.run ChunkReader.pass s (nodes.flatten ++ y)
      = (Pass.run ChunkReader.pass s' y).after packets
  := by
  induction batch generalizing w s with
  | nil =>
      use [], s, []
      rw [List.append_nil]
      use rfl, hsync, rfl
      intro y
      rfl
  | cons m batch ih =>
      obtain ⟨⟨hfit, hkeep, hkept⟩, hall⟩ := hall
      obtain ⟨nodes, hnodes, hrun⟩ := run_build hsync hfit
      obtain ⟨nodes', s', packets, hnodes', hsync', hmessages, hrun'⟩ :=
        ih (sync_build hsync hkeep hkept) hall
      use nodes ++ nodes', s', handedOn m.packet.ext m.packet.data (w.receivedOf m) :: packets
      constructor
      · apply hnodes'.trans
        rw [hnodes, List.append_assoc]
      use hsync'
      constructor
      · rw [List.map_cons, List.map_cons, hmessages, message_handedOn m.packet.ext m.length_lt,
          (received_kept hkept).1]
        rfl
      · intro y
        rw [List.flatten_append, List.append_assoc, hrun, hrun']
        rfl

/-- All batches arrive as they were sent, and leave the receiver the mirror of the sender. -/
theorem run_emitted {w : ChunkWriter} {s : ChunkReader} {batches : List (List OutMessage)}
    (hsync : Sync w s) (hbufs : w.sendingBufs = []) (hall : w.AllSent Arrives batches) :
  ((Pass.run ChunkReader.pass s (w.emitted batches)).out).map Packet.message
      = batches.flatten.map OutMessage.message ∧
    (Pass.run ChunkReader.pass s (w.emitted batches)).unread = []
  := by
  induction batches generalizing w s with
  | nil =>
      rw [emitted, Pass.run_of_wait (ChunkReader.incremental.idle s)]
      use rfl
  | cons batch batches ih =>
      obtain ⟨hbatch, hall⟩ := hall
      obtain ⟨nodes, s', packets, hnodes, hsync', hmessages, hrun⟩ := run_buildAll hsync hbatch
      have hmirror : Sync (w.buildAll batch).checkAndSend s' :=
        ⟨hsync'.chunkSize, hsync'.streams⟩
      obtain ⟨hout, hunread⟩ := ih hmirror rfl hall
      rw [hbufs, List.nil_append] at hnodes
      rw [emitted, hnodes, hrun]
      constructor
      · rw [Pass.Result.after_out, List.map_append, hmessages, hout, List.flatten_cons,
          List.map_append]
      · apply hunread

/-- A property that follows, message by message, from another one. -/
theorem AllBuilt.imp {P Q : ChunkWriter → OutMessage → Prop} {w : ChunkWriter}
    {batch : List OutMessage} (hall : w.AllBuilt P batch)
    (h : ∀ w, ∀ m ∈ batch, P w m → Q w m) :
  w.AllBuilt Q batch
  := by
  induction batch generalizing w with
  | nil => trivial
  | cons m batch ih =>
      constructor
      · apply h w m (List.mem_cons_self ..) hall.1
      · apply ih hall.2
        intro w' m' hm'
        apply h w' m' (List.mem_cons_of_mem m hm')

theorem AllBuilt.and {P Q : ChunkWriter → OutMessage → Prop} {w : ChunkWriter}
    {batch : List OutMessage} (hp : w.AllBuilt P batch) (hq : w.AllBuilt Q batch) :
  w.AllBuilt (fun w m => P w m ∧ Q w m) batch
  := by
  induction batch generalizing w with
  | nil => trivial
  | cons m batch ih =>
      use ⟨hp.1, hq.1⟩
      apply ih hp.2 hq.2

theorem AllSent.and {P Q : ChunkWriter → OutMessage → Prop} {w : ChunkWriter}
    {batches : List (List OutMessage)} (hp : w.AllSent P batches) (hq : w.AllSent Q batches) :
  w.AllSent (fun w m => P w m ∧ Q w m) batches
  := by
  induction batches generalizing w with
  | nil => trivial
  | cons batch batches ih =>
      use hp.1.and hq.1
      apply ih hp.2 hq.2

theorem AllSent.imp {P Q : ChunkWriter → OutMessage → Prop} {w : ChunkWriter}
    {batches : List (List OutMessage)} (hall : w.AllSent P batches)
    (h : ∀ w, ∀ m ∈ batches.flatten, P w m → Q w m) :
  w.AllSent Q batches
  := by
  induction batches generalizing w with
  | nil => trivial
  | cons batch batches ih =>
      rw [List.flatten_cons] at h
      constructor
      · apply hall.1.imp
        intro w' m' hm'
        apply h w' m' (List.mem_append_left _ hm')
      · apply ih hall.2
        intro w' m' hm'
        apply h w' m' (List.mem_append_right _ hm')

/-- A delta is no greater than the timestamp it leads to. -/
theorem carriedOf_lt {w : ChunkWriter} {m : OutMessage} (hts : m.timestamp < extendedMark) :
  w.carriedOf m < extendedMark
  := by
  cases hd : w.deltaOf m with
  | false =>
      rw [carriedOf, carried, hd]
      apply hts
  | true =>
      have hle := (useDelta_true hd).1
      simp only [carriedOf, carried, hd, if_true]
      rw [UInt32.lt_iff_toNat_lt] at hts ⊢
      have hsub := UInt32.toNat_sub_of_le _ _ hle
      simp only [streamOf] at hle hsub ⊢
      omega

/-- A sender that has sent nothing, with its chunk size. -/
def fresh (c : Int) (hpos : 0 < c) (hlt : c < 2 ^ 31) : ChunkWriter where
  outChunkSize := c
  outChunkSize_pos := hpos
  outChunkSize_lt := hlt

end ChunkWriter

namespace RtmpReceiver

open ChunkWriter

/-! ### Fresh contexts -/

/-- The bytes a fresh sender emits for messages that arrive, read by a fresh receiver in any
number of reads, are handed on as the messages that were sent, and none is left. -/
theorem delivered_of_arrives {c : Int} (hpos : 0 < c) (hlt : c < 2 ^ 31)
    {batches : List (List OutMessage)} (hall : (fresh c hpos hlt).AllSent Arrives batches)
    {reads : List (List UInt8)} (hreads : reads.flatten = (fresh c hpos hlt).emitted batches) :
  (onReads { reader := { inChunkSize := c } } reads).delivered.map Packet.message
      = batches.flatten.map OutMessage.message ∧
    (onReads { reader := { inChunkSize := c } } reads).unread = []
  := by
  have hsync : Sync (fresh c hpos hlt) { inChunkSize := c } := ⟨rfl, fun _ => rfl⟩
  have hresult := result_onReads_eq_parse (c := { reader := { inChunkSize := c } }) rfl reads
  obtain ⟨hout, hunread⟩ := run_emitted hsync rfl hall
  rw [hreads] at hresult
  have hdelivered := congrArg Pass.Result.out hresult
  have hleft := congrArg Pass.Result.unread hresult
  constructor
  · rw [← hout]
    apply congrArg (List.map Packet.message) hdelivered
  · apply Eq.trans hleft hunread

/-- Messages whose timestamps are below `0xFFFFFF` are delivered as they were sent, whatever
their order, their chunk streams and the formats asked for. -/
theorem delivered_of_lt {c : Int} (hpos : 0 < c) (hlt : c < 2 ^ 31)
    {batches : List (List OutMessage)}
    (htype : ∀ m ∈ batches.flatten, m.packet.ext.msgType ≠ kRtmpMsgTypeChunkSize)
    (hts : ∀ m ∈ batches.flatten, m.timestamp < extendedMark)
    (hfits : (fresh c hpos hlt).AllSent Fits batches)
    {reads : List (List UInt8)} (hreads : reads.flatten = (fresh c hpos hlt).emitted batches) :
  (onReads { reader := { inChunkSize := c } } reads).delivered.map Packet.message
      = batches.flatten.map OutMessage.message ∧
    (onReads { reader := { inChunkSize := c } } reads).unread = []
  := by
  apply delivered_of_arrives hpos hlt _ hreads
  apply hfits.imp
  intro w m hm hfit
  constructor
  · apply hfit
  · intro hchunk
    exact absurd hchunk (htype m hm)
  · left
    apply carriedOf_lt (hts m hm)

/-- A message in two chunks and one with a delta. -/
theorem delivered_of_lt_two :
  let h : RtmpMsgHeader := { csId := 3, msgLen := 3, msgType := 8, msgSid := 1 }
  let m (ts : UInt32) : OutMessage := ⟨{ capacity := 3, data := [1, 2, 3], ext := h }, ts, false,
    by decide, by decide, by decide, by decide, by decide⟩
  let w := fresh 2 (by decide) (by decide)
  (onReads { reader := { inChunkSize := 2 } } [w.emitted [[m 5, m 45]]]).delivered.map
      Packet.message
    = [(m 5).message, (m 45).message]
  := by
  intro h m w
  apply (delivered_of_lt (by decide) (by decide) (by decide) (by decide) _
    (List.flatten_singleton ..)).1
  refine ⟨⟨?_, ?_, trivial⟩, trivial⟩
  · unfold Fits
    decide +kernel
  · unfold Fits
    decide +kernel

/-- The extended timestamps of a message are their values in network order. -/
def ExtendedReadBack (w : ChunkWriter) (m : OutMessage) : Prop :=
  extendedMark ≤ w.carriedOf m → readUint32T (extendedField (w.carriedOf m)) = w.carriedOf m

/-- An extended timestamp that is kept is written as it would be in network order. -/
theorem extendedReadBack_of_kept {w : ChunkWriter} {m : OutMessage} (hk : w.TimestampKept m) :
  ExtendedReadBack w m
  := by
  intro hle
  obtain hlt | ⟨-, -, hswap⟩ := hk
  · exact absurd hle (UInt32.not_le.mpr hlt)
  · rw [extendedField, if_pos hle]
    apply hswap

/-- Messages whose timestamps are kept are delivered as they were sent, also where absolute
timestamps or deltas are extended. -/
theorem delivered_of_kept {c : Int} (hpos : 0 < c) (hlt : c < 2 ^ 31)
    {batches : List (List OutMessage)}
    (hchunk : (fresh c hpos hlt).AllSent KeepsChunkSize batches)
    (hfits : (fresh c hpos hlt).AllSent Fits batches)
    (hkept : (fresh c hpos hlt).AllSent TimestampKept batches)
    {reads : List (List UInt8)} (hreads : reads.flatten = (fresh c hpos hlt).emitted batches) :
  (onReads { reader := { inChunkSize := c } } reads).delivered.map Packet.message
      = batches.flatten.map OutMessage.message ∧
    (onReads { reader := { inChunkSize := c } } reads).unread = [] ∧
    (fresh c hpos hlt).AllSent ExtendedReadBack batches
  := by
  have hall := (hfits.and (hchunk.and hkept)).imp (Q := Arrives) (fun w m _ h => ⟨h.1, h.2.1, h.2.2⟩)
  obtain ⟨hdelivered, hunread⟩ := delivered_of_arrives hpos hlt hall hreads
  use hdelivered, hunread
  apply hkept.imp
  intro w m _ hk
  apply extendedReadBack_of_kept hk

/-- Timestamps past `0xFFFFFF`, with a delta that is not extended and one that is. -/
theorem delivered_of_kept_three :
  let h : RtmpMsgHeader := { csId := 3, msgLen := 3, msgType := 8, msgSid := 1 }
  let m (ts : UInt32) : OutMessage := ⟨{ capacity := 3, data := [1, 2, 3], ext := h }, ts, false,
    by decide, by decide, by decide, by decide, by decide⟩
  let batches := [[m 0xFFFFF0, m 0x1000010, m 0x2000011]]
  let w := fresh 4096 (by decide) (by decide)
  (onReads { reader := { inChunkSize := 4096 } } [w.emitted batches]).delivered.map
      Packet.message
    = [(m 0xFFFFF0).message, (m 0x1000010).message, (m 0x2000011).message]
  := by
  intro h m batches w
  have hchunk : w.AllSent KeepsChunkSize batches := by
    simp only [batches, AllSent, AllBuilt, and_true]
    unfold KeepsChunkSize
    decide +kernel
  have hfits : w.AllSent Fits batches := by
    simp only [batches, AllSent, AllBuilt, and_true]
    unfold Fits
    decide +kernel
  have hkept : w.AllSent TimestampKept batches := by
    simp only [batches, AllSent, AllBuilt, and_true]
    unfold TimestampKept
    decide +kernel
  apply (delivered_of_kept (by decide) (by decide) hchunk hfits hkept
    (List.flatten_singleton ..)).1

/-- A message of format 0 whose timestamp is `0x1000000` is delivered with `0xFFFFFF`. -/
theorem not_delivered_extended :
  ¬ ∀ batches reads, ({} : ChunkWriter).AllSent Fits batches →
    ({} : ChunkWriter).AllSent KeepsChunkSize batches →
    reads.flatten = ({} : ChunkWriter).emitted batches →
    (onReads { reader := { inChunkSize := 4096 } } reads).delivered.map Packet.message
      = batches.flatten.map OutMessage.message
  := by
  intro hall
  have hfalse := hall [[⟨{ capacity := 1, data := [7], ext := { csId := 3, msgLen := 1 } },
    0x1000000, true, by decide, by decide, by decide, by decide, by decide⟩]] [_]
    (by
      simp only [AllSent, AllBuilt, and_true]
      unfold Fits
      decide +kernel)
    (by
      simp only [AllSent, AllBuilt, and_true]
      unfold KeepsChunkSize
      decide +kernel)
    (List.flatten_singleton ..)
  revert hfalse
  decide +kernel

end RtmpReceiver
