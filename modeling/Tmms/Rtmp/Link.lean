import Tmms.Rtmp.Batches
import Tmms.Rtmp.RoundTrip

/-!
# Two contexts and a connection

The queue of a context and its players call `BuildChunk` in batches, the nodes of a batch are given to
the connection, and another context reads the bytes as they come.  `RtmpLink` has what sends, the
bytes on their way and what receives.

Both sides are fresh behind their handshake, which no client of this program finishes
(`ClientHandShake`): the receiver begins with chunks of 128 bytes, whatever the sender's are.  So
until it has read how large they are, a message has to be a single chunk for both.  A message
without data is not read as it was written, since `ParseMessage` takes the size of a chunk where it
knows no length.

A run ends where `BuildChunk` dereferences null, and the receiver's handlers are taken to return.
-/

open ChunkWriter Runs BytesReader Endian

/-! ### Messages -/

/-- The message of a call, whose packet may have no header. -/
def BuildCall.message (c : BuildCall) : Option Message :=
  c.packet.ext.map fun h => {
    csId := h.csId
    msgType := h.msgType
    msgSid := h.msgSid
    timestamp := c.timestamp
    payload := c.packet.data }

/-- A message can be written in chunks: its chunk stream has an id, it has data whose size its header
has, and nothing about its timestamp is extended. -/
structure BuildCall.Sendable (c : BuildCall) (h : RtmpMsgHeader) : Prop where
  csId_ge : 2 ≤ h.csId.toNat
  csId_le : h.csId.toNat ≤ 65599
  length_eq : c.packet.data.length = h.msgLen.toNat
  length_pos : 0 < c.packet.data.length
  length_lt : c.packet.data.length < 2 ^ 24
  timestamp_lt : c.timestamp < extendedMark

instance (c : BuildCall) (h : RtmpMsgHeader) : Decidable (c.Sendable h) :=
  decidable_of_iff
    ((2 ≤ h.csId.toNat ∧ h.csId.toNat ≤ 65599) ∧
      (c.packet.data.length = h.msgLen.toNat ∧ 0 < c.packet.data.length ∧
        c.packet.data.length < 2 ^ 24) ∧ c.timestamp < extendedMark)
    ⟨fun ⟨⟨hge, hle⟩, ⟨heq, hpos, hlt⟩, hts⟩ => ⟨hge, hle, heq, hpos, hlt, hts⟩,
      fun h => ⟨⟨h.csId_ge, h.csId_le⟩, ⟨h.length_eq, h.length_pos, h.length_lt⟩, h.timestamp_lt⟩⟩

namespace ChunkReader

/-- The size of the chunks a receiver expects behind a message. -/
def sizeBehind (size : Int) (m : Message) : Int :=
  if m.msgType = kRtmpMsgTypeChunkSize ∧ 4 ≤ m.payload.length then
    int32 (readUint32T m.payload)
  else
    size

/-- A sender with chunks of size `c` and a receiver that begins with chunks of size `r` agree on
what the chunks of some messages are. -/
def Agrees (c : Int) : Int → List Message → Prop
  | _, [] => True
  | r, m :: ms =>
      (r = c ∨ ((m.payload.length : Int) ≤ r ∧ (m.payload.length : Int) ≤ c)) ∧
        Agrees c (sizeBehind r m) ms

instance decidableAgrees (c r : Int) (ms : List Message) : Decidable (Agrees c r ms) :=
  match ms with
  | [] => isTrue trivial
  | m :: ms =>
      have := decidableAgrees c (sizeBehind r m) ms
      inferInstanceAs (Decidable ((r = c ∨ ((m.payload.length : Int) ≤ r ∧
        (m.payload.length : Int) ≤ c)) ∧ Agrees c (sizeBehind r m) ms))

theorem agrees_append {c r : Int} {ms ms' : List Message} :
  Agrees c r (ms ++ ms') ↔ Agrees c r ms ∧ Agrees c (ms.foldl sizeBehind r) ms'
  := by
  induction ms generalizing r with
  | nil => exact (and_iff_right trivial).symm
  | cons m ms ih => rw [List.cons_append, Agrees, Agrees, ih, and_assoc, List.foldl_cons]

theorem int32_lt (v : UInt32) :
  int32 v < 2 ^ 31
  := by
  have hlt := @BitVec.two_mul_toInt_lt _ v.toBitVec
  rw [int32]
  omega

theorem sizeBehind_lt {size : Int} (h : size < 2 ^ 31) (m : Message) :
  sizeBehind size m < 2 ^ 31
  := by
  rw [sizeBehind]
  split
  · apply int32_lt
  · exact h

theorem foldl_sizeBehind_lt {size : Int} (h : size < 2 ^ 31) (ms : List Message) :
  ms.foldl sizeBehind size < 2 ^ 31
  := by
  induction ms generalizing size with
  | nil => exact h
  | cons m ms ih => exact ih (sizeBehind_lt h m)

/-- Only a message about the size of chunks changes it, and none changes the chunk streams. -/
theorem messageComplete_message (s : ChunkReader) (h : RtmpMsgHeader) {data : List UInt8}
    (hlen : data.length < 2 ^ 24) (r : UInt32 × UInt32) :
  (s.messageComplete (handedOn h data r)).inChunkSize =
      sizeBehind s.inChunkSize ⟨h.csId, h.msgType, h.msgSid, r.1, data⟩ ∧
    (s.messageComplete (handedOn h data r)).streams = s.streams
  := by
  have hpayload : (handedOn h data r).payload = data :=
    congrArg Message.payload (message_handedOn h hlen r)
  have htype : (handedOn h data r).type = h.msgType.toNat := rfl
  rw [messageComplete, sizeBehind, htype]
  split
  next heq =>
    have hchunk : h.msgType = kRtmpMsgTypeChunkSize
      := by
      apply UInt8.toNat_inj.mp
      exact_mod_cast heq
    rw [handleChunkSize, hpayload]
    dsimp only
    split
    next h4 =>
      rw [if_pos ⟨hchunk, h4⟩]
      exact ⟨rfl, rfl⟩
    next h4 =>
      rw [if_neg fun hboth => h4 hboth.2]
      exact ⟨rfl, rfl⟩
  next hne =>
    have hchunk : h.msgType ≠ kRtmpMsgTypeChunkSize
      := by
      intro heq
      rw [heq] at hne
      exact hne rfl
    rw [if_neg (show ¬ (h.msgType = kRtmpMsgTypeChunkSize ∧ 4 ≤ data.length) from
      fun hboth => hchunk hboth.1)]
    split
    · rw [handleAckWindowSize]
      split
      · exact ⟨rfl, rfl⟩
      · exact ⟨rfl, rfl⟩
    · exact ⟨rfl, rfl⟩

end ChunkReader

/-! ### A message -/

namespace ChunkWriter

/-- The chunk streams of a receiver are those of a sender. -/
def Mirrored (w : ChunkWriter) (s : ChunkReader) : Prop :=
  ∀ cs, s.streams cs = (w.streams cs).mirror

/-- The sender with another size of chunks. -/
def resize (w : ChunkWriter) (c : Int) (hpos : 0 < c) (hlt : c < 2 ^ 31) : ChunkWriter :=
  { w with
    outChunkSize := c
    outChunkSize_pos := hpos
    outChunkSize_lt := hlt }

variable {w : ChunkWriter} {s : ChunkReader} {m : OutMessage}

/-- A message that is a single chunk. -/
theorem build_single (h : (m.packet.data.length : Int) ≤ w.outChunkSize) :
  w.build m = ((((w.pushHeader (firstHeader (w.fmtOf m) m.packet.ext (w.carriedOf m))).set
    m.packet.ext.csId (nextStream (w.fmtOf m) (w.streamOf m) m.packet.ext (w.carriedOf m))).pushBody
      m.packet.data).keep m.packet)
  := by
  have hlen := m.length_eq
  have hlt := m.length_lt
  have hlast := @buildBody_last ((w.pushHeader (firstHeader (w.fmtOf m) m.packet.ext
    (w.carriedOf m))).set m.packet.ext.csId (nextStream (w.fmtOf m) (w.streamOf m) m.packet.ext
      (w.carriedOf m))) m.packet.ext 0 (by omega) (Nat.zero_le _)
    (by
      change _ ≤ w.outChunkSize
      omega)
    (w.carriedOf m) m.packet.data m.packet.ext.msgLen.toNat
  rw [List.drop_zero, Nat.sub_zero, ← hlen, List.take_length] at hlast
  rw [build, buildChunk, buildNodes, ← hlen]
  exact congrArg (·.keep m.packet) hlast

/-- A message is read to its end, whether the two sides agree about chunks or it is a single
one. -/
theorem run_message (hmirrored : w.Mirrored s) (hsize : s.inChunkSize < 2 ^ 31)
    (hagrees : s.inChunkSize = w.outChunkSize ∨
      ((m.packet.data.length : Int) ≤ s.inChunkSize ∧
        (m.packet.data.length : Int) ≤ w.outChunkSize))
    (hfits : w.Fits m) (hts : m.timestamp < extendedMark) :
  ∃ nodes s' packet, (w.build m).sendingBufs = w.sendingBufs ++ nodes ∧
    (w.build m).Mirrored s' ∧ s'.inChunkSize = ChunkReader.sizeBehind s.inChunkSize m.message ∧
    packet.message = m.message ∧
    ∀ y, Pass.run ChunkReader.pass s (nodes.flatten ++ y) =
      (Pass.run ChunkReader.pass s' y).after [packet]
  := by
  have hkept : w.TimestampKept m := Or.inl (carriedOf_lt hts)
  obtain ⟨htime, hmirror⟩ := received_kept hkept
  have hmessage : (handedOn m.packet.ext m.packet.data (w.receivedOf m)).message = m.message
    := by
    rw [message_handedOn m.packet.ext m.length_lt, htime]
    rfl
  obtain ⟨hchunk, hread⟩ := (s.set m.packet.ext.csId
    ⟨some { m.packet.ext with timestamp := (w.receivedOf m).1 }, none, (w.receivedOf m).2,
      decide (extendedMark ≤ w.carriedOf m)⟩).messageComplete_message m.packet.ext m.length_lt
        (w.receivedOf m)
  have hsizeBehind : (s.finish m.packet.ext m.packet.data (w.carriedOf m)
      (w.receivedOf m)).inChunkSize = ChunkReader.sizeBehind s.inChunkSize m.message
    := by
    rw [ChunkReader.finish, hchunk, htime]
    rfl
  have hmirrored' : (w.build m).Mirrored
      (s.finish m.packet.ext m.packet.data (w.carriedOf m) (w.receivedOf m))
    := by
    intro cs
    rw [ChunkReader.finish, hread, (w.streams_build m).1]
    by_cases hcs : cs = m.packet.ext.csId
    · rw [hcs, ChunkReader.streams_set, Function.update_self]
      exact hmirror
    · rw [ChunkReader.streams_set_of_ne _ _ hcs, Function.update_of_ne hcs]
      exact hmirrored cs
  have hfound : ∃ nodes, (w.build m).sendingBufs = w.sendingBufs ++ nodes ∧
      ∀ y, Pass.run ChunkReader.pass s (nodes.flatten ++ y) =
        (Pass.run ChunkReader.pass
          (s.finish m.packet.ext m.packet.data (w.carriedOf m) (w.receivedOf m)) y).after
            [handedOn m.packet.ext m.packet.data (w.receivedOf m)]
    := by
    rcases hagrees with hsame | ⟨hshort, hshort'⟩
    · exact run_build ⟨hsame, hmirrored⟩ hfits
    · have hlen := m.length_pos
      -- the chunk would be the same if the sender had the size of the receiver
      have hpos : 0 < s.inChunkSize := by omega
      have hone : (w.resize s.inChunkSize hpos hsize).furtherChunks m = 0
        := by
        apply Nat.div_eq_of_lt
        change m.packet.data.length - 1 < s.inChunkSize.toNat
        omega
      have hfits' : (w.resize s.inChunkSize hpos hsize).Fits m
        := by
        rw [Fits, hone, Nat.zero_mul]
        exact Nat.le_trans (Nat.add_le_add_left (Nat.le_add_right _ _) _) hfits
      have hresized : (w.resize s.inChunkSize hpos hsize).Mirrored s := hmirrored
      obtain ⟨nodes, hnodes, hrun⟩ := run_build ⟨rfl, hresized⟩ hfits'
      have hone' : (w.resize s.inChunkSize hpos hsize).receivedOf m = w.receivedOf m
        := by
        have hzero : w.furtherChunks m = 0
          := by
          apply Nat.div_eq_of_lt
          omega
        rw [receivedOf, receivedOf, hone, hzero]
        rfl
      rw [hone'] at hrun
      refine ⟨nodes, ?_, hrun⟩
      rw [build_single hshort']
      rw [build_single (w := w.resize s.inChunkSize hpos hsize) hshort] at hnodes
      exact hnodes
  obtain ⟨nodes, hnodes, hrun⟩ := hfound
  exact ⟨nodes, _, _, hnodes, hmirrored', hsizeBehind, hmessage, hrun⟩

/-! ### A batch -/

/-- The overload for `const PacketPtr &` never uses a delta. -/
theorem useDeltaConst_eq_false {st : OutStream} {fmt0 useDelta : Bool}
    (h : useDeltaConst st fmt0 = some useDelta) :
  useDelta = false
  := by
  rw [useDeltaConst] at h
  split at h
  · exact (Option.some.inj h).symm
  · split at h
    · cases h
    · exact (Option.some.inj h).symm

/-- A call that returns builds a message like one that is moved, with format 0 if it is of the
overload for `const PacketPtr &`. -/
theorem call_eq_build {w' : ChunkWriter} {c : BuildCall} {h : RtmpMsgHeader}
    (hext : c.packet.ext = some h) (hsend : c.Sendable h) (hcall : w.call c = some w') :
  ∃ m : OutMessage, w' = w.build m ∧ m.packet.ext = h ∧ m.packet.data = c.packet.data ∧
    m.timestamp = c.timestamp ∧ deltaFor (w.streams h.csId) h c = some (w.deltaOf m)
  := by
  have hwith : ∃ packet, c.packet.withHeader = some packet ∧ packet.ext = h ∧
      packet.data = c.packet.data
    := by
    rw [QueuedPacket.withHeader, hext]
    exact ⟨_, rfl, rfl, rfl⟩
  obtain ⟨packet, hpacket, rfl, hdata⟩ := hwith
  have hlen := hsend.length_eq
  have hpos := hsend.length_pos
  have hlt := hsend.length_lt
  rw [← hdata] at hlen hpos hlt
  rw [call, hpacket] at hcall
  dsimp only at hcall
  cases hconst : c.isConst with
  | false =>
      rw [hconst] at hcall
      refine ⟨⟨packet, c.timestamp, c.fmt0, hsend.csId_ge, hsend.csId_le, hlen, hpos, hlt⟩,
        (Option.some.inj hcall).symm, rfl, hdata, rfl, ?_⟩
      rw [deltaFor, hconst]
      rfl
  | true =>
      rw [hconst, if_pos rfl, buildChunkConst] at hcall
      obtain ⟨useDelta, huse, rfl⟩ := Option.map_eq_some_iff.mp hcall
      obtain rfl := useDeltaConst_eq_false huse
      refine ⟨⟨packet, c.timestamp, true, hsend.csId_ge, hsend.csId_le, hlen, hpos, hlt⟩,
        ?_, rfl, hdata, rfl, ?_⟩
      · rw [buildNodes_keep]
        rfl
      · rw [deltaFor, hconst, if_pos rfl, huse]
        rfl

/-- A call whose headers fit is read to its end. -/
theorem run_call {w' : ChunkWriter} {c : BuildCall} {batch : List BuildCall}
    (hmirrored : w.Mirrored s) (hsize : s.inChunkSize < 2 ^ 31)
    (hsend : ∀ h ∈ c.packet.ext, c.Sendable h)
    (hagrees : ChunkReader.Agrees w.outChunkSize s.inChunkSize c.message.toList)
    (hfits : w.outCurrent + headerBytes w.outChunkSize.toNat w.streams (c :: batch) ≤ outBufferSize)
    (hcall : w.call c = some w') :
  ∃ nodes s' packets, w'.sendingBufs = w.sendingBufs ++ nodes ∧ w'.Mirrored s' ∧
    w'.outChunkSize = w.outChunkSize ∧
    w'.outCurrent + headerBytes w'.outChunkSize.toNat w'.streams batch ≤ outBufferSize ∧
    s'.inChunkSize = c.message.toList.foldl ChunkReader.sizeBehind s.inChunkSize ∧
    packets.map Packet.message = c.message.toList ∧
    ∀ y, Pass.run ChunkReader.pass s (nodes.flatten ++ y) =
      (Pass.run ChunkReader.pass s' y).after packets
  := by
  cases hext : c.packet.ext with
  | none =>
      have hmessage : c.message = none := by rw [BuildCall.message, hext]; rfl
      rw [call, QueuedPacket.withHeader, hext] at hcall
      obtain rfl := Option.some.inj hcall
      rw [headerBytes, hext] at hfits
      rw [hmessage]
      refine ⟨[], s, [], (List.append_nil _).symm, hmirrored, rfl, hfits, rfl, rfl, ?_⟩
      intro y
      rfl
  | some h =>
      have hsendable := hsend h hext
      have hlt := hsendable.length_lt
      rw [hsendable.length_eq] at hlt
      obtain ⟨m, rfl, hm, hdata, htimestamp, hdelta⟩ := call_eq_build hext hsendable hcall
      have hmessage : c.message = some m.message
        := by
        rw [BuildCall.message, hext, OutMessage.message, hm, hdata, htimestamp]
        rfl
      rw [headerBytes, hext] at hfits
      dsimp only at hfits
      rw [hdelta] at hfits
      dsimp only at hfits
      have hneeded : messageHeaders w.outChunkSize.toNat (w.streams h.csId) h c.timestamp
          (w.deltaOf m) = (firstHeader (w.fmtOf m) m.packet.ext (w.carriedOf m)).length +
            w.furtherChunks m * (nextHeader m.packet.ext (w.carriedOf m)).length
        := by
        rw [furtherChunks, m.length_eq, fmtOf, carriedOf, streamOf, hm, htimestamp]
        rfl
      have hfit : w.Fits m
        := by
        rw [Fits, ← hneeded]
        omega
      rw [hmessage, Option.toList_some] at hagrees ⊢
      obtain ⟨nodes, s', packet, hnodes, hmirrored', hsize', hpacket, hrun⟩ :=
        run_message hmirrored hsize hagrees.1 hfit
          (by
            rw [htimestamp]
            exact hsendable.timestamp_lt)
      obtain ⟨hnone, -⟩ | ⟨useDelta, w'', hdelta', hcall', hchunk, hstreams, hcurrent⟩ :=
        w.call_cases hext (Nat.lt_trans hlt (by decide))
      · rw [hnone] at hdelta
        cases hdelta
      · obtain rfl := Option.some.inj (hcall.symm.trans hcall')
        obtain rfl := Option.some.inj (hdelta.symm.trans hdelta')
        refine ⟨nodes, s', [packet], hnodes, hmirrored', hchunk, ?_, hsize', ?_, hrun⟩
        · rw [hchunk, hstreams]
          rcases hcurrent with ⟨-, hcurrent, -⟩ | ⟨hroom, -⟩
          · rw [hcurrent, Nat.add_assoc]
            exact hfits
          · omega
        · rw [List.map_singleton, hpacket]

/-- A batch whose headers fit is read to its end. -/
theorem run_batch {w' : ChunkWriter} {batch : List BuildCall}
    (hmirrored : w.Mirrored s) (hsize : s.inChunkSize < 2 ^ 31)
    (hsend : ∀ c ∈ batch, ∀ h ∈ c.packet.ext, c.Sendable h)
    (hagrees : ChunkReader.Agrees w.outChunkSize s.inChunkSize (batch.filterMap BuildCall.message))
    (hfits : w.outCurrent + headerBytes w.outChunkSize.toNat w.streams batch ≤ outBufferSize)
    (hbatch : w.buildBatch batch = some w') :
  ∃ nodes s' packets, w'.sendingBufs = w.sendingBufs ++ nodes ∧ w'.Mirrored s' ∧
    w'.outChunkSize = w.outChunkSize ∧
    s'.inChunkSize = (batch.filterMap BuildCall.message).foldl ChunkReader.sizeBehind
      s.inChunkSize ∧
    packets.map Packet.message = batch.filterMap BuildCall.message ∧
    ∀ y, Pass.run ChunkReader.pass s (nodes.flatten ++ y) =
      (Pass.run ChunkReader.pass s' y).after packets
  := by
  induction batch generalizing w s with
  | nil =>
      obtain rfl := Option.some.inj hbatch
      refine ⟨[], s, [], (List.append_nil _).symm, hmirrored, rfl, rfl, rfl, ?_⟩
      intro y
      rfl
  | cons c batch ih =>
      have hmessages : (c :: batch).filterMap BuildCall.message =
          c.message.toList ++ batch.filterMap BuildCall.message
        := by
        rw [List.filterMap_cons]
        cases c.message with
        | none => rfl
        | some m => rfl
      rw [hmessages, ChunkReader.agrees_append] at hagrees
      rw [buildBatch] at hbatch
      obtain ⟨w'', hcall, hbatch⟩ := Option.bind_eq_some_iff.mp hbatch
      obtain ⟨nodes, s'', packets, hnodes, hmirrored', hchunk, hfits', hsize', hpackets, hrun⟩ :=
        run_call hmirrored hsize (hsend c List.mem_cons_self) hagrees.1 hfits hcall
      have hlt : s''.inChunkSize < 2 ^ 31
        := by
        rw [hsize']
        exact ChunkReader.foldl_sizeBehind_lt hsize _
      rw [← hsize', ← hchunk] at hagrees
      obtain ⟨nodes', s', packets', hnodes', hmirrored'', hchunk', hsize'', hpackets', hrun'⟩ :=
        ih hmirrored' hlt (fun c hc => hsend c (List.mem_cons_of_mem _ hc)) hagrees.2 hfits' hbatch
      refine ⟨nodes ++ nodes', s', packets ++ packets', ?_, hmirrored'', hchunk'.trans hchunk, ?_, ?_,
        ?_⟩
      · rw [hnodes', hnodes, List.append_assoc]
      · rw [hsize'', hsize', hmessages, List.foldl_append]
      · rw [List.map_append, hpackets, hpackets', hmessages]
      · intro y
        rw [List.flatten_append, List.append_assoc, hrun, hrun']
        simp only [Pass.Result.after, List.append_assoc]

end ChunkWriter

/-! ### The link -/

/-- A context that sends, what was pushed to its queue, the calls of `BuildChunk` so far, the bytes
that were given to the connection and not read yet, and a context that receives. -/
structure RtmpLink where
  out : RtmpOut := {}
  pushed : List QueuedPacket := []
  calls : List BuildCall := []
  flight : List UInt8 := []
  receiver : RtmpReceiver := {}

namespace RtmpLink

/-- Something happens to the context that sends, or at most `n` bytes are read. -/
inductive Event where
  | sender (e : OutEvent)
  | read (n : Nat)

/-- One event. -/
def step : Option RtmpLink → Event → Option RtmpLink
  | none, _ => none
  | some l, .sender e =>
      (l.out.event e).map fun out => {
        out := out
        pushed := l.pushed ++ e.pushed
        calls := l.calls ++ l.out.calls e
        flight := l.flight ++ (l.out.given out e).flatten
        receiver := l.receiver }
  | some l, .read n => some { l with
      flight := l.flight.drop n
      receiver := l.receiver.onRead (l.flight.take n) }

/-- The messages that were sent. -/
def messages (l : RtmpLink) : List Message := l.calls.filterMap BuildCall.message

/-- The calls of an event can be read: their messages can be written, their headers fit in
`out_buffer_`, and the receiver knows how large their chunks are. -/
def Ready (l : RtmpLink) : Event → Prop
  | .read _ => True
  | .sender e =>
      (∀ c ∈ l.out.calls e, ∀ h ∈ c.packet.ext, c.Sendable h) ∧
        headerBytes l.out.writer.outChunkSize.toNat l.out.writer.streams (l.out.calls e) ≤
          outBufferSize ∧
        ChunkReader.Agrees l.out.writer.outChunkSize (l.messages.foldl ChunkReader.sizeBehind 128)
          ((l.out.calls e).filterMap BuildCall.message)

instance decidableReady (l : RtmpLink) (e : Event) : Decidable (l.Ready e) :=
  match e with
  | .read _ => isTrue trivial
  | .sender _ => inferInstanceAs (Decidable (_ ∧ _ ∧ _))

/-- What was received is what was sent, in the same order and up to what is on its way; the queue
is sent in its order, and nothing waits when nothing is being sent. -/
structure Delivers (l : RtmpLink) : Prop where
  inOrder : l.receiver.delivered.map Packet.message <+: l.messages
  complete : l.flight = [] →
    l.receiver.delivered.map Packet.message = l.messages ∧ l.receiver.unread = []
  queued : l.pushed = BuildCall.taken l.calls ++ l.out.outWaitingQueue
  drained : l.out.sending = false → l.out.outWaitingQueue = []

/-- The bytes on their way bring the receiver to a reader that mirrors the sender. -/
structure Inv (l : RtmpLink) : Prop where
  chunkSize : l.out.writer.outChunkSize = 4096
  queued : l.pushed = BuildCall.taken l.calls ++ l.out.outWaitingQueue
  drained : l.out.sending = false → l.out.outWaitingQueue = []
  rested : l.out.sending = false →
    l.out.writer.sendingBufs = [] ∧ l.out.writer.outCurrent = 0
  settled : Pass.feed ChunkReader.pass l.receiver.result [] = l.receiver.result
  arriving : ∃ s packets, l.out.writer.Mirrored s ∧
    s.inChunkSize = l.messages.foldl ChunkReader.sizeBehind 128 ∧
    packets.map Packet.message = l.messages ∧
    ∀ y, Pass.feed ChunkReader.pass l.receiver.result (l.flight ++ y) =
      (Pass.run ChunkReader.pass s y).after packets

variable {l l' : RtmpLink}

/-- Feeding what is on its way gives all messages. -/
theorem Inv.delivers (h : l.Inv) :
  l.Delivers
  := by
  obtain ⟨s, packets, -, -, hmessages, hfeed⟩ := h.arriving
  have hall := hfeed []
  rw [List.append_nil, Pass.run_of_wait (ChunkReader.incremental.idle s)] at hall
  refine ⟨?_, ?_, h.queued, h.drained⟩
  · have hout := congrArg Pass.Result.out hall
    rw [Pass.feed, Pass.Result.after_out, Pass.Result.after_out, List.append_nil] at hout
    rw [← hmessages, ← hout, List.map_append]
    apply List.prefix_append
  · intro hflight
    rw [hflight, h.settled] at hall
    have hout := congrArg Pass.Result.out hall
    rw [Pass.Result.after_out, List.append_nil] at hout
    rw [← hmessages]
    exact ⟨congrArg (List.map Packet.message) hout, congrArg Pass.Result.unread hall⟩

/-- A read takes bytes that are on their way. -/
theorem Inv.read (h : l.Inv) (n : Nat) :
  Inv { l with
    flight := l.flight.drop n
    receiver := l.receiver.onRead (l.flight.take n) }
  := by
  obtain ⟨s, packets, hmirrored, hsize, hmessages, hfeed⟩ := h.arriving
  have hincremental := ChunkReader.incremental
  refine ⟨h.chunkSize, h.queued, h.drained, h.rested, ?_, s, packets, hmirrored, hsize, hmessages,
    ?_⟩
  · dsimp only
    rw [RtmpReceiver.result_onRead, hincremental.feed_feed, List.append_nil]
  · intro y
    dsimp only
    rw [RtmpReceiver.result_onRead, hincremental.feed_feed, ← List.append_assoc,
      List.take_append_drop]
    exact hfeed y

/-- While something is being sent, an event only waits. -/
theorem Inv.busy (h : l.Inv) {e : OutEvent} (hbusy : l.out.busy e = true) {out : RtmpOut}
    (hevent : l.out.event e = some out) :
  Inv {
    out := out
    pushed := l.pushed ++ e.pushed
    calls := l.calls ++ l.out.calls e
    flight := l.flight ++ (l.out.given out e).flatten
    receiver := l.receiver }
  := by
  obtain ⟨hwriter, hqueue, hsending⟩ := RtmpOut.event_of_busy hbusy hevent
  have hcalls : l.out.calls e = [] := if_pos hbusy
  have hgiven : l.out.given out e = [] := if_pos hbusy
  have hidle : out.sending = false → False
    := by
    rw [hsending]
    intro hfalse
    cases hfalse
  rw [hcalls, hgiven, List.flatten_nil, List.append_nil, List.append_nil]
  refine ⟨?_, ?_, fun hnot => (hidle hnot).elim, fun hnot => (hidle hnot).elim, h.settled, ?_⟩
  · dsimp only
    rw [hwriter, h.chunkSize]
  · dsimp only
    rw [hqueue, h.queued, List.append_assoc]
  · dsimp only
    rw [hwriter]
    exact h.arriving

/-- An event that finds nothing being sent builds a batch, and its bytes are on their way. -/
theorem Inv.idle (h : l.Inv) {e : OutEvent} (hready : l.Ready (.sender e))
    (hidle : l.out.busy e = false) {out : RtmpOut} (hevent : l.out.event e = some out) :
  Inv {
    out := out
    pushed := l.pushed ++ e.pushed
    calls := l.calls ++ l.out.calls e
    flight := l.flight ++ (l.out.given out e).flatten
    receiver := l.receiver }
  := by
  obtain ⟨hbatch, hqueue, hsent⟩ := RtmpOut.event_of_idle hidle hevent
  obtain ⟨s, packets, hmirrored, hsize, hmessages, hfeed⟩ := h.arriving
  obtain ⟨hsendable, hfits, hagrees⟩ := hready
  have hgiven : l.out.given out e = out.writer.sendingBufs
    := if_neg (by rw [hidle]; exact Bool.false_ne_true)
  have hclear : (l.out.writerAt e).sendingBufs = [] ∧ (l.out.writerAt e).outCurrent = 0 ∧
      (l.out.writerAt e).streams = l.out.writer.streams ∧
      (l.out.writerAt e).outChunkSize = l.out.writer.outChunkSize
    := by
    rw [RtmpOut.busy, Bool.and_eq_false_iff, Bool.not_eq_false'] at hidle
    rw [RtmpOut.writerAt]
    split
    · exact ⟨rfl, rfl, rfl, rfl⟩
    next hnot =>
      obtain ⟨hbufs, hcurrent⟩ := h.rested (hidle.resolve_right hnot)
      exact ⟨hbufs, hcurrent, rfl, rfl⟩
  obtain ⟨hbufs, hcurrent, hstreams, hchunk⟩ := hclear
  have hmirrored' : (l.out.writerAt e).Mirrored s
    := by
    intro cs
    rw [hstreams]
    exact hmirrored cs
  have hlt : s.inChunkSize < 2 ^ 31
    := by
    rw [hsize]
    exact ChunkReader.foldl_sizeBehind_lt (by decide) _
  rw [← hsize, ← hchunk] at hagrees
  rw [← hstreams, ← hchunk, ← Nat.zero_add (headerBytes _ _ _), ← hcurrent] at hfits
  obtain ⟨nodes, s', packets', hnodes, hmirrored'', hkept, hsize', hpackets, hrun⟩ :=
    run_batch hmirrored' hlt hsendable hagrees hfits hbatch
  rw [hbufs, List.nil_append] at hnodes
  have hmessages' : (l.calls ++ l.out.calls e).filterMap BuildCall.message =
      l.messages ++ (l.out.calls e).filterMap BuildCall.message := List.filterMap_append
  refine ⟨?_, ?_, ?_, ?_, h.settled, s', packets ++ packets', hmirrored'', ?_, ?_, ?_⟩
  · exact hkept.trans (hchunk.trans h.chunkSize)
  · dsimp only
    rw [RtmpOut.taken_append_calls l.calls l.out hidle, hqueue, h.queued, List.append_assoc,
      List.append_assoc, List.take_append_drop]
  · intro hnot
    rcases hsent with hsending | ⟨hnothing, -⟩
    · rw [hsending] at hnot
      cases hnot
    · exact hnothing
  · intro hnot
    rcases hsent with hsending | ⟨-, hwriter⟩
    · rw [hsending] at hnot
      cases hnot
    · dsimp only
      rw [hwriter]
      exact ⟨rfl, rfl⟩
  · rw [messages]
    dsimp only
    rw [hmessages', List.foldl_append, ← hsize, hsize']
  · rw [messages]
    dsimp only
    rw [hmessages', List.map_append, hmessages, hpackets]
  · intro y
    dsimp only
    rw [hgiven, hnodes, List.append_assoc, hfeed, hrun]
    simp only [Pass.Result.after, List.append_assoc]

/-- An event that can be read leaves the receiver with the prospect of all messages. -/
theorem Inv.step (h : l.Inv) {e : Event} (hready : l.Ready e)
    (hstep : RtmpLink.step (some l) e = some l') :
  l'.Inv
  := by
  cases e with
  | read n =>
      obtain rfl := Option.some.inj hstep
      exact h.read n
  | sender e =>
      obtain ⟨out, hevent, rfl⟩ := Option.map_eq_some_iff.mp hstep
      cases hbusy : l.out.busy e with
      | true => exact h.busy hbusy hevent
      | false => exact h.idle hready hbusy hevent

theorem inv_throughout {events : List Event}
    (h : Steps step (fun s e => ∀ l ∈ s, l.Ready e) (some {}) events) :
  Throughout step (fun s => ∀ l ∈ s, l.Inv) (some {}) events
  := by
  have hinit : Inv {}
    := by
    refine ⟨rfl, rfl, fun _ => rfl, fun _ => ⟨rfl, rfl⟩, rfl, {}, [], fun _ => rfl, rfl, rfl, ?_⟩
    intro y
    rfl
  apply h.throughout
  · rintro l ⟨⟩
    exact hinit
  · intro s e hinv hready l' hl'
    cases s with
    | none => cases hl'
    | some l => exact (hinv l rfl).step (hready l rfl) hl'

/-- However the bytes are cut into reads and these fall between what happens to the sender, the
receiver gets the messages that were sent, none of which is empty, in the order in which they were,
each once, and nothing else, and it has all of them when nothing is on its way.  The packets of the
queue are among them in their order, and none waits when nothing is being sent. -/
theorem delivers_throughout {events : List Event}
    (h : Steps step (fun s e => ∀ l ∈ s, l.Ready e) (some {}) events) :
  Throughout step (fun s => ∀ l ∈ s, l.Delivers) (some {}) events
  := by
  apply (inv_throughout h).mono
  intro s hinv l hl
  exact (hinv l hl).delivers

/-- A message about the size of the chunks, and a frame of 200 bytes behind it. -/
def frameEvents : List Event :=
  [.sender (.pushOutQueue {
      size := 4
      capacity := 4
      data := [0, 0, 16, 0]
      ext := some { csId := 2, msgLen := 4, msgType := kRtmpMsgTypeChunkSize } }),
    .read 7, .sender .writeComplete,
    .sender (.pushFrames [({
      size := 200
      capacity := 200
      data := List.replicate 200 7
      ext := some { csId := 6, msgLen := 200, msgType := 9, msgSid := 1 } }, 40)] true),
    .read 100, .read 1000]

theorem delivers_throughout_frame :
  Steps step (fun s e => ∀ l ∈ s, l.Ready e) (some {}) frameEvents ∧
    Throughout step (fun s => ∀ l ∈ s, l.Delivers) (some {}) frameEvents
  := by
  have hready : Steps step (fun s e => ∀ l ∈ s, l.Ready e) (some {}) frameEvents
    := by
    decide +kernel
  exact ⟨hready, delivers_throughout hready⟩

end RtmpLink
