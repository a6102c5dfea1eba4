import Mathlib.Data.List.Forall2
import Tmms.Library.Runs
import Tmms.Rtmp.HeaderBuffer

/-!
# Batches

What happens to a context that sends leads to a batch of calls of `BuildChunk`, for the frames of a
player and for at most ten packets of the queue, or it finds something being sent.  All nodes of a
batch are given to the connection.

`OutWorld` has beside the context what was pushed, the calls so far, the nodes the connection got,
and the packets whose nodes it has not written yet.  If the headers of every batch fit in
`out_buffer_`, these nodes are the chunks of what was pushed, in this order and each once, with the
chunks of the frames between them.
-/

open ChunkWriter Runs

/-! ### The calls of an event -/

/-- What a player wants to build. -/
def OutEvent.frameCalls : OutEvent → List BuildCall
  | pushFrames frames fmt0 => RtmpOut.frameCalls fmt0 frames
  | pushOutQueue _ => []
  | send => []
  | writeComplete => []

/-- The packets that were taken from the queue. -/
def BuildCall.taken (calls : List BuildCall) : List QueuedPacket :=
  (calls.filter fun c => !c.isConst).map BuildCall.packet

namespace RtmpOut

/-- Something is being sent, and goes on to be. -/
def busy (c : RtmpOut) (e : OutEvent) : Bool := c.sending && !e.isWriteComplete

/-- The calls of `BuildChunk` that an event leads to. -/
def calls (c : RtmpOut) (e : OutEvent) : List BuildCall :=
  if c.busy e then [] else e.frameCalls ++ queueCalls ((c.outWaitingQueue ++ e.pushed).take 10)

/-- The writer these calls begin with. -/
def writerAt (c : RtmpOut) (e : OutEvent) : ChunkWriter :=
  if e.isWriteComplete then c.writer.checkAndSend else c.writer

/-- The nodes that an event gives to the connection. -/
def given (c c' : RtmpOut) (e : OutEvent) : List (List UInt8) :=
  if c.busy e then [] else c'.writer.sendingBufs

theorem buildBatch_append (w : ChunkWriter) (batch batch' : List BuildCall) :
  w.buildBatch (batch ++ batch') = (w.buildBatch batch).bind (buildBatch · batch')
  := by
  induction batch generalizing w with
  | nil => rfl
  | cons c batch ih =>
      rw [List.cons_append, buildBatch, buildBatch]
      cases w.call c with
      | none => rfl
      | some w' => exact ih w'

/-- `Send`, when nothing is being sent. -/
theorem send_of_idle {c : RtmpOut} (h : c.sending = false) :
  c.writer.buildBatch (queueCalls (c.outWaitingQueue.take 10)) = some c.send.writer ∧
    c.send.outWaitingQueue = c.outWaitingQueue.drop 10 ∧ c.send.sending = true
  := by
  refine ⟨?_, send_of_ready h⟩
  rw [send, h]
  exact buildBatch_sendLoop 10 { c with sending := true }

theorem event_of_busy {c c' : RtmpOut} {e : OutEvent} (hbusy : c.busy e = true)
    (h : c.event e = some c') :
  c'.writer = c.writer ∧ c'.outWaitingQueue = c.outWaitingQueue ++ e.pushed ∧ c'.sending = true
  := by
  rw [busy, Bool.and_eq_true, Bool.not_eq_true'] at hbusy
  obtain ⟨hsending, hnot⟩ := hbusy
  cases e with
  | pushOutQueue packet =>
      obtain rfl := Option.some.inj h
      rw [pushOutQueue, @send_of_sending { c with outWaitingQueue := c.outWaitingQueue ++ [packet] }
        hsending]
      exact ⟨rfl, rfl, hsending⟩
  | send =>
      obtain rfl := Option.some.inj h
      rw [send_of_sending hsending]
      exact ⟨rfl, (List.append_nil _).symm, hsending⟩
  | pushFrames frames fmt0 =>
      rw [event, pushFrames, ready, hsending] at h
      obtain rfl := Option.some.inj h
      exact ⟨rfl, (List.append_nil _).symm, hsending⟩
  | writeComplete => cases hnot

/-- An event that finds nothing being sent makes its calls, and gives all nodes to the
connection. -/
theorem event_of_idle {c c' : RtmpOut} {e : OutEvent} (hidle : c.busy e = false)
    (h : c.event e = some c') :
  (c.writerAt e).buildBatch (c.calls e) = some c'.writer ∧
    c'.outWaitingQueue = (c.outWaitingQueue ++ e.pushed).drop 10 ∧
    (c'.sending = true ∨ c'.outWaitingQueue = [] ∧ c'.writer = c.writer.checkAndSend)
  := by
  rw [calls, hidle, if_neg Bool.false_ne_true]
  rw [busy, Bool.and_eq_false_iff, Bool.not_eq_false'] at hidle
  cases e with
  | pushOutQueue packet =>
      have hsending : c.sending = false := hidle.resolve_right Bool.false_ne_true
      obtain rfl := Option.some.inj h
      obtain ⟨hbatch, hqueue, hsent⟩ := @send_of_idle
        { c with outWaitingQueue := c.outWaitingQueue ++ [packet] } hsending
      exact ⟨hbatch, hqueue, Or.inl hsent⟩
  | send =>
      have hsending : c.sending = false := hidle.resolve_right Bool.false_ne_true
      obtain rfl := Option.some.inj h
      rw [OutEvent.pushed, List.append_nil]
      obtain ⟨hbatch, hqueue, hsent⟩ := send_of_idle hsending
      exact ⟨hbatch, hqueue, Or.inl hsent⟩
  | pushFrames frames fmt0 =>
      have hsending : c.sending = false := hidle.resolve_right Bool.false_ne_true
      have hready : c.ready = true := by rw [ready, hsending]; rfl
      rw [event, pushFrames, if_pos hready] at h
      rw [OutEvent.pushed, List.append_nil, OutEvent.frameCalls, buildBatch_append]
      change (c.writer.buildBatch _).bind _ = _ ∧ _
      rw [buildBatch_buildFrames]
      obtain ⟨built, hbuilt, rfl⟩ := Option.map_eq_some_iff.mp h
      obtain ⟨hbatch, hqueue, hsent⟩ := @send_of_idle { c with writer := built } hsending
      rw [hbuilt]
      exact ⟨hbatch, hqueue, Or.inl hsent⟩
  | writeComplete =>
      obtain rfl := Option.some.inj h
      rw [OutEvent.pushed, List.append_nil]
      obtain ⟨hqueue, hnothing⟩ | hsend := c.checkAndSend_cases
      · rw [hnothing, hqueue]
        exact ⟨rfl, hqueue, Or.inr ⟨hqueue, rfl⟩⟩
      · obtain ⟨hbatch, hqueue, hsent⟩ := @send_of_idle c.idle rfl
        rw [hsend]
        exact ⟨hbatch, hqueue, Or.inl hsent⟩

/-- What is taken from the queue is what the calls for it are about. -/
theorem taken_append_calls (calls : List BuildCall) (c : RtmpOut) {e : OutEvent}
    (hidle : c.busy e = false) :
  BuildCall.taken (calls ++ c.calls e) =
    BuildCall.taken calls ++ (c.outWaitingQueue ++ e.pushed).take 10
  := by
  have hframes : e.frameCalls.filter (fun c => !c.isConst) = []
    := by
    cases e with
    | pushFrames frames fmt0 =>
        apply List.filter_eq_nil_iff.mpr
        intro c hc
        obtain ⟨frame, -, rfl⟩ := List.mem_map.mp hc
        exact Bool.false_ne_true
    | pushOutQueue packet => rfl
    | send => rfl
    | writeComplete => rfl
  have hqueue (queue : List QueuedPacket) :
      ((queueCalls queue).filter fun c => !c.isConst).map BuildCall.packet = queue
    := by
    have hself : ((queueCalls queue).filter fun c => !c.isConst) =
        queueCalls queue
      := by
      apply List.filter_eq_self.mpr
      intro c hc
      obtain ⟨packet, -, rfl⟩ := List.mem_map.mp hc
      rfl
    rw [hself, queueCalls, List.map_map]
    apply List.map_id
  rw [BuildCall.taken, BuildCall.taken, RtmpOut.calls, hidle, if_neg Bool.false_ne_true,
    List.filter_append, List.filter_append, hframes, List.nil_append, List.map_append, hqueue]

end RtmpOut

/-! ### The chunks of a batch -/

/-- The nodes are the chunks of the message of a call, or there are none without a message. -/
def BuildCall.Chunks (size : Nat) (c : BuildCall) (nodes : List (List UInt8)) : Prop :=
  match c.packet.ext with
  | none => nodes = []
  | some h => ∃ fmt timestamp, nodes = chunkNodes size h c.packet.data fmt timestamp

namespace ChunkWriter

variable {w w' : ChunkWriter} {c : BuildCall} {batch : List BuildCall}

theorem outSendingPackets_buildBody (h : RtmpMsgHeader) (timestamp : UInt32) (body : List UInt8)
    (fuel : Nat) (w : ChunkWriter) (bytesParsed : UInt32) :
  (buildBody h timestamp body fuel w bytesParsed).outSendingPackets = w.outSendingPackets
  := by
  induction fuel generalizing w bytesParsed with
  | zero => rfl
  | succ fuel ih =>
      rw [buildBody]
      split
      · split
        · rfl
        · exact ih _ _
      · rfl

/-- A packet whose chunks are built is kept, and the size of the chunks does not change. -/
theorem call_frame (h : w.call c = some w') :
  w'.outSendingPackets = w.outSendingPackets ++ c.packet.withHeader.toList ∧
    w'.outChunkSize = w.outChunkSize
  := by
  rw [call] at h
  cases hpacket : c.packet.withHeader with
  | none =>
      rw [hpacket] at h
      obtain rfl := Option.some.inj h
      exact ⟨(List.append_nil _).symm, rfl⟩
  | some packet =>
      rw [hpacket] at h
      dsimp only at h
      split at h
      · obtain ⟨useDelta, -, rfl⟩ := Option.map_eq_some_iff.mp h
        exact ⟨outSendingPackets_buildBody _ _ _ _ _ _, (buildBody_frame _ _ _ _ _ _).2⟩
      · obtain rfl := Option.some.inj h
        exact ⟨congrArg (· ++ [packet]) (outSendingPackets_buildBody _ _ _ _ _ _),
          (buildBody_frame _ _ _ _ _ _).2⟩

theorem buildBatch_frame (h : w.buildBatch batch = some w') :
  w'.outSendingPackets = w.outSendingPackets ++ batch.filterMap (·.packet.withHeader) ∧
    w'.outChunkSize = w.outChunkSize
  := by
  induction batch generalizing w with
  | nil =>
      obtain rfl := Option.some.inj h
      exact ⟨(List.append_nil _).symm, rfl⟩
  | cons c batch ih =>
      obtain ⟨w₁, hcall, hbatch⟩ := Option.bind_eq_some_iff.mp h
      obtain ⟨hkept, hsize⟩ := call_frame hcall
      obtain ⟨hkept', hsize'⟩ := ih hbatch
      refine ⟨?_, hsize'.trans hsize⟩
      rw [hkept', hkept, List.append_assoc, List.filterMap_cons]
      cases c.packet.withHeader with
      | none => rfl
      | some packet => rfl

/-- Headers that fit are those of few chunks. -/
theorem msgLen_lt_of_fits {size : Nat} (hpos : 0 < size) (hle : size ≤ 4096) {st : OutStream}
    {h : RtmpMsgHeader} {timestamp : UInt32} {useDelta : Bool}
    (hfits : messageHeaders size st h timestamp useDelta ≤ outBufferSize) :
  h.msgLen.toNat < 2 ^ 31
  := by
  rw [messageHeaders, outBufferSize] at hfits
  have hnext := nextHeader_pos h (carried useDelta st timestamp)
  have hmore : moreChunks size h ≤ 4096
    := Nat.le_trans (Nat.le_mul_of_pos_right _ hnext) (Nat.le_trans (Nat.le_add_left _ _) hfits)
  rw [moreChunks] at hmore
  have hlt : h.msgLen.toNat - 1 < (4096 + 1) * size
    := (Nat.div_lt_iff_lt_mul hpos).mp (Nat.lt_succ_of_le hmore)
  have hmul : (4096 + 1) * size ≤ (4096 + 1) * 4096 := Nat.mul_le_mul_left _ hle
  omega

/-- A call that has a result has made the test for a delta header. -/
theorem deltaFor_of_call {h : RtmpMsgHeader} (hext : c.packet.ext = some h)
    (hcall : w.call c = some w') :
  ∃ useDelta, deltaFor (w.streams h.csId) h c = some useDelta
  := by
  rw [call, QueuedPacket.withHeader, hext] at hcall
  rw [deltaFor]
  cases hconst : c.isConst with
  | false => exact ⟨_, rfl⟩
  | true =>
      rw [hconst] at hcall
      obtain ⟨useDelta, hdelta, -⟩ := Option.map_eq_some_iff.mp hcall
      exact ⟨useDelta, hdelta⟩

/-- A call whose headers fit appends the chunks of its message. -/
theorem chunks_call (hsize : w.outChunkSize = 4096)
    (hfits : w.outCurrent + headerBytes 4096 w.streams (c :: batch) ≤ outBufferSize)
    (hcall : w.call c = some w') :
  w'.outCurrent + headerBytes 4096 w'.streams batch ≤ outBufferSize ∧
    ∃ nodes, c.Chunks 4096 nodes ∧ w'.sendingBufs = w.sendingBufs ++ nodes
  := by
  rw [headerBytes] at hfits
  cases hext : c.packet.ext with
  | none =>
      rw [hext] at hfits
      rw [call, QueuedPacket.withHeader, hext] at hcall
      obtain rfl := Option.some.inj hcall
      refine ⟨hfits, [], ?_, (List.append_nil _).symm⟩
      rw [BuildCall.Chunks, hext]
  | some h =>
      obtain ⟨useDelta, hdelta⟩ := deltaFor_of_call hext hcall
      rw [hext] at hfits
      dsimp only at hfits
      rw [hdelta] at hfits
      dsimp only at hfits
      have hroom : messageHeaders 4096 (w.streams h.csId) h c.timestamp useDelta ≤ outBufferSize
        := by omega
      have hlen := msgLen_lt_of_fits (by decide) (Nat.le_refl _) hroom
      obtain ⟨-, hnone⟩ | ⟨useDelta', w₁, hdelta', hcall', -, hstreams, hcases⟩ :=
        w.call_cases hext hlen
      · rw [hcall] at hnone
        cases hnone
      · obtain rfl := Option.some.inj (hdelta.symm.trans hdelta')
        obtain rfl := Option.some.inj (hcall.symm.trans hcall')
        rw [hsize] at hcases
        obtain ⟨-, hcurrent, hbufs⟩ | ⟨hroom, -⟩ := hcases
        · refine ⟨?_, _, ?_, hbufs⟩
          · rw [hcurrent, hstreams, Nat.add_assoc]
            exact hfits
          · rw [BuildCall.Chunks, hext]
            exact ⟨_, _, rfl⟩
        · change outBufferSize < w.outCurrent + messageHeaders 4096 _ _ _ _ at hroom
          omega

/-- A batch whose headers fit appends the chunks of its messages. -/
theorem chunks_buildBatch (hsize : w.outChunkSize = 4096)
    (hfits : w.outCurrent + headerBytes 4096 w.streams batch ≤ outBufferSize)
    (h : w.buildBatch batch = some w') :
  ∃ parts, List.Forall₂ (BuildCall.Chunks 4096) batch parts ∧
    w'.sendingBufs = w.sendingBufs ++ parts.flatten
  := by
  induction batch generalizing w with
  | nil =>
      obtain rfl := Option.some.inj h
      exact ⟨[], .nil, (List.append_nil _).symm⟩
  | cons c batch ih =>
      obtain ⟨w₁, hcall, hbatch⟩ := Option.bind_eq_some_iff.mp h
      obtain ⟨hfits', nodes, hnodes, hbufs⟩ := chunks_call hsize hfits hcall
      obtain ⟨parts, hparts, hbufs'⟩ := ih ((call_frame hcall).2.trans hsize) hfits' hbatch
      refine ⟨nodes :: parts, .cons hnodes hparts, ?_⟩
      rw [hbufs', hbufs, List.append_assoc]
      rfl

end ChunkWriter

/-! ### The world of a context -/

/-- The context, all packets pushed to the queue, the calls of `BuildChunk`, the nodes that the
connection got, and the packets of which it has nodes and has not written them all. -/
structure OutWorld where
  out : RtmpOut := {}
  pushed : List QueuedPacket := []
  calls : List BuildCall := []
  given : List (List UInt8) := []
  carried : List RtmpPacket := []

namespace OutWorld

/-- One event. The run ends where `BuildChunk` of a frame dereferences a null pointer. -/
def step : Option OutWorld → OutEvent → Option OutWorld
  | none, _ => none
  | some w, e =>
      (w.out.event e).map fun out => {
        out := out
        pushed := w.pushed ++ e.pushed
        calls := w.calls ++ w.out.calls e
        given := w.given ++ w.out.given out e
        carried := (if e.isWriteComplete then [] else w.carried) ++
          (w.out.calls e).filterMap (·.packet.withHeader) }

/-- The headers of the batch fit in `out_buffer_`. -/
def Fits (w : OutWorld) (e : OutEvent) : Prop :=
  headerBytes w.out.writer.outChunkSize.toNat w.out.writer.streams (w.out.calls e) ≤ outBufferSize

instance (w : OutWorld) (e : OutEvent) : Decidable (w.Fits e) := inferInstanceAs (Decidable (_ ≤ _))

/-- Nothing waits while nothing is sent; what was pushed was taken for a call, one after the other,
or still waits; the connection got the chunks of each call, one after the other, and nothing else;
and what it has is kept. -/
structure Sound (w : OutWorld) : Prop where
  drained : w.out.sending = false → w.out.outWaitingQueue = []
  order : w.pushed = BuildCall.taken w.calls ++ w.out.outWaitingQueue
  chunks : ∃ parts, List.Forall₂ (BuildCall.Chunks 4096) w.calls parts ∧ w.given = parts.flatten
  kept : ∀ packet ∈ w.carried, packet ∈ w.out.writer.outSendingPackets

/-- What holds in any run. -/
structure Inv (w : OutWorld) : Prop where
  chunkSize : w.out.writer.outChunkSize = 4096
  order : w.pushed = BuildCall.taken w.calls ++ w.out.outWaitingQueue
  drained : w.out.sending = false → w.out.outWaitingQueue = []
  rested : w.out.sending = false → w.out.writer.sendingBufs = [] ∧ w.out.writer.outCurrent = 0
  kept : w.carried = w.out.writer.outSendingPackets

variable {w w' : OutWorld} {e : OutEvent}

/-- The calls begin with a writer that has written everything. -/
theorem Inv.writerAt (h : w.Inv) (hidle : w.out.busy e = false) :
  (w.out.writerAt e).sendingBufs = [] ∧ (w.out.writerAt e).outCurrent = 0 ∧
    (w.out.writerAt e).streams = w.out.writer.streams ∧
    (w.out.writerAt e).outChunkSize = 4096 ∧
    (w.out.writerAt e).outSendingPackets = if e.isWriteComplete then [] else w.carried
  := by
  rw [RtmpOut.busy, Bool.and_eq_false_iff, Bool.not_eq_false'] at hidle
  rw [RtmpOut.writerAt]
  cases hcomplete : e.isWriteComplete with
  | true => exact ⟨rfl, rfl, rfl, h.chunkSize, rfl⟩
  | false =>
      rw [hcomplete] at hidle
      obtain ⟨hbufs, hcurrent⟩ := h.rested (hidle.resolve_right Bool.false_ne_true)
      exact ⟨hbufs, hcurrent, rfl, h.chunkSize, h.kept.symm⟩

/-- What is left in the queue after an event. -/
def Drains (w w' : OutWorld) (e : OutEvent) : Prop :=
  ∃ new, w'.pushed = w.pushed ++ new ∧
    w'.out.outWaitingQueue.length ≤
      w.out.outWaitingQueue.length - (if e.isWriteComplete then 10 else 0) + new.length

/-- An event that finds something being sent leaves it at that. -/
theorem Inv.busy (h : w.Inv) (hbusy : w.out.busy e = true) (hstep : w' ∈ step (some w) e) :
  w'.Inv ∧ Drains w w' e ∧ w'.calls = w.calls ∧ w'.given = w.given
  := by
  obtain ⟨out, hevent, rfl⟩ := Option.map_eq_some_iff.mp hstep
  obtain ⟨hwriter, hqueue, hsending⟩ := RtmpOut.event_of_busy hbusy hevent
  have hcalls : w.out.calls e = [] := if_pos hbusy
  have hgiven : w.out.given out e = [] := if_pos hbusy
  have hnot : e.isWriteComplete = false
    := by
    rw [RtmpOut.busy, Bool.and_eq_true, Bool.not_eq_true'] at hbusy
    exact hbusy.2
  have hidle (hnot : out.sending = false) : False
    := by
    rw [hsending] at hnot
    cases hnot
  rw [hcalls, hgiven, hnot]
  refine ⟨⟨?_, ?_, fun hs => (hidle hs).elim, fun hs => (hidle hs).elim, ?_⟩, ⟨e.pushed, rfl, ?_⟩,
    List.append_nil _, List.append_nil _⟩
  · dsimp only
    rw [hwriter, h.chunkSize]
  · dsimp only
    rw [List.append_nil, hqueue, h.order, List.append_assoc]
  · dsimp only
    rw [hwriter, ← h.kept]
    exact List.append_nil _
  · rw [hnot]
    exact Nat.le_of_eq ((congrArg List.length hqueue).trans List.length_append)

/-- An event that finds nothing being sent builds a batch. -/
theorem Inv.idle (h : w.Inv) (hidle : w.out.busy e = false) (hstep : w' ∈ step (some w) e) :
  w'.Inv ∧ Drains w w' e
  := by
  obtain ⟨out, hevent, rfl⟩ := Option.map_eq_some_iff.mp hstep
  obtain ⟨hbatch, hqueue, hsent⟩ := RtmpOut.event_of_idle hidle hevent
  obtain ⟨-, -, -, hsize, hkept⟩ := h.writerAt hidle
  obtain ⟨hkept', hsize'⟩ := buildBatch_frame hbatch
  refine ⟨⟨hsize'.trans hsize, ?_, ?_, ?_, ?_⟩, e.pushed, rfl, ?_⟩
  · dsimp only
    rw [RtmpOut.taken_append_calls w.calls w.out hidle, hqueue, h.order, List.append_assoc,
      List.append_assoc, List.take_append_drop]
  · intro hnot
    rcases hsent with hsending | ⟨hnothing, -⟩
    · rw [hsending] at hnot
      cases hnot
    · exact hnothing
  · intro hnot
    rcases hsent with hsending | ⟨-, hwriter⟩
    · rw [hsending] at hnot
      cases hnot
    · dsimp only
      rw [hwriter]
      exact ⟨rfl, rfl⟩
  · dsimp only
    rw [hkept', hkept]
  · dsimp only
    rw [hqueue, List.length_drop, List.length_append]
    split
    · omega
    · omega

/-- An event keeps the invariant, and a write completion takes ten packets from the queue. -/
theorem Inv.step (h : w.Inv) (hstep : w' ∈ step (some w) e) :
  w'.Inv ∧ Drains w w' e
  := by
  cases hbusy : w.out.busy e with
  | true =>
      obtain ⟨hinv, hdrains, -⟩ := h.busy hbusy hstep
      exact ⟨hinv, hdrains⟩
  | false => exact h.idle hbusy hstep

/-- If the headers of its batch fit, the connection gets the chunks of its calls. -/
theorem Sound.step (h : w.Inv) (hsound : w.Sound) (hfits : w.Fits e)
    (hstep : w' ∈ OutWorld.step (some w) e) :
  w'.Sound
  := by
  obtain ⟨parts, hparts, hgiven⟩ := hsound.chunks
  have hinv := (h.step hstep).1
  refine ⟨hinv.drained, hinv.order, ?_, fun packet hmem => hinv.kept ▸ hmem⟩
  cases hbusy : w.out.busy e with
  | true =>
      obtain ⟨-, -, hcalls, hsame⟩ := h.busy hbusy hstep
      rw [hcalls, hsame]
      exact ⟨parts, hparts, hgiven⟩
  | false =>
      obtain ⟨out, hevent, rfl⟩ := Option.map_eq_some_iff.mp hstep
      obtain ⟨hbatch, -, -⟩ := RtmpOut.event_of_idle hbusy hevent
      obtain ⟨hbufs, hcurrent, hstreams, hsize, -⟩ := h.writerAt hbusy
      have hfits' : (w.out.writerAt e).outCurrent +
          headerBytes 4096 (w.out.writerAt e).streams (w.out.calls e) ≤ outBufferSize
        := by
        rw [hcurrent, hstreams, Nat.zero_add]
        rw [Fits, h.chunkSize] at hfits
        exact hfits
      obtain ⟨new, hnew, hnodes⟩ := chunks_buildBatch hsize hfits' hbatch
      refine ⟨parts ++ new, List.rel_append hparts hnew, ?_⟩
      rw [List.flatten_append, ← hgiven, RtmpOut.given, hbusy, hnodes, hbufs]
      rfl

theorem sound_init : Sound {} := ⟨fun _ => rfl, rfl, ⟨[], .nil, rfl⟩, fun _ h => h⟩

end OutWorld
