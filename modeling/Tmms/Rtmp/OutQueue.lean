import Tmms.Rtmp.ChunkWriter

/-!
# The queue of packets to send

`PushOutQueue` puts packets into `out_waiting_queue_`, and `Send` builds the chunks of at most ten
of them and gives them to the connection.  Until the connection has written them all, `sending_` is
set, no more chunks are built, and the packets are kept.  A player builds the chunks of its frames
itself while `sending_` is not set, and then calls `Send`.

`OnActive` leads to the frames of a player, which are events of their own.
-/

/-- A packet in the queue. Its extension need not be a header. -/
abbrev QueuedPacket := Packet (Option RtmpMsgHeader)

/-- The packet with its header. -/
def QueuedPacket.withHeader (p : QueuedPacket) : Option RtmpPacket :=
  p.ext.map fun h => {
    type := p.type
    size := p.size
    index := p.index
    timestamp := p.timestamp
    capacity := p.capacity
    data := p.data
    ext := h }

/-- The part of an `RtmpContext` that sends. -/
structure RtmpOut where
  writer : ChunkWriter := {}
  outWaitingQueue : List QueuedPacket := []
  sending : Bool := false

namespace RtmpOut

/-- `BuildChunk` of a packet from the queue, which does nothing without a header. -/
def buildQueued (w : ChunkWriter) (p : QueuedPacket) : ChunkWriter :=
  match p.withHeader with
  | none => w
  | some packet => w.buildChunk packet 0 false

/-- The loop of `Send`. -/
def sendLoop : Nat → RtmpOut → RtmpOut
  | 0, c => c
  | n + 1, c =>
      match c.outWaitingQueue with
      | [] => c
      | packet :: queue =>
          sendLoop n { c with
            writer := buildQueued c.writer packet
            outWaitingQueue := queue }

/-- `Send`. All nodes of `sending_bufs_` are given to the connection if `sending_` was not set. -/
def send (c : RtmpOut) : RtmpOut :=
  if c.sending then c else sendLoop 10 { c with sending := true }

def ready (c : RtmpOut) : Bool := !c.sending

def pushOutQueue (c : RtmpOut) (packet : QueuedPacket) : RtmpOut :=
  { c with outWaitingQueue := c.outWaitingQueue ++ [packet] }.send

/-- `CheckAndSend`, when the connection has written everything. -/
def checkAndSend (c : RtmpOut) : RtmpOut :=
  let c := { c with
    sending := false
    writer := c.writer.checkAndSend }
  if !c.outWaitingQueue.isEmpty then c.send else c

/-- The calls of `BuildChunk` for the frames of a player, with their timestamps. -/
def buildFrames (fmt0 : Bool) : ChunkWriter → List (QueuedPacket × UInt32) → Option ChunkWriter
  | w, [] => some w
  | w, (p, timestamp) :: frames =>
      match p.withHeader with
      | none => buildFrames fmt0 w frames
      | some packet => (w.buildChunkConst packet timestamp fmt0).bind (buildFrames fmt0 · frames)

/-- `PushFrames` of a player, and `PushFrame` with one frame. -/
def pushFrames (c : RtmpOut) (frames : List (QueuedPacket × UInt32)) (fmt0 : Bool) :
    Option RtmpOut :=
  if c.ready then
    (buildFrames fmt0 c.writer frames).map fun w => { c with writer := w }.send
  else
    some c

end RtmpOut

/-- What happens: calls, and that the connection has written everything. -/
inductive OutEvent where
  | pushOutQueue (packet : QueuedPacket)
  | send
  | pushFrames (frames : List (QueuedPacket × UInt32)) (fmt0 : Bool)
  | writeComplete

namespace OutEvent

/-- Whether an event is a write completion. -/
def isWriteComplete : OutEvent → Bool
  | writeComplete => true
  | _ => false

/-- What is pushed to the queue. -/
def pushed : OutEvent → List QueuedPacket
  | pushOutQueue packet => [packet]
  | send => []
  | pushFrames _ _ => []
  | writeComplete => []

end OutEvent

namespace RtmpOut

/-- What happens to a context: there is no result when `BuildChunk` of a frame dereferences a null
pointer. -/
def event (c : RtmpOut) : OutEvent → Option RtmpOut
  | .pushOutQueue packet => some (c.pushOutQueue packet)
  | .send => some c.send
  | .pushFrames frames fmt0 => c.pushFrames frames fmt0
  | .writeComplete => some c.checkAndSend

/-! ### Sending -/

/-- The loop takes as many packets from the queue as it has turns. -/
theorem sendLoop_spec (n : Nat) (c : RtmpOut) :
  (sendLoop n c).outWaitingQueue = c.outWaitingQueue.drop n ∧ (sendLoop n c).sending = c.sending
  := by
  induction n generalizing c with
  | zero => exact ⟨rfl, rfl⟩
  | succ n ih =>
      rw [sendLoop]
      cases hqueue : c.outWaitingQueue with
      | nil =>
          refine ⟨?_, rfl⟩
          rw [hqueue, List.drop_nil]
      | cons p queue => exact ih _

/-- While nothing is sent, `Send` takes ten packets. -/
theorem send_of_ready {c : RtmpOut} (h : c.sending = false) :
  c.send.outWaitingQueue = c.outWaitingQueue.drop 10 ∧ c.send.sending = true
  := by
  rw [send, if_neg (by rw [h]; exact Bool.false_ne_true)]
  exact sendLoop_spec 10 { c with sending := true }

/-- While something is sent, `Send` does nothing. -/
theorem send_of_sending {c : RtmpOut} (h : c.sending = true) :
  c.send = c
  := by rw [send, if_pos h]

/-- The context when the connection has written everything. -/
def idle (c : RtmpOut) : RtmpOut :=
  { c with
    sending := false
    writer := c.writer.checkAndSend }

/-- A write completion calls `Send` if something waits. -/
theorem checkAndSend_cases (c : RtmpOut) :
  (c.outWaitingQueue = [] ∧ c.checkAndSend = c.idle) ∨ c.checkAndSend = c.idle.send
  := by
  rw [checkAndSend]
  cases hqueue : c.outWaitingQueue with
  | nil =>
      refine .inl ⟨rfl, ?_⟩
      rw [idle, hqueue]
      rfl
  | cons packet queue =>
      refine .inr ?_
      rw [idle, hqueue]
      rfl

end RtmpOut
