import Tmms.Live.Stream
import Tmms.Rtmp.OutQueue

/-!
# Players of RTMP

A player gets its headers and frames from the stream, builds their chunks while its context is not
sending, and sends them.  When the connection has written everything, the context sends what waits
in its queue, and only if nothing waits it is the turn of the player again.

A player ends where `BuildChunk` of a frame dereferences a null pointer.
-/

/-- A `RtmpPlayerUser` with its stream and the part of its `RtmpContext` that sends. -/
structure RtmpPlayer where
  stream : LiveStream (Option RtmpMsgHeader)
  user : PlayerUser (Option RtmpMsgHeader)
  timeCorrector : TimeCorrector := {}
  out : RtmpOut := {}

namespace RtmpPlayer

/-- The frames with the timestamps they get, one after the other. -/
def correctTimestamps : List QueuedPacket → TimeCorrector →
    List (QueuedPacket × UInt32) × TimeCorrector
  | [], c => ([], c)
  | packet :: packets, c =>
      let r := c.correctTimestamp packet
      let rest := correctTimestamps packets r.2
      ((packet, r.1) :: rest.1, rest.2)

/-- `PushFrame`, and whether the frame was pushed. -/
def pushFrame (p : RtmpPlayer) (packet : QueuedPacket) (isHeader : Bool) :
    Option (Bool × RtmpPlayer) :=
  if p.out.ready then
    let r := if isHeader then (0, p.timeCorrector) else p.timeCorrector.correctTimestamp packet
    (p.out.pushFrames [(packet, r.1)] isHeader).map fun sent =>
      (true, { p with
        timeCorrector := r.2
        out := sent })
  else
    some (false, p)

/-- `PushFrames`, and whether the frames were pushed. -/
def pushFrames (p : RtmpPlayer) (list : List QueuedPacket) : Option (Bool × RtmpPlayer) :=
  if p.out.ready then
    let r := correctTimestamps list p.timeCorrector
    (p.out.pushFrames r.1 false).map fun sent =>
      (true, { p with
        timeCorrector := r.2
        out := sent })
  else
    some (false, p)

/-- What was pushed is taken from the user. -/
def taken (take : PlayerUser (Option RtmpMsgHeader) → PlayerUser (Option RtmpMsgHeader))
    (r : Bool × RtmpPlayer) : RtmpPlayer :=
  if r.1 then { r.2 with user := take r.2.user } else r.2

/-- `PostFrames`, with the time since the player came. -/
def postFrames (p : RtmpPlayer) (elapsed : UInt64) : Option RtmpPlayer :=
  if !p.stream.ready || !p.stream.hasMedia then
    some p
  else
    let p := { p with user := p.stream.getFrames elapsed p.user }
    match p.user.metaData, p.user.audioHeader, p.user.videoHeader with
    | some packet, _, _ =>
        (p.pushFrame packet true).map (taken ({ · with metaData := none }))
    | none, some packet, _ =>
        (p.pushFrame packet true).map (taken ({ · with audioHeader := none }))
    | none, none, some packet =>
        (p.pushFrame packet true).map (taken ({ · with videoHeader := none }))
    | none, none, none =>
        if p.user.outFrames.isEmpty then
          some p
        else
          (p.pushFrames p.user.outFrames).map (taken ({ · with outFrames := [] }))

/-- Whether `PostFrames` calls `Deactive`. -/
def deactive (p : RtmpPlayer) (elapsed : UInt64) : Bool :=
  !p.stream.ready || !p.stream.hasMedia || !LiveStream.pending (p.stream.getFrames elapsed p.user)

/-- What happens to the context of a player beside its frames: a packet of the protocol is to be
sent, or the connection has written everything. -/
inductive Call where
  | pushOutQueue (packet : QueuedPacket)
  | writeComplete (elapsed : UInt64)

/-- One of these, and whether it was the turn of the player again, and whether it then called
`Deactive`. -/
def call (p : RtmpPlayer) : Call → Option (RtmpPlayer × Option Bool)
  | .pushOutQueue packet => some ({ p with out := p.out.pushOutQueue packet }, none)
  | .writeComplete elapsed =>
      let waiting := !p.out.outWaitingQueue.isEmpty
      let p := { p with out := p.out.checkAndSend }
      if waiting then
        some (p, none)
      else
        (p.postFrames elapsed).map fun q => (q, some (p.deactive elapsed))

/-- A player that comes to a stream, with the latency of its application. -/
def start (stream : LiveStream (Option RtmpMsgHeader)) (latency : Int) : RtmpPlayer where
  stream := stream
  user := { contentLatency := latency }

end RtmpPlayer

/-! ### Sending -/

namespace RtmpOut

theorem sending_send (c : RtmpOut) :
  c.send.sending = true
  := by
  cases h : c.sending with
  | true => rw [send_of_sending h, h]
  | false => exact (send_of_ready h).2

/-- Frames are pushed only to be sent. -/
theorem sending_pushFrames {c : RtmpOut} {frames : List (QueuedPacket × UInt32)} {fmt0 : Bool}
    {c' : RtmpOut} (h : c.pushFrames frames fmt0 = some c') :
  c'.sending = true
  := by
  rw [pushFrames] at h
  split at h
  · obtain ⟨built, -, rfl⟩ := Option.map_eq_some_iff.mp h
    apply sending_send
  next hready =>
    obtain rfl := Option.some.inj h
    rw [ready, Bool.not_eq_true, Bool.not_eq_false'] at hready
    exact hready

/-- What waits is sent at a write completion. -/
theorem sending_checkAndSend {c : RtmpOut} (h : c.outWaitingQueue.isEmpty = false) :
  c.checkAndSend.sending = true
  := by
  rw [checkAndSend, h, Bool.not_false, if_pos rfl]
  apply sending_send

end RtmpOut

namespace RtmpPlayer

variable {p : RtmpPlayer}

theorem sending_pushFrame {packet : QueuedPacket} {isHeader : Bool} {r : Bool × RtmpPlayer}
    (h : p.pushFrame packet isHeader = some r) :
  r.2.out.sending = true ∧ r.2.stream = p.stream
  := by
  rw [pushFrame] at h
  split at h
  · obtain ⟨sent, hsent, rfl⟩ := Option.map_eq_some_iff.mp h
    exact ⟨RtmpOut.sending_pushFrames hsent, rfl⟩
  next hready =>
    obtain rfl := Option.some.inj h
    rw [RtmpOut.ready, Bool.not_eq_true, Bool.not_eq_false'] at hready
    exact ⟨hready, rfl⟩

theorem sending_pushFrames {list : List QueuedPacket} {r : Bool × RtmpPlayer}
    (h : p.pushFrames list = some r) :
  r.2.out.sending = true ∧ r.2.stream = p.stream
  := by
  rw [pushFrames] at h
  split at h
  · obtain ⟨sent, hsent, rfl⟩ := Option.map_eq_some_iff.mp h
    exact ⟨RtmpOut.sending_pushFrames hsent, rfl⟩
  next hready =>
    obtain rfl := Option.some.inj h
    rw [RtmpOut.ready, Bool.not_eq_true, Bool.not_eq_false'] at hready
    exact ⟨hready, rfl⟩

/-- Taking what was pushed from the user changes nothing else. -/
theorem sending_taken {pushed : Option (Bool × RtmpPlayer)}
    {take : PlayerUser (Option RtmpMsgHeader) → PlayerUser (Option RtmpMsgHeader)} {q : RtmpPlayer}
    {stream : LiveStream (Option RtmpMsgHeader)}
    (hpushed : ∀ r, pushed = some r → r.2.out.sending = true ∧ r.2.stream = stream)
    (h : pushed.map (taken take) = some q) :
  q.out.sending = true ∧ q.stream = stream
  := by
  obtain ⟨r, hr, rfl⟩ := Option.map_eq_some_iff.mp h
  rw [taken]
  split
  · exact hpushed r hr
  · exact hpushed r hr

/-- A player that posted frames without `Deactive` is sending. -/
theorem sending_postFrames {q : RtmpPlayer} {elapsed : UInt64}
    (h : p.postFrames elapsed = some q) :
  q.stream = p.stream ∧ (p.deactive elapsed = false → q.out.sending = true)
  := by
  rw [postFrames] at h
  rw [deactive]
  split at h
  next hnot =>
    obtain rfl := Option.some.inj h
    rw [hnot]
    refine ⟨rfl, ?_⟩
    rintro ⟨⟩
  next hready =>
    rw [Bool.not_eq_true] at hready
    rw [hready, Bool.false_or, Bool.not_eq_false', LiveStream.pending]
    dsimp only at h
    split at h
    · obtain ⟨hsending, hstream⟩ := sending_taken (fun r => sending_pushFrame) h
      exact ⟨hstream, fun _ => hsending⟩
    · obtain ⟨hsending, hstream⟩ := sending_taken (fun r => sending_pushFrame) h
      exact ⟨hstream, fun _ => hsending⟩
    · obtain ⟨hsending, hstream⟩ := sending_taken (fun r => sending_pushFrame) h
      exact ⟨hstream, fun _ => hsending⟩
    next hmeta haudio hvideo =>
      split at h
      next hempty =>
        obtain rfl := Option.some.inj h
        rw [hmeta, haudio, hvideo, hempty]
        refine ⟨rfl, ?_⟩
        rintro ⟨⟩
      next =>
        obtain ⟨hsending, hstream⟩ := sending_taken (fun r => sending_pushFrames) h
        exact ⟨hstream, fun _ => hsending⟩

end RtmpPlayer
