import Tmms.Live.FlvOutput
import Tmms.Live.RtmpPlayer
import Tmms.Rtmp.Link

/-!
# What a player of RTMP receives

A player comes to an empty stream when the two contexts have talked about the size of chunks,
without a frame.  From then on its context sends the headers and frames that the stream hands out,
and packets of the protocol between them, all of which have data.  `RtmpViewer` is a player with the
other end of its connection.  As for `RtmpLink`, both contexts are behind their handshake, and a run
ends where `BuildChunk` dereferences null.

The headers of ten frames and ten packets of the queue fit in `out_buffer_` if none of them has more
than 2^18 bytes.
-/

open ChunkWriter Runs

/-! ### Packets that fit -/

/-- A packet with data can be written in at most 64 chunks, and says nothing about the size of
chunks. -/
structure LightMessage (data : List UInt8) (h : RtmpMsgHeader) : Prop where
  csId_ge : 2 ≤ h.csId.toNat
  csId_le : h.csId.toNat ≤ 65599
  length_eq : data.length = h.msgLen.toNat
  length_pos : 0 < data.length
  length_le : data.length ≤ 2 ^ 18
  type_ne : h.msgType ≠ kRtmpMsgTypeChunkSize

/-- A packet has no header, or is light. -/
def Light (p : QueuedPacket) : Prop := ∀ h ∈ p.ext, LightMessage p.data h

/-- A stream changes nothing of a packet that is written but its timestamp. -/
theorem light_stamp {p : QueuedPacket} (hp : Light p) (s : LiveStream (Option RtmpMsgHeader)) :
  Light (s.stamp p)
  := by
  rw [LiveStream.stamp]
  dsimp only
  split
  · exact hp
  · exact hp

/-- A call for a light packet, with a timestamp that is not extended. -/
structure LightCall (c : BuildCall) : Prop where
  light : Light c.packet
  timestamp_lt : c.timestamp < extendedMark

theorem LightCall.sendable {c : BuildCall} (hc : LightCall c) :
  ∀ h ∈ c.packet.ext, c.Sendable h
  := by
  intro h hext
  have hlight := hc.light h hext
  have hle := hlight.length_le
  exact ⟨hlight.csId_ge, hlight.csId_le, hlight.length_eq, hlight.length_pos, by omega,
    hc.timestamp_lt⟩

namespace ChunkWriter

theorem length_basicHeader_le (fmt : RtmpFmt) (cs : UInt32) :
  (ChunkWriter.basicHeader fmt cs).length ≤ 3
  := by
  rw [ChunkWriter.basicHeader]
  split
  · exact Nat.le_add_left 1 2
  · split
    · exact Nat.le_add_left 2 1
    · exact Nat.le_refl 3

/-- What the chunks of a message carry is not extended if its timestamp is not. -/
theorem carried_lt {st : OutStream} {h : RtmpMsgHeader} {c : BuildCall} {delta : Bool}
    (hdelta : deltaFor st h c = some delta) (hts : c.timestamp < extendedMark) :
  carried delta st c.timestamp < extendedMark
  := by
  cases delta with
  | false => exact hts
  | true =>
      have huse : useDelta st h c.timestamp c.fmt0 = true
        := by
        rw [deltaFor] at hdelta
        split at hdelta
        · cases useDeltaConst_eq_false hdelta
        · exact Option.some.inj hdelta
      have hle := (useDelta_true huse).1
      have hsub := UInt32.toNat_sub_of_le _ _ hle
      rw [carried, if_pos rfl]
      rw [UInt32.lt_iff_toNat_lt] at hts ⊢
      omega

/-- The headers of a light packet. -/
theorem messageHeaders_le {st : OutStream} {c : BuildCall} (hc : LightCall c) {h : RtmpMsgHeader}
    (hext : c.packet.ext = some h) {delta : Bool} (hdelta : deltaFor st h c = some delta) :
  messageHeaders 4096 st h c.timestamp delta ≤ 203
  := by
  have hlight := hc.light h hext
  have hlt := carried_lt hdelta hc.timestamp_lt
  have hext' : extendedField (carried delta st c.timestamp) = []
    := if_neg (UInt32.not_le.mpr hlt)
  have hmore : moreChunks 4096 h ≤ 63
    := by
    have hle := hlight.length_le
    rw [hlight.length_eq] at hle
    rw [moreChunks]
    omega
  have hbasic := length_basicHeader_le (chooseFmt delta st h c.timestamp) h.csId
  have hbasic' := length_basicHeader_le .fmt3 h.csId
  have hmessage : (messageHeader (chooseFmt delta st h c.timestamp) h
      (carried delta st c.timestamp)).length ≤ 11
    := by
    rw [length_messageHeader]
    cases chooseFmt delta st h c.timestamp <;> decide
  rw [messageHeaders, firstHeader, nextHeader, hext', List.append_nil, List.append_nil,
    List.length_append]
  have hnext : moreChunks 4096 h * (ChunkWriter.basicHeader .fmt3 h.csId).length ≤ 63 * 3
    := Nat.mul_le_mul hmore hbasic'
  omega

/-- The headers of a batch of light packets. -/
theorem headerBytes_le {batch : List BuildCall} (hbatch : ∀ c ∈ batch, LightCall c)
    (streams : UInt32 → OutStream) :
  headerBytes 4096 streams batch ≤ 203 * batch.length
  := by
  induction batch generalizing streams with
  | nil => exact Nat.le_refl 0
  | cons c batch ih =>
      obtain ⟨hc, hbatch⟩ := List.forall_mem_cons.mp hbatch
      rw [headerBytes, List.length_cons]
      split
      next =>
        have hrest := ih hbatch streams
        omega
      next h hext =>
        dsimp only
        split
        next => apply Nat.zero_le
        next delta hdelta =>
          have hfirst := messageHeaders_le hc hext hdelta
          have hrest := ih hbatch (Function.update streams h.csId
            (nextStream (chooseFmt delta (streams h.csId) h c.timestamp) (streams h.csId) h
              (carried delta (streams h.csId) c.timestamp)))
          omega

end ChunkWriter

/-- The messages of light packets do not change the size of chunks. -/
theorem light_messages {batch : List BuildCall} (hbatch : ∀ c ∈ batch, LightCall c) (size : Int) :
  ChunkReader.Agrees size size (batch.filterMap BuildCall.message) ∧
    (batch.filterMap BuildCall.message).foldl ChunkReader.sizeBehind size = size
  := by
  induction batch with
  | nil => exact ⟨trivial, rfl⟩
  | cons c batch ih =>
      obtain ⟨hc, hbatch⟩ := List.forall_mem_cons.mp hbatch
      rw [List.filterMap_cons]
      cases hmessage : c.message with
      | none => exact ih hbatch
      | some m =>
          obtain ⟨h, hext, rfl⟩ := Option.map_eq_some_iff.mp hmessage
          have hbehind : ChunkReader.sizeBehind size ⟨h.csId, h.msgType, h.msgSid, c.timestamp,
              c.packet.data⟩ = size
            := if_neg fun hboth => (hc.light h hext).type_ne hboth.1
          dsimp only
          rw [ChunkReader.Agrees, List.foldl_cons, hbehind]
          exact ⟨⟨Or.inl rfl, (ih hbatch).1⟩, (ih hbatch).2⟩

/-! ### Posting frames -/

namespace RtmpPlayer

variable {p q : RtmpPlayer}

/-- What `GetFrames` hands out while frames are posted. -/
def handedBy (p : RtmpPlayer) (elapsed : UInt64) : List (QueuedPacket × Bool) :=
  if p.stream.ready && p.stream.hasMedia && !LiveStream.pending p.user then
    (p.stream.getFrames elapsed p.user).atHand
  else
    []

/-- What a player has at hand is light, and at most ten frames. -/
structure Laden (user : PlayerUser (Option RtmpMsgHeader)) : Prop where
  holds : user.Holds Light
  few : user.outFrames.length ≤ 10

/-- What posting frames does to a player: it takes what is handed out, and pushes a header or all
frames at hand if nothing is being sent. -/
inductive Posted (p : RtmpPlayer) (handed : List (QueuedPacket × Bool)) : RtmpPlayer → Prop where
  | kept (user : PlayerUser (Option RtmpMsgHeader)) (laden : Laden user)
      (atHand : p.user.atHand ++ handed = user.atHand) :
      Posted p handed { p with user := user }
  | sent (items : List (QueuedPacket × Bool)) (user : PlayerUser (Option RtmpMsgHeader))
      (out : RtmpOut) (fmt0 : Bool) (laden : Laden user)
      (light : ∀ item ∈ items, Light item.1 ∧ item.2 = fmt0) (few : items.length ≤ 10)
      (atHand : p.user.atHand ++ handed = items ++ user.atHand) (idle : p.out.sending = false)
      (event : p.out.event (.pushFrames (stamps p.timeCorrector items).1 fmt0) = some out) :
      Posted p handed { p with
        user := user
        timeCorrector := (stamps p.timeCorrector items).2
        out := out }

/-- The timestamps of frames are those of a player that sends no headers. -/
theorem correctTimestamps_eq (list : List QueuedPacket) (c : TimeCorrector) :
  correctTimestamps list c = stamps c (list.map (·, false))
  := by
  induction list generalizing c with
  | nil => rfl
  | cons packet list ih =>
      rw [correctTimestamps, List.map_cons, stamps, ih]
      rfl

/-- A header at hand is pushed, or kept while something is being sent. -/
theorem posted_header {packet : QueuedPacket} (hpacket : Light packet)
    {user : PlayerUser (Option RtmpMsgHeader)} {handed : List (QueuedPacket × Bool)}
    {take : PlayerUser (Option RtmpMsgHeader) → PlayerUser (Option RtmpMsgHeader)}
    (htake : Laden (take user)) (hhanded : p.user.atHand ++ handed = user.atHand)
    (hatHand : user.atHand = (packet, true) :: (take user).atHand) (huser : Laden user)
    (hq : (RtmpPlayer.pushFrame { p with user := user } packet true).map (taken take) = some q) :
  Posted p handed q
  := by
  rw [pushFrame] at hq
  split at hq
  next hready =>
    obtain ⟨r, hr, rfl⟩ := Option.map_eq_some_iff.mp hq
    obtain ⟨sent, hsent, rfl⟩ := Option.map_eq_some_iff.mp hr
    have hidle : p.out.sending = false := (Bool.not_eq_true' _).mp hready
    have hevent : p.out.event (.pushFrames (stamps p.timeCorrector [(packet, true)]).1 true) =
        some sent
      := hsent
    have hlight : ∀ item ∈ [(packet, true)], Light item.1 ∧ item.2 = true
      := List.forall_mem_singleton.mpr ⟨hpacket, rfl⟩
    exact .sent [(packet, true)] (take user) sent true htake hlight (Nat.le_add_left 1 9)
      (hhanded.trans hatHand) hidle hevent
  next =>
    obtain rfl := Option.some.inj hq
    exact .kept user huser hhanded

/-- The frames at hand are pushed, or kept while something is being sent. -/
theorem posted_frames {user : PlayerUser (Option RtmpMsgHeader)}
    {handed : List (QueuedPacket × Bool)} (huser : Laden user)
    (hhanded : p.user.atHand ++ handed = user.atHand)
    (hatHand : user.atHand = user.outFrames.map (·, false) ++
      PlayerUser.atHand { user with outFrames := [] })
    (hq : (RtmpPlayer.pushFrames { p with user := user } user.outFrames).map
      (taken ({ · with outFrames := [] })) = some q) :
  Posted p handed q
  := by
  rw [pushFrames] at hq
  split at hq
  next hready =>
    obtain ⟨r, hr, rfl⟩ := Option.map_eq_some_iff.mp hq
    obtain ⟨sent, hsent, rfl⟩ := Option.map_eq_some_iff.mp hr
    have hidle : p.out.sending = false := (Bool.not_eq_true' _).mp hready
    dsimp only at hsent
    rw [correctTimestamps_eq] at hsent
    have hevent : p.out.event
        (.pushFrames (stamps p.timeCorrector (user.outFrames.map (·, false))).1 false) = some sent
      := hsent
    have hlight : ∀ item ∈ user.outFrames.map (·, false), Light item.1 ∧ item.2 = false
      := List.forall_mem_map.mpr fun packet hpacket => ⟨huser.holds.outFrames packet hpacket, rfl⟩
    have hladen : Laden { user with outFrames := [] }
      := by
      refine ⟨{ huser.holds with outFrames := ?_ }, Nat.zero_le _⟩
      intro packet hmem
      cases hmem
    have hfew : (user.outFrames.map (·, false)).length ≤ 10
      := by
      rw [List.length_map]
      exact huser.few
    have hposted := Posted.sent (user.outFrames.map (·, false)) { user with outFrames := [] } sent
      false hladen hlight hfew (hhanded.trans hatHand) hidle hevent
    dsimp only [taken]
    rw [if_pos rfl, correctTimestamps_eq]
    exact hposted
  next =>
    obtain rfl := Option.some.inj hq
    exact .kept user huser hhanded

/-- Posting frames takes what is handed out, and sends some of what is at hand. -/
theorem posted_postFrames (hstream : p.stream.Holds Light) (hu : Laden p.user) {elapsed : UInt64}
    (hq : p.postFrames elapsed = some q) :
  Posted p (p.handedBy elapsed) q
  := by
  rw [postFrames] at hq
  rw [handedBy]
  split at hq
  next hnot =>
    obtain rfl := Option.some.inj hq
    rw [if_neg]
    · exact .kept p.user hu (List.append_nil _)
    · intro hready
      rw [Bool.and_eq_true, Bool.and_eq_true] at hready
      rw [hready.1.1, hready.1.2] at hnot
      exact absurd hnot Bool.false_ne_true
  next hready =>
    have hgot : Laden (p.stream.getFrames elapsed p.user)
      := ⟨hstream.getFrames hu.holds elapsed, p.stream.length_getFrames elapsed hu.few⟩
    have hhanded : p.user.atHand ++
        (if p.stream.ready && p.stream.hasMedia && !LiveStream.pending p.user then
          (p.stream.getFrames elapsed p.user).atHand
        else
          []) = (p.stream.getFrames elapsed p.user).atHand
      := by
      have hopen : (p.stream.ready && p.stream.hasMedia) = true
        := by
        rw [Bool.not_eq_true, Bool.or_eq_false_iff, Bool.not_eq_false', Bool.not_eq_false']
          at hready
        rw [hready.1, hready.2]
        rfl
      rw [hopen]
      cases hpending : LiveStream.pending p.user with
      | false =>
          rw [PlayerUser.pending_eq_false_iff.mp hpending]
          rfl
      | true =>
          rw [LiveStream.getFrames_of_pending elapsed hpending]
          apply List.append_nil
    revert hgot hhanded hq
    generalize p.stream.getFrames elapsed p.user = user
    intro hq hgot hhanded
    dsimp only at hq
    split at hq
    next packet _ _ hmeta =>
      apply posted_header (hgot.holds.metaData _ hmeta) _ hhanded _ hgot hq
      · refine ⟨{ hgot.holds with metaData := ?_ }, hgot.few⟩
        rintro _ ⟨⟩
      · rw [PlayerUser.atHand, PlayerUser.atHand, hmeta]
        rfl
    next packet _ hmeta haudio =>
      apply posted_header (hgot.holds.audioHeader _ haudio) _ hhanded _ hgot hq
      · refine ⟨{ hgot.holds with audioHeader := ?_ }, hgot.few⟩
        rintro _ ⟨⟩
      · rw [PlayerUser.atHand, PlayerUser.atHand, hmeta, haudio]
        rfl
    next packet hmeta haudio hvideo =>
      apply posted_header (hgot.holds.videoHeader _ hvideo) _ hhanded _ hgot hq
      · refine ⟨{ hgot.holds with videoHeader := ?_ }, hgot.few⟩
        rintro _ ⟨⟩
      · rw [PlayerUser.atHand, PlayerUser.atHand, hmeta, haudio, hvideo]
        rfl
    next hmeta haudio hvideo =>
      split at hq
      next =>
        obtain rfl := Option.some.inj hq
        exact .kept user hgot hhanded
      next =>
        apply posted_frames hgot hhanded _ hq
        rw [PlayerUser.atHand, PlayerUser.atHand, hmeta, haudio, hvideo]
        exact (List.append_nil _).symm

end RtmpPlayer

/-! ### Links with light packets -/

namespace RtmpLink

variable {l : RtmpLink}

/-- The frames that were built, with their timestamps. -/
def shown (calls : List BuildCall) : List (QueuedPacket × UInt32) :=
  (calls.filter BuildCall.isConst).map fun c => (c.packet, c.timestamp)

theorem shown_append (calls calls' : List BuildCall) :
  shown (calls ++ calls') = shown calls ++ shown calls'
  := by rw [shown, List.filter_append, List.map_append, shown, shown]

theorem shown_frameCalls (fmt0 : Bool) (frames : List (QueuedPacket × UInt32)) :
  shown (RtmpOut.frameCalls fmt0 frames) = frames
  := by
  have hself : (RtmpOut.frameCalls fmt0 frames).filter BuildCall.isConst =
      RtmpOut.frameCalls fmt0 frames
    := by
    apply List.filter_eq_self.mpr
    intro c hc
    obtain ⟨frame, -, rfl⟩ := List.mem_map.mp hc
    rfl
  rw [shown, hself, RtmpOut.frameCalls, List.map_map]
  apply List.map_id

theorem shown_queueCalls (queue : List QueuedPacket) :
  shown (RtmpOut.queueCalls queue) = []
  := by
  have hnone : (RtmpOut.queueCalls queue).filter BuildCall.isConst = []
    := by
    apply List.filter_eq_nil_iff.mpr
    intro c hc
    obtain ⟨packet, -, rfl⟩ := List.mem_map.mp hc
    exact Bool.false_ne_true
  rw [shown, hnone]
  rfl

/-- The two sides agree about chunks, and what waits is light. -/
structure Settled (l : RtmpLink) : Prop where
  agreed : l.messages.foldl ChunkReader.sizeBehind 128 = 4096
  queue : ∀ packet ∈ l.out.outWaitingQueue, Light packet

/-- What an event brings is light. -/
structure LightEvent (e : OutEvent) : Prop where
  pushed : ∀ packet ∈ e.pushed, Light packet
  frames : ∀ c ∈ e.frameCalls, LightCall c
  few : e.frameCalls.length ≤ 10

theorem LightEvent.calls (h : l.Settled) {e : OutEvent} (he : LightEvent e) :
  (∀ c ∈ l.out.calls e, LightCall c) ∧ (l.out.calls e).length ≤ 20
  := by
  rw [RtmpOut.calls]
  split
  · refine ⟨?_, Nat.zero_le _⟩
    intro c hc
    cases hc
  · constructor
    · intro c hc
      rcases List.mem_append.mp hc with hframe | hqueue
      · exact he.frames c hframe
      · obtain ⟨packet, hpacket, rfl⟩ := List.mem_map.mp hqueue
        have hlight : Light packet
          := by
          rcases List.mem_append.mp (List.mem_of_mem_take hpacket) with hold | hnew
          · exact h.queue packet hold
          · exact he.pushed packet hnew
        have hzero : (0 : UInt32) < extendedMark := by decide
        exact ⟨hlight, hzero⟩
    · have hfew := he.few
      rw [List.length_append, RtmpOut.queueCalls, List.length_map, List.length_take]
      omega

theorem LightEvent.ready (h : l.Inv) (hsettled : l.Settled) {e : OutEvent} (he : LightEvent e) :
  l.Ready (.sender e)
  := by
  obtain ⟨hlight, hfew⟩ := he.calls hsettled
  have hbytes := headerBytes_le hlight l.out.writer.streams
  refine ⟨fun c hc => (hlight c hc).sendable, ?_, ?_⟩
  · rw [h.chunkSize]
    change headerBytes 4096 _ _ ≤ _
    rw [outBufferSize]
    omega
  · rw [h.chunkSize, hsettled.agreed]
    exact (light_messages hlight 4096).1

/-- The link after a light event. -/
theorem exists_sender (h : l.Inv) (hsettled : l.Settled) {e : OutEvent} (he : LightEvent e)
    {out : RtmpOut} (hevent : l.out.event e = some out) :
  ∃ l' : RtmpLink, l'.Inv ∧ l'.Settled ∧ l'.out = out ∧ l'.pushed = l.pushed ++ e.pushed ∧
    l'.flight = l.flight ++ (l.out.given out e).flatten ∧ l'.receiver = l.receiver ∧
    (l.out.busy e = false → shown l'.calls = shown l.calls ++ shown e.frameCalls) ∧
    (l.out.busy e = true → shown l'.calls = shown l.calls)
  := by
  obtain ⟨hlight, -⟩ := he.calls hsettled
  refine ⟨_, h.step (he.ready h hsettled) (Option.map_eq_some_iff.mpr ⟨out, hevent, rfl⟩), ?_, rfl,
    rfl, rfl, rfl, ?_, ?_⟩
  · constructor
    · rw [messages]
      dsimp only
      rw [List.filterMap_append, List.foldl_append]
      change List.foldl _ (l.messages.foldl _ _) _ = _
      rw [hsettled.agreed]
      exact (light_messages hlight 4096).2
    · intro packet hpacket
      have hqueue : packet ∈ l.out.outWaitingQueue ++ e.pushed
        := by
        cases hbusy : l.out.busy e with
        | true =>
            rw [(RtmpOut.event_of_busy hbusy hevent).2.1] at hpacket
            exact hpacket
        | false =>
            rw [(RtmpOut.event_of_idle hbusy hevent).2.1] at hpacket
            exact List.mem_of_mem_drop hpacket
      rcases List.mem_append.mp hqueue with hold | hnew
      · exact hsettled.queue packet hold
      · exact he.pushed packet hnew
  · intro hidle
    dsimp only
    rw [shown_append, RtmpOut.calls, hidle, if_neg Bool.false_ne_true, shown_append,
      shown_queueCalls, List.append_nil]
  · intro hbusy
    dsimp only
    rw [RtmpOut.calls, hbusy, if_pos rfl, List.append_nil]

end RtmpLink

/-! ### At the other end -/

/-- A player, what was pushed to the queue of its context, what `GetFrames` has handed out, and the
other end of its connection. -/
structure RtmpViewer where
  player : RtmpPlayer
  pushed : List QueuedPacket := []
  handed : List (QueuedPacket × Bool) := []
  flight : List UInt8 := []
  receiver : RtmpReceiver := {}

namespace RtmpViewer

/-- A packet comes to the stream, the player posts frames, something else happens to its context, or
at most `n` bytes are read. -/
inductive Event where
  | addPacket (packet : QueuedPacket)
  | postFrames (elapsed : UInt64)
  | call (c : RtmpPlayer.Call)
  | read (n : Nat)

/-- The packet that is pushed to the queue. -/
def pushedBy : RtmpPlayer.Call → List QueuedPacket
  | .pushOutQueue packet => [packet]
  | .writeComplete _ => []

/-- What the stream hands out at a call, if it is the turn of the player again. -/
def handedAt (p : RtmpPlayer) (turn : Option Bool) : RtmpPlayer.Call → List (QueuedPacket × Bool)
  | .pushOutQueue _ => []
  | .writeComplete elapsed => if turn.isSome then p.handedBy elapsed else []

/-- Whether everything has been written. -/
def completes : RtmpPlayer.Call → Bool
  | .pushOutQueue _ => false
  | .writeComplete _ => true

/-- The bytes that a player gives to its connection: what is built while something is being sent is
given when it has been written. -/
def given (p q : RtmpPlayer) (complete : Bool) : List UInt8 :=
  (if p.out.sending && !complete then [] else q.out.writer.sendingBufs).flatten

/-- One event. -/
def step : Option RtmpViewer → Event → Option RtmpViewer
  | none, _ => none
  | some v, .addPacket packet => some { v with
      player := { v.player with stream := v.player.stream.addPacket packet } }
  | some v, .postFrames elapsed => (v.player.postFrames elapsed).map fun player => { v with
      player := player
      handed := v.handed ++ v.player.handedBy elapsed
      flight := v.flight ++ given v.player player false }
  | some v, .call c => (v.player.call c).map fun result => { v with
      player := result.1
      pushed := v.pushed ++ pushedBy c
      handed := v.handed ++ handedAt v.player result.2 c
      flight := v.flight ++ given v.player result.1 (completes c) }
  | some v, .read n => some { v with
      flight := v.flight.drop n
      receiver := v.receiver.onRead (v.flight.take n) }

/-- A player that comes to an empty stream on a link. -/
def start (l : RtmpLink) (latency : Int) : RtmpViewer where
  player := { RtmpPlayer.start {} latency with out := l.out }
  pushed := l.pushed
  flight := l.flight
  receiver := l.receiver

/-- The timestamps of what was handed out are not extended. -/
def Timely (v : RtmpViewer) : Prop := ∀ frame ∈ (stamps {} v.handed).1, frame.2 < extendedMark

/-- What is received are the messages of some calls, in their order and up to what is on its way:
those for the queue are about what was pushed, and the others about what was handed out, each in its
order and but for what still waits. -/
def Receives (v : RtmpViewer) : Prop :=
  ∃ calls sent, v.handed = sent ++ v.player.user.atHand ∧
    RtmpLink.shown calls = (stamps {} sent).1 ∧
    v.pushed = BuildCall.taken calls ++ v.player.out.outWaitingQueue ∧
    v.receiver.delivered.map Packet.message <+: calls.filterMap BuildCall.message ∧
    (v.flight = [] →
      v.receiver.delivered.map Packet.message = calls.filterMap BuildCall.message ∧
        v.receiver.unread = [])

/-- A viewer on a link. -/
structure Linked (v : RtmpViewer) (l : RtmpLink) (sent : List (QueuedPacket × Bool)) : Prop where
  inv : l.Inv
  settled : l.Settled
  out : l.out = v.player.out
  pushed : l.pushed = v.pushed
  flight : l.flight = v.flight
  receiver : l.receiver = v.receiver
  shown : RtmpLink.shown l.calls = (stamps {} sent).1
  corrector : v.player.timeCorrector = (stamps {} sent).2
  handed : v.handed = sent ++ v.player.user.atHand
  stream : v.player.stream.Holds Light
  laden : RtmpPlayer.Laden v.player.user

variable {v v' : RtmpViewer} {l : RtmpLink} {sent : List (QueuedPacket × Bool)}

theorem Linked.receives (h : v.Linked l sent) :
  v.Receives
  := by
  have hdelivers := h.inv.delivers
  refine ⟨l.calls, sent, h.handed, h.shown, ?_, ?_, ?_⟩
  · rw [← h.pushed, ← h.out]
    exact hdelivers.queued
  · rw [← h.receiver]
    exact hdelivers.inOrder
  · rw [← h.receiver, ← h.flight]
    exact hdelivers.complete

/-- What was handed out earlier was timely too. -/
theorem Timely.of_append {items : List (QueuedPacket × Bool)} (h : v'.Timely)
    (hhanded : v'.handed = v.handed ++ items) :
  v.Timely
  := by
  intro frame hframe
  apply h frame
  rw [hhanded, stamps_append]
  exact List.mem_append_left _ hframe

/-- What is stamped is what is sent. -/
theorem map_fst_stamps (c : TimeCorrector) (items : List (QueuedPacket × Bool)) :
  (stamps c items).1.map Prod.fst = items.map Prod.fst
  := by
  induction items generalizing c with
  | nil => rfl
  | cons item items ih =>
      rw [stamps, List.map_cons, List.map_cons, ih]

/-- The frames of a player that is timely. -/
theorem lightEvent_frames {c : TimeCorrector} {items : List (QueuedPacket × Bool)} {fmt0 : Bool}
    (hlight : ∀ item ∈ items, Light item.1 ∧ item.2 = fmt0) (hfew : items.length ≤ 10)
    (htimely : ∀ frame ∈ (stamps c items).1, frame.2 < extendedMark) :
  RtmpLink.LightEvent (.pushFrames (stamps c items).1 fmt0)
  := by
  have hpackets := map_fst_stamps c items
  refine ⟨?_, ?_, ?_⟩
  · intro packet hpacket
    cases hpacket
  · intro call hcall
    obtain ⟨frame, hframe, rfl⟩ := List.mem_map.mp hcall
    have hmem : frame.1 ∈ items.map Prod.fst
      := by
      rw [← hpackets]
      exact List.mem_map_of_mem hframe
    obtain ⟨item, hitem, heq⟩ := List.mem_map.mp hmem
    have hpacket : Light frame.1
      := by
      rw [← heq]
      exact (hlight item hitem).1
    exact ⟨hpacket, htimely frame hframe⟩
  · have hlen := congrArg List.length hpackets
    rw [List.length_map, List.length_map] at hlen
    rw [OutEvent.frameCalls, RtmpOut.frameCalls, List.length_map, hlen]
    exact hfew

/-- Posting frames sends what is handed out on the link. -/
theorem Linked.posted (h : v.Linked l sent) {handed : List (QueuedPacket × Bool)} {q : RtmpPlayer}
    (hposted : v.player.Posted handed q)
    (htimely : ∀ frame ∈ (stamps {} (v.handed ++ handed)).1, frame.2 < extendedMark) :
  ∃ l' sent', Linked { v with
    player := q
    handed := v.handed ++ handed
    flight := v.flight ++ given v.player q false } l' sent'
  := by
  cases hposted with
  | kept user hladen hatHand =>
      have hgiven : given v.player { v.player with user := user } false = []
        := by
        rw [given]
        split
        · rfl
        next hsending =>
          rw [Bool.and_eq_true, not_and, Bool.not_eq_true'] at hsending
          have hrest := h.inv.rested
          rw [h.out] at hrest
          have hidle : v.player.out.sending = false
            := by
            cases hout : v.player.out.sending with
            | false => rfl
            | true => exact absurd rfl (hsending hout)
          rw [(hrest hidle).1]
          rfl
      rw [hgiven, List.append_nil]
      refine ⟨l, sent, { h with handed := ?_, laden := hladen }⟩
      dsimp only
      rw [h.handed, List.append_assoc, hatHand]
  | sent items user out fmt0 hladen hlight hfew hatHand hidle hevent =>
      have hhanded : v.handed ++ handed = sent ++ items ++ user.atHand
        := by rw [h.handed, List.append_assoc, hatHand, List.append_assoc]
      have hstamps : (stamps {} (sent ++ items)).1 =
          (stamps {} sent).1 ++ (stamps v.player.timeCorrector items).1
        := by rw [stamps_append, h.corrector]
      have hframes : ∀ frame ∈ (stamps v.player.timeCorrector items).1, frame.2 < extendedMark
        := by
        intro frame hframe
        apply htimely
        rw [hhanded, stamps_append, hstamps]
        exact List.mem_append_left _ (List.mem_append_right _ hframe)
      have hbusy : v.player.out.busy (.pushFrames (stamps v.player.timeCorrector items).1 fmt0) =
          false
        := by
        rw [RtmpOut.busy, hidle]
        rfl
      have hgiven : given v.player { v.player with
          user := user
          timeCorrector := (stamps v.player.timeCorrector items).2
          out := out } false =
            (v.player.out.given out
              (.pushFrames (stamps v.player.timeCorrector items).1 fmt0)).flatten
        := by
        rw [given, RtmpOut.given, hbusy, hidle]
        rfl
      rw [← h.out] at hevent hgiven hbusy
      obtain ⟨l', hinv, hsettled, hout, hpushed, hflight, hreceiver, hshown, -⟩ :=
        RtmpLink.exists_sender h.inv h.settled (lightEvent_frames hlight hfew hframes) hevent
      refine ⟨l', sent ++ items, hinv, hsettled, hout, ?_, ?_, ?_, ?_, ?_, hhanded, h.stream, hladen⟩
      · rw [hpushed, h.pushed]
        apply List.append_nil
      · rw [hflight, hgiven, h.flight]
      · rw [hreceiver, h.receiver]
      · rw [hshown hbusy, h.shown, hstamps]
        exact congrArg (_ ++ ·) (RtmpLink.shown_frameCalls _ _)
      · dsimp only
        rw [stamps_append, h.corrector]

/-- What happens to the context beside the frames happens on the link. -/
theorem Linked.sender (h : v.Linked l sent) {e : OutEvent} (he : RtmpLink.LightEvent e)
    (hnone : e.frameCalls = []) {out : RtmpOut} (hevent : v.player.out.event e = some out) :
  ∃ l', Linked { v with
    player := { v.player with out := out }
    pushed := v.pushed ++ e.pushed
    flight := v.flight ++ (v.player.out.given out e).flatten } l' sent
  := by
  rw [← h.out] at hevent
  obtain ⟨l', hinv, hsettled, hout, hpushed, hflight, hreceiver, hidle, hbusy⟩ :=
    RtmpLink.exists_sender h.inv h.settled he hevent
  refine ⟨l', { h with
    inv := hinv
    settled := hsettled
    out := hout
    pushed := ?_
    flight := ?_
    receiver := ?_
    shown := ?_ }⟩
  · rw [hpushed, h.pushed]
  · rw [hflight, h.flight, h.out]
  · rw [hreceiver, h.receiver]
  · cases hb : l.out.busy e with
    | true => rw [hbusy hb, h.shown]
    | false =>
        rw [hidle hb, h.shown, hnone]
        apply List.append_nil

theorem lightEvent_queue {packets : List QueuedPacket} {e : OutEvent} (hpushed : e.pushed = packets)
    (hlight : ∀ packet ∈ packets, Light packet) (hnone : e.frameCalls = []) :
  RtmpLink.LightEvent e
  := by
  refine ⟨?_, ?_, ?_⟩
  · rw [hpushed]
    exact hlight
  · rw [hnone]
    intro c hc
    cases hc
  · rw [hnone]
    apply Nat.zero_le

/-- Everything has been written: the queue is sent, or it is the turn of the player. -/
theorem Linked.writeComplete (h : v.Linked l sent) {elapsed : UInt64}
    {result : RtmpPlayer × Option Bool}
    (hcall : v.player.call (.writeComplete elapsed) = some result)
    (htimely : ∀ frame ∈ (stamps {} (v.handed ++ handedAt v.player result.2
      (.writeComplete elapsed))).1, frame.2 < extendedMark) :
  ∃ l' sent', Linked { v with
    player := result.1
    pushed := v.pushed ++ []
    handed := v.handed ++ handedAt v.player result.2 (.writeComplete elapsed)
    flight := v.flight ++ given v.player result.1 true } l' sent'
  := by
  have hlight : RtmpLink.LightEvent .writeComplete
    := lightEvent_queue rfl (fun packet hpacket => absurd hpacket List.not_mem_nil) rfl
  have hevent : v.player.out.event .writeComplete = some v.player.out.checkAndSend := rfl
  obtain ⟨l', hl'⟩ := h.sender hlight rfl hevent
  have hgiven (q : RtmpPlayer) : given v.player q true = q.out.writer.sendingBufs.flatten
    := by
    rw [given, Bool.not_true, Bool.and_false]
    rfl
  have hgiven' : v.player.out.given v.player.out.checkAndSend .writeComplete =
      v.player.out.checkAndSend.writer.sendingBufs
    := by
    rw [RtmpOut.given, RtmpOut.busy, OutEvent.isWriteComplete, Bool.not_true, Bool.and_false]
    rfl
  rw [hgiven'] at hl'
  rw [RtmpPlayer.call] at hcall
  split at hcall
  next hwaiting =>
    obtain rfl := Option.some.inj hcall
    refine ⟨l', sent, ?_⟩
    rw [hgiven]
    dsimp only [handedAt]
    rw [Option.isSome_none, if_neg Bool.false_ne_true, List.append_nil v.handed]
    exact hl'
  next hwaiting =>
    obtain ⟨q, hq, rfl⟩ := Option.map_eq_some_iff.mp hcall
    have hqueue : v.player.out.outWaitingQueue = []
      := by
      rw [Bool.not_eq_true', Bool.not_eq_false] at hwaiting
      exact List.isEmpty_iff.mp hwaiting
    have hidle : v.player.out.checkAndSend = v.player.out.idle
      := by
      rw [RtmpOut.checkAndSend, hqueue, RtmpOut.idle, hqueue]
      rfl
    have hgiven'' : given { v.player with out := v.player.out.checkAndSend } q false =
        q.out.writer.sendingBufs.flatten
      := by
      rw [given, hidle]
      rfl
    have hnothing : v.player.out.checkAndSend.writer.sendingBufs.flatten = []
      := by
      rw [hidle]
      rfl
    have hposted := RtmpPlayer.posted_postFrames hl'.stream hl'.laden hq
    obtain ⟨l'', sent', hl''⟩ := hl'.posted hposted htimely
    refine ⟨l'', sent', ?_⟩
    rw [hgiven]
    rw [hnothing, List.append_nil, hgiven''] at hl''
    exact hl''

/-- An event with light packets, behind which everything handed out is timely. -/
theorem Linked.step (h : v.Linked l sent) {e : Event}
    (hadd : ∀ packet, e = .addPacket packet → Light packet)
    (hpush : ∀ packet, e = .call (.pushOutQueue packet) → Light packet)
    (hstep : RtmpViewer.step (some v) e = some v') (htimely : v'.Timely) :
  ∃ l' sent', v'.Linked l' sent'
  := by
  cases e with
  | addPacket packet =>
      obtain rfl := Option.some.inj hstep
      have hstream := h.stream.addPacket (light_stamp (hadd packet rfl) v.player.stream)
      exact ⟨l, sent, { h with stream := hstream }⟩
  | postFrames elapsed =>
      obtain ⟨q, hq, rfl⟩ := Option.map_eq_some_iff.mp hstep
      exact h.posted (RtmpPlayer.posted_postFrames h.stream h.laden hq) htimely
  | call c =>
      obtain ⟨result, hresult, rfl⟩ := Option.map_eq_some_iff.mp hstep
      cases c with
      | pushOutQueue packet =>
          obtain rfl := Option.some.inj hresult
          have hlight : RtmpLink.LightEvent (.pushOutQueue packet)
            := lightEvent_queue rfl (List.forall_mem_singleton.mpr (hpush packet rfl)) rfl
          have hevent : v.player.out.event (.pushOutQueue packet) =
              some (v.player.out.pushOutQueue packet) := rfl
          obtain ⟨l', hl'⟩ := h.sender hlight rfl hevent
          refine ⟨l', sent, ?_⟩
          dsimp only [handedAt]
          rw [List.append_nil]
          exact hl'
      | writeComplete elapsed => exact h.writeComplete hresult htimely
  | read n =>
      obtain rfl := Option.some.inj hstep
      have hread := h.inv.read n
      rw [h.flight, h.receiver] at hread
      exact ⟨_, sent, { h with
        inv := hread
        settled := ⟨h.settled.agreed, h.settled.queue⟩
        flight := rfl
        receiver := rfl }⟩

/-- What an event hands out comes behind what was handed out. -/
theorem exists_handed {e : Event} (hstep : RtmpViewer.step (some v) e = some v') :
  ∃ items, v'.handed = v.handed ++ items
  := by
  cases e with
  | addPacket packet =>
      obtain rfl := Option.some.inj hstep
      exact ⟨[], (List.append_nil _).symm⟩
  | postFrames elapsed =>
      obtain ⟨q, -, rfl⟩ := Option.map_eq_some_iff.mp hstep
      exact ⟨_, rfl⟩
  | call c =>
      obtain ⟨result, -, rfl⟩ := Option.map_eq_some_iff.mp hstep
      exact ⟨_, rfl⟩
  | read n =>
      obtain rfl := Option.some.inj hstep
      exact ⟨[], (List.append_nil _).symm⟩

/-- A player that comes to a link on which the two sides have talked about the size of chunks. -/
theorem linked_start (hl : l.Inv) (hsettled : l.Settled) (hnone : RtmpLink.shown l.calls = [])
    (latency : Int) :
  (start l latency).Linked l []
  where
  inv := hl
  settled := hsettled
  out := rfl
  pushed := rfl
  flight := rfl
  receiver := rfl
  shown := hnone
  corrector := rfl
  handed := rfl
  stream := LiveStream.holds_empty
  laden :=
    { holds :=
        { metaData := fun _ h => absurd h (Option.some_ne_none _).symm
          audioHeader := fun _ h => absurd h (Option.some_ne_none _).symm
          videoHeader := fun _ h => absurd h (Option.some_ne_none _).symm
          outFrames := fun _ h => absurd h List.not_mem_nil }
      few := Nat.zero_le _ }

/-- A player comes to an empty stream after any talk of the two contexts that settled the size of
chunks.  Whatever is added to the stream and pushed to the queue, and however write completions and
reads fall between it, what the other side receives are the headers and frames that the stream has
handed out, with the timestamps of the player, and the packets of the queue, each in their order and
once, and nothing else, as long as no timestamp is extended. -/
theorem viewer_receives {setup : List RtmpLink.Event}
    (hsetup : Steps RtmpLink.step (fun s e => ∀ l ∈ s, l.Ready e) (some {}) setup)
    (hl : run RtmpLink.step (some {}) setup = some l) (hsettled : l.Settled)
    (hnone : RtmpLink.shown l.calls = []) (latency : Int) {events : List Event}
    (hadd : ∀ packet, .addPacket packet ∈ events → Light packet)
    (hpush : ∀ packet, .call (.pushOutQueue packet) ∈ events → Light packet) :
  Throughout step (fun s => ∀ v ∈ s, v.Timely → v.Receives) (some (start l latency)) events
  := by
  have hinv : l.Inv := (RtmpLink.inv_throughout hsetup).last l hl
  have hevents : Steps step (fun _ e => (∀ packet, e = .addPacket packet → Light packet) ∧
      ∀ packet, e = .call (.pushOutQueue packet) → Light packet)
      (some (start l latency)) events
    := by
    apply steps_of_forall
    intro e he
    constructor
    · rintro packet rfl
      exact hadd packet he
    · rintro packet rfl
      exact hpush packet he
  have hrun : Throughout step (fun s => ∀ v ∈ s, v.Timely → ∃ l sent, v.Linked l sent)
      (some (start l latency)) events
    := by
    apply hevents.throughout
    · rintro v ⟨⟩ -
      exact ⟨l, [], linked_start hinv hsettled hnone latency⟩
    · intro s e hall he v' hv' htimely
      cases s with
      | none => cases hv'
      | some v =>
          obtain ⟨items, hitems⟩ := exists_handed hv'
          obtain ⟨l, sent, hlinked⟩ := hall v rfl (htimely.of_append hitems)
          exact hlinked.step he.1 he.2 hv' htimely
  apply hrun.mono
  intro s hall v hv htimely
  obtain ⟨l, sent, hlinked⟩ := hall v hv htimely
  exact hlinked.receives

/-- The two sides settle on chunks of 4096 bytes. -/
def talk : List RtmpLink.Event :=
  [.sender (.pushOutQueue {
      size := 4
      capacity := 4
      data := [0, 0, 16, 0]
      ext := some { csId := 2, msgLen := 4, msgType := kRtmpMsgTypeChunkSize } }),
    .read 100, .sender .writeComplete]

/-- A part of a video. -/
def videoPart (b : UInt8) : QueuedPacket where
  type := kPacketTypeVideo
  size := 2
  capacity := 2
  data := [0x17, b]
  ext := some { csId := 6, msgLen := 2, msgType := 9, msgSid := 1 }

/-- The two parts of a video, and reads while they are sent. -/
def view : List Event :=
  [.addPacket (videoPart 0), .addPacket (videoPart 1), .postFrames 0, .read 7,
    .call (.writeComplete 0), .read 100]

theorem light_videoPart (b : UInt8) :
  Light (videoPart b)
  := by
  intro h hext
  obtain rfl := Option.some.inj hext
  exact ⟨by decide, by decide, rfl, Nat.succ_pos 1, Nat.le_of_ble_eq_true rfl, by decide⟩

theorem viewer_receives_view :
  ∃ l, run RtmpLink.step (some {}) talk = some l ∧
    Throughout step (fun s => ∀ v ∈ s, v.Timely → v.Receives) (some (start l 3000)) view
  := by
  have htalk : Steps RtmpLink.step (fun s e => ∀ l ∈ s, l.Ready e) (some {}) talk
    := by decide +kernel
  have hsome : (run RtmpLink.step (some {}) talk).isSome = true := by decide +kernel
  have hagreed : ∀ l ∈ run RtmpLink.step (some {}) talk,
      l.messages.foldl ChunkReader.sizeBehind 128 = 4096 ∧ l.out.outWaitingQueue.isEmpty = true ∧
        (l.calls.filter BuildCall.isConst).isEmpty = true
    := by decide +kernel
  obtain ⟨l, hl⟩ := Option.isSome_iff_exists.mp hsome
  obtain ⟨hsize, hqueue, hcalls⟩ := hagreed l hl
  have hsettled : l.Settled
    := by
    refine ⟨hsize, ?_⟩
    rw [List.isEmpty_iff.mp hqueue]
    intro packet hpacket
    cases hpacket
  have hnone : RtmpLink.shown l.calls = []
    := by rw [RtmpLink.shown, List.isEmpty_iff.mp hcalls, List.map_nil]
  refine ⟨l, hl, viewer_receives htalk hl hsettled hnone 3000 ?_ ?_⟩
  · intro packet hpacket
    rw [view, List.mem_cons, List.mem_cons] at hpacket
    rcases hpacket with heq | heq | hpacket
    · obtain rfl := Event.addPacket.inj heq
      exact light_videoPart 0
    · obtain rfl := Event.addPacket.inj heq
      exact light_videoPart 1
    · simp at hpacket
  · intro packet hpacket
    simp [view] at hpacket

end RtmpViewer
