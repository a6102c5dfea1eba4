import Tmms.Base.Strings
import Tmms.Flv.FlvContext
import Tmms.Library.Runs
import Tmms.Live.Stream

/-!
# Players of FLV

A player writes the headers of its frames into the buffer of its `FlvContext` and gives the
connection nodes that point there.  The buffer is used from its start again when the connection
has written everything.  Nothing looks whether a header fits or is still to be sent: the stream
hands out at most ten frames to a player that has taken those before, a player pushes only while
the context is not sending, and what is pushed then begins at the start of the buffer.

A player is called in the loop of its connection only, so the calls follow one another.
-/

open Runs

variable {ε : Type}

/-! ### Nodes on a connection -/

namespace FlvNode

/-- The bytes from `lo` to `hi` of the buffer are not all outside of the node. -/
def overlaps (lo hi : Nat) : FlvNode → Bool
  | .header pos len => lo < pos + len && pos < hi
  | .data _ => false

def size : FlvNode → Nat
  | .header _ len => len
  | .data bytes => bytes.length

/-- A node without its first bytes. -/
def skip (n : Nat) : FlvNode → FlvNode
  | .header pos len => .header (pos + n) (len - n)
  | .data bytes => .data (bytes.drop n)

/-- The loop of `OnWrite` that takes what was written from `io_vec_list_`. -/
def advance : Nat → List FlvNode → List FlvNode
  | _, [] => []
  | ret, node :: nodes =>
      if ret = 0 then
        node :: nodes
      else if node.size > ret then
        node.skip ret :: nodes
      else
        advance (ret - node.size) nodes

/-- No node is a part of the buffer. -/
def OnlyData (nodes : List FlvNode) : Prop := ∀ pos len, .header pos len ∉ nodes

theorem onlyData_nil : OnlyData []
  := fun _ _ => List.not_mem_nil

theorem OnlyData.advance {nodes : List FlvNode} (h : OnlyData nodes) (ret : Nat) :
  OnlyData (advance ret nodes)
  := by
  induction nodes generalizing ret with
  | nil => exact onlyData_nil
  | cons node nodes ih =>
      have hrest : OnlyData nodes := fun pos len hmem => h pos len (List.mem_cons_of_mem node hmem)
      rw [FlvNode.advance]
      split
      · exact h
      · split
        · intro pos len hmem
          rcases List.mem_cons.mp hmem with heq | hmem
          · cases node with
            | header pos' len' => exact h pos' len' List.mem_cons_self
            | data bytes => cases heq
          · exact hrest pos len hmem
        · exact ih hrest _

theorem OnlyData.any_overlaps {nodes : List FlvNode} (h : OnlyData nodes) (lo hi : Nat) :
  nodes.any (overlaps lo hi) = false
  := by
  rw [List.any_eq_false]
  intro node hnode
  cases node with
  | header pos len => exact absurd hnode (h pos len)
  | data bytes => exact Bool.false_ne_true

end FlvNode

/-! ### A player -/

/-- `http_header_` of `SendFlvHttpHeader`. -/
def flvHttpHeader : List UInt8 :=
  ascii "HTTP/1.1 200 OK \r\n" ++ ascii "Access-Control-Allow-Origin: *\r\n" ++
    ascii "Content-Type: video/x-flv\r\n" ++ ascii "Connection: Keep-Alive\r\n" ++ ascii "\r\n"

/-- A `FlvPlayerUser` with its stream, its `FlvContext` and `sending_` of it, and `io_vec_list_`
and `closed_` of its connection.  `overwritten` says that a byte was written into the buffer that
was still to be sent. -/
structure FlvPlayer (ε : Type) where
  stream : LiveStream ε
  user : PlayerUser ε
  timeCorrector : TimeCorrector := {}
  httpHeaderSent : Bool := false
  context : FlvContext := {}
  sending : Bool := false
  ioVecList : List FlvNode := []
  closed : Bool := false
  overwritten : Bool := false

namespace FlvPlayer

/-- What is written into the buffer of the context. -/
def write (p : FlvPlayer ε) (f : FlvContext → Option FlvContext) : Option (FlvPlayer ε) :=
  (f p.context).map fun c =>
    { p with
      context := c
      overwritten := p.overwritten ||
        p.ioVecList.any (FlvNode.overlaps p.context.outBuffer.length c.outBuffer.length) }

/-- `FlvContext::Send`. A closed connection takes nothing. -/
def send (p : FlvPlayer ε) : FlvPlayer ε :=
  if p.sending then
    p
  else
    { p with
      sending := true
      ioVecList := if p.closed then p.ioVecList else p.ioVecList ++ p.context.bufs }

/-- `SendFlvHttpHeader`. -/
def sendFlvHttpHeader (p : FlvPlayer ε) (hasVideo hasAudio : Bool) : Option (FlvPlayer ε) :=
  let context := { p.context with bufs := p.context.bufs ++ [.data flvHttpHeader] }
  let p := { p with context := context }
  (write p (·.writeFlvHeader hasVideo hasAudio)).map send

/-- `PushFlvHttpHeader`. -/
def pushFlvHttpHeader (p : FlvPlayer ε) : Option (FlvPlayer ε) :=
  (p.sendFlvHttpHeader p.stream.hasVideo p.stream.hasAudio).map ({ · with httpHeaderSent := true })

/-- One frame of `PushFrames`. -/
def buildFrame (p : FlvPlayer ε) (packet : Packet ε) : Option (FlvPlayer ε) :=
  let r := p.timeCorrector.correctTimestamp packet
  { p with timeCorrector := r.2 }.write (·.buildFlvFrame packet r.1)

/-- `PushFrame`, and whether the frame was pushed. -/
def pushFrame (p : FlvPlayer ε) (packet : Packet ε) (isHeader : Bool) :
    Option (Bool × FlvPlayer ε) :=
  if p.sending then
    some (false, p)
  else
    let p := if isHeader then p.write (·.buildFlvFrame packet 0) else p.buildFrame packet
    p.map fun p => (true, p.send)

/-- The loop of `PushFrames`. -/
def pushFramesLoop : List (Packet ε) → FlvPlayer ε → Option (FlvPlayer ε)
  | [], p => some p
  | packet :: packets, p =>
      match p.buildFrame packet with
      | none => none
      | some p => pushFramesLoop packets p

/-- `PushFrames`, and whether the frames were pushed. -/
def pushFrames (p : FlvPlayer ε) (list : List (Packet ε)) : Option (Bool × FlvPlayer ε) :=
  if p.sending then
    some (false, p)
  else
    (pushFramesLoop list p).map fun p => (true, p.send)

/-- What was pushed is taken from the user. -/
def taken (take : PlayerUser ε → PlayerUser ε) (r : Bool × FlvPlayer ε) : FlvPlayer ε :=
  if r.1 then { r.2 with user := take r.2.user } else r.2

/-- `PostFrames`, with the time since the player came. -/
def postFrames (p : FlvPlayer ε) (elapsed : UInt64) : Option (FlvPlayer ε) :=
  if !p.stream.ready || !p.stream.hasMedia then
    some p
  else if !p.httpHeaderSent then
    p.pushFlvHttpHeader
  else
    let p := { p with user := p.stream.getFrames elapsed p.user }
    match p.user.metaData, p.user.audioHeader, p.user.videoHeader with
    | some packet, _, _ =>
        (p.pushFrame packet true).map (taken ({ · with metaData := none }))
    | none, some packet, _ =>
        (p.pushFrame packet true).map (taken ({ · with audioHeader := none }))
    | none, none, some packet =>
        (p.pushFrame packet true).map (taken ({ · with videoHeader := none }))
    | none, none, none =>
        if p.user.outFrames.isEmpty then
          some p
        else
          (p.pushFrames p.user.outFrames).map (taken ({ · with outFrames := [] }))

/-- `WriteComplete`, which is followed by `OnActive` and so by `PostFrames`. -/
def writeComplete (p : FlvPlayer ε) (elapsed : UInt64) : Option (FlvPlayer ε) :=
  { p with
    sending := false
    context := p.context.writeComplete }.postFrames elapsed

/-- `OnWrite`, when `writev` has written some bytes. -/
def onWrite (p : FlvPlayer ε) (ret : Nat) (elapsed : UInt64) : Option (FlvPlayer ε) :=
  if p.closed then
    some p
  else
    let p := { p with ioVecList := FlvNode.advance ret p.ioVecList }
    if p.ioVecList.isEmpty then p.writeComplete elapsed else some p

/-- What happens to a player: its stream gets a packet, it is active, bytes are written to its
socket, or its connection is closed. -/
inductive Event (ε : Type) where
  | addPacket (packet : Packet ε)
  | postFrames (elapsed : UInt64)
  | onWrite (ret : Nat) (elapsed : UInt64)
  | close

/-- One event. There is nothing behind a byte written beyond the end of the buffer. -/
def step (s : Option (FlvPlayer ε)) (e : Event ε) : Option (FlvPlayer ε) :=
  s.bind fun p =>
    match e with
    | .addPacket packet => some { p with stream := p.stream.addPacket packet }
    | .postFrames elapsed => p.postFrames elapsed
    | .onWrite ret elapsed => p.onWrite ret elapsed
    | .close => some { p with closed := true }

/-- A player that comes to a stream, with the latency of its application. -/
def start (stream : LiveStream ε) (latency : Int) : FlvPlayer ε where
  stream := stream
  user := { contentLatency := latency }

/-- Every byte has been written into the buffer, and none that was still to be sent has been
written over. -/
def Safe (s : Option (FlvPlayer ε)) : Prop := ∃ p, s = some p ∧ p.overwritten = false

end FlvPlayer

/-! ### Frames at hand -/

namespace LiveStream

/-- The loop of `GetNextFrame` hands out one frame a turn. -/
theorem length_getNextFrameLoop (s : LiveStream ε) (n : Nat) (idx : Int) (user : PlayerUser ε) :
  (s.getNextFrameLoop n idx user).outFrames.length ≤ user.outFrames.length + n
  := by
  induction n generalizing idx user with
  | zero => exact Nat.le_refl _
  | succ n ih =>
      rw [getNextFrameLoop]
      split
      · apply Nat.le_add_right
      · split
        next packet _ =>
          have hrest := ih (packet.index + 1)
            { user with
              outFrames := user.outFrames ++ [packet]
              outIndex := packet.index
              outFrameTimestamp := toInt32 (TimeCorrector.time packet) }
          rw [List.length_append, List.length_singleton] at hrest
          omega
        next => apply Nat.le_add_right

/-- A player has at most ten frames at hand. -/
theorem length_getFrames (s : LiveStream ε) (elapsed : UInt64) {user : PlayerUser ε}
    (h : user.outFrames.length ≤ 10) :
  (s.getFrames elapsed user).outFrames.length ≤ 10
  := by
  have hnext : ∀ u : PlayerUser ε, u.outFrames = [] → (s.getNextFrame u).outFrames.length ≤ 10
    := by
    intro u hu
    have hloop := s.length_getNextFrameLoop 10 (u.outIndex + 1) u
    rwa [hu, List.length_nil, Nat.zero_add] at hloop
  rw [getFrames]
  split
  · exact h
  · split
    · exact h
    next hpending =>
      have hnone : user.outFrames = []
        := by
        rw [pending, Bool.not_eq_true, Bool.or_eq_false_iff, Bool.not_eq_false',
          List.isEmpty_iff] at hpending
        exact hpending.2
      split
      · apply hnext
        split
        · rw [(s.skipFrame_frame user).1, hnone]
        · exact hnone
      · have hlocate := (s.locateGop_frame elapsed user).1
        rw [hnone] at hlocate
        split
        next user' heq =>
          rw [heq] at hlocate
          dsimp only at hlocate
          rw [hlocate]
          apply Nat.zero_le
        next user' heq =>
          rw [heq] at hlocate
          apply hnext user' hlocate

end LiveStream

/-! ### What fits -/

namespace FlvContext

theorem exists_writeHeader {c : FlvContext} (bytes : List UInt8)
    (h : c.outBuffer.length + bytes.length ≤ flvOutBufferSize) :
  ∃ c', c.writeHeader bytes = some c' ∧
    c'.outBuffer.length = c.outBuffer.length + bytes.length
  := ⟨_, if_pos h, List.length_append⟩

theorem exists_buildFlvFrame {c : FlvContext} (packet : Packet ε) (timestamp : UInt32)
    (h : c.outBuffer.length + 15 ≤ flvOutBufferSize) :
  ∃ c', c.buildFlvFrame packet timestamp = some c' ∧
    c'.outBuffer.length = c.outBuffer.length + 15
  := by
  have hlength := @length_frameHeader ε c packet timestamp
  obtain ⟨c', hc', hout⟩ := exists_writeHeader _ (hlength.symm ▸ h)
  rw [hlength] at hout
  refine ⟨{ c' with
    previousSize := packet.size + 11
    bufs := c'.bufs ++ [.data packet.payload] }, ?_, hout⟩
  rw [buildFlvFrame, hc']

/-- All headers of a file have nine bytes. -/
theorem exists_writeFlvHeader {c : FlvContext} (hasVideo hasAudio : Bool)
    (h : c.outBuffer.length + 9 ≤ flvOutBufferSize) :
  ∃ c', c.writeFlvHeader hasVideo hasAudio = some c'
  := by
  rw [writeFlvHeader]
  obtain ⟨c', hc', -⟩ := exists_writeHeader
    (if !hasAudio then flvVideoOnlyHeader
      else if !hasVideo then flvAudioOnlyHeader else flvHeader)
    (show c.outBuffer.length + _ ≤ flvOutBufferSize by
      cases hasAudio <;> cases hasVideo <;> exact h)
  exact ⟨c', hc'⟩

end FlvContext

/-! ### Runs -/

namespace FlvPlayer

/-- The player has at most ten frames at hand.  While the context is not sending, its buffer is
unused and the connection has no part of it; and it is not sending before the header. -/
structure Intact (p : FlvPlayer ε) : Prop where
  few : p.user.outFrames.length ≤ 10
  unused : p.sending = false → p.context.outBuffer = []
  onlyData : p.sending = false → FlvNode.OnlyData p.ioVecList
  fresh : p.httpHeaderSent = false → p.sending = false
  overwritten_eq : p.overwritten = false

/-- What is written while the connection has no part of the buffer overwrites nothing. -/
theorem write_eq {p : FlvPlayer ε} (h : FlvNode.OnlyData p.ioVecList)
    (f : FlvContext → Option FlvContext) {c : FlvContext} (hf : f p.context = some c) :
  p.write f = some { p with context := c }
  := by
  rw [write, hf, Option.map_some, h.any_overlaps, Bool.or_false]

theorem buildFrame_eq {p : FlvPlayer ε} (h : FlvNode.OnlyData p.ioVecList) (packet : Packet ε)
    (hfits : p.context.outBuffer.length + 15 ≤ flvOutBufferSize) :
  ∃ c t, p.buildFrame packet = some { p with context := c, timeCorrector := t } ∧
    c.outBuffer.length = p.context.outBuffer.length + 15
  := by
  obtain ⟨c, hc, hlength⟩ := FlvContext.exists_buildFlvFrame packet
    (p.timeCorrector.correctTimestamp packet).1 hfits
  refine ⟨c, (p.timeCorrector.correctTimestamp packet).2, ?_, hlength⟩
  rw [buildFrame, write_eq]
  · exact h
  · exact hc

/-- All frames are built when their headers fit. -/
theorem pushFramesLoop_eq {p : FlvPlayer ε} (h : FlvNode.OnlyData p.ioVecList)
    (packets : List (Packet ε))
    (hfits : p.context.outBuffer.length + 15 * packets.length ≤ flvOutBufferSize) :
  ∃ c t, pushFramesLoop packets p = some { p with context := c, timeCorrector := t }
  := by
  induction packets generalizing p with
  | nil => exact ⟨p.context, p.timeCorrector, rfl⟩
  | cons packet packets ih =>
      rw [List.length_cons] at hfits
      obtain ⟨c, t, hbuild, hlength⟩ := buildFrame_eq h packet (by omega)
      obtain ⟨c', t', hloop⟩ := ih (p := { p with context := c, timeCorrector := t }) h
        (by dsimp only; omega)
      refine ⟨c', t', ?_⟩
      rw [pushFramesLoop, hbuild]
      exact hloop

/-- A player whose context sends is intact. -/
theorem intact_of_sending {p : FlvPlayer ε} (hfew : p.user.outFrames.length ≤ 10)
    (hsending : p.sending = true) (hheader : p.httpHeaderSent = true)
    (hoverwritten : p.overwritten = false) :
  p.Intact
  where
  few := hfew
  unused h := absurd (hsending.symm.trans h) (by decide)
  onlyData h := absurd (hsending.symm.trans h) (by decide)
  fresh h := absurd (hheader.symm.trans h) (by decide)
  overwritten_eq := hoverwritten

theorem send_frame (p : FlvPlayer ε) :
  p.send.sending = true ∧ p.send.user = p.user ∧ p.send.httpHeaderSent = p.httpHeaderSent ∧
    p.send.overwritten = p.overwritten
  := by
  rw [send]
  split
  next h => exact ⟨h, rfl, rfl, rfl⟩
  next => exact ⟨rfl, rfl, rfl, rfl⟩

/-- What is sent leaves the player intact. -/
theorem Intact.send {p q : FlvPlayer ε} (h : p.Intact) (hheader : q.httpHeaderSent = true)
    (huser : q.user = p.user) (hoverwritten : q.overwritten = p.overwritten) :
  q.send.Intact
  := by
  obtain ⟨hsending, huser', hheader', hoverwritten'⟩ := q.send_frame
  apply intact_of_sending _ hsending
  · rw [hheader', hheader]
  · rw [hoverwritten', hoverwritten, h.overwritten_eq]
  · rw [huser', huser]
    exact h.few

/-- What was pushed may be taken from what a player has at hand. -/
theorem exists_taken {pushed : Option (Bool × FlvPlayer ε)}
    (h : ∃ r, pushed = some r ∧ r.2.Intact) {take : PlayerUser ε → PlayerUser ε}
    (htake : ∀ u, (take u).outFrames = u.outFrames ∨ (take u).outFrames = []) :
  ∃ q, pushed.map (taken take) = some q ∧ q.Intact
  := by
  obtain ⟨r, rfl, h⟩ := h
  refine ⟨_, rfl, ?_⟩
  rw [taken]
  split
  · refine { h with few := ?_ }
    dsimp only
    rcases htake r.2.user with hsame | hnone
    · rw [hsame]
      exact h.few
    · rw [hnone]
      apply Nat.zero_le
  · exact h

/-- A header of a stream is pushed, or it is not. -/
theorem Intact.pushFrame {p : FlvPlayer ε} (h : p.Intact) (hheader : p.httpHeaderSent = true)
    (packet : Packet ε) :
  ∃ r, p.pushFrame packet true = some r ∧ r.2.Intact
  := by
  rw [FlvPlayer.pushFrame]
  cases hsending : p.sending with
  | true => exact ⟨_, rfl, h⟩
  | false =>
      obtain ⟨c, hc, -⟩ := FlvContext.exists_buildFlvFrame (c := p.context) packet 0
        (by rw [h.unused hsending]; decide)
      refine ⟨(true, FlvPlayer.send { p with context := c }), ?_, h.send hheader rfl rfl⟩
      rw [if_neg Bool.false_ne_true, if_pos rfl, write_eq (h.onlyData hsending) _ hc]
      rfl

/-- The frames at hand are pushed, or they are not. -/
theorem Intact.pushFrames {p : FlvPlayer ε} (h : p.Intact) (hheader : p.httpHeaderSent = true) :
  ∃ r, p.pushFrames p.user.outFrames = some r ∧ r.2.Intact
  := by
  rw [FlvPlayer.pushFrames]
  cases hsending : p.sending with
  | true => exact ⟨_, rfl, h⟩
  | false =>
      have hfew := h.few
      have hfits : p.context.outBuffer.length + 15 * p.user.outFrames.length ≤ flvOutBufferSize
        := by
        rw [h.unused hsending, List.length_nil, flvOutBufferSize]
        omega
      obtain ⟨c, t, hloop⟩ := pushFramesLoop_eq (h.onlyData hsending) p.user.outFrames hfits
      refine ⟨(true, FlvPlayer.send { p with context := c, timeCorrector := t }), ?_,
        h.send hheader rfl rfl⟩
      rw [if_neg Bool.false_ne_true, hloop]
      rfl

/-- The header of the file is sent. -/
theorem Intact.pushFlvHttpHeader {p : FlvPlayer ε} (h : p.Intact)
    (hheader : p.httpHeaderSent = false) :
  ∃ q, p.pushFlvHttpHeader = some q ∧ q.Intact
  := by
  have hsending := h.fresh hheader
  obtain ⟨c, hc⟩ := FlvContext.exists_writeFlvHeader
    (c := { p.context with bufs := p.context.bufs ++ [.data flvHttpHeader] })
    p.stream.hasVideo p.stream.hasAudio
    (by
      dsimp only
      rw [h.unused hsending]
      decide)
  have hwrite : p.pushFlvHttpHeader =
      some { FlvPlayer.send { p with context := c } with httpHeaderSent := true }
    := by
    rw [FlvPlayer.pushFlvHttpHeader, FlvPlayer.sendFlvHttpHeader]
    dsimp only
    rw [write_eq]
    · rfl
    · exact h.onlyData hsending
    · exact hc
  obtain ⟨hsent, huser, -, hoverwritten⟩ := FlvPlayer.send_frame { p with context := c }
  refine ⟨_, hwrite, ?_⟩
  apply intact_of_sending
  · dsimp only
    rw [huser]
    exact h.few
  · exact hsent
  · rfl
  · exact hoverwritten.trans h.overwritten_eq

/-- A player that posts frames stays intact. -/
theorem Intact.postFrames {p : FlvPlayer ε} (h : p.Intact) (elapsed : UInt64) :
  ∃ q, p.postFrames elapsed = some q ∧ q.Intact
  := by
  rw [FlvPlayer.postFrames]
  split
  · exact ⟨p, rfl, h⟩
  · split
    next hheader =>
      apply h.pushFlvHttpHeader
      rwa [Bool.not_eq_true'] at hheader
    next hheader =>
      rw [Bool.not_eq_true', Bool.not_eq_false] at hheader
      have hgot : { p with user := p.stream.getFrames elapsed p.user }.Intact
        := { h with few := p.stream.length_getFrames elapsed h.few }
      dsimp only
      split
      · apply exists_taken (hgot.pushFrame hheader _)
        exact fun _ => .inl rfl
      · apply exists_taken (hgot.pushFrame hheader _)
        exact fun _ => .inl rfl
      · apply exists_taken (hgot.pushFrame hheader _)
        exact fun _ => .inl rfl
      · split
        · exact ⟨_, rfl, hgot⟩
        · apply exists_taken (hgot.pushFrames hheader)
          exact fun _ => .inr rfl

/-- When everything has been written, the player is intact whatever it was sending. -/
theorem Intact.writeComplete {p : FlvPlayer ε} (h : p.Intact) (hempty : p.ioVecList = [])
    (elapsed : UInt64) :
  ∃ q, p.writeComplete elapsed = some q ∧ q.Intact
  := by
  rw [FlvPlayer.writeComplete]
  apply Intact.postFrames
  refine { h with unused := fun _ => rfl, onlyData := fun _ => ?_, fresh := fun _ => rfl }
  dsimp only
  rw [hempty]
  exact FlvNode.onlyData_nil

theorem Intact.onWrite {p : FlvPlayer ε} (h : p.Intact) (ret : Nat) (elapsed : UInt64) :
  ∃ q, p.onWrite ret elapsed = some q ∧ q.Intact
  := by
  have hrest : { p with ioVecList := FlvNode.advance ret p.ioVecList }.Intact
    := { h with onlyData := fun hsending => (h.onlyData hsending).advance ret }
  rw [FlvPlayer.onWrite]
  split
  · exact ⟨p, rfl, h⟩
  · dsimp only
    split
    next hempty =>
      apply hrest.writeComplete
      exact List.isEmpty_iff.mp hempty
    next => exact ⟨_, rfl, hrest⟩

/-- An intact player stays so. -/
theorem Intact.step {p : FlvPlayer ε} (h : p.Intact) (e : Event ε) :
  ∃ q, FlvPlayer.step (some p) e = some q ∧ q.Intact
  := by
  cases e with
  | addPacket packet => exact ⟨_, rfl, { h with }⟩
  | postFrames elapsed => exact h.postFrames elapsed
  | onWrite ret elapsed => exact h.onWrite ret elapsed
  | close => exact ⟨_, rfl, { h with }⟩

theorem intact_start (stream : LiveStream ε) (latency : Int) :
  (start stream latency).Intact
  where
  few := Nat.zero_le _
  unused _ := rfl
  onlyData _ := FlvNode.onlyData_nil
  fresh _ := rfl
  overwritten_eq := rfl

/-- In every run of a player, all headers are written inside of the buffer, and none over bytes
that are still to be sent. -/
theorem safe_throughout (stream : LiveStream ε) (latency : Int) (events : List (Event ε)) :
  Throughout step Safe (some (start stream latency)) events
  := by
  have hall : Steps step (fun _ _ => True) (some (start stream latency)) events := steps_true
  apply Throughout.mono (P := fun s => ∃ p, s = some p ∧ p.Intact)
  · apply hall.throughout ⟨_, rfl, intact_start stream latency⟩
    rintro _ e ⟨p, rfl, h⟩ _
    exact h.step e
  · rintro s ⟨p, rfl, h⟩
    exact ⟨p, rfl, h.overwritten_eq⟩

/-- A key frame, the header of the file, and when it has been written the key frame, from the
start of the buffer on. -/
example :
  ((run step (some (start ({} : LiveStream Unit) 3000))
      [.addPacket
        { type := kPacketTypeVideo, size := 2, capacity := 2, data := [0x17, 0], ext := () },
        .addPacket
          { type := kPacketTypeVideo, size := 2, capacity := 2, data := [0x17, 1], ext := () },
        .postFrames 0, .onWrite 200 0]).map ioVecList) =
    some [.header 0 15, .data [0x17, 0]]
  := by decide +kernel

end FlvPlayer
