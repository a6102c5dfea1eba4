import Tmms.Library.Sleeper
import Tmms.Live.FlvPlayer
import Tmms.Live.RtmpPlayer

/-!
# Players are woken

`AddPacket` wakes the players of a stream for the first frames of it and then for every fifth.
`Active` does nothing while `active_` is set; a player clears it with `Deactive` when `PostFrames`
finds nothing, and a player that found something looks again when its connection has written
everything.  The publisher and a player run in different threads.
-/

open Runs

/-- Whether `AddPacket` calls `ActiveAllPlayers` for a frame. -/
def activatesPlayers (frame : Int) : Bool := frame < 300 || frame % 5 == 0

/-! ### Players of FLV -/

namespace FlvPlayer

variable {ε : Type} {p q : FlvPlayer ε}

/-- Whether `PostFrames` calls `Deactive`. -/
def deactive (p : FlvPlayer ε) (elapsed : UInt64) : Bool :=
  !p.stream.ready || !p.stream.hasMedia ||
    (p.httpHeaderSent && !LiveStream.pending (p.stream.getFrames elapsed p.user))

theorem stream_write {f : FlvContext → Option FlvContext} (h : p.write f = some q) :
  q.stream = p.stream
  := by
  obtain ⟨c, -, rfl⟩ := Option.map_eq_some_iff.mp h
  rfl

theorem stream_send (p : FlvPlayer ε) :
  p.send.stream = p.stream
  := by
  rw [send]
  split <;> rfl

theorem stream_buildFrame {packet : Packet ε} (h : p.buildFrame packet = some q) :
  q.stream = p.stream
  := by
  rw [buildFrame] at h
  rw [stream_write h]

theorem stream_pushFramesLoop {packets : List (Packet ε)}
    (h : pushFramesLoop packets p = some q) :
  q.stream = p.stream
  := by
  induction packets generalizing p with
  | nil =>
      obtain rfl := Option.some.inj h
      rfl
  | cons packet packets ih =>
      rw [pushFramesLoop] at h
      split at h
      · cases h
      next p' hbuild =>
        rw [ih h]
        apply stream_buildFrame hbuild

/-- What was pushed is being sent. -/
theorem sending_pushFrame {packet : Packet ε} {isHeader : Bool} {r : Bool × FlvPlayer ε}
    (h : p.pushFrame packet isHeader = some r) :
  r.2.sending = true ∧ r.2.stream = p.stream
  := by
  rw [pushFrame] at h
  split at h
  next hsending =>
    obtain rfl := Option.some.inj h
    exact ⟨hsending, rfl⟩
  next =>
    obtain ⟨p', hbuilt, rfl⟩ := Option.map_eq_some_iff.mp h
    refine ⟨p'.send_frame.1, p'.stream_send.trans ?_⟩
    split at hbuilt
    · apply stream_write hbuilt
    · apply stream_buildFrame hbuilt

theorem sending_pushFrames {list : List (Packet ε)} {r : Bool × FlvPlayer ε}
    (h : p.pushFrames list = some r) :
  r.2.sending = true ∧ r.2.stream = p.stream
  := by
  rw [pushFrames] at h
  split at h
  next hsending =>
    obtain rfl := Option.some.inj h
    exact ⟨hsending, rfl⟩
  next =>
    obtain ⟨p', hbuilt, rfl⟩ := Option.map_eq_some_iff.mp h
    exact ⟨p'.send_frame.1, p'.stream_send.trans (stream_pushFramesLoop hbuilt)⟩

theorem sending_pushFlvHttpHeader (h : p.pushFlvHttpHeader = some q) :
  q.sending = true ∧ q.stream = p.stream
  := by
  obtain ⟨p', hsent, rfl⟩ := Option.map_eq_some_iff.mp h
  obtain ⟨p'', hwritten, rfl⟩ := Option.map_eq_some_iff.mp hsent
  refine ⟨p''.send_frame.1, p''.stream_send.trans ?_⟩
  apply stream_write hwritten

/-- Taking what was pushed from the user changes nothing else. -/
theorem sending_taken {pushed : Option (Bool × FlvPlayer ε)} {take : PlayerUser ε → PlayerUser ε}
    {stream : LiveStream ε}
    (hpushed : ∀ r, pushed = some r → r.2.sending = true ∧ r.2.stream = stream)
    (h : pushed.map (taken take) = some q) :
  q.sending = true ∧ q.stream = stream
  := by
  obtain ⟨r, hr, rfl⟩ := Option.map_eq_some_iff.mp h
  rw [taken]
  split
  · exact hpushed r hr
  · exact hpushed r hr

/-- A player that posted frames without `Deactive` is sending. -/
theorem sending_postFrames {elapsed : UInt64} (h : p.postFrames elapsed = some q) :
  q.stream = p.stream ∧ (p.deactive elapsed = false → q.sending = true)
  := by
  rw [postFrames] at h
  rw [deactive]
  split at h
  next hnot =>
    obtain rfl := Option.some.inj h
    rw [hnot]
    refine ⟨rfl, ?_⟩
    rintro ⟨⟩
  next =>
    split at h
    · obtain ⟨hsending, hstream⟩ := sending_pushFlvHttpHeader h
      exact ⟨hstream, fun _ => hsending⟩
    next hheader =>
      rw [Bool.not_eq_true', Bool.not_eq_false] at hheader
      rw [hheader, Bool.true_and, LiveStream.pending]
      dsimp only at h
      split at h
      · obtain ⟨hsending, hstream⟩ := sending_taken (fun r => sending_pushFrame) h
        exact ⟨hstream, fun _ => hsending⟩
      · obtain ⟨hsending, hstream⟩ := sending_taken (fun r => sending_pushFrame) h
        exact ⟨hstream, fun _ => hsending⟩
      · obtain ⟨hsending, hstream⟩ := sending_taken (fun r => sending_pushFrame) h
        exact ⟨hstream, fun _ => hsending⟩
      next hmeta haudio hvideo =>
        split at h
        next hempty =>
          obtain rfl := Option.some.inj h
          rw [hmeta, haudio, hvideo, hempty]
          refine ⟨rfl, ?_⟩
          intro hfound
          rw [Bool.or_eq_false_iff] at hfound
          exact absurd hfound.2.symm Bool.false_ne_true
        next =>
          obtain ⟨hsending, hstream⟩ := sending_taken (fun r => sending_pushFrames) h
          exact ⟨hstream, fun _ => hsending⟩

/-- What happens to a player beside its frames: its connection writes bytes, or is closed. -/
inductive Call where
  | onWrite (ret : Nat) (elapsed : UInt64)
  | close

/-- One of these.  When everything has been written, it is the turn of the player again. -/
def call (p : FlvPlayer ε) : Call → Option (FlvPlayer ε × Option Bool)
  | .onWrite ret elapsed =>
      let written := { p with ioVecList := FlvNode.advance ret p.ioVecList }
      if !p.closed && written.ioVecList.isEmpty then
        let idle := { written with
          sending := false
          context := written.context.writeComplete }
        (p.onWrite ret elapsed).map fun q => (q, some (idle.deactive elapsed))
      else
        (p.onWrite ret elapsed).map fun q => (q, none)
  | .close => some ({ p with closed := true }, none)

end FlvPlayer

namespace FlvPlayer

variable {ε : Type} {p q : FlvPlayer ε}

/-- A player as a consumer of the packets of its stream.  It never writes beyond its buffer. -/
def consumer : Consumer (FlvPlayer ε) (Packet ε) UInt64 Call where
  count p := p.stream.frameIndex
  busy p := p.sending
  add p packet := { p with stream := p.stream.addPacket packet }
  look p elapsed := ((p.postFrames elapsed).getD p, p.deactive elapsed)
  call p c := (p.call c).getD (p, none)

/-- A call that looks again leaves a player that is sending or calls `Deactive`, and one that
does not look leaves a player that is sending as it is. -/
theorem call_spec (h : p.Intact) (c : Call) :
  ∃ q r, p.call c = some (q, r) ∧ q.Intact ∧ q.stream = p.stream ∧
    (r = some false → q.sending = true) ∧ (r = none → p.sending = true → q.sending = true)
  := by
  cases c with
  | close =>
      refine ⟨_, _, rfl, { h with }, rfl, ?_, fun _ hsending => hsending⟩
      rintro ⟨⟩
  | onWrite ret elapsed =>
      obtain ⟨q, hq, hintact⟩ := h.onWrite ret elapsed
      rw [call]
      dsimp only
      rw [hq]
      rw [onWrite] at hq
      cases hclosed : p.closed with
      | true =>
          rw [hclosed, if_pos rfl] at hq
          obtain rfl := Option.some.inj hq
          refine ⟨p, none, rfl, hintact, rfl, ?_, fun _ hsending => hsending⟩
          rintro ⟨⟩
      | false =>
          rw [hclosed, if_neg Bool.false_ne_true] at hq
          dsimp only at hq
          cases hempty : (FlvNode.advance ret p.ioVecList).isEmpty with
          | true =>
              rw [hempty, if_pos rfl] at hq
              obtain ⟨hstream, hsending⟩ := sending_postFrames hq
              refine ⟨q, _, rfl, hintact, hstream, ?_, ?_⟩
              · intro hfound
                apply hsending
                exact Option.some.inj hfound
              · rintro ⟨⟩
          | false =>
              rw [hempty, if_neg Bool.false_ne_true] at hq
              obtain rfl := Option.some.inj hq
              refine ⟨_, none, rfl, hintact, rfl, ?_, fun _ hsending => hsending⟩
              rintro ⟨⟩

theorem lawful_consumer : (consumer : Consumer (FlvPlayer ε) _ _ _).Lawful Intact
  where
  inv_add _ _ h := { h with }
  inv_look p elapsed h := by
    obtain ⟨q, hq, hintact⟩ := h.postFrames elapsed
    dsimp only [consumer]
    rw [hq]
    exact hintact
  inv_call p c h := by
    obtain ⟨q, r, hq, hintact, -⟩ := call_spec h c
    dsimp only [consumer]
    rw [hq]
    exact hintact
  count_add p packet _ := (p.stream.addPacket_frame packet).1
  count_look p elapsed h := by
    obtain ⟨q, hq, -⟩ := h.postFrames elapsed
    dsimp only [consumer]
    rw [hq, Option.getD_some, (sending_postFrames hq).1]
  count_call p c h := by
    obtain ⟨q, r, hq, -, hstream, -⟩ := call_spec h c
    dsimp only [consumer]
    rw [hq, Option.getD_some, hstream]
  busy_add _ _ _ := rfl
  busy_look p elapsed h hfound := by
    obtain ⟨q, hq, -⟩ := h.postFrames elapsed
    dsimp only [consumer]
    rw [hq, Option.getD_some]
    exact (sending_postFrames hq).2 hfound
  busy_call p c h hfound := by
    obtain ⟨q, r, hq, -, -, hsending, -⟩ := call_spec h c
    dsimp only [consumer] at hfound ⊢
    rw [hq] at hfound ⊢
    apply hsending hfound
  busy_none p c h hnone hbusy := by
    obtain ⟨q, r, hq, -, -, -, hsending⟩ := call_spec h c
    dsimp only [consumer] at hnone hbusy ⊢
    rw [hq] at hnone ⊢
    apply hsending hnone hbusy

end FlvPlayer

/-! ### Players of RTMP -/

namespace RtmpPlayer

/-- A player as a consumer, and whether it has dereferenced a null pointer, behind which nothing
happens any more. -/
def consumer : Consumer (RtmpPlayer × Bool) QueuedPacket UInt64 Call where
  count s := s.1.stream.frameIndex
  busy s := s.2 || s.1.out.sending
  add s packet := ({ s.1 with stream := s.1.stream.addPacket packet }, s.2)
  look s elapsed :=
    if s.2 then
      (s, false)
    else
      match s.1.postFrames elapsed with
      | none => ((s.1, true), false)
      | some p => ((p, false), s.1.deactive elapsed)
  call s c :=
    if s.2 then
      (s, none)
    else
      match s.1.call c with
      | none => ((s.1, true), some false)
      | some (p, r) => ((p, false), r)

/-- A call leaves the stream as it is, and a player that is sending unless the player has looked
and found nothing. -/
theorem call_spec {p q : RtmpPlayer} {c : Call} {r : Option Bool} (h : p.call c = some (q, r)) :
  q.stream = p.stream ∧ (r ≠ some true → q.out.sending = true)
  := by
  cases c with
  | pushOutQueue packet =>
      cases h
      refine ⟨rfl, fun _ => ?_⟩
      apply RtmpOut.sending_send
  | writeComplete elapsed =>
      rw [call] at h
      split at h
      next hwaiting =>
        cases h
        refine ⟨rfl, fun _ => ?_⟩
        apply RtmpOut.sending_checkAndSend
        rwa [Bool.not_eq_true'] at hwaiting
      next =>
        obtain ⟨q', hpost, heq⟩ := Option.map_eq_some_iff.mp h
        cases heq
        obtain ⟨hstream, hsending⟩ := sending_postFrames hpost
        refine ⟨hstream, fun hfound => hsending ?_⟩
        rw [← Bool.not_eq_true]
        exact fun hdeactive => hfound (congrArg some hdeactive)

theorem lawful_consumer : consumer.Lawful fun _ => True
  where
  inv_add _ _ _ := trivial
  inv_look _ _ _ := trivial
  inv_call _ _ _ := trivial
  count_add s packet _ := (s.1.stream.addPacket_frame packet).1
  count_look s elapsed _ := by
    dsimp only [consumer]
    split
    · rfl
    · split
      · rfl
      next p hpost => rw [(sending_postFrames hpost).1]
  count_call s c _ := by
    dsimp only [consumer]
    split
    · rfl
    · split
      · rfl
      next p r hcall => rw [(call_spec hcall).1]
  busy_add _ _ _ := rfl
  busy_look s elapsed _ hfound := by
    dsimp only [consumer] at hfound ⊢
    split at hfound
    next hended => rw [if_pos hended, hended, Bool.true_or]
    next hended =>
      rw [if_neg hended]
      split at hfound
      · rfl
      next p hpost => exact (sending_postFrames hpost).2 hfound
  busy_call s c _ hfound := by
    dsimp only [consumer] at hfound ⊢
    split at hfound
    · cases hfound
    next hended =>
      rw [if_neg hended]
      split at hfound
      · rfl
      next p r hcall =>
        apply (call_spec hcall).2
        intro hnothing
        rw [hnothing] at hfound
        cases hfound
  busy_none s c _ hnone hbusy := by
    dsimp only [consumer] at hnone hbusy ⊢
    split at hnone
    next hended =>
      rw [if_pos hended]
      exact hbusy
    next hended =>
      rw [if_neg hended]
      split at hnone
      · rfl
      next p r hcall =>
        apply (call_spec hcall).2
        intro hnothing
        rw [hnothing] at hnone
        cases hnone

end RtmpPlayer

/-! ### At rest -/

/-- Frames a player that is asleep has not looked for: none that came before the player was told
by `active_` to be awake no more, but those that are not announced. -/
structure FewMissing {σ : Type} (frameIndex : Int) (s : Sleeper σ) : Prop where
  asleep : s.asleep = true
  beginning : frameIndex < 300 → frameIndex = s.looked + s.missed
  few : s.looked + s.missed ≤ frameIndex ∧ frameIndex ≤ s.looked + s.missed + 4

/-- Of five frames one is announced. -/
theorem Sleeper.CaughtUp.fewMissing {σ ι τ κ : Type} {c : Consumer σ ι τ κ} {s : Sleeper σ}
    (h : s.CaughtUp c activatesPlayers) :
  FewMissing (c.count s.state) s
  := by
  have hle := h.le_count
  have hsilent : ∀ n, s.looked + s.missed < n → n ≤ c.count s.state → 300 ≤ n ∧ n % 5 ≠ 0
    := by
    intro n hlt hn
    have hnot := h.silent n hlt hn
    rw [activatesPlayers, Bool.or_eq_false_iff, decide_eq_false_iff_not, beq_eq_false_iff_ne]
      at hnot
    exact ⟨Int.not_lt.mp hnot.1, hnot.2⟩
  constructor
  · exact h.asleep
  · intro hbeginning
    by_contra hne
    have hlast := hsilent (c.count s.state) (by omega) (Int.le_refl _)
    omega
  · refine ⟨hle, ?_⟩
    by_contra hmany
    -- the multiple of five among the five frames behind those looked for
    have hfive := hsilent ((s.looked + s.missed) / 5 * 5 + 5) (by omega) (by omega)
    omega

/-- Whatever the publisher, a player, its connection and their threads do one after the other:
when nothing goes on any more, the player had nothing at hand when it last looked, and of the
frames that came since, but for those that came before it had cleared `active_`, it lacks at most
four, and none of the first 300. -/
theorem players_catch_up {ε : Type} (latency : Int) (producer : Producer) :
  (∀ (stream : LiveStream ε) events,
    Throughout (Sleeper.step FlvPlayer.consumer activatesPlayers)
      (fun s => s.AtRest FlvPlayer.consumer → FewMissing s.state.stream.frameIndex s)
      (Sleeper.start FlvPlayer.consumer (FlvPlayer.start stream latency) producer) events) ∧
    ∀ stream events,
      Throughout (Sleeper.step RtmpPlayer.consumer activatesPlayers)
        (fun s => s.AtRest RtmpPlayer.consumer → FewMissing s.state.1.stream.frameIndex s)
        (Sleeper.start RtmpPlayer.consumer (RtmpPlayer.start stream latency, false) producer)
        events
  := by
  constructor
  · intro stream events
    have hrun : Throughout (Sleeper.step FlvPlayer.consumer activatesPlayers)
        (·.Watchful FlvPlayer.consumer activatesPlayers FlvPlayer.Intact) _ events
      := Sleeper.watchful_throughout FlvPlayer.lawful_consumer
        (FlvPlayer.intact_start stream latency) producer events
    apply hrun.mono
    intro s h hrest
    apply (h.caughtUp hrest).fewMissing
  · intro stream events
    have hrun : Throughout (Sleeper.step RtmpPlayer.consumer activatesPlayers)
        (·.Watchful RtmpPlayer.consumer activatesPlayers fun _ => True)
        (Sleeper.start RtmpPlayer.consumer (RtmpPlayer.start stream latency, false) producer) events
      := Sleeper.watchful_throughout RtmpPlayer.lawful_consumer trivial producer events
    apply hrun.mono
    intro s h hrest
    apply (h.caughtUp hrest).fewMissing

/-- A key frame that comes between the look of a player and `Deactive` wakes nobody. -/
example :
  let s := run (Sleeper.step FlvPlayer.consumer activatesPlayers)
    (Sleeper.start FlvPlayer.consumer (FlvPlayer.start ({} : LiveStream Unit) 3000) .idle)
    [.run 0,
      .add { type := kPacketTypeVideo, size := 2, capacity := 2, data := [0x17, 1], ext := () },
      .check, .leave]
  (s.missed, s.active, s.tasks, s.producer) = (1, false, 0, .idle)
  := by decide +kernel
