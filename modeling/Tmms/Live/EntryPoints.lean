import Tmms.Live.GopIndex

/-!
# Where players enter a stream

A player enters a stream with the first frame delivered to it, and again with every frame that
does not follow the one delivered before.  `EntersAtKeyFrames` says that all of these are key
frames.

`LocateGop` and `SkipFrame` put a player before a frame of the list of key frames.  That frame
may be a codec header, which `AddPacket` marks as a key frame too, or the first packet after
it has left the ring (see `Indexed`), and a player that the ring has passed and for which no
group is near enough stays where it is.  `EntersWell` is that a call does none of this.
-/

open Runs

variable {ε : Type}

/-- A key frame that is not a codec header. -/
def Packet.isEntry (packet : Packet ε) : Bool :=
  packet.isKeyFrame && !CodecUtils.isCodecHeader packet

/-- A player that was delivered the index `last`, if any, is delivered frames that follow, or
else key frames. -/
def EntersAtKeyFrames : Option Int → List (PlayerEntry ε) → Prop
  | _, [] => True
  | last, .skipped :: es => EntersAtKeyFrames last es
  | last, .delivered packet _ :: es =>
      (packet.isEntry = true ∨ last = some (packet.index - 1)) ∧
        EntersAtKeyFrames (some packet.index) es

instance decidableEntersAtKeyFrames :
    (last : Option Int) → (es : List (PlayerEntry ε)) → Decidable (EntersAtKeyFrames last es)
  | _, [] => isTrue trivial
  | last, .skipped :: es => decidableEntersAtKeyFrames last es
  | _, .delivered packet _ :: es =>
      have := decidableEntersAtKeyFrames (some packet.index) es
      inferInstanceAs (Decidable (_ ∧ _))

namespace LiveStream

/-- The index of the earliest group within the latency of a player's application. -/
def groupFor (s : LiveStream ε) (user : PlayerUser ε) : Int :=
  (s.gopMgr.getGopByLatency user.contentLatency).1

/-- The ring holds the packet with the index, and it is no codec header. -/
def holdsFrame (s : LiveStream ε) (idx : Int) : Bool :=
  (s.packetBuffer.get idx.toNat).any fun packet =>
    packet.index == idx && !CodecUtils.isCodecHeader packet

/-- `GetFrames` looks for a group. -/
def seeks (s : LiveStream ε) (user : PlayerUser ε) : Bool :=
  s.hasMedia && !pending user && (user.outIndex < 0 || s.needSkip user)

/-- The next packet of a player is not in the ring any more. -/
def passed (s : LiveStream ε) (user : PlayerUser ε) : Bool :=
  0 ≤ user.outIndex && user.outIndex < s.frameIndex - packetBufferSize

end LiveStream

namespace Broadcast

/-- The calls of a run on behalf of the player `i`: a group that is found ahead of it is one of
a frame in the ring, and is found if the ring has passed the player. The numbers of packets
are `int32_t`s. -/
def EntersWell (i : Nat) (b : Broadcast ε) : StreamEvent ε → Prop
  | .addPacket _ => b.stream.frameIndex + 1 < 2 ^ 31
  | .getFrames j _ =>
      i = j → b.stream.seeks (b.users i) = true →
        (b.stream.groupFor (b.users i) ≤ (b.users i).outIndex ∨
            b.stream.holdsFrame (b.stream.groupFor (b.users i)) = true) ∧
          (b.stream.passed (b.users i) = true → b.stream.groupFor (b.users i) ≠ -1)
  | _ => True

end Broadcast

/-! ### Frames one after the other -/

/-- The index delivered last. -/
def lastIndex : Option Int → List (PlayerEntry ε) → Option Int
  | last, [] => last
  | last, .skipped :: es => lastIndex last es
  | _, .delivered packet _ :: es => lastIndex (some packet.index) es

theorem entersAtKeyFrames_append (last : Option Int) (es es' : List (PlayerEntry ε)) :
  EntersAtKeyFrames last (es ++ es') ↔
    EntersAtKeyFrames last es ∧ EntersAtKeyFrames (lastIndex last es) es'
  := by
  induction es generalizing last with
  | nil => exact (and_iff_right trivial).symm
  | cons e es ih =>
      cases e with
      | skipped => exact ih last
      | delivered packet newest =>
          rw [List.cons_append, EntersAtKeyFrames, EntersAtKeyFrames, ih, and_assoc]
          exact Iff.rfl

/-- What is seen of a player that is given some frames. -/
def entriesOf (newest : Int) (frames : List (Packet ε)) : List (PlayerEntry ε) :=
  frames.map fun packet => .delivered packet newest

/-- The next packet of a player at `position` follows the one delivered last, or is a key
frame. -/
def Next (past : List (Packet ε)) (last : Option Int) (position : Int) : Prop :=
  last = some position ∨
    ∃ packet, past[(position + 1).toNat]? = some packet ∧ packet.isEntry = true

/-- A player has no position, or is before a packet that follows or is a key frame. -/
def Placed (past : List (Packet ε)) (last : Option Int) (position : Int) : Prop :=
  position = -1 ∨ 0 ≤ position ∧ Next past last position

theorem Placed.mono {past past' : List (Packet ε)} {last : Option Int} {position : Int}
    (h : Placed past last position) (hpast : past <+: past') :
  Placed past' last position
  := by
  obtain ⟨rest, rfl⟩ := hpast
  rcases h with hnone | ⟨hpos, hlast | ⟨packet, hpacket, hentry⟩⟩
  · exact .inl hnone
  · exact .inr ⟨hpos, .inl hlast⟩
  · have hlt := (List.getElem?_eq_some_iff.mp hpacket).1
    right
    refine ⟨hpos, .inr ⟨packet, ?_, hentry⟩⟩
    rw [List.getElem?_append_left hlt, hpacket]

namespace Indexed

variable {past : List (Packet ε)} {s : LiveStream ε}

theorem index_natCast (h : Indexed past s) (hlen : past.length ≤ 2 ^ 31) {k : Nat}
    {packet : Packet ε} (hk : past[k]? = some packet) :
  packet.index = k
  := by
  have hlt : k < past.length := (List.getElem?_eq_some_iff.mp hk).1
  rw [h.index_eq hk]
  apply toInt32_of_fits
  · omega
  · omega

/-- Consecutive packets follow one another. The induction is on the frames. -/
theorem enters_consecutive (h : Indexed past s) (hlen : past.length ≤ 2 ^ 31) (newest : Int)
    (frames : List (Packet ε)) (k : Nat) (hframes : frames <+: past.drop k) :
  EntersAtKeyFrames (some ((k : Int) - 1)) (entriesOf newest frames) ∧
    lastIndex (some ((k : Int) - 1)) (entriesOf newest frames) =
      some ((k : Int) - 1 + frames.length)
  := by
  induction frames generalizing k with
  | nil => exact ⟨trivial, by simp [entriesOf, lastIndex]⟩
  | cons packet frames ih =>
      obtain ⟨rest, hrest⟩ := hframes
      have hk : past[k]? = some packet
        := by
        rw [← Nat.add_zero k, ← List.getElem?_drop, ← hrest]
        rfl
      have hindex := h.index_natCast hlen hk
      have htail : frames <+: past.drop (k + 1)
        := by
        use rest
        rw [← List.tail_drop, ← hrest]
        rfl
      obtain ⟨henters, hlast⟩ := ih (k + 1) htail
      have hprev : ((k + 1 : Nat) : Int) - 1 = packet.index := by omega
      rw [hprev] at henters hlast
      refine ⟨⟨.inr (congrArg some (by omega)), henters⟩, ?_⟩
      rw [entriesOf, List.map_cons, lastIndex]
      rw [entriesOf] at hlast
      rw [hlast, hindex, List.length_cons]
      congr 1
      push_cast
      omega

/-- The frames from the next packet of a player on, and where they leave it. -/
theorem enters_next (h : Indexed past s) (hlen : past.length ≤ 2 ^ 31) (newest : Int)
    {last : Option Int} {position : Int} (hlow : -1 ≤ position) (hnext : Next past last position)
    (frames : List (Packet ε)) (hframes : frames <+: past.drop (position + 1).toNat) :
  EntersAtKeyFrames last (entriesOf newest frames) ∧
    Placed past (lastIndex last (entriesOf newest frames)) (position + frames.length)
  := by
  obtain ⟨k, hk⟩ := Int.eq_ofNat_of_zero_le (show 0 ≤ position + 1 by omega)
  have hposition : position = (k : Int) - 1 := by omega
  subst hposition
  rw [hk, Int.toNat_natCast] at hframes
  obtain ⟨hfollow, hlast⟩ := h.enters_consecutive hlen newest frames k hframes
  cases frames with
  | nil =>
      refine ⟨trivial, ?_⟩
      by_cases hzero : k = 0
      · left
        simp [hzero]
      · right
        rw [List.length_nil, Int.natCast_zero, Int.add_zero]
        exact ⟨by omega, hnext⟩
  | cons packet frames =>
      have hplaced : lastIndex last (entriesOf newest (packet :: frames)) =
          some ((k : Int) - 1 + (packet :: frames).length)
        := hlast
      have hpos : 0 ≤ (k : Int) - 1 + (packet :: frames).length
        := by
        rw [List.length_cons]
        omega
      refine ⟨⟨?_, hfollow.2⟩, .inr ⟨hpos, .inl hplaced⟩⟩
      rcases hnext with rfl | ⟨entry, hentry, hkey⟩
      · exact hfollow.1
      · left
        obtain ⟨rest, hrest⟩ := hframes
        have hpacket : past[k]? = some packet
          := by
          rw [← Nat.add_zero k, ← List.getElem?_drop, ← hrest]
          rfl
        rw [hk, Int.toNat_natCast, hpacket] at hentry
        cases hentry
        exact hkey

/-! ### A call of `GetFrames` -/

/-- `GetNextFrame` gives a player that the ring has not passed the packets from its next one
on. The induction is on the turns of the loop. -/
theorem getNextFrameLoop_eq (h : Indexed past s) (hlen : past.length ≤ 2 ^ 31) (n k : Nat)
    (hring : past.length ≤ k + packetBufferSize) (user : PlayerUser ε)
    (hk : user.outIndex = k - 1) :
  ∃ frames, frames <+: past.drop k ∧
    (s.getNextFrameLoop n k user).outFrames = user.outFrames ++ frames ∧
    (s.getNextFrameLoop n k user).outIndex = user.outIndex + frames.length
  := by
  have hstay : ∃ frames, frames <+: past.drop k ∧
      user.outFrames = user.outFrames ++ frames ∧ user.outIndex = user.outIndex + frames.length
    := ⟨[], List.nil_prefix, (List.append_nil _).symm, (Int.add_zero _).symm⟩
  induction n generalizing k user with
  | zero => exact hstay
  | succ n ih =>
      rw [LiveStream.getNextFrameLoop]
      by_cases hmax : (k : Int) > s.frameIndex
      · rw [if_pos hmax]
        exact hstay
      · have hlt : k < past.length
          := by
          rw [h.frameIndex_eq] at hmax
          omega
        have hslot : (UInt32.ofInt k).toNat = k
          := by
          rw [uint32_ofInt (by omega), UInt32.toNat_ofNat']
          exact Nat.mod_eq_of_lt (by omega)
        have hindex := h.index_natCast hlen (List.getElem?_eq_getElem hlt)
        rw [if_neg hmax, hslot, h.get_eq hlt hring rfl, List.getElem?_eq_getElem hlt]
        dsimp only
        rw [hindex]
        obtain ⟨frames, hframes, hout, hposition⟩ := ih (k + 1) (by omega)
          { user with
            outFrames := user.outFrames ++ [past[k]]
            outIndex := k
            outFrameTimestamp := toInt32 (TimeCorrector.time past[k]) }
          (by dsimp only; omega)
          ⟨[], List.nil_prefix, (List.append_nil _).symm, (Int.add_zero _).symm⟩
        refine ⟨past[k] :: frames, ?_, ?_, ?_⟩
        · rw [List.drop_eq_getElem_cons hlt]
          exact List.cons_prefix_cons.mpr ⟨rfl, hframes⟩
        · rw [show (k : Int) + 1 = (k + 1 : Nat) from rfl, hout]
          exact List.append_assoc _ _ _
        · rw [show (k : Int) + 1 = (k + 1 : Nat) from rfl, hposition, List.length_cons]
          dsimp only
          omega

/-- A player that is placed and that the ring has not passed is given frames as it should. -/
theorem enters_getNextFrame (h : Indexed past s) (hlen : past.length ≤ 2 ^ 31)
    {last : Option Int} {user : PlayerUser ε} (hlow : -1 ≤ user.outIndex)
    (hring : s.frameIndex - packetBufferSize ≤ user.outIndex)
    (hnext : Next past last user.outIndex) :
  ∃ frames, (s.getNextFrame user).outFrames = user.outFrames ++ frames ∧
    EntersAtKeyFrames last (entriesOf s.frameIndex frames) ∧
    Placed past (lastIndex last (entriesOf s.frameIndex frames)) (s.getNextFrame user).outIndex
  := by
  obtain ⟨k, hk⟩ := Int.eq_ofNat_of_zero_le (show 0 ≤ user.outIndex + 1 by omega)
  have hlength := h.frameIndex_eq
  obtain ⟨frames, hframes, hout, hposition⟩ :=
    h.getNextFrameLoop_eq hlen 10 k (by omega) user (by omega)
  obtain ⟨henters, hplaced⟩ := h.enters_next hlen s.frameIndex hlow hnext frames
    (by rwa [hk, Int.toNat_natCast])
  refine ⟨frames, ?_, henters, ?_⟩
  · rw [LiveStream.getNextFrame, hk, hout]
  · rw [LiveStream.getNextFrame, hk, hposition]
    exact hplaced

/-- A group that is found is one of the last thousand packets, or the first packet when it
has just left the ring. -/
theorem groupFor_cases (h : Indexed past s) (hlen : past.length ≤ 2 ^ 31) (user : PlayerUser ε) :
  s.groupFor user = -1 ∨
    ∃ (k : Nat) (packet : Packet ε), s.groupFor user = k ∧ past[k]? = some packet ∧
      packet.isKeyFrame = true ∧
      (past.length ≤ k + packetBufferSize ∨ k = 0 ∧ past.length = packetBufferSize + 1)
  := by
  by_cases hnone : s.groupFor user = -1
  · exact .inl hnone
  · right
    obtain ⟨item, hitem, hgroup⟩ := GopMgr.getGopByLatency_mem s.gopMgr user.contentLatency hnone
    obtain ⟨k, packet, hk, hkey, hindex, hrange⟩ := h.gops item hitem
    refine ⟨k, packet, ?_, hk, hkey, hrange⟩
    have hlt : k < past.length := (List.getElem?_eq_some_iff.mp hk).1
    rw [LiveStream.groupFor, hgroup, hindex]
    apply toInt32_of_fits
    · omega
    · omega

/-- A group whose frame is in the ring is one to enter at. -/
theorem entry_of_holdsFrame (h : Indexed past s) (hlen : past.length ≤ 2 ^ 31)
    (user : PlayerUser ε) (hpos : 0 ≤ s.groupFor user)
    (hholds : s.holdsFrame (s.groupFor user) = true) :
  s.frameIndex - packetBufferSize ≤ s.groupFor user - 1 ∧
    ∃ packet, past[(s.groupFor user).toNat]? = some packet ∧ packet.isEntry = true
  := by
  rcases h.groupFor_cases hlen user with hnone | ⟨k, packet, hgroup, hk, hkey, -⟩
  · omega
  · rw [hgroup, LiveStream.holdsFrame, Int.toNat_natCast] at hholds
    obtain ⟨held, hget, hheld⟩ := (Option.any_eq_true _ _).mp hholds
    rw [Bool.and_eq_true, beq_iff_eq, Bool.not_eq_true'] at hheld
    obtain ⟨i, hi, -, hring⟩ := h.of_get_eq_some hget
    have hik : i = k
      := by
      have hindex := h.index_natCast hlen hi
      omega
    rw [hik] at hi hring
    cases hk.symm.trans hi
    rw [hgroup, Int.toNat_natCast]
    have hlength := h.frameIndex_eq
    refine ⟨by omega, packet, hk, ?_⟩
    rw [Packet.isEntry, hkey, hheld.2]
    rfl

/-- Where a player is after `SkipFrame`, if that is called. -/
theorem next_skip (h : Indexed past s) (hlen : past.length ≤ 2 ^ 31) {last : Option Int}
    {user : PlayerUser ε} (hlow : 0 ≤ user.outIndex) (hnext : Next past last user.outIndex)
    (hactive : s.hasMedia = true ∧ LiveStream.pending user = false)
    (hwell : s.seeks user = true →
      (s.groupFor user ≤ user.outIndex ∨ s.holdsFrame (s.groupFor user) = true) ∧
        (s.passed user = true → s.groupFor user ≠ -1)) :
  0 ≤ (if s.needSkip user then s.skipFrame user else user).outIndex ∧
    s.frameIndex - packetBufferSize ≤
      (if s.needSkip user then s.skipFrame user else user).outIndex ∧
    Next past last (if s.needSkip user then s.skipFrame user else user).outIndex
  := by
  have hlength := h.frameIndex_eq
  cases hneed : s.needSkip user with
  | false =>
      -- a player that the ring has passed is in need of a skip
      have hring : ¬ user.outIndex < toInt32 (s.frameIndex - packetBufferSize)
        := by
        rw [LiveStream.needSkip, Bool.or_eq_false_iff, decide_eq_false_iff_not] at hneed
        exact hneed.1
      have hsize : packetBufferSize = 1000 := rfl
      rw [toInt32_of_fits (by omega) (by omega)] at hring
      simp only [Bool.false_eq_true, if_false]
      exact ⟨hlow, by omega, hnext⟩
  | true =>
      have hseeks : s.seeks user = true
        := by simp [LiveStream.seeks, hactive.1, hactive.2, hneed]
      obtain ⟨hfound, hpassed⟩ := hwell hseeks
      simp only [if_true]
      by_cases hstay : s.groupFor user = -1 ∨ s.groupFor user ≤ user.outIndex
      · have hsame : s.skipFrame user = user := if_pos hstay
        rw [hsame]
        refine ⟨hlow, ?_, hnext⟩
        by_contra hring
        have hpast : s.passed user = true
          := by
          rw [LiveStream.passed, Bool.and_eq_true, decide_eq_true_eq, decide_eq_true_eq]
          omega
        rcases h.groupFor_cases hlen user with hnone | ⟨k, packet, hgroup, -, -, hrange⟩
        · exact hpassed hpast hnone
        · have := hpassed hpast
          omega
      · have hmoved : (s.skipFrame user).outIndex = s.groupFor user - 1
          := by
          have hgo := hstay
          rw [LiveStream.groupFor] at hgo
          rw [LiveStream.skipFrame]
          dsimp only
          rw [if_neg hgo]
          rfl
        obtain ⟨hring, packet, hpacket, hentry⟩ :=
          h.entry_of_holdsFrame hlen user (by omega) (hfound.resolve_left (by omega))
        rw [hmoved]
        refine ⟨by omega, hring, .inr ⟨packet, ?_, hentry⟩⟩
        rw [Int.sub_add_cancel, hpacket]

/-- What `LocateGop` does to a player without a position. -/
theorem next_locate (h : Indexed past s) (hlen : past.length ≤ 2 ^ 31) (elapsed : UInt64)
    (last : Option Int) {user : PlayerUser ε} (hnone : user.outIndex = -1)
    (hfound : s.groupFor user ≤ user.outIndex ∨ s.holdsFrame (s.groupFor user) = true) :
  -1 ≤ (s.locateGop elapsed user).2.outIndex ∧
    Placed past last (s.locateGop elapsed user).2.outIndex ∧
    ((s.locateGop elapsed user).1 = true →
      s.frameIndex - packetBufferSize ≤ (s.locateGop elapsed user).2.outIndex ∧
        Next past last (s.locateGop elapsed user).2.outIndex)
  := by
  by_cases hgroup : s.groupFor user = -1
  · have hcall : s.locateGop elapsed user = (false, LiveStream.waiting elapsed user)
      := if_pos hgroup
    rw [hcall]
    dsimp only
    rw [(LiveStream.waiting_frame elapsed user).2, hnone]
    exact ⟨Int.le_refl _, .inl rfl, fun hfalse => absurd hfalse Bool.false_ne_true⟩
  · have hpos : 0 ≤ s.groupFor user
      := by
      rcases h.groupFor_cases hlen user with habsent | ⟨k, packet, hk, -⟩
      · exact absurd habsent hgroup
      · omega
    have hposition : (s.locateGop elapsed user).2.outIndex = s.groupFor user - 1
      := by
      obtain ⟨-, hindex⟩ := s.findHeaders_frame (s.groupFor user)
        { user with outIndex := s.groupFor user - 1 }
      have hgo := hgroup
      rw [LiveStream.groupFor] at hgo
      rw [LiveStream.locateGop]
      dsimp only
      rw [if_neg hgo]
      split
      · rw [(LiveStream.waiting_frame elapsed _).2]
        exact hindex
      · exact hindex
    obtain ⟨hring, packet, hpacket, hentry⟩ :=
      h.entry_of_holdsFrame hlen user hpos (hfound.resolve_left (by omega))
    have hnext : Next past last (s.groupFor user - 1)
      := by
      right
      refine ⟨packet, ?_, hentry⟩
      rw [Int.sub_add_cancel, hpacket]
    rw [hposition]
    refine ⟨by omega, ?_, fun _ => ⟨hring, hnext⟩⟩
    by_cases hzero : s.groupFor user = 0
    · left
      omega
    · right
      exact ⟨by omega, hnext⟩

/-- What is seen of a player in a call that it enters well. -/
theorem enters_getFrames (h : Indexed past s) (hlen : past.length ≤ 2 ^ 31) (elapsed : UInt64)
    {last : Option Int} {user : PlayerUser ε} (hplaced : Placed past last user.outIndex)
    (hwell : s.seeks user = true →
      (s.groupFor user ≤ user.outIndex ∨ s.holdsFrame (s.groupFor user) = true) ∧
        (s.passed user = true → s.groupFor user ≠ -1)) :
  EntersAtKeyFrames last (Broadcast.entriesOfGetFrames s elapsed user) ∧
    Placed past (lastIndex last (Broadcast.entriesOfGetFrames s elapsed user))
      (s.getFrames elapsed user).outIndex
  := by
  rw [Broadcast.entriesOfGetFrames]
  by_cases hactive : s.hasMedia = true ∧ LiveStream.pending user = false
  · rcases hplaced with hnone | ⟨hlow, hnext⟩
    · have hskips : Broadcast.skips s user = false := by simp [Broadcast.skips, hnone]
      have hseeks : s.seeks user = true
        := by simp [LiveStream.seeks, hactive.1, hactive.2, hnone]
      obtain ⟨hkept, -⟩ := s.locateGop_frame elapsed user
      obtain ⟨hlow, hplaced, hlocated⟩ := h.next_locate hlen elapsed last hnone (hwell hseeks).1
      have hposition : ¬ user.outIndex ≥ 0 := by omega
      have hcall : s.getFrames elapsed user =
          if (s.locateGop elapsed user).1 then s.getNextFrame (s.locateGop elapsed user).2
          else (s.locateGop elapsed user).2
        := by
        rw [LiveStream.getFrames, hactive.1, hactive.2, if_neg hposition]
        rcases s.locateGop elapsed user with ⟨found, user'⟩
        cases found with
        | false => rfl
        | true => rfl
      rw [hskips, hcall]
      cases hfound : (s.locateGop elapsed user).1 with
      | false =>
          simp only [Bool.false_eq_true, if_false]
          rw [hkept, List.drop_length]
          exact ⟨trivial, hplaced⟩
      | true =>
          obtain ⟨hring, hnext⟩ := hlocated hfound
          obtain ⟨frames, hout, henters, hplaced'⟩ := h.enters_getNextFrame hlen hlow hring hnext
          simp only [if_true, Bool.false_eq_true, if_false]
          rw [hout, hkept, List.drop_left]
          exact ⟨henters, hplaced'⟩
    · obtain ⟨hlow', hring, hnext'⟩ := h.next_skip hlen hlow hnext hactive hwell
      obtain ⟨frames, hout, henters, hplaced'⟩ :=
        h.enters_getNextFrame hlen (by omega) hring hnext'
      have hcall : s.getFrames elapsed user =
          s.getNextFrame (if s.needSkip user then s.skipFrame user else user)
        := by simp [LiveStream.getFrames, hactive.1, hactive.2, hlow]
      have hkept : (if s.needSkip user then s.skipFrame user else user).outFrames = user.outFrames
        := by
        split
        · exact (s.skipFrame_frame user).1
        · rfl
      rw [hcall, hout, hkept, List.drop_left]
      -- a skip delivers nothing
      cases Broadcast.skips s user with
      | false => exact ⟨henters, hplaced'⟩
      | true => exact ⟨henters, hplaced'⟩
  · have hidle : s.getFrames elapsed user = user ∧ Broadcast.skips s user = false
      := by
      cases hmedia : s.hasMedia with
      | false => simp [LiveStream.getFrames, Broadcast.skips, hmedia]
      | true =>
          cases hpending : LiveStream.pending user with
          | false => exact absurd ⟨hmedia, hpending⟩ hactive
          | true => simp [LiveStream.getFrames, Broadcast.skips, hmedia, hpending]
    rw [hidle.1, hidle.2, List.drop_length]
    exact ⟨trivial, hplaced⟩

end Indexed

/-! ### Runs -/

namespace Broadcast

/-- What is seen of a player in a call that it enters well, and where it leaves the player. -/
theorem enters_step (i : Nat) {past : List (Packet ε)} {b : Broadcast ε}
    (h : Indexed past b.stream) (hlen : past.length ≤ 2 ^ 31) {last : Option Int}
    (hplaced : Placed past last (b.users i).outIndex) (e : StreamEvent ε)
    (hwell : EntersWell i b e) :
  (past ++ b.addedBy e).length ≤ 2 ^ 31 ∧
    EntersAtKeyFrames last (b.entries i e) ∧
    Placed (past ++ b.addedBy e) (lastIndex last (b.entries i e)) ((b.step e).users i).outIndex
  := by
  -- a player that takes what it got stays where it is
  have htake : ∀ (j : Nat) (user : PlayerUser ε), user.outIndex = (b.users j).outIndex →
      (past ++ []).length ≤ 2 ^ 31 ∧ EntersAtKeyFrames last ([] : List (PlayerEntry ε)) ∧
        Placed (past ++ []) last ((b.setUser j user).users i).outIndex
    := by
    intro j user huser
    have hstay : ((b.setUser j user).users i).outIndex = (b.users i).outIndex
      := by
      rw [setUser]
      dsimp only
      split
      · rename_i hij
        rw [huser, hij]
      · rfl
    rw [List.append_nil, hstay]
    exact ⟨hlen, trivial, hplaced⟩
  cases e with
  | addPacket packet =>
      have hlength : (past ++ b.addedBy (.addPacket packet)).length = past.length + 1
        := List.length_append
      have hfew : b.stream.frameIndex + 1 < 2 ^ 31 := hwell
      rw [h.next_eq] at hfew
      exact ⟨by omega, trivial, hplaced.mono (List.prefix_append _ _)⟩
  | getFrames j elapsed =>
      have hadded : past ++ b.addedBy (.getFrames j elapsed) = past := List.append_nil past
      rw [hadded, entries]
      by_cases hij : i = j
      · subst hij
        have huser : (b.step (.getFrames i elapsed)).users i =
            b.stream.getFrames elapsed (b.users i)
          := if_pos rfl
        rw [huser, if_pos rfl]
        exact ⟨hlen, h.enters_getFrames hlen elapsed hplaced (hwell rfl)⟩
      · have huser : (b.step (.getFrames j elapsed)).users i = b.users i := if_neg hij
        rw [huser, if_neg hij]
        exact ⟨hlen, trivial, hplaced⟩
  | clearMeta j => exact htake j _ rfl
  | clearAudioHeader j => exact htake j _ rfl
  | clearVideoHeader j => exact htake j _ rfl
  | clearOutFrames j => exact htake j _ rfl

theorem enters_log (i : Nat) (events : List (StreamEvent ε)) {past : List (Packet ε)}
    {b : Broadcast ε} (h : Indexed past b.stream) (hlen : past.length ≤ 2 ^ 31)
    {last : Option Int} (hplaced : Placed past last (b.users i).outIndex)
    (hwell : Steps step (EntersWell i) b events) :
  EntersAtKeyFrames last (log i b events)
  := by
  induction events generalizing past b last with
  | nil => trivial
  | cons e events ih =>
      obtain ⟨hlen', henters, hplaced'⟩ := enters_step i h hlen hplaced e hwell.1
      rw [log, entersAtKeyFrames_append]
      exact ⟨henters, ih (indexed_step h e) hlen' hplaced' hwell.2⟩

/-- In a run whose calls on behalf of a player enter well, the player enters the stream at key
frames that are not codec headers. -/
theorem entersAtKeyFrames_of_entersWell (latency : Nat → Int) (events : List (StreamEvent ε))
    (i : Nat) (h : Steps step (EntersWell i) (start latency) events) :
  EntersAtKeyFrames none (log i (start latency) events)
  := enters_log i events indexed_start (Nat.zero_le _) (.inl rfl) h

/-- A video header, and four seconds later a key frame and a frame, got by a player with a
latency of three seconds. -/
def joinAtKeyFrame : List (StreamEvent Unit) :=
  [.addPacket (videoPacket 0 0x17 0),
    .addPacket (videoPacket 4000 0x17 1),
    .getFrames 0 0,
    .clearVideoHeader 0,
    .clearOutFrames 0,
    .addPacket (videoPacket 4040 0x27 1),
    .getFrames 0 0]

theorem entersAtKeyFrames_joinAtKeyFrame :
  deliveredIndices (log 0 (start fun _ => 3000) joinAtKeyFrame) = [1, 2] ∧
    EntersAtKeyFrames none (log 0 (start fun _ => 3000) joinAtKeyFrame)
  := by
  refine ⟨by decide +kernel, entersAtKeyFrames_of_entersWell (fun _ => 3000) joinAtKeyFrame 0 ?_⟩
  simp only [joinAtKeyFrame, Steps, EntersWell]
  decide +kernel

/-- A player that gets a new stream is given its video header first. -/
theorem not_entersAtKeyFrames_videoHeader :
  ¬ ∀ (latency : Nat → Int) (events : List (StreamEvent Unit)) (i : Nat),
    EntersAtKeyFrames none (log i (start latency) events)
  := by
  intro h
  have henters := h (fun _ => 3000) [.addPacket (videoPacket 0 0x17 0), .getFrames 0 0] 0
  revert henters
  decide +kernel

end Broadcast
