import Tmms.Live.Stream

/-!
# What players get from a stream

Everything `GetFrames` gives to a player has been added to the stream, so a property that all
packets have when they are put into the stream holds of what the player has at hand.
-/

variable {ε : Type} {P : Packet ε → Prop}

/-! ### Codec headers -/

namespace CodecHeader

/-- All packets that are kept. -/
def packets (c : CodecHeader ε) : List (Packet ε) :=
  c.metaData.toList ++ c.metaPackets ++ (c.audioHeader.toList ++ c.audioHeaderPackets) ++
    (c.videoHeader.toList ++ c.videoHeaderPackets)

theorem mem_of_latestBefore {packets : List (Packet ε)} {last : Option (Packet ε)} {idx : Int}
    {packet : Packet ε} (h : latestBefore packets last idx = some packet) :
  packet ∈ last.toList ++ packets
  := by
  rw [List.mem_append, Option.mem_toList]
  rw [latestBefore] at h
  split at h
  · exact .inl h
  · rcases Option.or_eq_some_iff.mp h with hfind | ⟨-, hlast⟩
    · exact .inr (List.mem_reverse.mp (List.mem_of_find?_eq_some hfind))
    · exact .inl hlast

theorem mem_of_getMeta {c : CodecHeader ε} {idx : Int} {packet : Packet ε}
    (h : c.getMeta idx = some packet) :
  packet ∈ c.packets
  := by
  apply List.mem_append_left
  apply List.mem_append_left
  exact mem_of_latestBefore h

theorem mem_of_getAudioHeader {c : CodecHeader ε} {idx : Int} {packet : Packet ε}
    (h : c.getAudioHeader idx = some packet) :
  packet ∈ c.packets
  := by
  apply List.mem_append_left
  apply List.mem_append_right
  exact mem_of_latestBefore h

theorem mem_of_getVideoHeader {c : CodecHeader ε} {idx : Int} {packet : Packet ε}
    (h : c.getVideoHeader idx = some packet) :
  packet ∈ c.packets
  := by
  apply List.mem_append_right
  exact mem_of_latestBefore h

/-- A header that is parsed is kept, and nothing else is new. -/
theorem mem_packets_parseCodecHeader {c : CodecHeader ε} {packet p : Packet ε}
    (h : p ∈ (c.parseCodecHeader packet).packets) :
  p = packet ∨ p ∈ c.packets
  := by
  rw [parseCodecHeader] at h
  split at h
  · simp only [saveMeta, packets, List.mem_append, Option.mem_toList, Option.some.injEq,
      List.mem_singleton] at h ⊢
    tauto
  · split at h
    · simp only [saveAudioHeader, packets, List.mem_append, Option.mem_toList, Option.some.injEq,
        List.mem_singleton] at h ⊢
      tauto
    · split at h
      · simp only [saveVideoHeader, packets, List.mem_append, Option.mem_toList,
          Option.some.injEq, List.mem_singleton] at h ⊢
        tauto
      · exact .inr h

end CodecHeader

/-! ### Streams -/

namespace LiveStream

/-- All packets of a stream have a property. -/
structure Holds (P : Packet ε → Prop) (s : LiveStream ε) : Prop where
  ring : ∀ i packet, s.packetBuffer.get i = some packet → P packet
  headers : ∀ packet ∈ s.codecHeaders.packets, P packet

theorem holds_empty :
  ({} : LiveStream ε).Holds P
  where
  ring i packet h := by
    rw [RingBuffer.get_empty] at h
    cases h
  headers packet h := absurd h List.not_mem_nil

theorem codecHeaders_parseHeader (s : LiveStream ε) (packet : Packet ε) :
  (s.parseHeader packet).codecHeaders = s.codecHeaders ∨
    (s.parseHeader packet).codecHeaders = s.codecHeaders.parseCodecHeader packet
  := by
  rw [parseHeader]
  split
  · right
    dsimp only
    repeat' split
    all_goals rfl
  · left
    rfl

/-- A packet is put into the stream as it is stamped. -/
theorem Holds.addPacket {s : LiveStream ε} (h : s.Holds P) {packet : Packet ε}
    (hpacket : P (s.stamp packet)) :
  (s.addPacket packet).Holds P
  where
  ring i p hp := by
    rw [(s.addPacket_frame packet).2.1] at hp
    by_cases hslot : (s.frameIndex + 1).toNat % packetBufferSize = i % packetBufferSize
    · rw [RingBuffer.get_put_of_eq _ _ hslot] at hp
      obtain rfl := Option.some.inj hp
      exact hpacket
    · rw [RingBuffer.get_put_of_ne _ _ hslot] at hp
      apply h.ring i p hp
  headers p hp := by
    have hsame : ∀ c : CodecHeader ε,
        c = s.codecHeaders ∨ c = s.codecHeaders.parseCodecHeader (s.stamp packet) →
        p ∈ c.packets → P p
      := by
      rintro c (rfl | rfl) hmem
      · apply h.headers p hmem
      · rcases CodecHeader.mem_packets_parseCodecHeader hmem with rfl | hold
        · exact hpacket
        · apply h.headers p hold
    apply hsame _ _ hp
    rw [LiveStream.addPacket]
    dsimp only
    split
    · apply codecHeaders_parseHeader
    · apply codecHeaders_parseHeader

end LiveStream

/-! ### Players -/

namespace PlayerUser

/-- What a player has at hand, in the order in which it is sent, and whether it is sent as a
header. -/
def atHand (user : PlayerUser ε) : List (Packet ε × Bool) :=
  (user.metaData.toList ++ user.audioHeader.toList ++ user.videoHeader.toList).map (·, true) ++
    user.outFrames.map (·, false)

/-- Everything a player has at hand has a property. -/
structure Holds (P : Packet ε → Prop) (user : PlayerUser ε) : Prop where
  metaData : ∀ packet, user.metaData = some packet → P packet
  audioHeader : ∀ packet, user.audioHeader = some packet → P packet
  videoHeader : ∀ packet, user.videoHeader = some packet → P packet
  outFrames : ∀ packet ∈ user.outFrames, P packet

/-- Something is pending exactly if something is at hand. -/
theorem pending_eq_false_iff {user : PlayerUser ε} :
  LiveStream.pending user = false ↔ user.atHand = []
  := by
  rw [LiveStream.pending, atHand]
  cases user.metaData <;> cases user.audioHeader <;> cases user.videoHeader <;>
    cases user.outFrames <;> simp

end PlayerUser

namespace LiveStream

variable {s : LiveStream ε} {user : PlayerUser ε}

theorem Holds.findHeaders (h : s.Holds P) (hu : user.Holds P) (idx : Int) :
  (s.findVideoHeader idx (s.findAudioHeader idx (s.findMeta idx user))).Holds P
  := by
  have hmeta : ∀ u : PlayerUser ε, u.Holds P → (s.findMeta idx u).Holds P
    := by
    intro u hu
    rw [findMeta]
    split
    next pkt _ heq =>
      refine { hu with metaData := ?_ }
      rintro packet ⟨⟩
      apply h.headers _ (CodecHeader.mem_of_getMeta heq)
    next => exact { hu with }
  have haudio : ∀ u : PlayerUser ε, u.Holds P → (s.findAudioHeader idx u).Holds P
    := by
    intro u hu
    rw [findAudioHeader]
    split
    next pkt _ heq =>
      refine { hu with audioHeader := ?_ }
      rintro packet ⟨⟩
      apply h.headers _ (CodecHeader.mem_of_getAudioHeader heq)
    next => exact { hu with }
  have hvideo : ∀ u : PlayerUser ε, u.Holds P → (s.findVideoHeader idx u).Holds P
    := by
    intro u hu
    rw [findVideoHeader]
    split
    next pkt _ heq =>
      refine { hu with videoHeader := ?_ }
      rintro packet ⟨⟩
      apply h.headers _ (CodecHeader.mem_of_getVideoHeader heq)
    next => exact { hu with }
  apply hvideo
  apply haudio
  apply hmeta _ hu

theorem Holds.newerHeaders (h : s.Holds P) (hu : user.Holds P) (idx : Int) :
  (s.newerVideoHeader idx (s.newerAudioHeader idx (s.newerMeta idx user))).Holds P
  := by
  have hmeta : ∀ u : PlayerUser ε, u.Holds P → (s.newerMeta idx u).Holds P
    := by
    intro u hu
    rw [newerMeta]
    split
    next pkt heq =>
      split
      · refine { hu with metaData := ?_ }
        rintro packet ⟨⟩
        apply h.headers _ (CodecHeader.mem_of_getMeta heq)
      · exact hu
    next => exact hu
  have haudio : ∀ u : PlayerUser ε, u.Holds P → (s.newerAudioHeader idx u).Holds P
    := by
    intro u hu
    rw [newerAudioHeader]
    split
    next pkt heq =>
      split
      · refine { hu with audioHeader := ?_ }
        rintro packet ⟨⟩
        apply h.headers _ (CodecHeader.mem_of_getAudioHeader heq)
      · exact hu
    next => exact hu
  have hvideo : ∀ u : PlayerUser ε, u.Holds P → (s.newerVideoHeader idx u).Holds P
    := by
    intro u hu
    rw [newerVideoHeader]
    split
    next pkt heq =>
      split
      · refine { hu with videoHeader := ?_ }
        rintro packet ⟨⟩
        apply h.headers _ (CodecHeader.mem_of_getVideoHeader heq)
      · exact hu
    next => exact hu
  apply hvideo
  apply haudio
  apply hmeta _ hu

theorem Holds.getNextFrameLoop (h : s.Holds P) (hu : user.Holds P) (n : Nat) (idx : Int) :
  (s.getNextFrameLoop n idx user).Holds P
  := by
  induction n generalizing idx user with
  | zero => exact hu
  | succ n ih =>
      rw [LiveStream.getNextFrameLoop]
      split
      · exact hu
      · split
        next pkt heq =>
          apply ih
          refine { hu with outFrames := ?_ }
          intro packet hpacket
          rcases List.mem_append.mp hpacket with hold | hnew
          · apply hu.outFrames _ hold
          · rw [List.mem_singleton.mp hnew]
            apply h.ring _ _ heq
        next => exact hu

theorem Holds.skipFrame (h : s.Holds P) (hu : user.Holds P) :
  (s.skipFrame user).Holds P
  := by
  rw [LiveStream.skipFrame]
  dsimp only
  split
  · exact hu
  · exact { h.newerHeaders hu _ with }

theorem Holds.locateGop (h : s.Holds P) (hu : user.Holds P) (elapsed : UInt64) :
  (s.locateGop elapsed user).2.Holds P
  := by
  have hwaiting : ∀ u : PlayerUser ε, u.Holds P → (waiting elapsed u).Holds P
    := by
    intro u hu
    rw [waiting]
    split
    · exact { hu with }
    · exact hu
  rw [LiveStream.locateGop]
  dsimp only
  split
  · apply hwaiting _ hu
  · have hfound : ∀ idx, (s.findVideoHeader idx (s.findAudioHeader idx (s.findMeta idx
        { user with outIndex := idx - 1 }))).Holds P
      := by
      intro idx
      apply h.findHeaders
      exact { hu with }
    split
    · apply hwaiting
      apply hfound
    · exact { hfound _ with }

/-- `GetFrames` hands out packets of the stream. -/
theorem Holds.getFrames (h : s.Holds P) (hu : user.Holds P) (elapsed : UInt64) :
  (s.getFrames elapsed user).Holds P
  := by
  rw [LiveStream.getFrames]
  split
  · exact hu
  · split
    · exact hu
    · split
      · apply h.getNextFrameLoop
        split
        · apply h.skipFrame hu
        · exact hu
      · have hlocate := h.locateGop hu elapsed
        split
        next user' heq =>
          rw [heq] at hlocate
          exact hlocate
        next user' heq =>
          rw [heq] at hlocate
          apply h.getNextFrameLoop hlocate

/-- A player that has something at hand gets nothing more. -/
theorem getFrames_of_pending (elapsed : UInt64) (h : pending user = true) :
  s.getFrames elapsed user = user
  := by
  rw [getFrames, if_pos h]
  split <;> rfl

end LiveStream
