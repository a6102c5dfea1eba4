import Tmms.Live.RtpHistory

/-!
# Packets asked for again

A feedback message names packets by the 16 bits in their headers, and a packet in a queue is
found under its index, which has the 32 bits of `sequence_`.  The two agree for the first
65535 packets of a track and differ from then on, so a message finds the last packets of a
track exactly as long as their numbers have 16 bits (`retransmits_iff`).
-/

namespace WebrtcPlayer

/-- The packets of a track that were sent, in order, without those sent again. -/
def sentPackets (audio : Bool) (outs : List RtpOutput) : List (Packet Unit) :=
  emitted audio (outs.filter fun o => o.protection.isSome)

/-- The last 500 of some packets. -/
def lately (packets : List (Packet Unit)) : List (Packet Unit) :=
  packets.drop (packets.length - rtpQueueSize)

/-- A message that names one of the last packets of a track selects that packet, and one that
names none of them selects nothing. -/
def Retransmits (w : WebrtcPlayer) (audio : Bool) (sent : List (Packet Unit)) : Prop :=
  ∀ seq : UInt16,
    (∀ p ∈ lately sent, p.wireSeq = seq → w.lostPackets (w.ssrcOf audio) [seq] = [p]) ∧
      ((∀ p ∈ lately sent, p.wireSeq ≠ seq) → w.lostPackets (w.ssrcOf audio) [seq] = [])

/-- The number of the packet at a position. -/
def numberAt (i : Nat) : Nat := (i + 1) % 4294967296

/-! ### Selecting -/

/-- The message for one number looks into one slot. -/
theorem lostPackets_singleton {w : WebrtcPlayer} {handed : List RtpOutput}
    (h : Tracks w handed []) (audio : Bool) (seq : UInt16) :
  w.lostPackets (w.ssrcOf audio) [seq] = (getPacket (w.queueOf audio) seq.toNat).toList
  := by
  have hvideo : w.rtpMuxer.videoRtp.ssrc = w.ssrcOf false := h.ssrc_eq false
  have haudio : w.rtpMuxer.audioRtp.ssrc = w.ssrcOf true := h.ssrc_eq true
  have hone : ∀ o : Option (Packet Unit), [seq].filterMap (fun _ => o) = o.toList
    := by
    intro o
    cases o with
    | none => rfl
    | some p => rfl
  rw [lostPackets, hvideo, haudio]
  cases audio with
  | false =>
      have hne : (w.ssrcOf false == w.ssrcOf true) = false
        := beq_eq_false_iff_ne.mpr (w.ssrcOf_ne Bool.false_ne_true)
      rw [hne, beq_self_eq_true]
      exact hone (getPacket w.videoQueue seq.toNat)
  | true =>
      rw [beq_self_eq_true]
      exact hone (getPacket w.audioQueue seq.toNat)

/-- A packet that was handed out has its number as the index and in the header. -/
theorem Tracks.stamped {w : WebrtcPlayer} {handed : List RtpOutput} (h : Tracks w handed [])
    {audio : Bool} {i : Nat} {p : Packet Unit} (hi : (emitted audio handed)[i]? = some p) :
  p.index = int32 (UInt32.ofNat (i + 1)) ∧ p.wireSeq.toNat = numberAt i % 65536
  := by
  have hcounted := h.counted audio
  have hall : emitted audio handed ++ ofTrack audio [] = emitted audio handed
    := List.append_nil _
  rw [hall] at hcounted
  have hstamped := hcounted.getElem hi
  rw [UInt32.zero_add] at hstamped
  refine ⟨hstamped.index_eq, ?_⟩
  rw [hstamped.wireSeq_eq, UInt32.toNat_toUInt16, UInt32.toNat_ofNat', numberAt]

/-- An index is a sequence number of 16 bits only if it is the number of the packet. -/
theorem index_eq_iff (i : Nat) (seq : UInt16) :
  int32 (UInt32.ofNat (i + 1)) = seq.toNat ↔ numberAt i = seq.toNat
  := by
  have hseq : seq.toNat < 65536 := seq.toNat_lt
  have hnat : (UInt32.ofNat (i + 1)).toBitVec.toNat = (i + 1) % 4294967296 := UInt32.toNat_ofNat'
  rw [int32, BitVec.toInt_eq_toNat_cond, hnat, numberAt]
  split
  · omega
  · omega

theorem slotAt_of_lt {i : Nat} (h : numberAt i < 65536) :
  slotAt i = numberAt i
  := by
  rw [numberAt] at h
  rw [slotAt_eq, if_pos (by omega), numberAt]

/-! ### The last packets -/

theorem mem_lately {packets : List (Packet Unit)} {p : Packet Unit} :
  p ∈ lately packets ↔ ∃ i, packets[i]? = some p ∧ packets.length ≤ i + rtpQueueSize
  := by
  rw [lately, List.mem_iff_getElem?]
  constructor
  · rintro ⟨k, hk⟩
    rw [List.getElem?_drop] at hk
    exact ⟨_, hk, by omega⟩
  · rintro ⟨i, hi, hrecent⟩
    refine ⟨i - (packets.length - rtpQueueSize), ?_⟩
    have hpos : packets.length - rtpQueueSize + (i - (packets.length - rtpQueueSize)) = i
      := by omega
    rw [List.getElem?_drop, hpos, hi]

/-- Every slot is the one of a packet among the last 500, while the numbers do not wrap. -/
theorem exists_slotAt {n : Nat} (hn : rtpQueueSize ≤ n)
    (h : ∀ i < n, n ≤ i + rtpQueueSize → numberAt i < 65536) (j : Nat) :
  ∃ k < n, n ≤ k + rtpQueueSize ∧ slotAt k % rtpQueueSize = j % rtpQueueSize
  := by
  have hsize : rtpQueueSize = 500 := rfl
  have hfirst : numberAt (n - 500) < 65536 := h (n - 500) (by omega) (by omega)
  rw [numberAt] at hfirst
  have hoffset : (j + 499 * numberAt (n - 500)) % 500 < 500 := Nat.mod_lt _ (by omega)
  have hslot : (numberAt (n - 500) + (j + 499 * numberAt (n - 500)) % 500) % 500 = j % 500
    := by omega
  generalize (j + 499 * numberAt (n - 500)) % 500 = offset at hoffset hslot
  have hk : n - 500 + offset < n := by omega
  have hnumber : numberAt (n - 500 + offset) = numberAt (n - 500) + offset
    := by
    rw [numberAt, numberAt]
    omega
  refine ⟨n - 500 + offset, hk, by omega, ?_⟩
  rw [slotAt_of_lt (h _ hk (by omega)), hnumber]
  exact hslot

/-- No two of the last packets share a slot, while the numbers do not wrap. -/
theorem slotAt_ne {n i k : Nat} (h : ∀ i < n, n ≤ i + rtpQueueSize → numberAt i < 65536)
    (hi : n ≤ i + rtpQueueSize) (hik : i < k) (hk : k < n) :
  slotAt k % rtpQueueSize ≠ slotAt i % rtpQueueSize
  := by
  have hsize : rtpQueueSize = 500 := rfl
  have hnumber : numberAt i < 65536 := h i (by omega) hi
  have hstep : numberAt k = numberAt i + (k - i)
    := by
    rw [numberAt] at hnumber
    rw [numberAt, numberAt]
    omega
  rw [slotAt_of_lt hnumber, slotAt_of_lt (h k hk (by omega)), hsize, hstep]
  omega

/-! ### Messages -/

/-- While the last packets have numbers of 16 bits, the message that names one of them selects
it. -/
theorem Tracks.getPacket_eq {w : WebrtcPlayer} {handed : List RtpOutput} (h : Tracks w handed [])
    {audio : Bool}
    (hnumbers : ∀ i < (emitted audio handed).length,
      (emitted audio handed).length ≤ i + rtpQueueSize → numberAt i < 65536)
    {i : Nat} {p : Packet Unit} (hi : (emitted audio handed)[i]? = some p)
    (hrecent : (emitted audio handed).length ≤ i + rtpQueueSize) :
  getPacket (w.queueOf audio) p.wireSeq.toNat = some p
  := by
  have hlt : i < (emitted audio handed).length := (List.getElem?_eq_some_iff.mp hi).1
  have hnumber := hnumbers i hlt hrecent
  obtain ⟨hindex, hwire⟩ := h.stamped hi
  rw [Nat.mod_eq_of_lt hnumber] at hwire
  have hslot : slotAt i = queueIndex p.wireSeq.toNat
    := by
    rw [slotAt_of_lt hnumber, hwire, queueIndex]
    omega
  have hget : (w.queueOf audio).get (queueIndex p.wireSeq.toNat) = some p
    := by
    rw [← hi, ← hslot]
    exact (h.latest audio).get_eq hlt rfl fun k hik hk => slotAt_ne hnumbers hrecent hik hk
  apply Option.filter_eq_some_iff.mpr
  refine ⟨hget, ?_⟩
  rw [beq_iff_eq, hindex, index_eq_iff, hwire]

/-- While the last packets have numbers of 16 bits, whatever a message selects is one of them
and has the number that the message names. -/
theorem Tracks.of_getPacket_eq_some {w : WebrtcPlayer} {handed : List RtpOutput}
    (h : Tracks w handed []) {audio : Bool}
    (hnumbers : ∀ i < (emitted audio handed).length,
      (emitted audio handed).length ≤ i + rtpQueueSize → numberAt i < 65536)
    {seq : UInt16} {p : Packet Unit} (hp : getPacket (w.queueOf audio) seq.toNat = some p) :
  p ∈ lately (emitted audio handed) ∧ p.wireSeq = seq
  := by
  obtain ⟨hget, hindex⟩ := Option.filter_eq_some_iff.mp hp
  obtain ⟨i, hi, hslot, hlast⟩ := (h.latest audio).of_get_eq_some hget
  obtain ⟨hstamp, hwire⟩ := h.stamped hi
  have hrecent : (emitted audio handed).length ≤ i + rtpQueueSize
    := by
    -- otherwise one of the last packets was put into the slot later
    by_contra hold
    obtain ⟨k, hk, hk', hsame⟩ := exists_slotAt (by omega) hnumbers (slotAt i)
    exact hlast k (by omega) hk (hsame.trans hslot)
  refine ⟨mem_lately.mpr ⟨i, hi, hrecent⟩, ?_⟩
  rw [beq_iff_eq, hstamp, index_eq_iff] at hindex
  apply UInt16.toNat_inj.mp
  rw [hwire, hindex, Nat.mod_eq_of_lt seq.toNat_lt]

/-- A packet with a number of more than 16 bits is selected by no message. -/
theorem Tracks.getPacket_ne {w : WebrtcPlayer} {handed : List RtpOutput} (h : Tracks w handed [])
    {audio : Bool} {i : Nat} {p : Packet Unit} (hi : (emitted audio handed)[i]? = some p)
    (hnumber : 65536 ≤ numberAt i) (seq : UInt16) :
  getPacket (w.queueOf audio) seq.toNat ≠ some p
  := by
  intro hp
  obtain ⟨_, hindex⟩ := Option.filter_eq_some_iff.mp hp
  rw [beq_iff_eq, (h.stamped hi).1, index_eq_iff] at hindex
  exact absurd seq.toNat_lt (by omega)

/-- A player finds the last packets exactly as long as they have numbers of 16 bits. -/
theorem Tracks.retransmits {w : WebrtcPlayer} {handed : List RtpOutput} (h : Tracks w handed [])
    (audio : Bool) :
  Retransmits w audio (emitted audio handed) ↔
    ∀ i < (emitted audio handed).length,
      (emitted audio handed).length ≤ i + rtpQueueSize → numberAt i < 65536
  := by
  constructor
  · intro hall i hi hrecent
    by_contra hnumber
    have hp : (emitted audio handed)[i]? = some (emitted audio handed)[i]
      := List.getElem?_eq_getElem hi
    have hfound := (hall _).1 _ (mem_lately.mpr ⟨i, hp, hrecent⟩) rfl
    rw [lostPackets_singleton h] at hfound
    apply h.getPacket_ne hp (Nat.le_of_not_lt hnumber) _ (Option.toList_eq_singleton_iff.mp hfound)
  · intro hnumbers seq
    constructor
    · intro p hp hseq
      obtain ⟨i, hi, hrecent⟩ := mem_lately.mp hp
      rw [lostPackets_singleton h, ← hseq, h.getPacket_eq hnumbers hi hrecent]
      rfl
    · intro hother
      rw [lostPackets_singleton h, Option.toList_eq_nil_iff, Option.eq_none_iff_forall_ne_some]
      intro p hp
      obtain ⟨hmem, hseq⟩ := h.of_getPacket_eq_some hnumbers hp
      exact hother p hmem hseq

/-! ### Runs -/

/-- While no packet is refused, the packets of a track that were handed out were sent. -/
theorem sentPackets_eq {outs : List RtpOutput} (audio : Bool)
    (h : ∀ o ∈ outs, o.again = false → o.protection.isSome = true) :
  sentPackets audio outs = emitted audio outs
  := by
  rw [sentPackets, emitted, emitted, List.filter_filter]
  congr 2
  apply List.filter_congr
  intro o ho
  cases hagain : o.again with
  | false => rw [h o ho hagain]; rfl
  | true => rfl

/-- In a run in which no handshake finishes after a packet was handed out and in which no packet
is refused, the last packets sent are found exactly as long as their numbers have 16 bits. -/
theorem retransmits_iff (videoPayloadType audioPayloadType : UInt8) (audioSsrc : UInt32)
    (material : List UInt8) (events : List WebrtcEvent)
    (h : Undisturbed (connected videoPayloadType audioPayloadType audioSsrc material) [] events)
    (hsent : ∀ o ∈ (connected videoPayloadType audioPayloadType audioSsrc material).outputs events,
      o.again = false → o.protection.isSome = true) (audio : Bool) :
  Retransmits ((connected videoPayloadType audioPayloadType audioSsrc material).run events) audio
      (sentPackets audio
        ((connected videoPayloadType audioPayloadType audioSsrc material).outputs events)) ↔
    ∀ i < (sentPackets audio
        ((connected videoPayloadType audioPayloadType audioSsrc material).outputs events)).length,
      (sentPackets audio
          ((connected videoPayloadType audioPayloadType audioSsrc material).outputs
            events)).length ≤ i + rtpQueueSize →
        numberAt i < 65536
  := by
  obtain ⟨hfresh, _⟩ := connected_fresh videoPayloadType audioPayloadType audioSsrc material
  obtain ⟨htracks, _⟩ := tracks_run events hfresh h
  rw [sentPackets_eq audio hsent]
  exact htracks.retransmits audio

/-- A handshake, two frames, and a message for the second packet. -/
def watchShortly : List WebrtcEvent :=
  [.dtls (List.replicate 60 7), .media [.audio [⟨[1], by decide⟩], .audio [⟨[2], by decide⟩]],
    .rtpfb 1000 [2]]

theorem retransmits_watchShortly :
  Retransmits ((connected 96 111 1000 (List.replicate 60 7)).run watchShortly) true
      (sentPackets true
        ((connected 96 111 1000 (List.replicate 60 7)).outputs watchShortly)) ↔
    ∀ i < (sentPackets true
        ((connected 96 111 1000 (List.replicate 60 7)).outputs watchShortly)).length,
      (sentPackets true
          ((connected 96 111 1000 (List.replicate 60 7)).outputs watchShortly)).length ≤
          i + rtpQueueSize →
        numberAt i < 65536
  := by
  apply retransmits_iff 96 111 1000 (List.replicate 60 7) watchShortly
  · refine ⟨?_, ?_, ?_, trivial⟩
    · intro _ _
      rfl
    · rintro _ ⟨⟩
    · rintro _ ⟨⟩
  · decide +kernel

/-! ### Audio alone -/

/-- Media that is one frame of audio. -/
def audioOnly (frame : OpusFrame) : WebrtcEvent := .media [.audio [frame]]

/-- A frame of audio makes one small packet. -/
theorem step_audioOnly (w : WebrtcPlayer) (frame : OpusFrame) :
  ∃ o, (w.step (audioOnly frame)).2 = [o] ∧ o.again = false ∧ o.packet.isAudio = true ∧
    o.packet.Small
  := by
  refine ⟨_, rfl, rfl, rfl, ?_⟩
  apply small_encodeOpus w.rtpMuxer.audioRtp [frame]
  exact List.mem_singleton_self _

theorem outputs_audioOnly (n : Nat) (frame : OpusFrame) (w : WebrtcPlayer) :
  (w.outputs (List.replicate n (audioOnly frame))).length = n ∧
    ∀ o ∈ w.outputs (List.replicate n (audioOnly frame)),
      o.again = false ∧ o.packet.isAudio = true ∧ o.packet.Small
  := by
  induction n generalizing w with
  | zero =>
      refine ⟨rfl, ?_⟩
      intro o ho
      cases ho
  | succ n ih =>
      obtain ⟨hlength, hall⟩ := ih (w.step (audioOnly frame)).1
      obtain ⟨o, houts, ho⟩ := w.step_audioOnly frame
      rw [List.replicate_succ, outputs, houts]
      refine ⟨congrArg (· + 1) hlength, ?_⟩
      intro o' ho'
      rcases List.mem_cons.mp ho' with rfl | ho'
      · exact ho
      · exact hall o' ho'

theorem undisturbed_audioOnly (n : Nat) (frame : OpusFrame) (w : WebrtcPlayer)
    (handed : List RtpOutput) :
  Undisturbed w handed (List.replicate n (audioOnly frame))
  := by
  induction n generalizing w handed with
  | zero => trivial
  | succ n ih =>
      refine ⟨?_, ih _ _⟩
      rintro _ ⟨⟩

/-- A run with nothing but audio sends a packet for every frame. -/
theorem sentPackets_audioOnly (videoPayloadType audioPayloadType : UInt8) (audioSsrc : UInt32)
    (material : List UInt8) (frame : OpusFrame) {n : Nat} (hlen : n < 2 ^ 48 - 1) :
  let w := connected videoPayloadType audioPayloadType audioSsrc material
  let outs := w.outputs (List.replicate n (audioOnly frame))
  sentPackets true outs = emitted true outs ∧ (emitted true outs).length = n ∧
    Tracks (w.run (List.replicate n (audioOnly frame))) outs []
  := by
  intro w outs
  obtain ⟨hfresh, hindices⟩ := connected_fresh videoPayloadType audioPayloadType audioSsrc material
  obtain ⟨hlength, hall⟩ := outputs_audioOnly n frame w
  obtain ⟨htracks, hrun⟩ := tracks_run _ hfresh (undisturbed_audioOnly n frame w [])
  have hsent : ∀ o ∈ outs, o.again = false → o.protection.isSome = true
    := by
    intro o ho _
    have hshort : ([] ++ outs).length < 2 ^ 48 - 1 := hlength ▸ hlen
    rw [Option.isSome_iff_ne_none]
    intro hnone
    exact (hrun hindices hshort).large_of_none o ho hnone (hall o ho).2.2
  have hpackets : emitted true outs = outs.map RtpOutput.packet
    := by
    have hfirst : outs.filter (fun o => !o.again) = outs
      := by
      apply List.filter_eq_self.mpr
      intro o ho
      rw [(hall o ho).1]
      rfl
    rw [emitted, hfirst]
    apply List.filter_eq_self.mpr
    intro p hp
    obtain ⟨o, ho, rfl⟩ := List.mem_map.mp hp
    rw [(hall o ho).2.1]
    rfl
  refine ⟨sentPackets_eq true hsent, ?_, htracks⟩
  rw [hpackets, List.length_map, hlength]

/-- Frames of audio, ten milliseconds each, for less than eleven minutes. -/
def longRun : List WebrtcEvent := List.replicate 65536 (audioOnly ⟨[0], by decide⟩)

/-- The packet with the number 65536 has the number 0 in its header, and is not found. -/
theorem not_retransmits_longRun :
  ¬ Retransmits ((connected 96 111 1000 (List.replicate 60 7)).run longRun) true
      (sentPackets true ((connected 96 111 1000 (List.replicate 60 7)).outputs longRun))
  := by
  obtain ⟨hsent, hlength, htracks⟩ := sentPackets_audioOnly 96 111 1000 (List.replicate 60 7)
    ⟨[0], by decide⟩ (show 65536 < 2 ^ 48 - 1 by decide +kernel)
  have hsize : rtpQueueSize = 500 := rfl
  intro h
  rw [longRun, hsent, htracks.retransmits true, hlength] at h
  have hlast := h 65535 (Nat.lt_succ_self _) (by rw [hsize]; exact Nat.le_add_right 65536 499)
  rw [numberAt] at hlast
  omega

end WebrtcPlayer
