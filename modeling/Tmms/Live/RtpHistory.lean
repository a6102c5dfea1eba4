import Tmms.Live.WebrtcPlayer

/-!
# What a WebRTC player has sent

The history of a player is the list of packets it handed to `RtpProtect`.  The packets of a
track are numbered as they are handed out: the packet at position `i` has the number `i + 1`.
While no handshake finishes after the first packet, the queue of a track has its last packets
(`Tracks`), and packets are protected under their numbers (`Indices`), since the index of a
context is never further behind the last packet than by the one packet of parameter sets that
may be too large.
-/

namespace WebrtcPlayer

/-! ### Tracks -/

/-- The source of a track. -/
def ssrcOf (w : WebrtcPlayer) (audio : Bool) : UInt32 := if audio then w.audioSsrc else w.videoSsrc

/-- The encoder of a track. -/
def rtpOf (m : RtpMuxer) (audio : Bool) : Rtp := if audio then m.audioRtp else m.videoRtp

/-- The queue of a track. -/
def queueOf (w : WebrtcPlayer) (audio : Bool) : RingBuffer (Packet Unit) rtpQueueSize :=
  if audio then w.audioQueue else w.videoQueue

/-- The type of the packets of a track. -/
def trackType (audio : Bool) : Int := if audio then kPacketTypeAudio else kPacketTypeVideo

/-- The packets of a track among some. -/
def ofTrack (audio : Bool) (packets : List (Packet Unit)) : List (Packet Unit) :=
  packets.filter fun p => p.isAudio == audio

/-- The packets of a track that were handed out, without those handed out again. -/
def emitted (audio : Bool) (handed : List RtpOutput) : List (Packet Unit) :=
  ofTrack audio ((handed.filter fun o => !o.again).map RtpOutput.packet)

/-- The slot of the packet at a position. -/
def slotAt (i : Nat) : Nat := queueIndex (int32 (UInt32.ofNat (i + 1)))

theorem ofTrack_append (audio : Bool) (ps qs : List (Packet Unit)) :
  ofTrack audio (ps ++ qs) = ofTrack audio ps ++ ofTrack audio qs
  := List.filter_append _ _

theorem ofTrack_cons_self (p : Packet Unit) (ps : List (Packet Unit)) :
  ofTrack p.isAudio (p :: ps) = p :: ofTrack p.isAudio ps
  := List.filter_cons_of_pos (beq_self_eq_true _)

theorem ofTrack_cons_other {audio : Bool} {p : Packet Unit} (h : p.isAudio ≠ audio)
    (ps : List (Packet Unit)) :
  ofTrack audio (p :: ps) = ofTrack audio ps
  := List.filter_cons_of_neg (by rwa [beq_iff_eq])

theorem emitted_append (audio : Bool) (handed rest : List RtpOutput) :
  emitted audio (handed ++ rest) = emitted audio handed ++ emitted audio rest
  := by rw [emitted, List.filter_append, List.map_append, ofTrack_append, emitted, emitted]

theorem emitted_send_self (handed : List RtpOutput) (p : Packet Unit)
    (protection : Option Protection) :
  emitted p.isAudio (handed ++ [⟨p, false, protection⟩]) = emitted p.isAudio handed ++ [p]
  := by
  rw [emitted_append]
  congr 1
  exact ofTrack_cons_self p []

theorem emitted_send_other {audio : Bool} (handed : List RtpOutput) {p : Packet Unit}
    (protection : Option Protection) (h : p.isAudio ≠ audio) :
  emitted audio (handed ++ [⟨p, false, protection⟩]) = emitted audio handed
  := by
  rw [emitted_append]
  have hnone : emitted audio [⟨p, false, protection⟩] = [] := ofTrack_cons_other h []
  rw [hnone, List.append_nil]

theorem emitted_again (audio : Bool) (handed : List RtpOutput) (p : Packet Unit)
    (protection : Option Protection) :
  emitted audio (handed ++ [⟨p, true, protection⟩]) = emitted audio handed
  := by
  rw [emitted_append]
  exact List.append_nil _

/-! ### Numbers -/

/-- What the muxer and the queues have of the packets handed out and of those that wait. -/
structure Tracks (w : WebrtcPlayer) (handed : List RtpOutput) (pending : List (Packet Unit)) :
    Prop where
  ssrc_eq : ∀ audio, (rtpOf w.rtpMuxer audio).ssrc = w.ssrcOf audio
  counted : ∀ audio,
    Counted (trackType audio) (w.ssrcOf audio) 0 (emitted audio handed ++ ofTrack audio pending)
      (rtpOf w.rtpMuxer audio).sequence
  latest : ∀ audio, RingBuffer.Latest slotAt (emitted audio handed) (w.queueOf audio)
  large : ∀ audio, largeCount (emitted audio handed ++ ofTrack audio pending) ≤
    w.rtpMuxer.headersSent

/-- Whatever was protected under an index before is protected under it again only when it is
handed out again. -/
def OnlyRepeats (handed : List RtpOutput) : Prop :=
  handed.Pairwise fun a b => ∀ protection, a.protection = some protection →
    b.protection = some protection → b.again = true ∧ b.packet = a.packet

/-- What the context of libsrtp has of the packets handed out. -/
structure Indices (w : WebrtcPlayer) (handed : List RtpOutput) : Prop where
  index_le : ∀ audio, w.srtp.index (w.ssrcOf audio) ≤ (emitted audio handed).length
  le_index : ∀ audio, (emitted audio handed).length ≤
    w.srtp.index (w.ssrcOf audio) + largeCount (emitted audio handed)
  left : 2 ^ 48 - 1 ≤ w.srtp.numLeft.toNat + handed.length
  protection : ∀ o ∈ handed, ∀ protection, o.protection = some protection →
    protection.masterKey = w.masterKey ∧ protection.ssrc = w.ssrcOf o.packet.isAudio ∧
      ∃ i, protection.index = i + 1 ∧ (emitted o.packet.isAudio handed)[i]? = some o.packet
  repeats : OnlyRepeats handed
  large_of_none : ∀ o ∈ handed, o.protection = none → ¬ o.packet.Small

/-- The tracks have different sources. -/
theorem ssrcOf_ne (w : WebrtcPlayer) {audio other : Bool} (h : audio ≠ other) :
  w.ssrcOf audio ≠ w.ssrcOf other
  := by
  have hne : w.audioSsrc ≠ w.audioSsrc + 1 := by grind
  cases audio with
  | false =>
      cases other with
      | false => exact absurd rfl h
      | true => exact hne.symm
  | true =>
      cases other with
      | false => exact hne
      | true => exact absurd rfl h

/-! ### Protecting -/

/-- A packet with a number near to the last one of its track is refused for its size, or
protected under its number. -/
theorem protectPacket_cases (w : WebrtcPlayer) (again : Bool) {p : Packet Unit} {i : Nat}
    {type : Int} {ssrc : UInt32} (hp : Stamped type ssrc (0 + UInt32.ofNat (i + 1)) p)
    (hi : i + 1 < 2 ^ 48) (hbefore : w.srtp.index ssrc < i + 1 + 4096)
    (hafter : i + 1 < w.srtp.index ssrc + 2 ^ 15) (hleft : 1 < w.srtp.numLeft.toNat) :
  (¬ p.Small ∧ w.protectPacket again p = (w, ⟨p, again, none⟩)) ∨
    w.protectPacket again p =
      ({ w with srtp := w.srtp.advance ssrc (i + 1) },
        ⟨p, again, some ⟨w.masterKey, ssrc, i + 1⟩⟩)
  := by
  have hwire : p.wireSeq.toNat = (i + 1) % 65536
    := by
    rw [hp.wireSeq_eq, UInt32.zero_add, UInt32.toNat_toUInt16, UInt32.toNat_ofNat']
    omega
  have hprotect : w.srtp.protect p = (some (i + 1), w.srtp.advance ssrc (i + 1))
    := by
    rw [← hp.wireSsrc_eq]
    rw [← hp.wireSsrc_eq] at hbefore hafter
    exact w.srtp.protect_eq hp.header_le hwire hi hbefore hafter hleft
  have hgoes : w.srtp.rtpProtect p = w.srtp.protect p →
      w.protectPacket again p =
        ({ w with srtp := w.srtp.advance ssrc (i + 1) },
          ⟨p, again, some ⟨w.masterKey, ssrc, i + 1⟩⟩)
    := by
    intro h
    rw [protectPacket, h, hprotect, hp.wireSsrc_eq]
    rfl
  by_cases hsmall : p.Small
  · exact .inr (hgoes (w.srtp.rtpProtect_of_small hsmall hp.size_eq))
  · rcases w.srtp.rtpProtect_cases p with hrefused | hpassed
    · left
      rw [protectPacket, hrefused]
      exact ⟨hsmall, rfl⟩
    · exact .inr (hgoes hpassed)

/-- The type of a packet says which track it is of. -/
theorem isAudio_eq {audio : Bool} {ssrc sequence : UInt32} {p : Packet Unit}
    (h : Stamped (trackType audio) ssrc sequence p) :
  p.isAudio = audio
  := by
  rw [Packet.isAudio, h.type_eq]
  cases audio with
  | false => rfl
  | true => rfl

theorem largeCount_singleton {p : Packet Unit} (h : ¬ p.Small) :
  largeCount [p] = 1
  := by
  have hlarge : Rtp.headerSize + kOpusMaxSize < p.data.length := Nat.lt_of_not_le h
  rw [largeCount, List.countP_singleton, if_pos (decide_eq_true hlarge)]

theorem headersSent_le (m : RtpMuxer) :
  m.headersSent ≤ 1
  := by
  rw [RtpMuxer.headersSent]
  split
  · exact Nat.le_refl 1
  · exact Nat.zero_le 1

/-- The packet next in a track has the next number. -/
theorem Tracks.stamped_next {w : WebrtcPlayer} {handed : List RtpOutput} {p : Packet Unit}
    {ps : List (Packet Unit)} (h : Tracks w handed (p :: ps)) :
  Stamped (trackType p.isAudio) (w.ssrcOf p.isAudio)
    (0 + UInt32.ofNat ((emitted p.isAudio handed).length + 1)) p
  := by
  have hcounted := h.counted p.isAudio
  rw [ofTrack_cons_self] at hcounted
  apply hcounted.getElem
  rw [List.getElem?_append_right (Nat.le_refl _), Nat.sub_self]
  rfl

theorem Tracks.large_le {w : WebrtcPlayer} {handed : List RtpOutput}
    {pending : List (Packet Unit)} (h : Tracks w handed pending) (audio : Bool) :
  largeCount (emitted audio handed) ≤ 1
  := by
  have hlarge := h.large audio
  rw [largeCount_append] at hlarge
  have := headersSent_le w.rtpMuxer
  omega

/-- A packet goes into the queue of its track. -/
theorem addPacket_frame (w : WebrtcPlayer) (p : Packet Unit) :
  (w.addPacket p).rtpMuxer = w.rtpMuxer ∧ (w.addPacket p).audioSsrc = w.audioSsrc ∧
    (w.addPacket p).srtp = w.srtp ∧
    (w.addPacket p).queueOf p.isAudio = (w.queueOf p.isAudio).put (queueIndex p.index) p ∧
    ∀ audio, p.isAudio ≠ audio → (w.addPacket p).queueOf audio = w.queueOf audio
  := by
  rw [addPacket]
  cases p.isAudio with
  | false =>
      refine ⟨rfl, rfl, rfl, rfl, ?_⟩
      intro audio haudio
      cases audio with
      | false => exact absurd rfl haudio
      | true => rfl
  | true =>
      refine ⟨rfl, rfl, rfl, rfl, ?_⟩
      intro audio haudio
      cases audio with
      | false => rfl
      | true => exact absurd rfl haudio

/-- Handing out the next packet puts it into the queue of its track. -/
theorem Tracks.send {w : WebrtcPlayer} {handed : List RtpOutput} {p : Packet Unit}
    {ps : List (Packet Unit)} (h : Tracks w handed (p :: ps)) (protection : Option Protection) :
  Tracks (w.addPacket p) (handed ++ [⟨p, false, protection⟩]) ps
  := by
  obtain ⟨hmuxer, hssrc, _, hself, hother⟩ := w.addPacket_frame p
  have hstamped := h.stamped_next
  have hsource : ∀ audio, (w.addPacket p).ssrcOf audio = w.ssrcOf audio
    := by
    intro audio
    rw [ssrcOf, videoSsrc, hssrc, ssrcOf, videoSsrc]
  have hmoved : ∀ audio,
      emitted audio (handed ++ [⟨p, false, protection⟩]) ++ ofTrack audio ps =
        emitted audio handed ++ ofTrack audio (p :: ps)
    := by
    intro audio
    by_cases haudio : p.isAudio = audio
    · subst haudio
      rw [emitted_send_self, ofTrack_cons_self, List.append_assoc, List.singleton_append]
    · rw [emitted_send_other _ _ haudio, ofTrack_cons_other haudio]
  constructor
  · intro audio
    rw [hmuxer, hsource, h.ssrc_eq]
  · intro audio
    rw [hmuxer, hsource, hmoved]
    exact h.counted audio
  · intro audio
    by_cases haudio : p.isAudio = audio
    · subst haudio
      have hindex : queueIndex p.index = slotAt (emitted p.isAudio handed).length
        := by rw [hstamped.index_eq, UInt32.zero_add, slotAt]
      rw [hself, emitted_send_self, hindex]
      exact (h.latest p.isAudio).put p
    · rw [hother audio haudio, emitted_send_other _ _ haudio]
      exact h.latest audio
  · intro audio
    rw [hmuxer, hmoved]
    exact h.large audio

/-- The context does not matter to the tracks. -/
theorem Tracks.withSrtp {w : WebrtcPlayer} {handed : List RtpOutput}
    {pending : List (Packet Unit)} (h : Tracks w handed pending) (srtp : SrtpContext) :
  Tracks { w with srtp := srtp } handed pending
  := ⟨h.ssrc_eq, h.counted, h.latest, h.large⟩

/-- A packet handed out again changes nothing in the tracks. -/
theorem Tracks.again {w : WebrtcPlayer} {handed : List RtpOutput}
    {pending : List (Packet Unit)} (h : Tracks w handed pending) (p : Packet Unit)
    (protection : Option Protection) :
  Tracks w (handed ++ [⟨p, true, protection⟩]) pending
  where
  ssrc_eq := h.ssrc_eq
  counted audio := by
    rw [emitted_again]
    exact h.counted audio
  latest audio := by
    rw [emitted_again]
    exact h.latest audio
  large audio := by
    rw [emitted_again]
    exact h.large audio

/-! ### Indices -/

theorem emitted_prefix {audio : Bool} {handed : List RtpOutput} {i : Nat} {p : Packet Unit}
    (h : (emitted audio handed)[i]? = some p) (rest : List RtpOutput) :
  (emitted audio (handed ++ rest))[i]? = some p
  := by
  rw [emitted_append, List.getElem?_append_left (List.getElem?_eq_some_iff.mp h).1, h]

/-- The protections so far stay, and one is added. -/
theorem Indices.protection_append {w w' : WebrtcPlayer} {handed : List RtpOutput}
    (h : Indices w handed) (hkey : w'.masterKey = w.masterKey) (hssrc : w'.ssrcOf = w.ssrcOf)
    (o : RtpOutput)
    (ho : ∀ protection, o.protection = some protection →
      protection.masterKey = w.masterKey ∧ protection.ssrc = w.ssrcOf o.packet.isAudio ∧
        ∃ i, protection.index = i + 1 ∧
          (emitted o.packet.isAudio (handed ++ [o]))[i]? = some o.packet) :
  ∀ o' ∈ handed ++ [o], ∀ protection, o'.protection = some protection →
    protection.masterKey = w'.masterKey ∧ protection.ssrc = w'.ssrcOf o'.packet.isAudio ∧
      ∃ i, protection.index = i + 1 ∧
        (emitted o'.packet.isAudio (handed ++ [o]))[i]? = some o'.packet
  := by
  intro o' ho' protection hprotection
  rw [hkey, hssrc]
  rcases List.mem_append.mp ho' with hold | hnew
  · obtain ⟨hk, hs, i, hi, hemitted⟩ := h.protection o' hold protection hprotection
    exact ⟨hk, hs, i, hi, emitted_prefix hemitted _⟩
  · cases List.mem_singleton.mp hnew
    exact ho protection hprotection

/-- A packet that is refused for its size is behind the index from then on. -/
theorem Indices.refused {w : WebrtcPlayer} {handed : List RtpOutput} (h : Indices w handed)
    (again : Bool) {p : Packet Unit} (hp : ¬ p.Small) :
  Indices w (handed ++ [⟨p, again, none⟩])
  where
  index_le audio := by
    rw [emitted_append, List.length_append]
    exact Nat.le_trans (h.index_le audio) (Nat.le_add_right _ _)
  le_index audio := by
    have hone : (emitted audio [⟨p, again, none⟩]).length ≤
        largeCount (emitted audio [⟨p, again, none⟩])
      := by
      cases again with
      | true => exact Nat.zero_le _
      | false =>
          by_cases haudio : p.isAudio = audio
          · subst haudio
            have hself : emitted p.isAudio [⟨p, false, none⟩] = [p] := ofTrack_cons_self p []
            rw [hself, largeCount_singleton hp]
            exact Nat.le_refl 1
          · have hnone : emitted audio [⟨p, false, none⟩] = [] := ofTrack_cons_other haudio []
            rw [hnone]
            exact Nat.le_refl 0
    have hle := h.le_index audio
    rw [emitted_append, List.length_append, largeCount_append]
    omega
  left := by
    have hleft := h.left
    rw [List.length_append, List.length_singleton]
    omega
  protection := h.protection_append rfl rfl _ (fun _ hnone => absurd hnone (by simp))
  repeats := by
    apply List.pairwise_append.mpr
    refine ⟨h.repeats, List.pairwise_singleton _ _, ?_⟩
    intro a _ b hb protection _ hprotection
    cases List.mem_singleton.mp hb
    cases hprotection
  large_of_none o ho hnone := by
    rcases List.mem_append.mp ho with hold | hnew
    · exact h.large_of_none o hold hnone
    · cases List.mem_singleton.mp hnew
      exact hp

/-- A packet of a track is protected under its number. -/
theorem Indices.advanced {w : WebrtcPlayer} {handed : List RtpOutput} (h : Indices w handed)
    (again : Bool) {p : Packet Unit} {i : Nat} (hleft : 1 < w.srtp.numLeft.toNat)
    (hp : (emitted p.isAudio (handed ++
      [⟨p, again, some ⟨w.masterKey, w.ssrcOf p.isAudio, i + 1⟩⟩]))[i]? = some p)
    (hlast : again = false → i = (emitted p.isAudio handed).length) :
  Indices { w with srtp := w.srtp.advance (w.ssrcOf p.isAudio) (i + 1) }
    (handed ++ [⟨p, again, some ⟨w.masterKey, w.ssrcOf p.isAudio, i + 1⟩⟩])
  := by
  have hlt : i < (emitted p.isAudio (handed ++
      [⟨p, again, some ⟨w.masterKey, w.ssrcOf p.isAudio, i + 1⟩⟩])).length
    := (List.getElem?_eq_some_iff.mp hp).1
  have hself : (w.srtp.advance (w.ssrcOf p.isAudio) (i + 1)).index (w.ssrcOf p.isAudio) =
      max (w.srtp.index (w.ssrcOf p.isAudio)) (i + 1)
    := if_pos rfl
  have hother : ∀ audio, p.isAudio ≠ audio →
      (w.srtp.advance (w.ssrcOf p.isAudio) (i + 1)).index (w.ssrcOf audio) =
        w.srtp.index (w.ssrcOf audio)
    := fun audio haudio => if_neg (w.ssrcOf_ne haudio.symm)
  constructor
  · intro audio
    change (w.srtp.advance (w.ssrcOf p.isAudio) (i + 1)).index (w.ssrcOf audio) ≤ _
    have hle := h.index_le audio
    by_cases haudio : p.isAudio = audio
    · subst haudio
      rw [hself]
      rw [emitted_append, List.length_append] at hlt ⊢
      omega
    · rw [hother audio haudio, emitted_append, List.length_append]
      omega
  · intro audio
    change _ ≤ (w.srtp.advance (w.ssrcOf p.isAudio) (i + 1)).index (w.ssrcOf audio) + _
    have hle := h.le_index audio
    cases again with
    | true =>
        rw [emitted_again]
        by_cases haudio : p.isAudio = audio
        · subst haudio
          rw [hself]
          omega
        · rw [hother audio haudio]
          exact hle
    | false =>
        by_cases haudio : p.isAudio = audio
        · subst haudio
          rw [hself, emitted_send_self, List.length_append, List.length_singleton, hlast rfl]
          omega
        · rw [hother audio haudio, emitted_send_other _ _ haudio]
          exact hle
  · have hone : (w.srtp.numLeft - 1).toNat = w.srtp.numLeft.toNat - 1
      := UInt64.toNat_sub_of_le _ _ (by rw [UInt64.le_iff_toNat_le]; exact Nat.le_of_lt hleft)
    have hle := h.left
    change 2 ^ 48 - 1 ≤ (w.srtp.numLeft - 1).toNat + _
    rw [hone, List.length_append, List.length_singleton]
    omega
  · apply h.protection_append rfl rfl
    intro protection hprotection
    cases hprotection
    exact ⟨rfl, rfl, i, rfl, hp⟩
  · apply List.pairwise_append.mpr
    refine ⟨h.repeats, List.pairwise_singleton _ _, ?_⟩
    intro a ha b hb protection hbefore hprotection
    cases List.mem_singleton.mp hb
    cases hprotection
    -- the packet that was protected under the number before is the one with the number
    obtain ⟨_, hsource, k, hk, hold⟩ := h.protection a ha _ hbefore
    have hik : i = k := Nat.succ.inj hk
    subst hik
    have htrack : a.packet.isAudio = p.isAudio
      := by
      by_contra hne
      exact w.ssrcOf_ne hne hsource.symm
    have hsame : p = a.packet
      := by
      have hold' := emitted_prefix hold
        [⟨p, again, some ⟨w.masterKey, w.ssrcOf p.isAudio, i + 1⟩⟩]
      rw [htrack, hp] at hold'
      exact Option.some.inj hold'
    refine ⟨?_, hsame⟩
    cases again with
    | true => rfl
    | false =>
        have hnew := hlast rfl
        rw [htrack] at hold
        have hltold := (List.getElem?_eq_some_iff.mp hold).1
        omega
  · intro o ho hnone
    rcases List.mem_append.mp ho with hold | hnew
    · exact h.large_of_none o hold hnone
    · cases List.mem_singleton.mp hnew
      cases hnone

/-- While the key may be used, the context says so. -/
theorem Indices.numLeft_gt {w : WebrtcPlayer} {handed : List RtpOutput} (h : Indices w handed)
    (hlen : handed.length < 2 ^ 48 - 2) :
  1 < w.srtp.numLeft.toNat
  := by
  have := h.left
  omega

/-! ### Slots -/

/-- The slot numbers of indices from `2 ^ 31` on are those of negative numbers. -/
theorem slotAt_eq (i : Nat) :
  slotAt i =
    if (i + 1) % 4294967296 < 2147483648 then (i + 1) % 4294967296
    else (i + 1) % 4294967296 + 18446744069414584320
  := by
  have hnat : (UInt32.ofNat (i + 1)).toBitVec.toNat = (i + 1) % 4294967296 := UInt32.toNat_ofNat'
  rw [slotAt, queueIndex, int32, BitVec.toInt_eq_toNat_cond, hnat]
  split
  · rw [if_pos (by omega)]
    omega
  · rw [if_neg (by omega)]
    omega

/-- A slot is used again after less than two rounds, also where the numbers wrap. -/
theorem slotAt_repeat (i : Nat) :
  ∃ k, i < k ∧ k < i + 1000 ∧ slotAt k % rtpQueueSize = slotAt i % rtpQueueSize
  := by
  have hsize : rtpQueueSize = 500 := rfl
  rw [hsize, slotAt_eq i]
  by_cases hnear : (i + 1) % 2147483648 + 500 < 2147483648
  · use i + 500
    rw [slotAt_eq]
    split
    · split
      · omega
      · omega
    · split
      · omega
      · omega
  · -- from the next multiple on, 500 packets fill all slots
    split
    · use i + (2147483648 - (i + 1) % 2147483648) + ((i + 1) % 4294967296 + 32) % 500
      rw [slotAt_eq]
      refine ⟨by omega, by omega, ?_⟩
      rw [if_neg (by omega)]
      omega
    · use i + (2147483648 - (i + 1) % 2147483648) + ((i + 1) % 4294967296 + 320) % 500
      rw [slotAt_eq]
      refine ⟨by omega, by omega, ?_⟩
      rw [if_pos (by omega)]
      omega

/-- What is in a queue is among the last packets of its track. -/
theorem Tracks.recent {w : WebrtcPlayer} {handed : List RtpOutput}
    {pending : List (Packet Unit)} (h : Tracks w handed pending) {audio : Bool} {j : Nat}
    {p : Packet Unit} (hp : (w.queueOf audio).get j = some p) :
  ∃ i, (emitted audio handed)[i]? = some p ∧ (emitted audio handed).length < i + 1000 ∧
    slotAt i % rtpQueueSize = j % rtpQueueSize
  := by
  obtain ⟨i, hi, hslot, hlast⟩ := (h.latest audio).of_get_eq_some hp
  obtain ⟨k, hk, hk', hsame⟩ := slotAt_repeat i
  refine ⟨i, hi, ?_, hslot⟩
  by_contra hlong
  exact hlast k hk (by omega) (hsame.trans hslot)

/-! ### Loops -/

theorem Indices.congr {w w' : WebrtcPlayer} {handed : List RtpOutput} (h : Indices w handed)
    (hsrtp : w'.srtp = w.srtp) (hssrc : w'.audioSsrc = w.audioSsrc) :
  Indices w' handed
  := by
  have hsource : w'.ssrcOf = w.ssrcOf
    := by
    funext audio
    rw [ssrcOf, videoSsrc, hssrc, ssrcOf, videoSsrc]
  have hkey : w'.masterKey = w.masterKey := by rw [masterKey, hsrtp, masterKey]
  constructor
  · rw [hsrtp, hsource]
    exact h.index_le
  · rw [hsrtp, hsource]
    exact h.le_index
  · rw [hsrtp]
    exact h.left
  · rw [hkey, hsource]
    exact h.protection
  · exact h.repeats
  · exact h.large_of_none

/-- Handing out the next packet. -/
theorem Indices.send {w : WebrtcPlayer} {handed : List RtpOutput} {p : Packet Unit}
    {ps : List (Packet Unit)} (ht : Tracks w handed (p :: ps)) (hi : Indices w handed)
    (hlen : handed.length < 2 ^ 48 - 2) :
  Indices (w.sendPacket p).1 (handed ++ [(w.sendPacket p).2])
  := by
  obtain ⟨_, hssrc, hsrtp, _, _⟩ := w.addPacket_frame p
  have hi' : Indices (w.addPacket p) handed := hi.congr hsrtp hssrc
  have hleft := hi'.numLeft_gt hlen
  have hsource : (w.addPacket p).ssrcOf p.isAudio = w.ssrcOf p.isAudio
    := by rw [ssrcOf, videoSsrc, hssrc, ssrcOf, videoSsrc]
  have hemitted : (emitted p.isAudio handed).length ≤ handed.length
    := Nat.le_trans (List.length_filter_le _ _)
      (by rw [List.length_map]; exact List.length_filter_le _ _)
  have hindex := hi'.index_le p.isAudio
  have hbehind := hi'.le_index p.isAudio
  have hlarge := ht.large_le p.isAudio
  have hstamped := ht.stamped_next
  rw [hsource] at hindex hbehind
  rcases (w.addPacket p).protectPacket_cases false hstamped (by omega) (by omega) (by omega)
    hleft with ⟨hsmall, hrefused⟩ | hpassed
  · rw [sendPacket, hrefused]
    exact hi'.refused false hsmall
  · rw [sendPacket, hpassed, ← hsource]
    apply hi'.advanced false hleft
    · rw [emitted_send_self, List.getElem?_concat_length]
    · intro _
      rfl

/-- Handing out packets one after the other. -/
theorem send_loop (ps : List (Packet Unit)) {w : WebrtcPlayer} {handed : List RtpOutput}
    (ht : Tracks w handed ps) :
  Tracks (forPackets sendPacket w ps).1 (handed ++ (forPackets sendPacket w ps).2) [] ∧
    (Indices w handed → handed.length + (forPackets sendPacket w ps).2.length < 2 ^ 48 - 1 →
      Indices (forPackets sendPacket w ps).1 (handed ++ (forPackets sendPacket w ps).2))
  := by
  induction ps generalizing w handed with
  | nil =>
      rw [forPackets, List.append_nil]
      exact ⟨ht, fun hi _ => hi⟩
  | cons p ps ih =>
      have hsent : Tracks (w.sendPacket p).1 (handed ++ [(w.sendPacket p).2]) ps
        := (ht.send _).withSrtp _
      obtain ⟨ht', hi'⟩ := ih hsent
      rw [forPackets, List.append_cons]
      refine ⟨ht', ?_⟩
      intro hi hlen
      dsimp only at hlen
      rw [List.length_cons] at hlen
      apply hi' (hi.send ht (by omega))
      rw [List.length_append, List.length_singleton]
      omega

/-- A packet handed out before, near enough to the last one of its track to be handed out
again. -/
def Repeatable (handed : List RtpOutput) (p : Packet Unit) : Prop :=
  ∃ i, (emitted p.isAudio handed)[i]? = some p ∧
    (emitted p.isAudio handed).length < i + 1000

/-- Handing out a packet again. -/
theorem Indices.again {w : WebrtcPlayer} {handed : List RtpOutput} {p : Packet Unit}
    (ht : Tracks w handed []) (hi : Indices w handed) (hp : Repeatable handed p)
    (hlen : handed.length < 2 ^ 48 - 2) :
  Indices (w.protectPacket true p).1 (handed ++ [(w.protectPacket true p).2])
  := by
  obtain ⟨i, hemitted, hrecent⟩ := hp
  have hlt : i < (emitted p.isAudio handed).length := (List.getElem?_eq_some_iff.mp hemitted).1
  have hshort : (emitted p.isAudio handed).length ≤ handed.length
    := Nat.le_trans (List.length_filter_le _ _)
      (by rw [List.length_map]; exact List.length_filter_le _ _)
  have hleft := hi.numLeft_gt hlen
  have hindex := hi.index_le p.isAudio
  have hbehind := hi.le_index p.isAudio
  have hlarge := ht.large_le p.isAudio
  have hcounted := ht.counted p.isAudio
  have hall : emitted p.isAudio handed ++ ofTrack p.isAudio [] = emitted p.isAudio handed
    := List.append_nil _
  rw [hall] at hcounted
  have hstamped := hcounted.getElem hemitted
  rcases w.protectPacket_cases true hstamped (by omega) (by omega) (by omega) hleft
    with ⟨hsmall, hrefused⟩ | hpassed
  · rw [hrefused]
    exact hi.refused true hsmall
  · rw [hpassed]
    apply hi.advanced true hleft
    · rw [emitted_again, hemitted]
    · intro hfalse
      cases hfalse

theorem Repeatable.again {w : WebrtcPlayer} {handed : List RtpOutput} {q : Packet Unit}
    (h : Repeatable handed q) (p : Packet Unit) :
  Repeatable (handed ++ [(w.protectPacket true p).2]) q
  := by
  obtain ⟨i, hemitted, hrecent⟩ := h
  have hsame : emitted q.isAudio (handed ++ [(w.protectPacket true p).2]) =
      emitted q.isAudio handed
    := emitted_again _ _ _ _
  rw [Repeatable, hsame]
  exact ⟨i, hemitted, hrecent⟩

/-- Handing out packets again, one after the other. -/
theorem again_loop (ps : List (Packet Unit)) {w : WebrtcPlayer} {handed : List RtpOutput}
    (ht : Tracks w handed []) (hps : ∀ p ∈ ps, Repeatable handed p) :
  Tracks (forPackets (protectPacket · true) w ps).1
      (handed ++ (forPackets (protectPacket · true) w ps).2) [] ∧
    (Indices w handed →
      handed.length + (forPackets (protectPacket · true) w ps).2.length < 2 ^ 48 - 1 →
      Indices (forPackets (protectPacket · true) w ps).1
        (handed ++ (forPackets (protectPacket · true) w ps).2))
  := by
  induction ps generalizing w handed with
  | nil =>
      rw [forPackets, List.append_nil]
      exact ⟨ht, fun hi _ => hi⟩
  | cons p ps ih =>
      have hagain : Tracks (w.protectPacket true p).1 (handed ++ [(w.protectPacket true p).2]) []
        := (ht.again p _).withSrtp _
      obtain ⟨ht', hi'⟩ := ih hagain
        (fun q hq => (hps q (List.mem_cons_of_mem _ hq)).again p)
      rw [forPackets, List.append_cons]
      refine ⟨ht', ?_⟩
      intro hi hlen
      dsimp only at hlen
      rw [List.length_cons] at hlen
      apply hi' (hi.again ht (hps p List.mem_cons_self) (by omega))
      rw [List.length_append, List.length_singleton]
      omega

/-! ### Steps -/

theorem Counted.ofTrack {audio : Bool} {ssrc s t : UInt32} {ps : List (Packet Unit)}
    (h : Counted (trackType audio) ssrc s ps t) :
  WebrtcPlayer.ofTrack audio ps = ps ∧
    ∀ other, audio ≠ other → WebrtcPlayer.ofTrack other ps = []
  := by
  induction ps generalizing s with
  | nil => exact ⟨rfl, fun _ _ => rfl⟩
  | cons p ps ih =>
      have haudio := isAudio_eq h.1
      subst haudio
      obtain ⟨hself, hother⟩ := ih h.2
      refine ⟨?_, ?_⟩
      · rw [ofTrack_cons_self, hself]
      · intro other hne
        rw [ofTrack_cons_other hne, hother other hne]

/-- Packets of one track are made. -/
theorem Tracks.make {w : WebrtcPlayer} {handed : List RtpOutput} {pending : List (Packet Unit)}
    (h : Tracks w handed pending) (audio : Bool) {m : RtpMuxer} {packets : List (Packet Unit)}
    (hmakes : Makes (trackType audio) (rtpOf w.rtpMuxer audio) packets (rtpOf m audio))
    (hother : ∀ other, audio ≠ other → rtpOf m other = rtpOf w.rtpMuxer other)
    (hlarge : largeCount packets + w.rtpMuxer.headersSent ≤ m.headersSent) :
  Tracks { w with rtpMuxer := m } handed (pending ++ packets)
  := by
  have hcounted : Counted (trackType audio) (w.ssrcOf audio) (rtpOf w.rtpMuxer audio).sequence
      packets (rtpOf m audio).sequence
    := by
    rw [← h.ssrc_eq]
    exact hmakes.counted
  obtain ⟨hself, hnone⟩ := Counted.ofTrack hcounted
  constructor
  · intro other
    change (rtpOf m other).ssrc = w.ssrcOf other
    by_cases hne : audio = other
    · subst hne
      rw [hmakes.ssrc_eq, h.ssrc_eq]
    · rw [hother other hne, h.ssrc_eq]
  · intro other
    change Counted _ (w.ssrcOf other) 0 _ (rtpOf m other).sequence
    rw [ofTrack_append, ← List.append_assoc]
    by_cases hne : audio = other
    · subst hne
      rw [hself]
      exact (h.counted audio).append hcounted
    · rw [hnone other hne, List.append_nil, hother other hne]
      exact h.counted other
  · exact h.latest
  · intro other
    change _ ≤ m.headersSent
    have hbefore := h.large other
    rw [ofTrack_append, ← List.append_assoc, largeCount_append]
    by_cases hne : audio = other
    · subst hne
      rw [hself]
      omega
    · rw [hnone other hne, show largeCount [] = 0 from rfl]
      omega

theorem Tracks.encodeAll {w : WebrtcPlayer} {handed : List RtpOutput} (calls : List MediaCall)
    {pending : List (Packet Unit)} (h : Tracks w handed pending) :
  Tracks { w with rtpMuxer := (WebrtcPlayer.encodeAll w.rtpMuxer calls).1 } handed
    (pending ++ (WebrtcPlayer.encodeAll w.rtpMuxer calls).2)
  := by
  induction calls generalizing w pending with
  | nil =>
      rw [WebrtcPlayer.encodeAll, List.append_nil]
      exact h
  | cons call calls ih =>
      cases call with
      | video frame timestamp =>
          obtain ⟨hmakes, hother, hlarge⟩ := w.rtpMuxer.encodeVideo_makes frame timestamp
          have hmake := h.make false hmakes
            (fun other hne => by
              cases other with
              | false => exact absurd rfl hne
              | true => exact hother) hlarge
          have hrest := ih hmake
          rw [List.append_assoc] at hrest
          exact hrest
      | audio frames =>
          obtain ⟨hmakes, hother, hlarge, hsent⟩ := w.rtpMuxer.encodeAudio_makes frames
          have hmake := h.make true hmakes
            (fun other hne => by
              cases other with
              | false => exact hother
              | true => exact absurd rfl hne) (by rw [hlarge, hsent]; omega)
          have hrest := ih hmake
          rw [List.append_assoc] at hrest
          exact hrest

/-- The packets a message selects were handed out lately. -/
theorem Tracks.lostPackets {w : WebrtcPlayer} {handed : List RtpOutput} (h : Tracks w handed [])
    (mediaSsrc : UInt32) (lostSeqs : List UInt16) :
  ∀ p ∈ w.lostPackets mediaSsrc lostSeqs, Repeatable handed p
  := by
  have hfound : ∀ (audio : Bool) (l : UInt16) (p : Packet Unit),
      getPacket (w.queueOf audio) l.toNat = some p → Repeatable handed p
    := by
    intro audio l p hp
    obtain ⟨hget, _⟩ := Option.filter_eq_some_iff.mp hp
    obtain ⟨i, hi, hrecent, _⟩ := h.recent hget
    have hcounted := h.counted audio
    have hall : emitted audio handed ++ ofTrack audio [] = emitted audio handed
      := List.append_nil _
    rw [hall] at hcounted
    have haudio := isAudio_eq (hcounted.getElem hi)
    subst haudio
    exact ⟨i, hi, hrecent⟩
  intro p hp
  rw [WebrtcPlayer.lostPackets] at hp
  split at hp
  · cases hp
  · split at hp
    · obtain ⟨l, _, hl⟩ := List.mem_filterMap.mp hp
      exact hfound true l p hl
    · obtain ⟨l, _, hl⟩ := List.mem_filterMap.mp hp
      exact hfound false l p hl

/-- A handshake that finishes before any packet was handed out. -/
theorem handshake_fresh {w : WebrtcPlayer} (h : Tracks w [] []) (material : List UInt8) :
  Tracks (w.onDtlsHandshakeDone material) [] [] ∧ Indices (w.onDtlsHandshakeDone material) []
  := by
  constructor
  · constructor
    · intro audio
      cases audio with
      | false => rfl
      | true => rfl
    · intro audio
      cases audio with
      | false => rfl
      | true => rfl
    · exact h.latest
    · intro audio
      exact Nat.zero_le _
  · constructor
    · intro audio
      exact Nat.le_refl 0
    · intro audio
      exact Nat.zero_le _
    · exact Nat.le_refl _
    · intro o ho
      cases ho
    · exact List.Pairwise.nil
    · intro o ho
      cases ho

/-- A player after its first handshake. -/
theorem connected_fresh (videoPayloadType audioPayloadType : UInt8) (audioSsrc : UInt32)
    (material : List UInt8) :
  Tracks (connected videoPayloadType audioPayloadType audioSsrc material) [] [] ∧
    Indices (connected videoPayloadType audioPayloadType audioSsrc material) []
  := by
  constructor
  · constructor
    · intro audio
      cases audio with
      | false => rfl
      | true => rfl
    · intro audio
      cases audio with
      | false => rfl
      | true => rfl
    · intro audio
      cases audio with
      | false => exact RingBuffer.latest_empty slotAt
      | true => exact RingBuffer.latest_empty slotAt
    · intro audio
      exact Nat.zero_le _
  · constructor
    · intro audio
      exact Nat.le_refl 0
    · intro audio
      exact Nat.zero_le _
    · exact Nat.le_refl _
    · intro o ho
      cases ho
    · exact List.Pairwise.nil
    · intro o ho
      cases ho

/-! ### Runs -/

/-- No handshake finishes in a run after a packet was handed out. -/
def Undisturbed : WebrtcPlayer → List RtpOutput → List WebrtcEvent → Prop
  | _, _, [] => True
  | w, handed, e :: events =>
      (∀ material, e = .dtls material → handed = []) ∧
        Undisturbed (w.step e).1 (handed ++ (w.step e).2) events

/-- A step keeps the tracks, and the indices while the key may be used. -/
theorem tracks_step {w : WebrtcPlayer} {handed : List RtpOutput} (ht : Tracks w handed [])
    (e : WebrtcEvent) (he : ∀ material, e = .dtls material → handed = []) :
  Tracks (w.step e).1 (handed ++ (w.step e).2) [] ∧
    (Indices w handed → handed.length + (w.step e).2.length < 2 ^ 48 - 1 →
      Indices (w.step e).1 (handed ++ (w.step e).2))
  := by
  cases e with
  | dtls material =>
      have hnone := he material rfl
      subst hnone
      obtain ⟨ht', hi'⟩ := handshake_fresh ht material
      exact ⟨ht', fun _ _ => hi'⟩
  | stun =>
      rw [step, List.append_nil]
      exact ⟨ht, fun hi _ => hi⟩
  | media calls =>
      obtain ⟨ht', hi'⟩ := send_loop _ (ht.encodeAll calls)
      exact ⟨ht', fun hi hlen => hi' (hi.congr rfl rfl) hlen⟩
  | rtpfb mediaSsrc lostSeqs => exact again_loop _ ht (ht.lostPackets mediaSsrc lostSeqs)

theorem tracks_run (events : List WebrtcEvent) {w : WebrtcPlayer} {handed : List RtpOutput}
    (ht : Tracks w handed []) (h : Undisturbed w handed events) :
  Tracks (w.run events) (handed ++ w.outputs events) [] ∧
    (Indices w handed → (handed ++ w.outputs events).length < 2 ^ 48 - 1 →
      Indices (w.run events) (handed ++ w.outputs events))
  := by
  induction events generalizing w handed with
  | nil =>
      rw [outputs, List.append_nil]
      exact ⟨ht, fun hi _ => hi⟩
  | cons e events ih =>
      obtain ⟨ht', hi'⟩ := tracks_step ht e h.1
      obtain ⟨ht'', hi''⟩ := ih ht' h.2
      rw [outputs, ← List.append_assoc]
      refine ⟨ht'', ?_⟩
      intro hi hlen
      apply hi'' (hi' hi ?_) hlen
      rw [List.length_append, List.length_append] at hlen
      omega

end WebrtcPlayer
