import Tmms.Live.RtpHistory

/-!
# Indices of SRTP

A player uses no index twice under one key, except for packets it hands out again, as long as
no handshake finishes after a packet was handed out (`onlyRepeats_outputs`).  A DTLS record
after that starts the numbers and the indices again, and the key stays the same.

The limit of a key is `2 ^ 48 - 1` packets; the library refuses the packet that reaches it, and
counts on from there.
-/

namespace WebrtcPlayer

/-- In a run in which no handshake finishes after a packet was handed out, and in which the
limit of the key is not reached, an index is used again only for the same packet. -/
theorem onlyRepeats_outputs (videoPayloadType audioPayloadType : UInt8) (audioSsrc : UInt32)
    (material : List UInt8) (events : List WebrtcEvent)
    (h : Undisturbed (connected videoPayloadType audioPayloadType audioSsrc material) [] events)
    (hlen : ((connected videoPayloadType audioPayloadType audioSsrc material).outputs
      events).length < 2 ^ 48 - 1) :
  OnlyRepeats ((connected videoPayloadType audioPayloadType audioSsrc material).outputs events)
  := by
  obtain ⟨ht, hi⟩ := connected_fresh videoPayloadType audioPayloadType audioSsrc material
  obtain ⟨_, hindices⟩ := tracks_run events ht h
  exact (hindices hi hlen).repeats

/-- A video frame with one sample. -/
def oneSample (sample : List UInt8) : MediaCall :=
  .video { hasIdr := false, hasSpsPps := true, sps := [], pps := [], samples := [sample] } 0

/-- A handshake, media, a packet asked for again, and more media. -/
def watchAndRepeat : List WebrtcEvent :=
  [.dtls (List.replicate 60 7), .media [oneSample [0x65, 1]], .stun, .rtpfb 1001 [1],
    .media [oneSample [0x41, 2], .audio [⟨[3], by decide⟩]]]

theorem onlyRepeats_watchAndRepeat :
  OnlyRepeats ((connected 96 111 1000 (List.replicate 60 7)).outputs watchAndRepeat)
  := by
  apply onlyRepeats_outputs 96 111 1000 (List.replicate 60 7) watchAndRepeat
  · refine ⟨?_, ?_, ?_, ?_, ?_, trivial⟩
    · intro _ _
      rfl
    · rintro _ ⟨⟩
    · rintro _ ⟨⟩
    · rintro _ ⟨⟩
    · rintro _ ⟨⟩
  · decide +kernel

/-- A record that comes after media. -/
def recordAfterMedia : List WebrtcEvent :=
  [.media [oneSample [0x65, 1]], .dtls (List.replicate 60 7), .media [oneSample [0x41, 2]]]

/-- After the record the first packet is protected under the index of the first packet before
it, with the same key. -/
theorem not_onlyRepeats_recordAfterMedia :
  ¬ OnlyRepeats ((connected 96 111 1000 (List.replicate 60 7)).outputs recordAfterMedia)
  := by
  intro h
  have hagain := (List.pairwise_cons.mp h).1 _ List.mem_cons_self _ rfl rfl
  exact absurd hagain.1 (by decide +kernel)

end WebrtcPlayer
