import Mathlib.Data.List.Induction
import Tmms.Live.GopMgr

/-!
# Headers in force

`CodecHeader` keeps every codec header it was given, in the order of their indices.  The header
in force at an index is the last one up to it.  For an index up to zero the three functions
give the newest header instead.
-/

/-! ### The last one up to a bound -/

section Latest

variable {α : Type} {key : α → Int} {l : List α}

/-- In a list with increasing keys, the last element up to a bound is found from behind. -/
theorem find?_reverse_eq_some {a : α} {bound : Int}
    (hinc : l.Pairwise fun x y => key x < key y) (ha : a ∈ l) (hle : key a ≤ bound)
    (hmax : ∀ b ∈ l, key b ≤ bound → key b ≤ key a) :
  (l.reverse.find? fun b => key b ≤ bound) = some a
  := by
  obtain ⟨before, after, rfl⟩ := List.append_of_mem ha
  have hbehind : ∀ b ∈ after, bound < key b
    := by
    intro b hb
    have hlt := (List.pairwise_cons.mp (List.pairwise_append.mp hinc).2.1).1 b hb
    by_contra hnot
    have hback := hmax b (by simp [hb]) (by omega)
    omega
  have hnone : (after.reverse.find? fun b => decide (key b ≤ bound)) = none
    := by
    rw [List.find?_eq_none]
    intro b hb
    have := hbehind b (List.mem_reverse.mp hb)
    rw [decide_eq_true_eq]
    omega
  rw [List.reverse_append, List.reverse_cons, List.append_assoc, List.find?_append, hnone,
    Option.none_or, List.singleton_append, List.find?_cons_of_pos]
  rwa [decide_eq_true_eq]

/-- The keys of a list are below that of the last element. -/
theorem eq_or_key_lt_getLast {a : α} (hinc : l.Pairwise fun x y => key x < key y)
    (hlast : l.getLast? = some a) :
  ∀ b ∈ l, b = a ∨ key b < key a
  := by
  obtain ⟨before, rfl⟩ := List.getLast?_eq_some_iff.mp hlast
  intro b hb
  rcases List.mem_append.mp hb with hbefore | hrest
  · right
    apply (List.pairwise_append.mp hinc).2.2 b hbefore a List.mem_cons_self
  · left
    apply List.mem_singleton.mp hrest

/-- A list with an element up to a bound has a last one. -/
theorem exists_latest (hinc : l.Pairwise fun x y => key x < key y) {bound : Int}
    (hsome : ∃ a ∈ l, key a ≤ bound) :
  ∃ a ∈ l, key a ≤ bound ∧ ∀ b ∈ l, key b ≤ bound → key b ≤ key a
  := by
  induction l with
  | nil =>
      obtain ⟨a, ha, -⟩ := hsome
      cases ha
  | cons x l ih =>
      obtain ⟨hx, hinc⟩ := List.pairwise_cons.mp hinc
      by_cases hlater : ∃ a ∈ l, key a ≤ bound
      · obtain ⟨a, ha, hle, hmax⟩ := ih hinc hlater
        refine ⟨a, List.mem_cons_of_mem x ha, hle, ?_⟩
        intro b hb hb'
        rcases List.mem_cons.mp hb with rfl | hb
        · apply Int.le_of_lt (hx a ha)
        · apply hmax b hb hb'
      · obtain ⟨a, ha, hle⟩ := hsome
        rcases List.mem_cons.mp ha with rfl | ha
        · refine ⟨a, List.mem_cons_self, hle, ?_⟩
          intro b hb hb'
          rcases List.mem_cons.mp hb with rfl | hb
          · apply Int.le_refl
          · exact absurd ⟨b, hb, hb'⟩ hlater
        · exact absurd ⟨a, ha, hle⟩ hlater

end Latest

namespace CodecHeader

variable {ε : Type}

/-- The headers after some packets were given to `ParseCodecHeader`. -/
def parsed (packets : List (Packet ε)) : CodecHeader ε :=
  packets.foldl parseCodecHeader {}

/-- The answer is the packet with the largest index up to `idx`, if there is one. -/
def InForce (packets : List (Packet ε)) (idx : Int) (answer : Option (Packet ε)) : Prop :=
  ∀ pkt ∈ packets, pkt.index ≤ idx →
    (∀ other ∈ packets, other.index ≤ idx → other.index ≤ pkt.index) → answer = some pkt

/-- The index is positive, or no packet has an index up to zero, or all have one. -/
def OneSided (packets : List (Packet ε)) (idx : Int) : Prop :=
  0 < idx ∨ (∀ pkt ∈ packets, 0 < pkt.index) ∨ ∀ pkt ∈ packets, pkt.index ≤ 0

/-! ### What is saved -/

/-- The three kinds of packets exclude each other. -/
theorem kinds_of_isMeta {packet : Packet ε} (h : packet.isMeta = true) :
  packet.isAudio = false ∧ packet.isVideo = false
  := by
  have htype : packet.type = kPacketTypeMeta := by simpa [Packet.isMeta] using h
  rw [Packet.isAudio, Packet.isVideo, Packet.typeHas, htype]
  decide

theorem isVideo_of_isAudio {packet : Packet ε} (h : packet.isAudio = true) :
  packet.isVideo = false
  := by
  have htype : packet.type = kPacketTypeAudio := by simpa [Packet.isAudio] using h
  rw [Packet.isVideo, Packet.typeHas, htype]
  decide

/-- The codec headers keep the packets of each kind, and the last of them. -/
structure Keeps (packets : List (Packet ε)) (c : CodecHeader ε) : Prop where
  metaPackets : c.metaPackets = packets.filter Packet.isMeta
  metaData : c.metaData = (packets.filter Packet.isMeta).getLast?
  audioHeaderPackets : c.audioHeaderPackets = packets.filter Packet.isAudio
  audioHeader : c.audioHeader = (packets.filter Packet.isAudio).getLast?
  videoHeaderPackets : c.videoHeaderPackets = packets.filter Packet.isVideo
  videoHeader : c.videoHeader = (packets.filter Packet.isVideo).getLast?

theorem filter_concat_of_pos {packets : List (Packet ε)} {packet : Packet ε}
    {kind : Packet ε → Bool} (h : kind packet = true) :
  (packets ++ [packet]).filter kind = packets.filter kind ++ [packet]
  := by
  rw [List.filter_append, List.filter_cons_of_pos h, List.filter_nil]

theorem filter_concat_of_neg {packets : List (Packet ε)} {packet : Packet ε}
    {kind : Packet ε → Bool} (h : kind packet = false) :
  (packets ++ [packet]).filter kind = packets.filter kind
  := by
  rw [List.filter_append, List.filter_cons_of_neg (by simp [h]), List.filter_nil,
    List.append_nil]

theorem Keeps.parseCodecHeader {packets : List (Packet ε)} {c : CodecHeader ε}
    (h : Keeps packets c) (packet : Packet ε) :
  Keeps (packets ++ [packet]) (c.parseCodecHeader packet)
  := by
  obtain ⟨hmetas, hmeta, haudios, haudio, hvideos, hvideo⟩ := h
  rw [CodecHeader.parseCodecHeader]
  split
  next hkind =>
    obtain ⟨hnoaudio, hnovideo⟩ := kinds_of_isMeta hkind
    constructor
    · rw [filter_concat_of_pos hkind, ← hmetas]
      rfl
    · rw [filter_concat_of_pos hkind, List.getLast?_concat]
      rfl
    · rwa [filter_concat_of_neg hnoaudio]
    · rwa [filter_concat_of_neg hnoaudio]
    · rwa [filter_concat_of_neg hnovideo]
    · rwa [filter_concat_of_neg hnovideo]
  next hnometa =>
    have hnometa : packet.isMeta = false := Bool.eq_false_iff.mpr hnometa
    split
    next hkind =>
      have hnovideo := isVideo_of_isAudio hkind
      constructor
      · rwa [filter_concat_of_neg hnometa]
      · rwa [filter_concat_of_neg hnometa]
      · rw [filter_concat_of_pos hkind, ← haudios]
        rfl
      · rw [filter_concat_of_pos hkind, List.getLast?_concat]
        rfl
      · rwa [filter_concat_of_neg hnovideo]
      · rwa [filter_concat_of_neg hnovideo]
    next hnoaudio =>
      have hnoaudio : packet.isAudio = false := Bool.eq_false_iff.mpr hnoaudio
      split
      next hkind =>
        constructor
        · rwa [filter_concat_of_neg hnometa]
        · rwa [filter_concat_of_neg hnometa]
        · rwa [filter_concat_of_neg hnoaudio]
        · rwa [filter_concat_of_neg hnoaudio]
        · rw [filter_concat_of_pos hkind, ← hvideos]
          rfl
        · rw [filter_concat_of_pos hkind, List.getLast?_concat]
          rfl
      next hnovideo =>
        have hnovideo : packet.isVideo = false := Bool.eq_false_iff.mpr hnovideo
        constructor
        · rwa [filter_concat_of_neg hnometa]
        · rwa [filter_concat_of_neg hnometa]
        · rwa [filter_concat_of_neg hnoaudio]
        · rwa [filter_concat_of_neg hnoaudio]
        · rwa [filter_concat_of_neg hnovideo]
        · rwa [filter_concat_of_neg hnovideo]

theorem keeps_parsed (packets : List (Packet ε)) :
  Keeps packets (parsed packets)
  := by
  induction packets using List.reverseRecOn with
  | nil => exact ⟨rfl, rfl, rfl, rfl, rfl, rfl⟩
  | append_singleton packets packet ih =>
      rw [parsed, List.foldl_append]
      apply ih.parseCodecHeader packet

/-! ### What is found -/

/-- For an index that is not negative the packet in force is found exactly if the index is
positive, or zero is not between the indices. -/
theorem inForce_latestBefore_iff {packets : List (Packet ε)} {idx : Int}
    (hinc : packets.Pairwise fun p q => p.index < q.index) (hidx : 0 ≤ idx) :
  InForce packets idx (latestBefore packets packets.getLast? idx) ↔ OneSided packets idx
  := by
  constructor
  · intro hforce
    by_contra hnot
    rw [OneSided, not_or, not_or] at hnot
    obtain ⟨hzero, hbelow, habove⟩ := hnot
    have hzero : idx = 0 := by omega
    subst hzero
    simp only [not_forall, Int.not_lt, Int.not_le, exists_prop] at hbelow habove
    obtain ⟨pkt, hpkt, hle, hmax⟩ := exists_latest hinc hbelow
    obtain ⟨newer, hnewer, hpos⟩ := habove
    have hanswer := hforce pkt hpkt hle hmax
    rw [latestBefore, if_pos (Int.le_refl 0)] at hanswer
    rcases eq_or_key_lt_getLast hinc hanswer newer hnewer with rfl | hlt
    · omega
    · omega
  · intro hside pkt hpkt hle hmax
    rw [latestBefore]
    by_cases hpos : idx ≤ 0
    · rw [if_pos hpos]
      rcases hside with hlt | hbehind | hup
      · omega
      · have := hbehind pkt hpkt
        omega
      · -- all are up to the index, so the last packet is the one in force
        rcases hlast : packets.getLast? with _ | last
        · rw [List.getLast?_eq_none_iff.mp hlast] at hpkt
          cases hpkt
        · have hmem := List.mem_of_getLast? hlast
          have hlow := hup last hmem
          have hback := hmax last hmem (by omega)
          rcases eq_or_key_lt_getLast hinc hlast pkt hpkt with rfl | hlt
          · rfl
          · omega
    · rw [if_neg hpos, find?_reverse_eq_some hinc hpkt hle hmax]
      rfl

/-- The metadata, the audio header and the video header of an index are those in force, each
exactly if the index is positive or zero is not between the indices of its kind. -/
theorem inForce_iff_oneSided (packets : List (Packet ε)) (idx : Int)
    (hinc : packets.Pairwise fun p q => p.index < q.index) (hidx : 0 ≤ idx) :
  (InForce (packets.filter Packet.isMeta) idx ((parsed packets).getMeta idx) ↔
      OneSided (packets.filter Packet.isMeta) idx) ∧
    (InForce (packets.filter Packet.isVideo) idx ((parsed packets).getVideoHeader idx) ↔
      OneSided (packets.filter Packet.isVideo) idx) ∧
    (InForce (packets.filter Packet.isAudio) idx ((parsed packets).getAudioHeader idx) ↔
      OneSided (packets.filter Packet.isAudio) idx)
  := by
  obtain ⟨hmetas, hmeta, haudios, haudio, hvideos, hvideo⟩ := keeps_parsed packets
  rw [getMeta, getVideoHeader, getAudioHeader, hmetas, hmeta, haudios, haudio, hvideos, hvideo]
  exact ⟨inForce_latestBefore_iff (hinc.filter _) hidx,
    inForce_latestBefore_iff (hinc.filter _) hidx, inForce_latestBefore_iff (hinc.filter _) hidx⟩

/-- A video header with an index. -/
def videoHeaderAt (index : Int) : Packet Unit :=
  { type := kPacketTypeVideo
    size := 2
    index := index
    capacity := 2
    data := [0x17, 0]
    ext := () }

/-- Between two headers the first one is found, but not at index zero. -/
theorem inForce_iff_oneSided_two :
  InForce [videoHeaderAt 0, videoHeaderAt 9] 8
      ((parsed [videoHeaderAt 0, videoHeaderAt 9]).getVideoHeader 8) ∧
    ¬InForce [videoHeaderAt 0, videoHeaderAt 9] 0
      ((parsed [videoHeaderAt 0, videoHeaderAt 9]).getVideoHeader 0)
  := by
  have hinc : [videoHeaderAt 0, videoHeaderAt 9].Pairwise (fun p q => p.index < q.index)
    := by decide
  have hbetween := inForce_iff_oneSided [videoHeaderAt 0, videoHeaderAt 9] 8 hinc (by decide)
  have hzero := inForce_iff_oneSided [videoHeaderAt 0, videoHeaderAt 9] 0 hinc (by decide)
  refine ⟨hbetween.2.1.mpr (.inl (by decide)), fun hforce => ?_⟩
  rcases hzero.2.1.mp hforce with hpos | hall | hall
  · exact absurd hpos (by decide)
  · exact absurd (hall (videoHeaderAt 0) (by decide)) (by decide)
  · exact absurd (hall (videoHeaderAt 9) (by decide)) (by decide)

/-- The header in force at index zero is not always found: there is a second one. -/
theorem not_inForce_second :
  ¬ ∀ (packets : List (Packet Unit)) (idx : Int),
    packets.Pairwise (fun p q => p.index < q.index) → 0 ≤ idx →
      InForce (packets.filter Packet.isMeta) idx ((parsed packets).getMeta idx) ∧
        InForce (packets.filter Packet.isVideo) idx ((parsed packets).getVideoHeader idx) ∧
        InForce (packets.filter Packet.isAudio) idx ((parsed packets).getAudioHeader idx)
  := by
  intro h
  have hinc : [videoHeaderAt 0, videoHeaderAt 9].Pairwise (fun p q => p.index < q.index)
    := by decide
  obtain ⟨-, hvideo, -⟩ := h [videoHeaderAt 0, videoHeaderAt 9] 0 hinc (by decide)
  have hfirst := hvideo (videoHeaderAt 0) (by decide) (by decide) (by decide)
  revert hfirst
  decide

end CodecHeader
