import Tmms.Library.Runs
import Tmms.Live.PlayerOrder

/-!
# The key frames that are still in the ring

`AddPacket` trims two things in one call: the ring, where a packet takes the slot of the one
a thousand before it, and the list of key frames, from which `ClearExpriedGop` takes the
indices up to a bound.  `Indexed` says what holds of them in every run: an entry of the list
is the index of a key frame among the last thousand packets, but for the first packet of the
stream, which stays in the list for one call after it has left the ring.

An index is an `int32_t` and the numbers of packets are not, so from `2 ^ 32` packets on the
slot of an index is not always that of the packet.
-/

open Runs

variable {ε : Type}

/-! ### Indices of 32 bits -/

theorem toInt32_emod (x : Int) :
  toInt32 x % 2 ^ 32 = x % 2 ^ 32
  := Int.bmod_emod

/-- Numbers less than `2 ^ 32` apart have different indices. -/
theorem eq_of_toInt32_eq {x y : Int} (h : toInt32 x = toInt32 y) (hxy : x < y + 2 ^ 32)
    (hyx : y < x + 2 ^ 32) :
  x = y
  := by
  have hx := toInt32_emod x
  have hy := toInt32_emod y
  rw [h] at hx
  omega

/-- The slot of the index of a number, before it is taken modulo the size of the ring. -/
theorem toNat_ofInt_toInt32 (k : Nat) :
  (UInt32.ofInt (toInt32 k)).toNat = k % 2 ^ 32
  := by
  have hk := toInt32_emod k
  rw [UInt32.ofInt, hk, UInt32.toNat_ofNat']
  omega

namespace LiveStream

/-- The entries of `gop_mgr_` name packets that are in the ring. -/
def GopsInRing (s : LiveStream ε) : Prop :=
  ∀ item ∈ s.gopMgr.gops,
    ∃ packet, s.packetBuffer.get (UInt32.ofInt item.index).toNat = some packet ∧
      packet.index = item.index

/-- The list of key frames after a packet. -/
theorem gops_addPacket (s : LiveStream ε) (packet : Packet ε) :
  (s.addPacket packet).gopMgr.gops =
    if s.frameIndex + 1 - packetBufferSize > 0 then
      ((s.gopMgr.addFrame (s.stamp packet)).clearExpriedGop
        (toInt32 (s.frameIndex + 1 - packetBufferSize))).gops
    else
      (s.gopMgr.addFrame (s.stamp packet)).gops
  := by
  rw [addPacket]
  dsimp only
  obtain ⟨hframe, -, hgop⟩ := parseHeader_frame
    { s with
      timeCorrector := (s.timeCorrector.correctTimestamp packet).2
      frameIndex := s.frameIndex + 1
      ready := s.ready || ((s.stamp packet).isVideo && CodecUtils.isKeyFrame (s.stamp packet)) }
    (s.stamp packet)
  rw [hframe, hgop]
  split
  · rfl
  · rfl

/-- The entries after a packet: those before it and the packet, if it is a key frame, less
those up to the bound. -/
theorem mem_gops_addPacket {s : LiveStream ε} {packet : Packet ε} {item : GopItemInfo} :
  item ∈ (s.addPacket packet).gopMgr.gops ↔
    (item ∈ s.gopMgr.gops ∨ (s.stamp packet).isKeyFrame = true ∧
      item = ⟨(s.stamp packet).index, TimeCorrector.time (s.stamp packet)⟩) ∧
    (s.frameIndex + 1 - packetBufferSize > 0 →
      toInt32 (s.frameIndex + 1 - packetBufferSize) < item.index)
  := by
  have hadd : item ∈ (s.gopMgr.addFrame (s.stamp packet)).gops ↔
      item ∈ s.gopMgr.gops ∨ (s.stamp packet).isKeyFrame = true ∧
        item = ⟨(s.stamp packet).index, TimeCorrector.time (s.stamp packet)⟩
    := by
    rw [GopMgr.addFrame]
    dsimp only
    split
    next hkey => simp only [List.mem_append, List.mem_singleton, hkey, true_and]
    next hkey => simp only [hkey, false_and, or_false, Bool.false_eq_true]
  rw [gops_addPacket, ← hadd]
  split
  next hfull =>
    simp only [GopMgr.clearExpriedGop, List.mem_filter, hfull, forall_const, Bool.not_eq_true',
      decide_eq_false_iff_not, Int.not_le]
  next hfew => simp only [hfew, IsEmpty.forall_iff, and_true]

end LiveStream

/-! ### What holds in every run -/

/-- The stream after the packets `past`. -/
structure Indexed (past : List (Packet ε)) (s : LiveStream ε) : Prop where
  frameIndex_eq : s.frameIndex = past.length - 1
  holds : RingBuffer.Holds 0 past s.packetBuffer
  index_eq : ∀ {k : Nat} {packet : Packet ε}, past[k]? = some packet → packet.index = toInt32 k
  gops : ∀ item ∈ s.gopMgr.gops, ∃ (k : Nat) (packet : Packet ε), past[k]? = some packet ∧
    packet.isKeyFrame = true ∧ item.index = toInt32 k ∧
    (past.length ≤ k + packetBufferSize ∨ k = 0 ∧ past.length = packetBufferSize + 1)

theorem indexed_start :
  Indexed [] ({} : LiveStream ε)
  where
  frameIndex_eq := rfl
  holds := RingBuffer.holds_empty 0
  index_eq h := absurd h (by simp)
  gops _ h := absurd h (by simp)

namespace Indexed

variable {past : List (Packet ε)} {s : LiveStream ε}

theorem next_eq (h : Indexed past s) :
  s.frameIndex + 1 = past.length
  := by
  rw [h.frameIndex_eq]
  omega

theorem stamp_eq (h : Indexed past s) (packet : Packet ε) :
  (s.stamp packet).index = toInt32 past.length
  := by
  rw [s.stamp_index, h.next_eq]

theorem getElem?_stamped (past : List (Packet ε)) (s : LiveStream ε) (packet : Packet ε)
    {k : Nat} {p : Packet ε} (hk : (past ++ [s.stamp packet])[k]? = some p) :
  past[k]? = some p ∨ k = past.length ∧ p = s.stamp packet
  := by
  rcases Nat.lt_or_ge k past.length with hlt | hge
  · left
    rwa [List.getElem?_append_left hlt] at hk
  · right
    rw [List.getElem?_append_right hge] at hk
    obtain ⟨hzero, hp⟩ := List.getElem?_eq_some_iff.mp hk
    rw [List.length_singleton] at hzero
    rw [List.getElem_singleton] at hp
    exact ⟨by omega, hp.symm⟩

theorem addPacket (h : Indexed past s) (packet : Packet ε) :
  Indexed (past ++ [s.stamp packet]) (s.addPacket packet)
  := by
  obtain ⟨hframe, hbuffer, -⟩ := s.addPacket_frame packet
  have hlength : (past ++ [s.stamp packet]).length = past.length + 1 := List.length_append
  constructor
  · rw [hframe, h.next_eq, hlength]
    omega
  · have hput := h.holds.put (s.stamp packet)
    rw [hbuffer, h.next_eq, Int.toNat_natCast]
    rwa [Nat.zero_add] at hput
  · intro k p hk
    rcases getElem?_stamped past s packet hk with hold | ⟨rfl, rfl⟩
    · exact h.index_eq hold
    · exact h.stamp_eq packet
  · intro item hitem
    obtain ⟨hentry, hbound⟩ := LiveStream.mem_gops_addPacket.mp hitem
    rw [h.next_eq] at hbound
    rw [hlength]
    rcases hentry with hold | ⟨hkey, rfl⟩
    · obtain ⟨k, p, hk, hp, hindex, hrange⟩ := h.gops item hold
      have hlt : k < past.length := (List.getElem?_eq_some_iff.mp hk).1
      refine ⟨k, p, by rw [List.getElem?_append_left hlt, hk], hp, hindex, ?_⟩
      by_contra hgone
      -- the packet has left the ring, so its index is the bound or below it
      rcases hrange with hin | ⟨rfl, hfirst⟩
      · have hbound := hbound (by omega)
        have heq : (past.length : Int) - packetBufferSize = k := by omega
        rw [hindex, heq] at hbound
        omega
      · have hbound := hbound (by rw [hfirst]; decide)
        rw [hindex, hfirst] at hbound
        revert hbound
        decide
    · refine ⟨past.length, s.stamp packet, List.getElem?_concat_length, hkey, h.stamp_eq packet,
        ?_⟩
      left
      have : 0 < packetBufferSize := by decide
      omega

/-! ### Entries and slots -/

/-- What the slot of a number holds is one of the last thousand packets. -/
theorem of_get_eq_some (h : Indexed past s) {j : Nat} {packet : Packet ε}
    (hj : s.packetBuffer.get j = some packet) :
  ∃ i : Nat, past[i]? = some packet ∧ i % packetBufferSize = j % packetBufferSize ∧
    past.length ≤ i + packetBufferSize
  := by
  obtain ⟨i, hi, hslot, hlast⟩ := RingBuffer.Latest.of_get_eq_some h.holds hj
  rw [Nat.zero_add] at hslot
  refine ⟨i, hi, hslot, ?_⟩
  by_contra hpast
  apply hlast (i + packetBufferSize)
  · have : 0 < packetBufferSize := by decide
    omega
  · omega
  · rw [Nat.zero_add, Nat.add_mod_right, hslot]

/-- One of the last thousand packets is in its slot. -/
theorem get_eq (h : Indexed past s) {i j : Nat} (hi : i < past.length)
    (hlast : past.length ≤ i + packetBufferSize)
    (hj : i % packetBufferSize = j % packetBufferSize) :
  s.packetBuffer.get j = past[i]?
  := by
  apply RingBuffer.Latest.get_eq h.holds hi
  · rw [Nat.zero_add, hj]
  · intro k hk hk' hslot
    rw [Nat.zero_add, ← hj] at hslot
    have hdvd : packetBufferSize ∣ k - i
      := Nat.dvd_of_mod_eq_zero (Nat.sub_mod_eq_zero_of_mod_eq hslot)
    have := Nat.le_of_dvd (by omega) hdvd
    omega

/-- The packet of an entry is in the slot of its index exactly when it is among the last
thousand and the slot of its index is its own. -/
theorem named_iff (h : Indexed past s) {k : Nat} {item : GopItemInfo} (hk : k < past.length)
    (hindex : item.index = toInt32 k) (hrange : past.length ≤ k + packetBufferSize + 1) :
  (∃ packet, s.packetBuffer.get (UInt32.ofInt item.index).toNat = some packet ∧
      packet.index = item.index) ↔
    past.length ≤ k + packetBufferSize ∧
      k % 2 ^ 32 % packetBufferSize = k % packetBufferSize
  := by
  rw [hindex, toNat_ofInt_toInt32]
  constructor
  · rintro ⟨packet, hget, hp⟩
    obtain ⟨i, hi, hslot, hlast⟩ := h.of_get_eq_some hget
    have hlt : i < past.length := (List.getElem?_eq_some_iff.mp hi).1
    rw [h.index_eq hi] at hp
    have hsize : packetBufferSize = 1000 := rfl
    have hik : (i : Int) = k := eq_of_toInt32_eq hp (by omega) (by omega)
    have hik : i = k := Int.ofNat_inj.mp hik
    rw [hik] at hlast hslot
    exact ⟨hlast, hslot.symm⟩
  · rintro ⟨hlast, hslot⟩
    refine ⟨past[k], ?_, h.index_eq (List.getElem?_eq_getElem hk)⟩
    rw [h.get_eq hk hlast hslot.symm, List.getElem?_eq_getElem hk]

end Indexed

/-! ### Runs -/

namespace Broadcast

/-- A packet is not the 1001st of a stream whose first packet is in the list of key frames,
and the slot of the index of a key frame is its own, unless its index is below the bound. -/
def KeepsIndex (b : Broadcast ε) : StreamEvent ε → Prop
  | .addPacket packet =>
      let number := b.stream.frameIndex + 1
      (number = packetBufferSize → ∀ item ∈ b.stream.gopMgr.gops, item.index ≠ 0) ∧
        ((b.stream.stamp packet).isKeyFrame = true →
          (UInt32.ofInt (toInt32 number)).toNat % packetBufferSize =
              number.toNat % packetBufferSize ∨
            toInt32 number ≤ toInt32 (number - packetBufferSize))
  | _ => True

end Broadcast

/-- While the entries name packets in the ring, they do after one more packet exactly when
the packet keeps the index. -/
theorem Indexed.gopsInRing_iff {past : List (Packet ε)} {b : Broadcast ε}
    (h : Indexed past b.stream) (hin : b.stream.GopsInRing) (packet : Packet ε) :
  (b.stream.addPacket packet).GopsInRing ↔ b.KeepsIndex (.addPacket packet)
  := by
  have h' := h.addPacket packet
  have hlength : (past ++ [b.stream.stamp packet]).length = past.length + 1 := List.length_append
  have hsize : packetBufferSize = 1000 := rfl
  rw [Broadcast.KeepsIndex, h.next_eq, toNat_ofInt_toInt32, Int.toNat_natCast]
  constructor
  · intro hnamed
    constructor
    · -- the first packet is still in the list, and the packet takes its slot
      intro hfull item hitem hzero
      have hmem : item ∈ (b.stream.addPacket packet).gopMgr.gops
        := by
        rw [LiveStream.mem_gops_addPacket, h.next_eq]
        exact ⟨.inl hitem, fun hpast => by omega⟩
      have hname := hnamed item hmem
      rw [h'.named_iff (k := 0) (by omega) hzero (by omega)] at hname
      omega
    · intro hkey
      by_contra hnot
      rw [not_or] at hnot
      have hmem : (⟨(b.stream.stamp packet).index, TimeCorrector.time (b.stream.stamp packet)⟩ :
          GopItemInfo) ∈ (b.stream.addPacket packet).gopMgr.gops
        := by
        rw [LiveStream.mem_gops_addPacket, h.next_eq]
        refine ⟨.inr ⟨hkey, rfl⟩, fun _ => ?_⟩
        dsimp only
        rw [h.stamp_eq]
        omega
      have hname := hnamed _ hmem
      rw [h'.named_iff (k := past.length) (by omega) (h.stamp_eq packet) (by omega)] at hname
      exact hnot.1 hname.2
  · rintro ⟨hfirst, hslot⟩ item hitem
    obtain ⟨hentry, hbound⟩ := LiveStream.mem_gops_addPacket.mp hitem
    rw [h.next_eq] at hbound
    rcases hentry with hold | ⟨hkey, rfl⟩
    · obtain ⟨k, p, hk, -, hindex, hrange⟩ := h.gops item hold
      have hlt : k < past.length := (List.getElem?_eq_some_iff.mp hk).1
      obtain ⟨hlast, hname⟩ := (h.named_iff hlt hindex (by omega)).mp (hin item hold)
      rw [h'.named_iff (k := k) (by omega) hindex (by omega), hlength]
      refine ⟨?_, hname⟩
      by_contra hgone
      have heq : (past.length : Int) - packetBufferSize = k := by omega
      by_cases hzero : k = 0
      · apply hfirst (by omega) item hold
        rw [hindex, hzero]
        decide
      · have hbound := hbound (by omega)
        rw [hindex, heq] at hbound
        omega
    · rw [h'.named_iff (k := past.length) (by omega) (h.stamp_eq packet) (by omega), hlength]
      refine ⟨by omega, ?_⟩
      rcases hslot hkey with hname | hdropped
      · exact hname
      · by_cases hfull : (past.length : Int) - packetBufferSize > 0
        · have hkept := hbound hfull
          dsimp only at hkept
          rw [h.stamp_eq] at hkept
          omega
        · have hlow : toInt32 (past.length - packetBufferSize) = past.length - packetBufferSize
            := by
            apply toInt32_of_fits
            · omega
            · omega
          have hhigh : toInt32 past.length = past.length
            := by
            apply toInt32_of_fits
            · omega
            · omega
          omega

namespace Broadcast

/-- A call numbers the packet it adds. -/
theorem indexed_step {past : List (Packet ε)} {b : Broadcast ε} (h : Indexed past b.stream)
    (e : StreamEvent ε) :
  Indexed (past ++ b.addedBy e) (b.step e).stream
  := by
  cases e with
  | addPacket packet => exact h.addPacket packet
  | getFrames user elapsed => exact (List.append_nil past).symm ▸ h
  | clearMeta user => exact (List.append_nil past).symm ▸ h
  | clearAudioHeader user => exact (List.append_nil past).symm ▸ h
  | clearVideoHeader user => exact (List.append_nil past).symm ▸ h
  | clearOutFrames user => exact (List.append_nil past).symm ▸ h

/-- While the entries name packets in the ring, they do after one more call exactly when it
keeps the index. -/
theorem gopsInRing_step {past : List (Packet ε)} {b : Broadcast ε} (h : Indexed past b.stream)
    (hin : b.stream.GopsInRing) (e : StreamEvent ε) :
  (b.step e).stream.GopsInRing ↔ b.KeepsIndex e
  := by
  cases e with
  | addPacket packet => exact h.gopsInRing_iff hin packet
  | getFrames user elapsed => exact iff_of_true hin trivial
  | clearMeta user => exact iff_of_true hin trivial
  | clearAudioHeader user => exact iff_of_true hin trivial
  | clearVideoHeader user => exact iff_of_true hin trivial
  | clearOutFrames user => exact iff_of_true hin trivial

/-- In every state of a run the entries of `gop_mgr_` name packets in the ring, exactly when
every packet of the run keeps the index. -/
theorem gopsInRing_iff_keepsIndex (latency : Nat → Int) (events : List (StreamEvent ε)) :
  Throughout step (fun b => b.stream.GopsInRing) (start latency) events ↔
    Steps step KeepsIndex (start latency) events
  := by
  have hall : Steps step (fun _ _ => True) (start latency) events := steps_true
  apply throughout_iff_steps (I := fun b => ∃ past, Indexed past b.stream) hall
  · exact ⟨[], indexed_start⟩
  · intro item hitem
    cases hitem
  · rintro b e ⟨past, h⟩ hin -
    exact ⟨⟨_, indexed_step h e⟩, gopsInRing_step h hin e⟩

/-! ### The first packet -/

theorem indexed_foldl {past : List (Packet ε)} {s : LiveStream ε} (h : Indexed past s)
    (packets : List (Packet ε)) :
  ∃ added, added.length = packets.length ∧
    Indexed (past ++ added) (packets.foldl LiveStream.addPacket s)
  := by
  induction packets generalizing past s with
  | nil => exact ⟨[], rfl, (List.append_nil past).symm ▸ h⟩
  | cons packet packets ih =>
      obtain ⟨added, hlength, hindexed⟩ := ih (h.addPacket packet)
      rw [List.append_assoc] at hindexed
      exact ⟨s.stamp packet :: added, congrArg (· + 1) hlength, hindexed⟩

/-- An entry for the first packet stays in the list while there are no more than 1001
packets. -/
theorem mem_gops_foldl {past : List (Packet ε)} {s : LiveStream ε} (h : Indexed past s)
    {item : GopItemInfo} (hitem : item ∈ s.gopMgr.gops) (packets : List (Packet ε))
    (hfew : past.length + packets.length ≤ packetBufferSize + 1) :
  item ∈ (packets.foldl LiveStream.addPacket s).gopMgr.gops
  := by
  induction packets generalizing past s with
  | nil => exact hitem
  | cons packet packets ih =>
      have hlength : (past ++ [s.stamp packet]).length = past.length + 1 := List.length_append
      rw [List.length_cons] at hfew
      apply ih (h.addPacket packet)
      · rw [LiveStream.mem_gops_addPacket, h.next_eq]
        exact ⟨.inl hitem, fun hfull => by omega⟩
      · omega

/-- After a key frame and a thousand packets the list still names the key frame, whose slot
holds the last packet. -/
theorem not_gopsInRing_foldl {first : Packet ε}
    (hkey : (LiveStream.stamp {} first).isKeyFrame = true) {packets : List (Packet ε)}
    (hlength : packets.length = packetBufferSize) :
  ¬ ((first :: packets).foldl LiveStream.addPacket {}).GopsInRing
  := by
  intro hin
  have hone := indexed_start.addPacket first
  obtain ⟨added, hadded, hindexed⟩ := indexed_foldl hone packets
  have hmem : (⟨(LiveStream.stamp {} first).index,
      TimeCorrector.time (LiveStream.stamp {} first)⟩ : GopItemInfo) ∈
        (LiveStream.addPacket {} first).gopMgr.gops
    := by
    rw [LiveStream.mem_gops_addPacket]
    have hempty : ¬ (-1 : Int) + 1 - packetBufferSize > 0 := by decide
    exact ⟨.inr ⟨hkey, rfl⟩, fun hfull => absurd hfull hempty⟩
  have hcount : ([] ++ [LiveStream.stamp {} first] ++ added).length = packetBufferSize + 1
    := by
    rw [List.length_append, hadded, hlength]
    exact Nat.add_comm 1 packetBufferSize
  have hstays := mem_gops_foldl hone hmem packets
    (by rw [hlength]; exact Nat.le_of_eq (Nat.add_comm 1 packetBufferSize))
  have hname := (hindexed.named_iff (k := 0) (by omega) (indexed_start.stamp_eq first)
    (by omega)).mp (hin _ hstays)
  omega

theorem stream_run (b : Broadcast ε) (packets : List (Packet ε)) :
  (run step b (packets.map .addPacket)).stream = packets.foldl LiveStream.addPacket b.stream
  := by
  induction packets generalizing b with
  | nil => rfl
  | cons packet packets ih => apply ih

/-- A packet of video with two bytes. -/
def videoPacket (timestamp : UInt64) (first second : UInt8) : Packet Unit :=
  { type := kPacketTypeVideo
    size := 2
    timestamp := timestamp
    capacity := 2
    data := [first, second]
    ext := () }

/-- The entries do not always name packets in the ring: a key frame and a thousand
packets. -/
theorem not_gopsInRing_firstKeyFrame :
  ¬ ∀ (latency : Nat → Int) (events : List (StreamEvent Unit)),
    Throughout step (fun b => b.stream.GopsInRing) (start latency) events
  := by
  intro h
  have hkey : (LiveStream.stamp {} (videoPacket 0 0x17 1)).isKeyFrame = true
    := by decide +kernel
  apply not_gopsInRing_foldl hkey
    (List.length_replicate : (List.replicate packetBufferSize (videoPacket 0 0x27 1)).length = _)
  apply stream_run (start fun _ => 0) _ ▸ (h (fun _ => 0) _).last

end Broadcast
