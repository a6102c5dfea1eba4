import Mathlib.Data.List.DropRight
import Tmms.Live.GopIndex

/-!
# Where a player starts

`GetGopByLatency` goes back through the key frames, from the last one on, up to the first that
is further from `lastest_timestamp_` than the latency.  A codec header and metadata have the
time 0, and they pass through `AddFrame` as the media do: they set `lastest_timestamp_`, and a
video header is listed as a key frame.
-/

open Runs

variable {ε : Type}

/-- What the time corrector finds a time for: audio and video that are no codec headers. -/
def CodecUtils.isMedia (packet : Packet ε) : Bool :=
  !isCodecHeader packet && (packet.isVideo || packet.isAudio)

/-! ### From behind -/

/-- When a property passes from the elements of a list to those behind them, the elements with
the property at its end begin with the first that has it. -/
theorem getLast?_takeWhile_reverse {α : Type} {p : α → Bool} {l : List α}
    (h : l.Pairwise fun x y => p x = true → p y = true) :
  (l.reverse.takeWhile p).getLast? = l.find? p
  := by
  induction l with
  | nil => rfl
  | cons x l ih =>
      obtain ⟨hx, hrest⟩ := List.pairwise_cons.mp h
      rw [List.reverse_cons]
      by_cases hpx : p x = true
      · have hall : ∀ y ∈ l.reverse, p y = true
          := by
          intro y hy
          apply hx y (List.mem_reverse.mp hy) hpx
        rw [List.takeWhile_append_of_pos hall, List.takeWhile_cons_of_pos hpx, List.takeWhile_nil,
          List.getLast?_concat, List.find?_cons_of_pos hpx]
      · rw [List.find?_cons_of_neg hpx, ← ih hrest, List.takeWhile_append]
        split
        next hlength =>
          rw [List.takeWhile_cons_of_neg hpx, List.append_nil,
            (List.takeWhile_prefix p).eq_of_length hlength]
        next => rfl

/-- In a list with distinct keys, what begins with an element is determined by its key. -/
theorem cons_eq_of_key_eq {α β : Type} {key : α → β} {l : List α}
    (h : l.Pairwise fun x y => key x ≠ key y) {front back before after : List α} {a b : α}
    (ha : l = front ++ a :: back) (hb : l = before ++ b :: after) (hkey : key a = key b) :
  a :: back = b :: after
  := by
  have hlater : ∀ {front back : List α} {a : α}, l = front ++ a :: back → ∀ b ∈ back,
      key a ≠ key b
    := by
    intro front back a hl
    rw [hl] at h
    exact (List.pairwise_cons.mp (List.pairwise_append.mp h).2.1).1
  rcases List.append_eq_append_iff.mp (ha.symm.trans hb) with ⟨c, -, hc⟩ | ⟨c, -, hc⟩
  · rcases List.cons_eq_append_iff.mp hc with ⟨-, hsame⟩ | ⟨rest, -, hback⟩
    · exact hsame.symm
    · exact absurd hkey (hlater ha b (hback ▸ List.mem_append_right rest List.mem_cons_self))
  · rcases List.cons_eq_append_iff.mp hc with ⟨-, hsame⟩ | ⟨rest, -, hafter⟩
    · exact hsame
    · have hmem := hafter ▸ List.mem_append_right rest List.mem_cons_self
      exact absurd hkey.symm (hlater hb a hmem)

namespace GopMgr

/-- The distance of a key frame to a time is at most the latency. -/
def Within (latest latency : Int) (item : GopItemInfo) : Prop :=
  (latest - item.timestamp).natAbs ≤ latency

instance (latest latency : Int) (item : GopItemInfo) : Decidable (Within latest latency item) :=
  inferInstanceAs (Decidable (_ ≤ _))

/-- For every latency the index found is that of the first key frame within it, and -1 exactly
if there is none. -/
def StartsAt (g : GopMgr) (latest : Int) : Prop :=
  ∀ latency : Int, 0 ≤ latency → latency < 2 ^ 31 →
    (g.getGopByLatency latency).1 =
        ((g.gops.find? fun item => Within latest latency item).map GopItemInfo.index).getD (-1) ∧
      ((g.getGopByLatency latency).1 = -1 ↔ ∀ item ∈ g.gops, ¬ Within latest latency item)

/-! ### The scan -/

/-- The condition of the loop. -/
def close (lastest contentLatency : Int) (item : GopItemInfo) : Bool :=
  toInt32 (lastest - item.timestamp) ≤ contentLatency

/-- The loop ends at the last key frame of those close to the time. -/
theorem getGopByLatencyLoop_fst (lastest contentLatency : Int) (items : List GopItemInfo)
    (got : Int × Int) :
  (getGopByLatencyLoop lastest contentLatency items got).1 =
    ((items.takeWhile (close lastest contentLatency)).getLast?.map GopItemInfo.index).getD got.1
  := by
  induction items generalizing got with
  | nil => rfl
  | cons item items ih =>
      rw [getGopByLatencyLoop]
      by_cases hclose : toInt32 (lastest - item.timestamp) ≤ contentLatency
      · rw [if_pos hclose, ih, List.takeWhile_cons_of_pos (by rwa [close, decide_eq_true_eq]),
          List.getLast?_cons]
        cases (items.takeWhile (close lastest contentLatency)).getLast? with
        | none => rfl
        | some last => rfl
      · rw [if_neg hclose, List.takeWhile_cons_of_neg (by rwa [close, decide_eq_true_eq])]
        rfl

/-- When the key frames behind a close one are close, the first close one is found. -/
theorem getGopByLatency_fst {g : GopMgr} {latency : Int}
    (h : g.gops.Pairwise fun x y =>
      close g.lastestTimestamp latency x = true → close g.lastestTimestamp latency y = true) :
  (g.getGopByLatency latency).1 =
    ((g.gops.find? (close g.lastestTimestamp latency)).map GopItemInfo.index).getD (-1)
  := by
  rw [getGopByLatency, getGopByLatencyLoop_fst, getLast?_takeWhile_reverse h]

/-- When all key frames are close, the first one is found. -/
theorem getGopByLatency_fst_of_forall {g : GopMgr} {latency : Int}
    (h : ∀ item ∈ g.gops, close g.lastestTimestamp latency item = true) :
  (g.getGopByLatency latency).1 = (g.gops.head?.map GopItemInfo.index).getD (-1)
  := by
  rw [getGopByLatency_fst]
  · rw [← List.head?_filter, List.filter_eq_self.mpr h]
  · apply List.Pairwise.imp_of_mem (R := fun _ _ => True)
    · intro x y _ hy _ _
      apply h y hy
    · apply List.pairwise_of_forall
      intro x y
      trivial

/-- Unless an index is -1, only a search that fails gives -1. -/
theorem getD_index_eq_neg_one_iff {gops : List GopItemInfo}
    (hindex : ∀ item ∈ gops, item.index ≠ -1) (p : GopItemInfo → Bool) :
  ((gops.find? p).map GopItemInfo.index).getD (-1) = -1 ↔ ∀ item ∈ gops, ¬ p item = true
  := by
  rw [← List.find?_eq_none]
  rcases hfound : gops.find? p with _ | item
  · exact iff_of_true rfl rfl
  · apply iff_of_false
    · apply hindex item (List.mem_of_find?_eq_some hfound)
    · exact Option.some_ne_none item

/-! ### When the scan is right -/

section Scan

variable {g : GopMgr} {latest : Int}

/-- The key frames are in the order of their times, and none is behind the time or `2 ^ 31`
before it. -/
structure Sorted (gops : List GopItemInfo) (latest : Int) : Prop where
  pairwise : gops.Pairwise fun x y => x.timestamp ≤ y.timestamp
  le : ∀ item ∈ gops, item.timestamp ≤ latest
  lt : ∀ item ∈ gops, latest - item.timestamp < 2 ^ 31

/-- The first key frame has the time, and all have times up to `2 ^ 31`. -/
structure StartsWith (gops : List GopItemInfo) (latest : Int) : Prop where
  first : ∀ item ∈ gops.head?, item.timestamp = latest
  le : ∀ item ∈ gops, item.timestamp ≤ 2 ^ 31

instance (gops : List GopItemInfo) (latest : Int) : Decidable (Sorted gops latest) :=
  decidable_of_iff
    (gops.Pairwise (fun x y => x.timestamp ≤ y.timestamp) ∧
      (∀ item ∈ gops, item.timestamp ≤ latest) ∧
      ∀ item ∈ gops, latest - item.timestamp < 2 ^ 31)
    ⟨fun ⟨hpairwise, hle, hlt⟩ => ⟨hpairwise, hle, hlt⟩,
      fun ⟨hpairwise, hle, hlt⟩ => ⟨hpairwise, hle, hlt⟩⟩

/-- Unless an index is -1, it is enough that the key frames are found. -/
theorem startsAt_iff (hindex : ∀ item ∈ g.gops, item.index ≠ -1) :
  g.StartsAt latest ↔
    ∀ latency : Int, 0 ≤ latency → latency < 2 ^ 31 →
      (g.getGopByLatency latency).1 =
        ((g.gops.find? fun item => Within latest latency item).map GopItemInfo.index).getD (-1)
  := by
  apply forall₃_congr
  intro latency _ _
  apply and_iff_left_of_imp
  intro hfound
  rw [hfound, getD_index_eq_neg_one_iff hindex]
  simp only [decide_eq_true_eq]

/-- After a packet of the media. -/
theorem startsAt_of_sorted (hlastest : g.lastestTimestamp = latest)
    (hindex : ∀ item ∈ g.gops, item.index ≠ -1) (h : Sorted g.gops latest) :
  g.StartsAt latest
  := by
  rw [startsAt_iff hindex]
  intro latency hpos _
  have hdistance : ∀ item ∈ g.gops,
      toInt32 (latest - item.timestamp) = latest - item.timestamp
    := by
    intro item hitem
    have hle := h.le item hitem
    have hlt := h.lt item hitem
    apply toInt32_of_fits
    · omega
    · omega
  have hclose : ∀ item ∈ g.gops,
      close g.lastestTimestamp latency item = decide (Within latest latency item)
    := by
    intro item hitem
    have hle := h.le item hitem
    rw [close, hlastest, hdistance item hitem, decide_eq_decide, Within]
    omega
  rw [getGopByLatency_fst]
  · rw [← List.head?_filter, List.filter_congr hclose, List.head?_filter]
  · apply h.pairwise.imp_of_mem
    intro x y hx hy hxy
    rw [close, close, hlastest, hdistance x hx, hdistance y hy, decide_eq_true_eq,
      decide_eq_true_eq]
    omega

/-- After a header, all key frames up to `2 ^ 31` are close. -/
theorem close_zero {item : GopItemInfo} (hpos : 0 ≤ item.timestamp)
    (hle : item.timestamp ≤ 2 ^ 31) {latency : Int} (hlatency : 0 ≤ latency) :
  close 0 latency item = true
  := by
  have hsmall : toInt32 (0 - item.timestamp) = 0 - item.timestamp
    := by
    apply toInt32_of_fits
    · omega
    · omega
  rw [close, hsmall, decide_eq_true_eq]
  omega

/-- After a header. -/
theorem startsAt_of_startsWith (hlastest : g.lastestTimestamp = 0)
    (hindex : ∀ item ∈ g.gops, item.index ≠ -1)
    (hpos : ∀ item ∈ g.gops, 0 ≤ item.timestamp)
    (h : StartsWith g.gops latest) :
  g.StartsAt latest
  := by
  rw [startsAt_iff hindex]
  intro latency hlatency _
  have hall : ∀ item ∈ g.gops, close g.lastestTimestamp latency item = true
    := by
    intro item hitem
    rw [hlastest]
    apply close_zero (hpos item hitem) (h.le item hitem) hlatency
  have hhead : (g.gops.find? fun item => Within latest latency item) = g.gops.head?
    := by
    rcases hgops : g.gops with _ | ⟨first, rest⟩
    · rfl
    · have hfirst := h.first first (by rw [hgops]; rfl)
      rw [List.find?_cons_of_pos]
      · rfl
      · rw [decide_eq_true_eq, Within, hfirst]
        omega
  rw [getGopByLatency_fst_of_forall hall, hhead]

/-! ### When it is wrong -/

/-- What is found begins a piece of the list whose key frames are all close. -/
theorem exists_suffix {latency : Int} (h : (g.getGopByLatency latency).1 ≠ -1) :
  ∃ before item after, g.gops = before ++ item :: after ∧
    (g.getGopByLatency latency).1 = item.index ∧
    ∀ other ∈ item :: after, close g.lastestTimestamp latency other = true
  := by
  rw [getGopByLatency, getGopByLatencyLoop_fst] at h ⊢
  rcases hscan : (g.gops.reverse.takeWhile (close g.lastestTimestamp latency)).getLast?
    with _ | item
  · rw [hscan] at h
    exact absurd rfl h
  · obtain ⟨after, hafter⟩ := List.getLast?_eq_some_iff.mp hscan
    have hsuffix : g.gops.rtakeWhile (close g.lastestTimestamp latency) = item :: after.reverse
      := by
      rw [List.rtakeWhile, hafter, List.reverse_append]
      rfl
    have hgops : g.gops.rdropWhile (close g.lastestTimestamp latency) ++
        g.gops.rtakeWhile (close g.lastestTimestamp latency) = g.gops
      := List.rdropWhile_append_rtakeWhile
    rw [hsuffix] at hgops
    refine ⟨_, item, after.reverse, hgops.symm, rfl, ?_⟩
    intro other hother
    apply List.mem_rtakeWhile_imp (hsuffix ▸ hother)

variable (hdistinct : g.gops.Pairwise fun x y => x.index ≠ y.index)
  (hpos : ∀ item ∈ g.gops, 0 ≤ item.timestamp)
  (hle : ∀ item ∈ g.gops, item.timestamp ≤ latest) (hlt : latest < 2 ^ 31)

include hdistinct hpos hle hlt

/-- After a packet of the media. -/
theorem sorted_of_startsAt (hlastest : g.lastestTimestamp = latest) (h : g.StartsAt latest) :
  Sorted g.gops latest
  := by
  refine ⟨?_, hle, fun item hitem => by have := hpos item hitem; omega⟩
  rw [List.pairwise_iff_forall_sublist]
  intro x y hxy
  have hx : x ∈ g.gops := hxy.subset List.mem_cons_self
  have hy : y ∈ g.gops := hxy.subset (List.mem_cons_of_mem x List.mem_cons_self)
  have hlex := hle x hx
  have hposx := hpos x hx
  -- the latency that reaches just the first of the two
  have hwithin : Within latest (latest - x.timestamp) x
    := by
    rw [Within]
    omega
  obtain ⟨hfound, hnone⟩ := h (latest - x.timestamp) (by omega) (by omega)
  have hne : (g.getGopByLatency (latest - x.timestamp)).1 ≠ -1
    := by
    intro hnot
    exact hnone.mp hnot x hx hwithin
  obtain ⟨before, item, after, hgops, hitem, hclose⟩ := exists_suffix hne
  rcases hfirst : g.gops.find? fun item => Within latest (latest - x.timestamp) item with _ | first
  · rw [List.find?_eq_none] at hfirst
    exact absurd (decide_eq_true hwithin) (hfirst x hx)
  · rw [hfirst, hitem] at hfound
    obtain ⟨-, front, back, hsplit, hfront⟩ := List.find?_eq_some_iff_append.mp hfirst
    have hbehind : y ∈ first :: back
      := by
      rw [hsplit] at hxy
      obtain ⟨l, l', hl, hlfront, hlback⟩ := List.sublist_append_iff.mp hxy
      rcases List.cons_eq_append_iff.mp hl with ⟨rfl, rfl⟩ | ⟨rest, rfl, -⟩
      · apply hlback.subset (List.mem_cons_of_mem x List.mem_cons_self)
      · have hnot := hfront x (hlfront.subset List.mem_cons_self)
        rw [decide_eq_true hwithin] at hnot
        cases hnot
    rw [cons_eq_of_key_eq hdistinct hsplit hgops hfound.symm] at hbehind
    have hposy := hpos y hy
    have hley := hle y hy
    have hyclose := hclose y hbehind
    rw [close, hlastest, decide_eq_true_eq, toInt32_of_fits (by omega) (by omega)] at hyclose
    omega

/-- After a header. -/
theorem startsWith_of_startsAt (hlastest : g.lastestTimestamp = 0)
    (hindex : ∀ item ∈ g.gops, item.index ≠ -1) (h : g.StartsAt latest) :
  StartsWith g.gops latest
  := by
  have hsmall : ∀ item ∈ g.gops, item.timestamp ≤ 2 ^ 31
    := by
    intro item hitem
    have := hle item hitem
    omega
  refine ⟨?_, hsmall⟩
  intro first hfirst
  have hmem : first ∈ g.gops := List.mem_of_mem_head? hfirst
  obtain ⟨hfound, hnone⟩ := h 0 (by decide) (by decide)
  have hhead : (g.getGopByLatency 0).1 = first.index
    := by
    rw [getGopByLatency_fst_of_forall]
    · rw [Option.mem_def.mp hfirst]
      rfl
    · intro item hitem
      rw [hlastest]
      apply close_zero (hpos item hitem) (hsmall item hitem) (Int.le_refl 0)
  rw [hhead] at hfound
  rcases hnear : g.gops.find? fun item => Within latest 0 item with _ | item
  · rw [hnear] at hfound
    exact absurd hfound (hindex first hmem)
  · rw [hnear] at hfound
    have hwithin := List.find?_some hnear
    have hitem := List.mem_of_find?_eq_some hnear
    obtain ⟨rest, hgops⟩ := List.head?_eq_some_iff.mp (Option.mem_def.mp hfirst)
    rw [hgops] at hitem hdistinct
    rcases List.mem_cons.mp hitem with rfl | hrest
    · rw [decide_eq_true_eq, Within] at hwithin
      omega
    · exact absurd hfound ((List.pairwise_cons.mp hdistinct).1 item hrest)

end Scan

end GopMgr

/-! ### What a packet does -/

namespace LiveStream

/-- The latest timestamp is that of the last packet, whatever it is. -/
theorem lastestTimestamp_addPacket (s : LiveStream ε) (packet : Packet ε) :
  (s.addPacket packet).gopMgr.lastestTimestamp = TimeCorrector.time (s.stamp packet)
  := by
  rw [addPacket]
  dsimp only
  obtain ⟨-, -, hgop⟩ := parseHeader_frame
    { s with
      timeCorrector := (s.timeCorrector.correctTimestamp packet).2
      frameIndex := s.frameIndex + 1
      ready := s.ready || ((s.stamp packet).isVideo && CodecUtils.isKeyFrame (s.stamp packet)) }
    (s.stamp packet)
  rw [hgop]
  split
  · rfl
  · rfl

/-- The time of a packet is the one the corrector gives. -/
theorem time_stamp (s : LiveStream ε) (packet : Packet ε) :
  TimeCorrector.time (s.stamp packet) = (s.timeCorrector.correctTimestamp packet).1.toNat
  := by
  have hstamp : (s.stamp packet).timestamp = (s.timeCorrector.correctTimestamp packet).1.toUInt64
    := by
    rw [stamp]
    dsimp only
    split
    · rfl
    · rfl
  have hlt := (s.timeCorrector.correctTimestamp packet).1.toNat_lt
  rw [TimeCorrector.time, hstamp, BitVec.toInt_eq_toNat_of_lt]
  · rfl
  · rw [UInt64.toNat_toBitVec, UInt32.toNat_toUInt64]
    omega

theorem time_stamp_nonneg (s : LiveStream ε) (packet : Packet ε) :
  0 ≤ TimeCorrector.time (s.stamp packet)
  := by
  rw [time_stamp]
  apply Int.natCast_nonneg

/-- What is not of the media has the time 0. -/
theorem time_stamp_of_not_isMedia (s : LiveStream ε) {packet : Packet ε}
    (h : CodecUtils.isMedia packet = false) :
  TimeCorrector.time (s.stamp packet) = 0
  := by
  have hzero : (s.timeCorrector.correctTimestamp packet).1 = 0
    := by
    rw [TimeCorrector.correctTimestamp]
    cases hheader : CodecUtils.isCodecHeader packet with
    | true => rfl
    | false =>
        rw [CodecUtils.isMedia, hheader, Bool.not_false, Bool.true_and, Bool.or_eq_false_iff] at h
        rw [h.1, h.2]
        rfl
  rw [time_stamp, hzero]
  rfl

end LiveStream

/-! ### Runs -/

/-- A stream with the time of its last packet of the media. -/
structure TimedStream (ε : Type) where
  stream : LiveStream ε := {}
  latest : Option Int := none

namespace TimedStream

def step (s : TimedStream ε) (packet : Packet ε) : TimedStream ε where
  stream := s.stream.addPacket packet
  latest :=
    if CodecUtils.isMedia packet then
      some (TimeCorrector.time (s.stream.stamp packet))
    else
      s.latest

/-- Players start where they should, once there are media. -/
def StartsRight (s : TimedStream ε) : Prop :=
  ∀ latest ∈ s.latest, s.stream.gopMgr.StartsAt latest

/-- After a packet no key frame is listed as -1.  After one of the media the key frames are
sorted; after a header the first one is of the time of the last media. -/
def Keeps (s : TimedStream ε) (packet : Packet ε) : Prop :=
  let gops := (s.stream.addPacket packet).gopMgr.gops
  ∀ latest ∈ (s.step packet).latest, (∀ item ∈ gops, item.index ≠ -1) ∧
    if CodecUtils.isMedia packet then
      GopMgr.Sorted gops latest
    else
      GopMgr.StartsWith gops latest

/-- A packet of the media is not before the last one, nor at `2 ^ 31` or later, and no key
frame has the index -1. -/
def InOrder (s : TimedStream ε) (packet : Packet ε) : Prop :=
  ((s.stream.stamp packet).isKeyFrame = true → (s.stream.stamp packet).index ≠ -1) ∧
    (CodecUtils.isMedia packet = true →
      TimeCorrector.time (s.stream.stamp packet) < 2 ^ 31 ∧
        ∀ latest ∈ s.latest, latest ≤ TimeCorrector.time (s.stream.stamp packet))

/-- No key frame has a negative time. -/
def Nonneg (s : TimedStream ε) : Prop :=
  ∀ item ∈ s.stream.gopMgr.gops, 0 ≤ item.timestamp

theorem Nonneg.step {s : TimedStream ε} (h : s.Nonneg) (packet : Packet ε) :
  (s.step packet).Nonneg
  := by
  intro item hitem
  rcases (LiveStream.mem_gops_addPacket.mp hitem).1 with hold | ⟨-, rfl⟩
  · apply h item hold
  · apply s.stream.time_stamp_nonneg packet

/-- After a good packet players start where they should. -/
theorem Keeps.startsRight {s : TimedStream ε} (hpos : s.Nonneg) {packet : Packet ε}
    (h : s.Keeps packet) :
  (s.step packet).StartsRight
  := by
  intro latest hlatest
  obtain ⟨hindex, hkeeps⟩ := h latest hlatest
  have hlast := s.stream.lastestTimestamp_addPacket packet
  cases hmedia : CodecUtils.isMedia packet with
  | true =>
      rw [hmedia, if_pos rfl] at hkeeps
      rw [step, hmedia, if_pos rfl] at hlatest
      rw [← Option.some.inj hlatest] at hkeeps ⊢
      exact GopMgr.startsAt_of_sorted hlast hindex hkeeps
  | false =>
      rw [hmedia, if_neg Bool.false_ne_true] at hkeeps
      rw [s.stream.time_stamp_of_not_isMedia hmedia] at hlast
      exact GopMgr.startsAt_of_startsWith hlast hindex (hpos.step packet) hkeeps

/-- What holds of the key frames while the media are in order. -/
structure Ordered (s : TimedStream ε) : Prop where
  indexed : ∃ past, Indexed past s.stream
  index_ne : ∀ item ∈ s.stream.gopMgr.gops, item.index ≠ -1
  distinct : s.stream.gopMgr.gops.Pairwise fun x y => x.index ≠ y.index
  nonneg : s.Nonneg
  le : ∀ item ∈ s.stream.gopMgr.gops, item.timestamp ≤ s.latest.getD 0
  latest_nonneg : 0 ≤ s.latest.getD 0
  latest_lt : s.latest.getD 0 < 2 ^ 31

theorem ordered_start :
  Ordered ({} : TimedStream ε)
  where
  indexed := ⟨[], indexed_start⟩
  index_ne _ h := absurd h List.not_mem_nil
  distinct := .nil
  nonneg _ h := absurd h List.not_mem_nil
  le _ h := absurd h List.not_mem_nil
  latest_nonneg := Int.le_refl 0
  latest_lt := Int.pow_pos (by decide)

namespace Ordered

variable {s : TimedStream ε}

/-- A key frame has an index of its own. -/
theorem index_ne_stamp (h : s.Ordered) (packet : Packet ε) :
  ∀ item ∈ s.stream.gopMgr.gops, item.index ≠ (s.stream.stamp packet).index
  := by
  obtain ⟨past, hpast⟩ := h.indexed
  intro item hitem heq
  obtain ⟨k, p, hk, -, hindex, hrange⟩ := hpast.gops item hitem
  have hlt : k < past.length := (List.getElem?_eq_some_iff.mp hk).1
  have hsize : packetBufferSize = 1000 := rfl
  rw [hindex, hpast.stamp_eq] at heq
  have hsame := eq_of_toInt32_eq heq (by omega) (by omega)
  omega

theorem distinct_step (h : s.Ordered) (packet : Packet ε) :
  (s.step packet).stream.gopMgr.gops.Pairwise fun x y => x.index ≠ y.index
  := by
  have hadd : (s.stream.gopMgr.addFrame (s.stream.stamp packet)).gops.Pairwise
      fun x y => x.index ≠ y.index
    := by
    rw [GopMgr.addFrame]
    dsimp only
    split
    · rw [List.pairwise_append]
      refine ⟨h.distinct, List.pairwise_singleton _ _, ?_⟩
      intro item hitem new hnew
      rw [List.mem_singleton.mp hnew]
      apply h.index_ne_stamp packet item hitem
    · exact h.distinct
  rw [TimedStream.step, LiveStream.gops_addPacket]
  split
  · apply hadd.filter
  · exact hadd

/-- The time of the last media after a packet in order. -/
theorem latest_step (h : s.Ordered) {packet : Packet ε} (hpacket : s.InOrder packet) :
  s.latest.getD 0 ≤ (s.step packet).latest.getD 0 ∧ (s.step packet).latest.getD 0 < 2 ^ 31 ∧
    TimeCorrector.time (s.stream.stamp packet) ≤ (s.step packet).latest.getD 0
  := by
  cases hmedia : CodecUtils.isMedia packet with
  | true =>
      obtain ⟨hlt, hle⟩ := hpacket.2 hmedia
      have hpos := s.stream.time_stamp_nonneg packet
      rw [TimedStream.step, hmedia, if_pos rfl, Option.getD_some]
      refine ⟨?_, hlt, Int.le_refl _⟩
      rcases hlatest : s.latest with _ | latest
      · exact hpos
      · apply hle latest hlatest
  | false =>
      have hpos := h.latest_nonneg
      rw [TimedStream.step, hmedia, if_neg Bool.false_ne_true,
        s.stream.time_stamp_of_not_isMedia hmedia]
      exact ⟨Int.le_refl _, h.latest_lt, hpos⟩

theorem step (h : s.Ordered) {packet : Packet ε} (hpacket : s.InOrder packet) :
  (s.step packet).Ordered
  := by
  obtain ⟨hgrows, hlt, htime⟩ := h.latest_step hpacket
  obtain ⟨past, hpast⟩ := h.indexed
  have hpos := h.latest_nonneg
  refine ⟨⟨_, hpast.addPacket packet⟩, ?_, h.distinct_step packet, h.nonneg.step packet, ?_,
    by omega, hlt⟩
  · intro item hitem
    rcases (LiveStream.mem_gops_addPacket.mp hitem).1 with hold | ⟨hkey, rfl⟩
    · apply h.index_ne item hold
    · apply hpacket.1 hkey
  · intro item hitem
    rcases (LiveStream.mem_gops_addPacket.mp hitem).1 with hold | ⟨-, rfl⟩
    · have := h.le item hold
      omega
    · exact htime

/-- While the media are in order, players start where they should after a good packet only. -/
theorem keeps_of_startsRight (h : s.Ordered) {packet : Packet ε} (hpacket : s.InOrder packet)
    (hstarts : (s.step packet).StartsRight) :
  s.Keeps packet
  := by
  have h' := h.step hpacket
  have hlast := s.stream.lastestTimestamp_addPacket packet
  intro latest hlatest
  have hstart := hstarts latest hlatest
  have hle := h'.le
  have hlt := h'.latest_lt
  rw [Option.mem_def.mp hlatest, Option.getD_some] at hle hlt
  refine ⟨h'.index_ne, ?_⟩
  cases hmedia : CodecUtils.isMedia packet with
  | true =>
      rw [if_pos rfl]
      rw [TimedStream.step, hmedia, if_pos rfl] at hlatest
      apply GopMgr.sorted_of_startsAt h'.distinct h'.nonneg hle hlt _ hstart
      exact hlast.trans (Option.some.inj hlatest)
  | false =>
      rw [if_neg Bool.false_ne_true]
      apply GopMgr.startsWith_of_startsAt h'.distinct h'.nonneg hle hlt _ h'.index_ne hstart
      exact hlast.trans (s.stream.time_stamp_of_not_isMedia hmedia)

end Ordered

/-- In every run of good packets players start where they should.  When the media are in order,
they do so in no other run. -/
theorem startsRight_iff_keeps (packets : List (Packet ε)) :
  (Steps step Keeps ({} : TimedStream ε) packets → Throughout step StartsRight {} packets) ∧
    (Steps step InOrder ({} : TimedStream ε) packets → Throughout step StartsRight {} packets →
      Steps step Keeps {} packets)
  := by
  have hempty : ({} : TimedStream ε).StartsRight
    := by
    intro latest hlatest
    cases hlatest
  constructor
  · intro hkeeps
    have hpos : ({} : TimedStream ε).Nonneg := ordered_start.nonneg
    apply Throughout.mono (P := fun s => s.Nonneg ∧ s.StartsRight)
    · apply hkeeps.throughout ⟨hpos, hempty⟩
      rintro s packet ⟨hpos, -⟩ hpacket
      exact ⟨hpos.step packet, hpacket.startsRight hpos⟩
    · rintro s ⟨-, hstarts⟩
      exact hstarts
  · intro horder hstarts
    have hboth := horder.and hstarts.steps
    apply hboth.of_invariant ordered_start
    rintro s packet h ⟨hpacket, hnext⟩
    exact ⟨h.step hpacket, h.keeps_of_startsRight hpacket hnext⟩

/-- A packet of a type with two bytes, at a time. -/
def packetAt (type : Int) (timestamp : UInt64) (first second : UInt8) : Packet Unit :=
  { type := type
    size := 2
    timestamp := timestamp
    capacity := 2
    data := [first, second]
    ext := () }

/-- Players do not always start where they should: a key frame, a video 90 ms later and
metadata. -/
theorem not_startsRight_metadata :
  ¬ ∀ packets : List (Packet Unit),
    (packets.filter CodecUtils.isMedia).Pairwise
        (fun p q => TimeCorrector.time p ≤ TimeCorrector.time q) →
      Throughout step StartsRight {} packets
  := by
  intro h
  have hlast := (h
    [packetAt kPacketTypeVideo 0 0x17 1, packetAt kPacketTypeVideo 90 0x27 1,
      packetAt kPacketTypeMeta 90 2 0] (by decide)).last
  have hfar := (hlast 90 (by decide) 50 (by decide) (by decide)).1
  revert hfar
  decide

end TimedStream
