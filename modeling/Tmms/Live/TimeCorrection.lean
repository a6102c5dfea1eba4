import Mathlib.Data.List.Induction
import Tmms.Library.Runs
import Tmms.Live.Frames

/-!
# Clocks of the time corrector

A video is corrected against the video before it, an audio against the packet before it, and
the first video against the audio before it.  `Follows` says what the corrector remembers of
the packets so far, and `clockAfter` what the clock of the next one is: the clock of the packet
it is corrected against, moved by less than 100 ms, unless a first video is near the original
time of the last audio, which it then keeps its own time for, or the count of the audios behind
the last video has run over, which makes an audio one behind that video again.
-/

open Runs

variable {ε : Type}

/-- An audio or video packet that is no codec header, with a timestamp of 32 bits. -/
structure MediaPacket (ε : Type) where
  packet : Packet ε
  notHeader : CodecUtils.isCodecHeader packet = false
  media : packet.isVideo = true ∨ packet.isAudio = true
  short : packet.timestamp.toNat < 2 ^ 32

namespace MediaPacket

def isVideo (p : MediaPacket ε) : Bool := p.packet.isVideo

def time (p : MediaPacket ε) : Int := p.packet.timestamp.toNat

theorem time_eq (p : MediaPacket ε) :
  TimeCorrector.time p.packet = p.time
  := by
  have hshort := p.short
  rw [TimeCorrector.time, BitVec.toInt_eq_toNat_of_lt]
  · rfl
  · rw [UInt64.toNat_toBitVec]
    omega

theorem time_nonneg (p : MediaPacket ε) :
  0 ≤ p.time
  := Int.natCast_nonneg _

theorem time_lt (p : MediaPacket ε) :
  p.time < 2 ^ 32
  := by
  have hshort := p.short
  rw [time]
  omega

end MediaPacket

/-- Two times differ by less than 100 ms. -/
def Near (x y : Int) : Prop := -100 < x - y ∧ x - y < 100

instance (x y : Int) : Decidable (Near x y) := inferInstanceAs (Decidable (_ ∧ _))

/-- What a packet is corrected against: for a video the last video, or the last audio if there
is none; for an audio the last packet. -/
def reference {α : Type} (isVideo : α → Bool) (before : List α) (video : Bool) : Option α :=
  if video then (before.reverse.find? isVideo).or before.getLast? else before.getLast?

/-- How many audios are behind the last video. -/
def audiosInRow {α : Type} (isVideo : α → Bool) (before : List α) : Nat :=
  (before.reverse.takeWhile fun a => !isVideo a).length

/-- The count of the audios in a row, one more included, has run over: it is at most one, as for
the first of them. -/
def Overruns {α : Type} (isVideo : α → Bool) (before : List α) (video : Bool) : Prop :=
  video = false ∧ 0 < audiosInRow isVideo before ∧ toInt32 (audiosInRow isVideo before + 1) ≤ 1

instance {α : Type} (isVideo : α → Bool) (before : List α) (video : Bool) :
    Decidable (Overruns isVideo before video) :=
  inferInstanceAs (Decidable (_ ∧ _ ∧ _))

theorem not_overruns_video {α : Type} (isVideo : α → Bool) (before : List α) :
  ¬ Overruns isVideo before true
  := nofun

/-- What the corrector takes for that: the last video where the count has run over. -/
def taken {α : Type} (isVideo : α → Bool) (before : List α) (video : Bool) : Option α :=
  if Overruns isVideo before video then before.reverse.find? isVideo
  else reference isVideo before video

/-- A packet is near the one it is corrected against. -/
def Continues (before : List (MediaPacket ε)) (p : MediaPacket ε) : Prop :=
  ∀ ref ∈ reference MediaPacket.isVideo before p.isVideo, Near p.time ref.time

instance (before : List (MediaPacket ε)) (p : MediaPacket ε) : Decidable (Continues before p) :=
  inferInstanceAs (Decidable (∀ ref ∈ reference _ _ _, _))

/-- Every packet is near the one it is corrected against. -/
def Regular (packets : List (MediaPacket ε)) : Prop :=
  Steps (fun before p => before ++ [p]) Continues [] packets

instance (packets : List (MediaPacket ε)) : Decidable (Regular packets) :=
  inferInstanceAs (Decidable (Steps _ _ _ _))

/-- If the count has run over, the last video is near too. (Or its time and 40 ms, to which an
audio that is not near is corrected, is that of the audio as a number of 32 bits.) -/
def Unharmed (before : List (MediaPacket ε)) (p : MediaPacket ε) : Prop :=
  Overruns MediaPacket.isVideo before p.isVideo →
    ∀ video ∈ before.reverse.find? MediaPacket.isVideo,
      Near p.time video.time ∨ p.time + 2 ^ 32 = video.time + 40

instance (before : List (MediaPacket ε)) (p : MediaPacket ε) : Decidable (Unharmed before p) :=
  inferInstanceAs (Decidable (_ → ∀ video ∈ List.find? _ _, _))

/-! ### A corrector with what it has corrected -/

/-- A packet, the clock of its track after it, and the timestamp it got. -/
structure Corrected (ε : Type) where
  packet : MediaPacket ε
  clock : Int
  returned : UInt32

namespace Corrected

def isVideo (e : Corrected ε) : Bool := e.packet.isVideo

def isAudio (e : Corrected ε) : Bool := !e.isVideo

def time (e : Corrected ε) : Int := e.packet.time

/-- The packet got its own timestamp. -/
def Own (e : Corrected ε) : Prop := e.returned.toNat = e.packet.packet.timestamp.toNat

end Corrected

structure Correction (ε : Type) where
  corrector : TimeCorrector := {}
  past : List (Corrected ε) := []

namespace Correction

/-- The clock of the track of a packet. -/
def clock (c : TimeCorrector) (p : MediaPacket ε) : Int :=
  if p.isVideo then c.videoCorrectedTimestamp else c.audioCorrectedTimestamp

def step (s : Correction ε) (p : MediaPacket ε) : Correction ε :=
  let r := s.corrector.correctTimestamp p.packet
  { corrector := r.2
    past := s.past ++ [⟨p, clock r.2 p, r.1⟩] }

/-- The last packet is near the one it was corrected against. -/
def LastNear (value : Corrected ε → Int) (s : Correction ε) : Prop :=
  ∀ before last, s.past = before ++ [last] →
    ∀ ref ∈ reference Corrected.isVideo before last.isVideo, Near (value last) (value ref)

/-- A first video keeps its own time: as a number of 32 bits its distance to the original time
of the last audio is less than 100 ms. -/
def Unshifted (p : MediaPacket ε) (ref : Corrected ε) : Prop :=
  p.isVideo = true ∧ ref.isVideo = false ∧ Near (toInt32 (ref.time - p.time)) 0

instance (p : MediaPacket ε) (ref : Corrected ε) : Decidable (Unshifted p ref) :=
  inferInstanceAs (Decidable (_ ∧ _ ∧ _))

/-- By how much a clock is moved from that of the packet it is corrected against. -/
def shift (p : MediaPacket ε) (ref : Corrected ε) : Int :=
  TimeCorrector.fineDelta (p.time - ref.time) 100
    (if !p.isVideo && !ref.isVideo then 20 else 40)

/-- The clock that the last video gives, or the time of the packet if there is none. -/
def videoClock (past : List (Corrected ε)) (p : MediaPacket ε) : Int :=
  (past.reverse.find? Corrected.isVideo).elim p.time fun v => max 0 (v.clock + shift p v)

/-- A first video that keeps its own time is near the clock of the last audio, and so is the clock
that the last video gives where the count of audios has run over. -/
def StartsNear (s : Correction ε) (p : MediaPacket ε) : Prop :=
  ∀ ref ∈ reference Corrected.isVideo s.past p.isVideo,
    if Overruns Corrected.isVideo s.past p.isVideo then
      Near (videoClock s.past p) ref.clock
    else
      Unshifted p ref → Near p.time ref.clock

/-- They are near the timestamp of the last audio, and no other packet takes the clock over a
multiple of `2 ^ 32`. -/
def StaysNear (s : Correction ε) (p : MediaPacket ε) : Prop :=
  ∀ ref ∈ reference Corrected.isVideo s.past p.isVideo,
    if Overruns Corrected.isVideo s.past p.isVideo then
      Near (videoClock s.past p % 2 ^ 32) ref.returned.toNat
    else if Unshifted p ref then
      Near p.time ref.returned.toNat
    else
      max 0 (ref.clock + shift p ref) / 2 ^ 32 = ref.clock / 2 ^ 32

/-! ### One packet -/

theorem toInt32_zero : toInt32 0 = 0 := by decide

/-- A count of which only 32 bits are kept goes on. -/
theorem toInt32_toInt32_add (x y : Int) : toInt32 (toInt32 x + y) = toInt32 (x + y)
  := Int.bmod_add_bmod

/-- The last 32 bits of a clock. -/
theorem toNat_ofInt_int (x : Int) : ((UInt32.ofInt x).toNat : Int) = x % 2 ^ 32
  := by
  rw [UInt32.ofInt, UInt32.toNat_ofNat']
  omega

theorem toNat_ofInt_time (p : MediaPacket ε) : ((UInt32.ofInt p.time).toNat : Int) = p.time
  := by
  rw [toNat_ofInt_int]
  exact Int.emod_eq_of_lt p.time_nonneg p.time_lt

/-- What a video does to the corrector, and its clock. -/
theorem correctVideo_spec (c : TimeCorrector) (p : MediaPacket ε) :
  ∃ k, c.correctVideoTimeStampByVideo p.packet =
      (.ofInt k,
        { c with
          videoOriginalTimestamp := p.time
          videoCorrectedTimestamp := k
          audioNumbersBetweenVideo := 0 }) ∧
    (c.videoOriginalTimestamp ≠ -1 →
      k = max 0 (c.videoCorrectedTimestamp +
        TimeCorrector.fineDelta (p.time - c.videoOriginalTimestamp) 100 40)) ∧
    (c.videoOriginalTimestamp = -1 → c.audioOriginalTimestamp = -1 → k = p.time) ∧
    (c.videoOriginalTimestamp = -1 → c.audioOriginalTimestamp ≠ -1 →
      k = if Near (toInt32 (c.audioOriginalTimestamp - p.time)) 0 then
          p.time
        else
          max 0 (c.audioCorrectedTimestamp +
            TimeCorrector.fineDelta (p.time - c.audioOriginalTimestamp) 100 40))
  := by
  have hpos := p.time_nonneg
  have hsame : max 0 (p.time + TimeCorrector.fineDelta (p.time - p.time) 100 40) = p.time
    := by
    rw [Int.sub_self, TimeCorrector.fineDelta, if_pos (by decide)]
    omega
  rw [TimeCorrector.correctVideoTimeStampByVideo, p.time_eq]
  dsimp only
  by_cases hvideo : c.videoOriginalTimestamp = -1
  · rw [if_pos hvideo]
    by_cases hshift : c.audioOriginalTimestamp ≠ -1 ∧
        (toInt32 (c.audioOriginalTimestamp - p.time) ≤ -TimeCorrector.kMaxVideoDeltaTime ∨
          toInt32 (c.audioOriginalTimestamp - p.time) ≥ TimeCorrector.kMaxVideoDeltaTime)
    · rw [if_pos hshift]
      refine ⟨_, rfl, fun h => absurd hvideo h, fun _ h => absurd h hshift.1, fun _ _ => ?_⟩
      rw [if_neg]
      · rfl
      · rintro ⟨hlow, hhigh⟩
        have hfar := hshift.2
        rw [TimeCorrector.kMaxVideoDeltaTime] at hfar
        omega
    · rw [if_neg hshift]
      refine ⟨_, rfl, fun h => absurd hvideo h, fun _ _ => hsame, fun _ haudio => ?_⟩
      rw [if_pos]
      · exact hsame
      · rw [not_and, not_or, TimeCorrector.kMaxVideoDeltaTime] at hshift
        have hnear := hshift haudio
        rw [Near]
        omega
  · rw [if_neg hvideo]
    exact ⟨_, rfl, fun _ => rfl, fun h => absurd h hvideo, fun h => absurd h hvideo⟩

/-- What an audio does to the corrector, and its clock. -/
theorem correctAudio_spec (c : TimeCorrector) (p : MediaPacket ε) :
  ∃ k, c.correctAudioTimeStampByVideo p.packet =
      (.ofInt k,
        { c with
          audioOriginalTimestamp := p.time
          audioCorrectedTimestamp := k
          audioNumbersBetweenVideo := toInt32 (c.audioNumbersBetweenVideo + 1) }) ∧
    (toInt32 (c.audioNumbersBetweenVideo + 1) ≤ 1 →
      k = if c.videoOriginalTimestamp = -1 then
          p.time
        else
          max 0 (c.videoCorrectedTimestamp +
            TimeCorrector.fineDelta (p.time - c.videoOriginalTimestamp) 100 40)) ∧
    (1 < toInt32 (c.audioNumbersBetweenVideo + 1) →
      k = if c.audioOriginalTimestamp = -1 then
          p.time
        else
          max 0 (c.audioCorrectedTimestamp +
            TimeCorrector.fineDelta (p.time - c.audioOriginalTimestamp) 100 20))
  := by
  rw [TimeCorrector.correctAudioTimeStampByVideo, TimeCorrector.correctAudioTimeStampByAudio,
    p.time_eq]
  dsimp only
  by_cases hmany : toInt32 (c.audioNumbersBetweenVideo + 1) > 1
  · rw [if_pos hmany]
    by_cases haudio : c.audioOriginalTimestamp = -1
    · rw [if_pos haudio, if_pos haudio]
      exact ⟨_, rfl, fun h => by omega, fun _ => rfl⟩
    · rw [if_neg haudio, if_neg haudio]
      exact ⟨_, rfl, fun h => by omega, fun _ => rfl⟩
  · rw [if_neg hmany]
    by_cases hvideo : c.videoOriginalTimestamp = -1
    · rw [if_pos hvideo, if_pos hvideo]
      exact ⟨_, rfl, fun _ => rfl, fun h => by omega⟩
    · rw [if_neg hvideo, if_neg hvideo]
      exact ⟨_, rfl, fun _ => rfl, fun h => by omega⟩

/-! ### What the corrector remembers -/

/-- The original time and the clock of the last packet of a track. -/
def Remembers (last : Option (Corrected ε)) (original clock : Int) : Prop :=
  match last with
  | none => original = -1
  | some e => original = e.time ∧ clock = e.clock

/-- The corrector after the packets `past`. -/
structure Follows (past : List (Corrected ε)) (c : TimeCorrector) : Prop where
  video : Remembers (past.reverse.find? Corrected.isVideo) c.videoOriginalTimestamp
    c.videoCorrectedTimestamp
  audio : Remembers (past.reverse.find? Corrected.isAudio) c.audioOriginalTimestamp
    c.audioCorrectedTimestamp
  count : c.audioNumbersBetweenVideo = toInt32 (audiosInRow Corrected.isVideo past)
  clocks : ∀ e ∈ past, 0 ≤ e.clock ∧ e.returned = .ofInt e.clock

theorem follows_start :
  Follows ([] : List (Corrected ε)) {}
  where
  video := rfl
  audio := rfl
  count := toInt32_zero.symm
  clocks _ h := absurd h List.not_mem_nil

/-- The clock of a packet, from the packets before it. -/
def clockAfter (past : List (Corrected ε)) (p : MediaPacket ε) : Int :=
  match taken Corrected.isVideo past p.isVideo with
  | none => p.time
  | some ref => if Unshifted p ref then p.time else max 0 (ref.clock + shift p ref)

section Last

variable {past : List (Corrected ε)}

theorem find?_reverse_concat {α : Type} {past : List α} (e : α) (f : α → Bool) :
  (past ++ [e]).reverse.find? f = if f e then some e else past.reverse.find? f
  := by
  rw [List.reverse_append, List.reverse_singleton, List.singleton_append, List.find?_cons]
  split
  next hf => rw [if_pos hf]
  next hf => rw [if_neg (by simp [hf])]

/-- One audio more is in the row, or a video ends it. -/
theorem audiosInRow_concat {α : Type} {isVideo : α → Bool} {before : List α} (a : α) :
  audiosInRow isVideo (before ++ [a]) = if isVideo a then 0 else audiosInRow isVideo before + 1
  := by
  rw [audiosInRow, List.reverse_append, List.reverse_singleton, List.singleton_append,
    List.takeWhile_cons]
  cases isVideo a with
  | true => rfl
  | false => rfl

/-- Without an audio behind the last video, the last packet is that video. -/
theorem getLast?_of_count_eq_zero (h : audiosInRow Corrected.isVideo past = 0) :
  past.getLast? = past.reverse.find? Corrected.isVideo
  := by
  induction past using List.reverseRecOn with
  | nil => rfl
  | append_singleton before e _ =>
      rw [find?_reverse_concat, List.getLast?_concat, if_pos]
      by_contra hnot
      rw [audiosInRow, List.reverse_append, List.reverse_singleton, List.singleton_append,
        List.takeWhile_cons_of_pos (by simpa using hnot), List.length_cons] at h
      omega

/-- Behind the last video, the last packet is an audio. -/
theorem getLast?_of_count_pos (h : 0 < audiosInRow Corrected.isVideo past) :
  past.getLast? = past.reverse.find? Corrected.isAudio
  := by
  induction past using List.reverseRecOn with
  | nil => rfl
  | append_singleton before e _ =>
      rw [find?_reverse_concat, List.getLast?_concat, if_pos]
      by_contra hnot
      rw [audiosInRow, List.reverse_append, List.reverse_singleton, List.singleton_append,
        List.takeWhile_cons_of_neg (by simpa [Corrected.isAudio] using hnot), List.length_nil] at h
      omega

/-- Before the first video, the last packet is an audio. -/
theorem getLast?_of_noVideo (h : past.reverse.find? Corrected.isVideo = none) :
  past.getLast? = past.reverse.find? Corrected.isAudio
  := by
  induction past using List.reverseRecOn with
  | nil => rfl
  | append_singleton before e _ =>
      rw [find?_reverse_concat] at h
      rw [find?_reverse_concat, List.getLast?_concat, if_pos]
      rw [Corrected.isAudio]
      cases hvideo : e.isVideo with
      | true =>
          rw [hvideo, if_pos rfl] at h
          cases h
      | false => rfl

end Last

theorem Remembers.ne_neg_one {e : Corrected ε} {original clock : Int}
    (h : Remembers (some e) original clock) :
  original ≠ -1
  := by
  have hpos := e.packet.time_nonneg
  rw [h.1, Corrected.time]
  omega

/-- The clock of a video. -/
theorem clockAfter_video {past : List (Corrected ε)} {c : TimeCorrector} (h : Follows past c)
    {p : MediaPacket ε} (hp : p.isVideo = true) {k : Int}
    (hold : c.videoOriginalTimestamp ≠ -1 →
      k = max 0 (c.videoCorrectedTimestamp +
        TimeCorrector.fineDelta (p.time - c.videoOriginalTimestamp) 100 40))
    (hfirst : c.videoOriginalTimestamp = -1 → c.audioOriginalTimestamp = -1 → k = p.time)
    (hswitch : c.videoOriginalTimestamp = -1 → c.audioOriginalTimestamp ≠ -1 →
      k = if Near (toInt32 (c.audioOriginalTimestamp - p.time)) 0 then
          p.time
        else
          max 0 (c.audioCorrectedTimestamp +
            TimeCorrector.fineDelta (p.time - c.audioOriginalTimestamp) 100 40)) :
  k = clockAfter past p
  := by
  have hvideo := h.video
  have haudio := h.audio
  rw [clockAfter, hp, taken, if_neg (not_overruns_video _ past), reference, if_pos rfl]
  rcases hlast : past.reverse.find? Corrected.isVideo with _ | e
  · rw [hlast] at hvideo
    rw [Option.none_or, getLast?_of_noVideo hlast]
    rcases hother : past.reverse.find? Corrected.isAudio with _ | a
    · rw [hother] at haudio
      apply hfirst hvideo haudio
    · rw [hother] at haudio
      have hkind : a.isVideo = false := by simpa [Corrected.isAudio] using List.find?_some hother
      rw [hswitch hvideo haudio.ne_neg_one, haudio.1, haudio.2]
      simp only [Unshifted, shift, hp, hkind, true_and, Bool.not_true, Bool.false_and,
        Bool.false_eq_true, if_false]
  · rw [hlast] at hvideo
    have hkind : e.isVideo = true := List.find?_some hlast
    rw [Option.some_or, hold hvideo.ne_neg_one, hvideo.1, hvideo.2]
    simp only [Unshifted, shift, hp, hkind, Bool.true_eq_false, false_and, and_false, if_false,
      Bool.not_true, Bool.false_and, Bool.false_eq_true]

/-- The clock of an audio. -/
theorem clockAfter_audio {past : List (Corrected ε)} {c : TimeCorrector} (h : Follows past c)
    {p : MediaPacket ε} (hp : p.isVideo = false) {k : Int}
    (hnext : toInt32 (c.audioNumbersBetweenVideo + 1) ≤ 1 →
      k = if c.videoOriginalTimestamp = -1 then
          p.time
        else
          max 0 (c.videoCorrectedTimestamp +
            TimeCorrector.fineDelta (p.time - c.videoOriginalTimestamp) 100 40))
    (hlater : 1 < toInt32 (c.audioNumbersBetweenVideo + 1) →
      k = if c.audioOriginalTimestamp = -1 then
          p.time
        else
          max 0 (c.audioCorrectedTimestamp +
            TimeCorrector.fineDelta (p.time - c.audioOriginalTimestamp) 100 20)) :
  k = clockAfter past p
  := by
  have hvideo := h.video
  have haudio := h.audio
  rw [h.count, toInt32_toInt32_add] at hnext hlater
  -- the count is at most one: the packet is corrected against the last video
  have hbyVideo (hfew : toInt32 (audiosInRow Corrected.isVideo past + 1) ≤ 1)
      (htaken : taken Corrected.isVideo past p.isVideo = past.reverse.find? Corrected.isVideo) :
      k = clockAfter past p
    := by
    rw [clockAfter, htaken, hnext hfew]
    rcases hlast : past.reverse.find? Corrected.isVideo with _ | e
    · rw [hlast] at hvideo
      apply if_pos hvideo
    · rw [hlast] at hvideo
      have hkind : e.isVideo = true := List.find?_some hlast
      rw [if_neg hvideo.ne_neg_one, hvideo.1, hvideo.2]
      simp only [Unshifted, shift, hp, hkind, Bool.false_eq_true, false_and, if_false,
        Bool.not_false, Bool.not_true, Bool.and_false]
  by_cases hover : Overruns Corrected.isVideo past p.isVideo
  · exact hbyVideo hover.2.2 (if_pos hover)
  · have htaken : taken Corrected.isVideo past p.isVideo = past.getLast?
      := by rw [taken, if_neg hover, reference, hp, if_neg Bool.false_ne_true]
    rcases Nat.eq_zero_or_pos (audiosInRow Corrected.isVideo past) with hzero | hpos
    · apply hbyVideo
      · rw [hzero]
        decide
      · rw [htaken, getLast?_of_count_eq_zero hzero]
    · have hmany : 1 < toInt32 (audiosInRow Corrected.isVideo past + 1)
        := by
        by_contra hfew
        exact hover ⟨hp, hpos, Int.not_lt.mp hfew⟩
      rw [clockAfter, htaken, getLast?_of_count_pos hpos, hlater hmany]
      rcases hlast : past.reverse.find? Corrected.isAudio with _ | a
      · rw [hlast] at haudio
        apply if_pos haudio
      · rw [hlast] at haudio
        have hkind : a.isVideo = false := by simpa [Corrected.isAudio] using List.find?_some hlast
        rw [if_neg haudio.ne_neg_one, haudio.1, haudio.2]
        simp only [Unshifted, shift, hp, hkind, Bool.false_eq_true, false_and, if_false,
          Bool.not_false, Bool.and_self, if_true]

/-- A clock is never negative. -/
theorem clockAfter_nonneg (past : List (Corrected ε)) (p : MediaPacket ε) :
  0 ≤ clockAfter past p
  := by
  have hpos := p.time_nonneg
  rw [clockAfter]
  split
  · exact hpos
  · split
    · exact hpos
    · omega

/-- One packet: its clock, and what the corrector remembers then. -/
theorem Follows.step {s : Correction ε} (h : Follows s.past s.corrector) (p : MediaPacket ε) :
  (s.step p).past = s.past ++ [⟨p, clockAfter s.past p, .ofInt (clockAfter s.past p)⟩] ∧
    Follows (s.step p).past (s.step p).corrector
  := by
  have hclocks : ∀ e ∈ s.past ++ [⟨p, clockAfter s.past p, .ofInt (clockAfter s.past p)⟩],
      0 ≤ e.clock ∧ e.returned = .ofInt e.clock
    := by
    intro e he
    rcases List.mem_append.mp he with hold | hnew
    · apply h.clocks e hold
    · rw [List.mem_singleton.mp hnew]
      exact ⟨clockAfter_nonneg s.past p, rfl⟩
  rw [Correction.step, TimeCorrector.correctTimestamp, p.notHeader, Bool.not_false, if_pos rfl]
  cases hvideo : p.isVideo with
  | true =>
      have hkind : p.packet.isVideo = true := hvideo
      have hentry : (⟨p, clockAfter s.past p, .ofInt (clockAfter s.past p)⟩ :
          Corrected ε).isVideo = true := hvideo
      rw [if_pos hkind]
      obtain ⟨k, heq, hold, hfirst, hswitch⟩ := correctVideo_spec s.corrector p
      have hk := clockAfter_video h hvideo hold hfirst hswitch
      rw [heq]
      dsimp only
      rw [clock, if_pos hvideo]
      dsimp only
      rw [hk]
      refine ⟨rfl, ?_, ?_, ?_, hclocks⟩
      · rw [find?_reverse_concat, if_pos hentry]
        exact ⟨rfl, rfl⟩
      · rw [find?_reverse_concat, if_neg (by simpa [Corrected.isAudio] using hentry)]
        apply h.audio
      · rw [audiosInRow_concat, if_pos hentry]
        exact toInt32_zero.symm
  | false =>
      have haudio : p.packet.isAudio = true
        := by
        rcases p.media with h | h
        · exact absurd (hvideo.symm.trans h) Bool.false_ne_true
        · exact h
      have hkind : ¬p.packet.isVideo = true := Bool.eq_false_iff.mp hvideo
      have hentry : ¬(⟨p, clockAfter s.past p, .ofInt (clockAfter s.past p)⟩ :
          Corrected ε).isVideo = true := hkind
      rw [if_neg hkind, if_pos haudio]
      obtain ⟨k, heq, hnext, hlater⟩ := correctAudio_spec s.corrector p
      have hk := clockAfter_audio h hvideo hnext hlater
      rw [heq]
      dsimp only
      rw [clock, if_neg (Bool.eq_false_iff.mp hvideo)]
      dsimp only
      rw [hk]
      refine ⟨rfl, ?_, ?_, ?_, hclocks⟩
      · rw [find?_reverse_concat, if_neg hentry]
        apply h.video
      · rw [find?_reverse_concat, if_pos (by simpa [Corrected.isAudio] using hentry)]
        exact ⟨rfl, rfl⟩
      · rw [audiosInRow_concat, if_neg hentry, h.count, toInt32_toInt32_add, Nat.cast_succ]

/-- The clock of a packet with a reference, while the count has not run over. -/
theorem clockAfter_of_reference {past : List (Corrected ε)} {p : MediaPacket ε}
    (hcount : ¬ Overruns Corrected.isVideo past p.isVideo) {ref : Corrected ε}
    (href : ref ∈ reference Corrected.isVideo past p.isVideo) :
  clockAfter past p = if Unshifted p ref then p.time else max 0 (ref.clock + shift p ref)
  := by
  rw [clockAfter, taken, if_neg hcount, Option.mem_def.mp href]

/-- The clock of an audio for which it has. -/
theorem clockAfter_of_overruns {past : List (Corrected ε)} {p : MediaPacket ε}
    (hover : Overruns Corrected.isVideo past p.isVideo) :
  clockAfter past p = videoClock past p
  := by
  rw [clockAfter, taken, if_pos hover, videoClock]
  cases past.reverse.find? Corrected.isVideo with
  | none => rfl
  | some v =>
      have hshifted : ¬ Unshifted p v := fun h => Bool.false_ne_true (hover.1.symm.trans h.1)
      dsimp only
      rw [if_neg hshifted, Option.elim_some]

/-! ### Regular streams -/

/-- A step below 100 ms is taken as it is. -/
theorem fineDelta_of_near {x y default : Int} (h : Near x y) :
  TimeCorrector.fineDelta (x - y) 100 default = x - y
  := by
  rw [TimeCorrector.fineDelta, if_pos]
  rw [Bool.and_eq_true, decide_eq_true_eq, decide_eq_true_eq]
  exact h

/-- A step is below 100 ms. -/
theorem near_shift (x : Int) (p : MediaPacket ε) (ref : Corrected ε) :
  Near (x + shift p ref) x
  := by
  rw [shift, TimeCorrector.fineDelta]
  split
  next hfine =>
    rw [Bool.and_eq_true, decide_eq_true_eq, decide_eq_true_eq] at hfine
    rw [Near]
    omega
  next =>
    rw [Near]
    split
    · omega
    · omega

theorem mem_of_mem_reference {past : List (Corrected ε)} {video : Bool} {ref : Corrected ε}
    (href : ref ∈ reference Corrected.isVideo past video) :
  ref ∈ past
  := by
  rw [reference] at href
  split at href
  · rcases Option.or_eq_some_iff.mp href with hvideo | ⟨-, hlast⟩
    · exact List.mem_reverse.mp (List.mem_of_find?_eq_some hvideo)
    · exact List.mem_of_getLast? hlast
  · exact List.mem_of_getLast? href

/-- A reference is found through a function that keeps the kinds. -/
theorem reference_map {α β : Type} {isVideo : α → Bool} {isVideo' : β → Bool} (f : α → β)
    (hf : ∀ a, isVideo' (f a) = isVideo a) (before : List α) (video : Bool) :
  reference isVideo' (before.map f) video = (reference isVideo before video).map f
  := by
  have hkind : isVideo' ∘ f = isVideo := funext hf
  rw [reference, reference, ← List.map_reverse, List.find?_map, hkind, List.getLast?_map]
  split
  · rw [Option.map_or]
  · rfl

/-- Such a function does not change the number of audios in a row. -/
theorem audiosInRow_map {α β : Type} {isVideo : α → Bool} {isVideo' : β → Bool} (f : α → β)
    (hf : ∀ a, isVideo' (f a) = isVideo a) (before : List α) :
  audiosInRow isVideo' (before.map f) = audiosInRow isVideo before
  := by
  have hkind : (fun b => !isVideo' b) ∘ f = fun a => !isVideo a
    := funext fun a => congrArg _ (hf a)
  rw [audiosInRow, audiosInRow, ← List.map_reverse, List.takeWhile_map, List.length_map, hkind]

theorem near_of_continues {past : List (Corrected ε)} {p : MediaPacket ε}
    (h : Continues (past.map Corrected.packet) p) {ref : Corrected ε}
    (href : ref ∈ reference Corrected.isVideo past p.isVideo) :
  Near p.time ref.time
  := by
  apply h ref.packet
  rw [reference_map Corrected.packet (fun _ => rfl) past]
  exact Option.mem_map_of_mem _ href

theorem unharmed_iff {past : List (Corrected ε)} {p : MediaPacket ε} :
  Unharmed (past.map Corrected.packet) p ↔
    (Overruns Corrected.isVideo past p.isVideo →
      ∀ video ∈ past.reverse.find? Corrected.isVideo,
        Near p.time video.time ∨ p.time + 2 ^ 32 = video.time + 40)
  := by
  have hrow : audiosInRow MediaPacket.isVideo (past.map Corrected.packet) =
      audiosInRow Corrected.isVideo past
    := audiosInRow_map Corrected.packet (fun _ => rfl) past
  have hfind : (past.map Corrected.packet).reverse.find? MediaPacket.isVideo =
      (past.reverse.find? Corrected.isVideo).map Corrected.packet
    := by
    rw [← List.map_reverse, List.find?_map]
    rfl
  rw [Unharmed, Overruns, Overruns, hrow, hfind]
  cases past.reverse.find? Corrected.isVideo with
  | none => exact iff_of_true (fun _ => nofun) fun _ => nofun
  | some v => simp only [Option.map_some, Option.mem_def, Option.some_inj, forall_eq']; rfl

/-- Every packet so far got its own timestamp: the clock of a video is its time, and that of an
audio too, but perhaps a turn of 32 bits later. -/
structure Transparent (past : List (Corrected ε)) : Prop where
  own : ∀ e ∈ past, e.clock = e.time ∨ e.isVideo = false ∧ e.clock = e.time + 2 ^ 32
  start : past.reverse.find? Corrected.isVideo = none → ∀ e ∈ past, e.clock = e.time

section Regular

variable {past : List (Corrected ε)} {p : MediaPacket ε}

theorem Transparent.clock_video (h : Transparent past) {v : Corrected ε}
    (hv : v ∈ past.reverse.find? Corrected.isVideo) :
  v.clock = v.time
  := by
  have hkind : v.isVideo = true := List.find?_some hv
  rcases h.own v (List.mem_reverse.mp (List.mem_of_find?_eq_some hv)) with hown | ⟨hno, -⟩
  · exact hown
  · exact absurd (hkind.symm.trans hno) (by decide)

/-- The clock of a packet near its reference moves as its time does. -/
theorem clockAfter_of_near (hcount : ¬ Overruns Corrected.isVideo past p.isVideo)
    (hcontinues : Continues (past.map Corrected.packet) p) :
  clockAfter past p = p.time ∨
    ∃ ref ∈ reference Corrected.isVideo past p.isVideo,
      clockAfter past p = max 0 (ref.clock + (p.time - ref.time))
  := by
  rw [clockAfter, taken, if_neg hcount]
  cases href : reference Corrected.isVideo past p.isVideo with
  | none => exact .inl rfl
  | some ref =>
      dsimp only
      split
      · exact .inl rfl
      · refine .inr ⟨ref, rfl, ?_⟩
        rw [shift, fineDelta_of_near (near_of_continues hcontinues href)]

/-- Before the first video the clock is the time of the packet. -/
theorem Transparent.clockAfter_of_noVideo (h : Transparent past)
    (hnone : past.reverse.find? Corrected.isVideo = none)
    (hcontinues : Continues (past.map Corrected.packet) p) :
  clockAfter past p = p.time
  := by
  have hpos := p.time_nonneg
  by_cases hover : Overruns Corrected.isVideo past p.isVideo
  · rw [clockAfter_of_overruns hover, videoClock, hnone]
    rfl
  · rcases clockAfter_of_near hover hcontinues with hown | ⟨ref, href, hmoved⟩
    · exact hown
    · rw [hmoved, h.start hnone ref (mem_of_mem_reference href)]
      omega

/-- While the count has not run over, the packet gets its own timestamp. -/
theorem Transparent.clockAfter_of_count (h : Transparent past)
    (hcount : ¬ Overruns Corrected.isVideo past p.isVideo)
    (hcontinues : Continues (past.map Corrected.packet) p) :
  clockAfter past p = p.time ∨ p.isVideo = false ∧ clockAfter past p = p.time + 2 ^ 32
  := by
  have hpos := p.time_nonneg
  rcases hlast : past.reverse.find? Corrected.isVideo with _ | v
  · exact .inl (h.clockAfter_of_noVideo hlast hcontinues)
  · rcases clockAfter_of_near hcount hcontinues with hown | ⟨ref, href, hmoved⟩
    · exact .inl hown
    · cases hkind : p.isVideo with
      | true =>
          -- the reference is the last video
          rw [hkind, reference, if_pos rfl, hlast, Option.some_or] at href
          cases href
          rw [hmoved, h.clock_video hlast]
          omega
      | false =>
          rw [hmoved]
          rcases h.own ref (mem_of_mem_reference href) with hown | ⟨-, hown⟩
          · left
            rw [hown]
            omega
          · right
            rw [hown]
            exact ⟨rfl, by omega⟩

/-- Where it has run over, the packet gets it exactly if it is near the last video, or a turn of
32 bits behind what that gives. -/
theorem Transparent.own_of_overruns (h : Transparent past)
    (hover : Overruns Corrected.isVideo past p.isVideo) {v : Corrected ε}
    (hv : v ∈ past.reverse.find? Corrected.isVideo) :
  (clockAfter past p % 2 ^ 32 = p.time ↔ Near p.time v.time ∨ p.time + 2 ^ 32 = v.time + 40) ∧
    (Near p.time v.time ∨ p.time + 2 ^ 32 = v.time + 40 →
      clockAfter past p = p.time ∨ clockAfter past p = p.time + 2 ^ 32)
  := by
  have hpos := p.time_nonneg
  have hlt := p.time_lt
  have hvideo : 0 ≤ v.time ∧ v.time < 2 ^ 32 := ⟨v.packet.time_nonneg, v.packet.time_lt⟩
  have hkind : v.isVideo = true := List.find?_some hv
  have hclock : clockAfter past p = max 0 (v.time + shift p v)
    := by rw [clockAfter_of_overruns hover, videoClock, hv, Option.elim_some, h.clock_video hv]
  by_cases hnear : Near p.time v.time
  · rw [shift, fineDelta_of_near hnear] at hclock
    have hown : clockAfter past p = p.time := by omega
    rw [hown]
    exact ⟨iff_of_true (by omega) (.inl hnear), fun _ => .inl rfl⟩
  · have hshift : shift p v = 40
      := by
      rw [shift, TimeCorrector.fineDelta, hkind, if_neg]
      · simp only [Bool.not_true, Bool.and_false, Bool.false_eq_true, if_false]
      · rw [Bool.and_eq_true, decide_eq_true_eq, decide_eq_true_eq]
        exact hnear
    rw [Near] at hnear
    rw [Near, hclock, hshift]
    omega

end Regular

/-- One packet of a regular stream gets its own timestamp exactly if it is unharmed. -/
theorem Transparent.step {past : List (Corrected ε)} {p : MediaPacket ε} (h : Transparent past)
    (hcontinues : Continues (past.map Corrected.packet) p) :
  (clockAfter past p % 2 ^ 32 = p.time ↔ Unharmed (past.map Corrected.packet) p) ∧
    (Unharmed (past.map Corrected.packet) p →
      Transparent (past ++ [⟨p, clockAfter past p, .ofInt (clockAfter past p)⟩]))
  := by
  have hpos := p.time_nonneg
  have hlt := p.time_lt
  have hsame {x : Int} (hx : x = p.time ∨ p.isVideo = false ∧ x = p.time + 2 ^ 32) :
      x % 2 ^ 32 = p.time
    := by omega
  have hnext (hown : clockAfter past p = p.time ∨
        p.isVideo = false ∧ clockAfter past p = p.time + 2 ^ 32) :
      Transparent (past ++ [⟨p, clockAfter past p, .ofInt (clockAfter past p)⟩])
    := by
    constructor
    · intro e he
      rcases List.mem_append.mp he with hold | hnew
      · exact h.own e hold
      · rw [List.mem_singleton.mp hnew]
        exact hown
    · intro hnone e he
      rw [find?_reverse_concat] at hnone
      split at hnone
      · cases hnone
      · rcases List.mem_append.mp he with hold | hnew
        · exact h.start hnone e hold
        · rw [List.mem_singleton.mp hnew]
          exact h.clockAfter_of_noVideo hnone hcontinues
  rw [unharmed_iff]
  by_cases hover : Overruns Corrected.isVideo past p.isVideo
  · rw [forall_prop_of_true hover]
    cases hlast : past.reverse.find? Corrected.isVideo with
    | none =>
        have hown := h.clockAfter_of_noVideo hlast hcontinues
        exact ⟨iff_of_true (hsame (.inl hown)) nofun, fun _ => hnext (.inl hown)⟩
    | some v =>
        obtain ⟨hiff, hclocks⟩ := h.own_of_overruns hover hlast
        simp only [Option.mem_def, Option.some_inj, forall_eq']
        exact ⟨hiff, fun hkept => hnext ((hclocks hkept).imp_right fun heq => ⟨hover.1, heq⟩)⟩
  · have hown := h.clockAfter_of_count hover hcontinues
    exact ⟨iff_of_true (hsame hown) fun hno => absurd hno hover, fun _ => hnext hown⟩

/-- What was corrected stays so. -/
theorem mem_past_run {s : Correction ε} {e : Corrected ε} (he : e ∈ s.past)
    (packets : List (MediaPacket ε)) :
  e ∈ (run step s packets).past
  := by
  induction packets generalizing s with
  | nil => exact he
  | cons p packets ih => exact ih (List.mem_append_left _ he)

/-- The packets of a run. -/
theorem packets_run (s : Correction ε) (packets : List (MediaPacket ε)) :
  (run step s packets).past.map Corrected.packet = s.past.map Corrected.packet ++ packets
  := by
  induction packets generalizing s with
  | nil => exact (List.append_nil _).symm
  | cons p packets ih =>
      have hpast : (s.step p).past.map Corrected.packet = s.past.map Corrected.packet ++ [p]
        := List.map_append
      have hrest := ih (s.step p)
      rw [hpast, List.append_assoc] at hrest
      exact hrest

/-- On a regular stream every packet gets its own timestamp exactly if all are unharmed. -/
theorem own_iff_unharmed {s : Correction ε} (hfollows : Follows s.past s.corrector)
    (h : Transparent s.past) {rest : List (MediaPacket ε)}
    (hregular : Steps (fun before p => before ++ [p]) Continues (s.past.map Corrected.packet)
      rest) :
  (∀ e ∈ (run step s rest).past, e.Own) ↔
    Steps (fun before p => before ++ [p]) Unharmed (s.past.map Corrected.packet) rest
  := by
  have hown (e : Corrected ε) (hreturned : e.returned = .ofInt e.clock) :
      e.Own ↔ e.clock % 2 ^ 32 = e.time
    := by
    rw [Corrected.Own, ← Nat.cast_inj (R := Int), hreturned, toNat_ofInt_int]
    rfl
  induction rest generalizing s with
  | nil =>
      refine iff_of_true (fun e he => ?_) trivial
      have hlt := e.packet.time_lt
      have hpos := e.packet.time_nonneg
      rw [hown e (hfollows.clocks e he).2, Corrected.time]
      have hclock := h.own e he
      rw [Corrected.time] at hclock
      omega
  | cons p rest ih =>
      obtain ⟨hpast, hfollows'⟩ := hfollows.step p
      obtain ⟨hstep, hnext⟩ := h.step hregular.1
      have hmap : (s.step p).past.map Corrected.packet = s.past.map Corrected.packet ++ [p]
        := List.map_append
      have hrest : Steps (fun before p => before ++ [p]) Continues
          ((s.step p).past.map Corrected.packet) rest
        := hmap ▸ hregular.2
      have hlast : ⟨p, clockAfter s.past p, .ofInt (clockAfter s.past p)⟩ ∈ (s.step p).past
        := by
        rw [hpast]
        exact List.mem_append_right _ (List.mem_singleton_self _)
      constructor
      · intro hall
        have hharm := hstep.mp ((hown _ rfl).mp (hall _ (mem_past_run hlast rest)))
        have htransparent := hnext hharm
        rw [← hpast] at htransparent
        have hkept := (ih hfollows' htransparent hrest).mp hall
        rw [hmap] at hkept
        exact ⟨hharm, hkept⟩
      · rintro ⟨hharm, hkept⟩
        have htransparent := hnext hharm
        rw [← hpast] at htransparent
        apply (ih hfollows' htransparent hrest).mpr
        rw [hmap]
        exact hkept

theorem transparent_nil : Transparent ([] : List (Corrected ε))
  where
  own _ he := absurd he List.not_mem_nil
  start _ _ he := absurd he List.not_mem_nil

theorem own_iff_unharmed_start {packets : List (MediaPacket ε)} (h : Regular packets) :
  (∀ e ∈ (run step ({} : Correction ε) packets).past, e.Own) ↔
    Steps (fun before p => before ++ [p]) Unharmed [] packets
  := own_iff_unharmed (s := ({} : Correction ε)) follows_start transparent_nil h

/-- What a run returns, packet by packet. -/
theorem returned_iff_own (packets : List (MediaPacket ε)) :
  (run step {} packets).past.map (fun e => (e.packet, e.returned.toNat)) =
      packets.map (fun p => (p, p.packet.timestamp.toNat)) ↔
    ∀ e ∈ (run step ({} : Correction ε) packets).past, e.Own
  := by
  have hpackets : (run step ({} : Correction ε) packets).past.map Corrected.packet = packets
    := packets_run {} packets
  have hown : packets.map (fun p => (p, p.packet.timestamp.toNat)) =
      (run step ({} : Correction ε) packets).past.map
        (fun e => (e.packet, e.packet.packet.timestamp.toNat))
    := by
    rw [← hpackets, List.map_map, hpackets]
    rfl
  rw [hown, List.map_inj_left]
  apply forall₂_congr
  intro e _
  exact ⟨congrArg Prod.snd, congrArg (Prod.mk e.packet)⟩

/-- On a regular stream every packet gets its own timestamp exactly if all are unharmed. -/
theorem returned_eq_timestamp_iff (packets : List (MediaPacket ε)) (h : Regular packets) :
  (run step {} packets).past.map (fun e => (e.packet, e.returned.toNat)) =
      packets.map (fun p => (p, p.packet.timestamp.toNat)) ↔
    Steps (fun before p => before ++ [p]) Unharmed [] packets
  := (returned_iff_own packets).trans (own_iff_unharmed_start h)

/-- A packet without data, with a timestamp. -/
def mediaPacket (video : Bool) (timestamp : UInt32) : MediaPacket Unit where
  packet :=
    { type := if video then kPacketTypeVideo else kPacketTypeAudio
      timestamp := timestamp.toUInt64
      capacity := 0
      ext := () }
  notHeader := rfl
  media := by
    cases video
    · right
      apply beq_self_eq_true
    · left
      change (BitVec.ofInt 32 kPacketTypeVideo &&& BitVec.ofInt 32 kPacketTypeVideo ==
        BitVec.ofInt 32 kPacketTypeVideo) = true
      decide
  short := by
    rw [UInt32.toNat_toUInt64]
    exact timestamp.toNat_lt

theorem returned_eq_timestamp_three :
  (run step {} [mediaPacket false 10, mediaPacket true 40, mediaPacket false 30]).past.map
      (fun e => (e.packet.isVideo, e.returned.toNat)) = [(false, 10), (true, 40), (false, 30)]
  := by
  have h := (returned_eq_timestamp_iff
    [mediaPacket false 10, mediaPacket true 40, mediaPacket false 30] (by decide)).mpr (by decide)
  have hboth := congrArg (List.map fun e => (e.1.isVideo, e.2)) h
  rwa [List.map_map] at hboth

/-- An audio near the last packet. -/
theorem continues_audio {before : List (MediaPacket ε)} {last p : MediaPacket ε}
    (hlast : before.getLast? = some last) (hp : p.isVideo = false) (hnear : Near p.time last.time) :
  Continues before p
  := by
  intro ref href
  rw [hp, reference, if_neg Bool.false_ne_true, hlast] at href
  cases href
  exact hnear

/-- Audios that are all at the time of the last packet. -/
theorem steps_replicate {before : List (MediaPacket ε)} {last p : MediaPacket ε}
    (hlast : before.getLast? = some last) (hp : p.isVideo = false) (htime : p.time = last.time)
    (n : Nat) :
  Steps (fun before p => before ++ [p]) Continues before (List.replicate n p)
  := by
  induction n generalizing before last with
  | zero => trivial
  | succ n ih =>
      refine ⟨continues_audio hlast hp ?_, ih List.getLast?_concat rfl⟩
      rw [htime, Near, Int.sub_self]
      decide

theorem run_concat {α : Type} (before packets : List α) :
  run (fun before p => before ++ [p]) before packets = before ++ packets
  := by
  induction packets generalizing before with
  | nil => exact (List.append_nil before).symm
  | cons p packets ih =>
      rw [run, List.foldl_cons, ← run, ih, List.append_assoc]
      rfl

/-- A video, very many audios at its time, and two more with steps of 60 ms. -/
def longRow (n : Nat) : List (MediaPacket Unit) :=
  [mediaPacket true 0] ++ List.replicate n (mediaPacket false 0) ++
    [mediaPacket false 60, mediaPacket false 120]

theorem regular_longRow {n : Nat} (hn : 0 < n) :
  Regular (longRow n)
  := by
  have hlast : ([mediaPacket true 0] ++ List.replicate n (mediaPacket false 0)).getLast? =
      some (mediaPacket false 0)
    := by
    rw [List.getLast?_append, List.getLast?_replicate, if_neg (Nat.ne_of_gt hn)]
    rfl
  have hvideo : ([] ++ [mediaPacket true 0]).getLast? = some (mediaPacket true 0) := rfl
  have htime : (mediaPacket false 0).time = (mediaPacket true 0).time := rfl
  rw [Regular, longRow, steps_append, steps_append, run_concat, run_concat]
  refine ⟨⟨⟨nofun, trivial⟩, steps_replicate hvideo rfl htime n⟩, ?_, ?_, trivial⟩
  · exact continues_audio hlast rfl (by decide)
  · exact continues_audio List.getLast?_concat rfl (by decide)

/-- The row of audios in it, before the last two. -/
theorem longRow_row (n : Nat) :
  audiosInRow MediaPacket.isVideo ([mediaPacket true 0] ++ List.replicate n (mediaPacket false 0)) =
      n ∧
    ([mediaPacket true 0] ++ List.replicate n (mediaPacket false 0)).reverse.find?
      MediaPacket.isVideo = some (mediaPacket true 0)
  := by
  have haudio : ¬ (mediaPacket false 0).isVideo = true := by decide
  induction n with
  | zero => exact ⟨rfl, rfl⟩
  | succ n ih =>
      rw [List.replicate_succ', ← List.append_assoc, audiosInRow_concat, find?_reverse_concat,
        if_neg haudio, if_neg haudio, ih.1, ih.2]
      exact ⟨rfl, rfl⟩

/-- With `2 ^ 31` audios behind a video, the last is not near the packet it is compared with. -/
theorem not_returned_eq_timestamp_longRow :
  ¬ ∀ packets : List (MediaPacket Unit), Regular packets →
    (run step {} packets).past.map (fun e => (e.packet, e.returned.toNat)) =
      packets.map (fun p => (p, p.packet.timestamp.toNat))
  := by
  intro h
  have hrow : 0 < 2 ^ 31 - 2 := by decide
  have hregular := regular_longRow hrow
  have hsteps := (own_iff_unharmed_start hregular).mp ((returned_iff_own _).mp (h _ hregular))
  rw [longRow, steps_append, run_concat] at hsteps
  obtain ⟨hcount, hvideo⟩ := longRow_row (2 ^ 31 - 2)
  have haudio : ¬ (mediaPacket false 60).isVideo = true := by decide
  have hover : Overruns MediaPacket.isVideo ([mediaPacket true 0] ++
      List.replicate (2 ^ 31 - 2) (mediaPacket false 0) ++ [mediaPacket false 60]) false
    := by
    rw [Overruns, audiosInRow_concat, if_neg haudio, hcount]
    decide
  have hlast := hsteps.2.2.1 hover (mediaPacket true 0)
  rw [List.nil_append, find?_reverse_concat, if_neg haudio, hvideo] at hlast
  exact absurd (hlast rfl) (by decide)
/-! ### Jumps -/

/-- What the last packet is near to after one more packet. -/
theorem lastNear_step_iff {s : Correction ε} (h : Follows s.past s.corrector) (p : MediaPacket ε)
    (value : Corrected ε → Int) :
  LastNear value (s.step p) ↔
    ∀ ref ∈ reference Corrected.isVideo s.past p.isVideo,
      Near (value ⟨p, clockAfter s.past p, .ofInt (clockAfter s.past p)⟩) (value ref)
  := by
  rw [LastNear, (h.step p).1]
  constructor
  · intro hnear
    apply hnear s.past ⟨p, clockAfter s.past p, .ofInt (clockAfter s.past p)⟩
    rfl
  · intro hnear before last heq
    obtain ⟨hbefore, hlast⟩ := List.append_inj' heq rfl
    cases hlast
    rwa [← hbefore]

/-- The clock of the last packet is near that of its reference exactly if a first video that
keeps its own time is. -/
theorem lastNear_clock_iff {s : Correction ε} (h : Follows s.past s.corrector)
    (p : MediaPacket ε) :
  LastNear Corrected.clock (s.step p) ↔ StartsNear s p
  := by
  rw [lastNear_step_iff h, StartsNear]
  apply forall₂_congr
  intro ref href
  have hpos := (h.clocks ref (mem_of_mem_reference href)).1
  have hshift := near_shift ref.clock p ref
  dsimp only
  split
  next hover => rw [clockAfter_of_overruns hover]
  next hcount =>
    rw [clockAfter_of_reference hcount href]
    split
    next hkeeps => exact ⟨fun hnear _ => hnear, fun hnear => hnear hkeeps⟩
    next hmoved =>
      apply iff_of_true
      · rw [Near] at hshift ⊢
        omega
      · intro hkeeps
        contradiction

/-- The same for the timestamps of 32 bits, when no other packet takes the clock over a multiple
of `2 ^ 32`. -/
theorem lastNear_returned_iff {s : Correction ε} (h : Follows s.past s.corrector)
    (p : MediaPacket ε) :
  LastNear (fun e => e.returned.toNat) (s.step p) ↔ StaysNear s p
  := by
  rw [lastNear_step_iff h, StaysNear]
  apply forall₂_congr
  intro ref href
  obtain ⟨hpos, hreturned⟩ := h.clocks ref (mem_of_mem_reference href)
  have hshift := near_shift ref.clock p ref
  dsimp only
  split
  next hover =>
    rw [clockAfter_of_overruns hover, toNat_ofInt_int]
  next hcount =>
    rw [clockAfter_of_reference hcount href]
    split
    next hkeeps => rw [toNat_ofInt_time]
    next hmoved =>
      rw [hreturned, toNat_ofInt_int, toNat_ofInt_int]
      rw [Near] at hshift ⊢
      omega

/-- In every run, the clock of each packet is near that of the packet it is corrected against
exactly if a first video that keeps its own time is near the clock of the last audio; and the
timestamps of 32 bits are so exactly if besides no clock passes a multiple of `2 ^ 32`. -/
theorem lastNear_iff_startsNear (packets : List (MediaPacket ε)) :
  (Throughout step (LastNear Corrected.clock) {} packets ↔
      Steps step StartsNear {} packets) ∧
    (Throughout step (LastNear fun e => e.returned.toNat) {} packets ↔
      Steps step StaysNear {} packets)
  := by
  have hall : Steps step (fun _ _ => True) ({} : Correction ε) packets := steps_true
  have hempty : ∀ value : Corrected ε → Int, LastNear value ({} : Correction ε)
    := by
    intro value before last heq
    cases List.append_ne_nil_of_right_ne_nil before (List.cons_ne_nil last []) heq.symm
  constructor
  · apply throughout_iff_steps (I := fun s => Follows s.past s.corrector) hall follows_start
      (hempty _)
    intro s p h _ _
    exact ⟨(h.step p).2, lastNear_clock_iff h p⟩
  · apply throughout_iff_steps (I := fun s => Follows s.past s.corrector) hall follows_start
      (hempty _)
    intro s p h _ _
    exact ⟨(h.step p).2, lastNear_returned_iff h p⟩

/-- A corrected timestamp is not always near the one it is corrected against: an audio jumps by
ten seconds, and the first video follows it. -/
theorem not_lastNear_firstVideo :
  ¬ ∀ packets : List (MediaPacket Unit),
    Throughout step (LastNear fun e => e.returned.toNat) {} packets
  := by
  intro h
  have hlast := (h [mediaPacket false 0, mediaPacket false 10000, mediaPacket true 10000]).last
  have hnear := hlast
    [⟨mediaPacket false 0, 0, 0⟩, ⟨mediaPacket false 10000, 20, 20⟩]
    ⟨mediaPacket true 10000, 10000, 10000⟩ rfl ⟨mediaPacket false 10000, 20, 20⟩ rfl
  revert hnear
  decide

end Correction
