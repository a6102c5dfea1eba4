import Mathlib.Data.List.Range
import Tmms.Hls.FragmentTimes
import Tmms.Hls.Owners
import Tmms.Hls.SelfDescribing

/-!
# Playlists

A window of fragments makes a playlist when a fragment is appended and there are three.  The
sequence numbers in the window are the last ones that were given (`Listing`), whatever fragments
are used again, and the playlist is that of the last five fragments (`listed_run`).

The durations are those of timestamps below `2 ^ 31`.  For these the quotients of the sources by
`1000.0` have the same digits and the same ceiling as the exact ones.
-/

/-- A duration in seconds with three digits behind the point. -/
def secondsText (duration : Int) : String :=
  toString (duration / 1000) ++ "." ++ toString (duration % 1000 / 100) ++
    toString (duration % 100 / 10) ++ toString (duration % 10)

/-- What a playlist says: a duration in seconds that no fragment exceeds, the first sequence
number, and the fragments with their durations and names. -/
structure MediaPlayList where
  targetDuration : Int
  mediaSequence : Int
  segments : List (Int × String)
  deriving DecidableEq, Repr

/-- The text of a playlist. -/
def MediaPlayList.text (l : MediaPlayList) : String :=
  "#EXTM3U\n#EXT-X-VERSION:3 \n" ++
    "#EXT-X-TARGETDURATION:" ++ toString l.targetDuration ++ "\n" ++
    "#EXT-X-MEDIA-SEQUENCE:" ++ toString l.mediaSequence ++ "\n" ++
    String.join (l.segments.map fun segment =>
      "#EXTINF:" ++ secondsText segment.1 ++ "\n" ++ segment.2 ++ "\n")

namespace FragmentWindow

/-- The fragments that `UpdatePlayList` lists. -/
def listed (w : FragmentWindow) : List FragmentPtr :=
  w.fragments.drop (if w.fragments.length > 5 then w.fragments.length - 5 else 0)

/-- `UpdatePlayList`, with the playlist there was. -/
def updatePlayList (w : FragmentWindow) (m : HlsMemory) (playlist : String) : String :=
  if w.fragments.length < 3 then playlist
  else
    let maxDuration := w.listed.foldl (fun d f => max d (toInt32 (m.fragments f).duration)) 0
    MediaPlayList.text {
      targetDuration := (maxDuration + 999) / 1000
      mediaSequence := (m.fragments (w.listed.headD 0)).sequenceNo
      segments := w.listed.map fun f => ((m.fragments f).duration, (m.fragments f).filename) }

end FragmentWindow

namespace HLSMuxer

/-- The fragments in the window. -/
def window (m : HLSMuxer) : List Fragment :=
  m.fragmentWindow.fragments.map m.memory.fragments

/-- The sequence numbers in the window. -/
def sequenceNos (m : HLSMuxer) : List Int := m.window.map Fragment.sequenceNo

/-- The last fragments in the window, five or less. -/
def lastFragments (m : HLSMuxer) : List Fragment :=
  m.window.drop (m.window.length - min 5 m.window.length)

/-- A playlist is of the last fragments in the window. -/
structure Lists (m : HLSMuxer) (l : MediaPlayList) : Prop where
  segments : l.segments = m.lastFragments.map fun v => (v.duration, v.filename)
  mediaSequence : m.lastFragments.head?.map Fragment.sequenceNo = some l.mediaSequence
  targetDuration : ∀ v ∈ m.lastFragments, v.duration ≤ 1000 * l.targetDuration

end HLSMuxer

/-- A muxer with the playlist of its window. -/
structure PlayingMuxer where
  muxer : HLSMuxer
  playlist : String := ""

namespace PlayingMuxer

variable {ε : Type}

/-- `OnPacket`. When the current fragment is given to the window, `AppendFragment` ends with the
playlist. -/
def onPacket (s : PlayingMuxer) (now : Int) (packet : Packet ε) : Option PlayingMuxer :=
  let closed := s.muxer.closeFragment packet
  match s.muxer.onPacket now packet with
  | some muxer => some {
      muxer := muxer
      playlist :=
        if s.muxer.switches packet then
          closed.fragmentWindow.updatePlayList closed.memory s.playlist
        else s.playlist }
  | none => none

/-- A packet at a reading of the clock. It has no result if `OnPacket` has none. -/
def step (s : Option PlayingMuxer) (e : Int × Packet ε) : Option PlayingMuxer :=
  s.bind fun s => s.onPacket e.1 e.2

/-- The start of a stream. -/
def start (name : String) (g : TsTool.Globals) : PlayingMuxer := { muxer := HLSMuxer.start name g }

/-- The timestamp of a packet and the number of fragments are below `2 ^ 31`. -/
def InRange (s : PlayingMuxer) (packet : Packet ε) : Prop :=
  packet.timestamp.toNat < 2 ^ 31 ∧ s.muxer.fragmentSeqNo < 2 ^ 31

instance (s : PlayingMuxer) (packet : Packet ε) : Decidable (s.InRange packet) :=
  inferInstanceAs (Decidable (_ ∧ _))

/-- The window is small, its numbers are consecutive, and the playlist is of its last fragments. -/
structure Listed (s : PlayingMuxer) : Prop where
  length_le : s.muxer.window.length ≤ s.muxer.fragmentWindow.windowSize
  consecutive : s.muxer.sequenceNos.IsChain fun a b => b = a + 1
  playlist : s.playlist ≠ "" → ∃ l : MediaPlayList, s.playlist = l.text ∧ s.muxer.Lists l

/-- The window does not move back: its first number and its last are at least what they were. -/
structure Forward (s s' : PlayingMuxer) : Prop where
  first : ∀ a ∈ s.muxer.sequenceNos.head?, ∃ b ∈ s'.muxer.sequenceNos.head?, a ≤ b
  last : ∀ a ∈ s.muxer.sequenceNos.getLast?, ∃ b ∈ s'.muxer.sequenceNos.getLast?, a ≤ b

end PlayingMuxer

/-! ### The last numbers -/

/-- The last numbers below a bound, as many as there are and at most `n`. -/
def lastNumbers (n bound : Nat) : List Int :=
  (List.range' (bound - n) (min bound n)).map Int.ofNat

theorem length_lastNumbers (n bound : Nat) :
  (lastNumbers n bound).length = min bound n
  := by rw [lastNumbers, List.length_map, List.length_range']

/-- The next number comes behind the others, and the first ones leave. -/
theorem lastNumbers_succ (n bound : Nat) :
  (lastNumbers n bound ++ [Int.ofNat bound]).drop (min bound n + 1 - n) = lastNumbers n (bound + 1)
  := by
  have hnext : lastNumbers n bound ++ [Int.ofNat bound] =
      (List.range' (bound - n) (min bound n + 1)).map Int.ofNat
    := by
    rw [List.range'_1_concat, List.map_append, List.map_singleton, lastNumbers]
    congr 3
    omega
  rw [hnext, ← List.map_drop, List.drop_range', lastNumbers]
  congr 2
  · omega
  · omega

theorem isChain_lastNumbers (n bound : Nat) :
  (lastNumbers n bound).IsChain fun a b => b = a + 1
  := by
  apply List.isChain_map_of_isChain Int.ofNat _ (List.isChain_range' _ _ 1)
  rintro a b rfl
  rfl

theorem head_lastNumbers {n bound : Nat} {a : Int} :
  a ∈ (lastNumbers n bound).head? ↔ 0 < min bound n ∧ a = ↑(bound - n)
  := by
  rw [lastNumbers, List.head?_map, List.head?_range']
  split
  · simp
    omega
  · simp
    omega

theorem getLast_lastNumbers {n bound : Nat} {a : Int} :
  a ∈ (lastNumbers n bound).getLast? ↔ 0 < min bound n ∧ a = ↑(bound - 1)
  := by
  rw [lastNumbers, List.getLast?_map, List.getLast?_range']
  split
  · simp
    omega
  · simp
    omega

/-! ### Appending to the window -/

theorem le_foldl_max {α : Type} (d : α → Int) (l : List α) (init : Int) :
  init ≤ l.foldl (fun m a => max m (d a)) init ∧
    ∀ a ∈ l, d a ≤ l.foldl (fun m a => max m (d a)) init
  := by
  induction l generalizing init with
  | nil => exact ⟨Int.le_refl init, fun _ h => (nomatch h)⟩
  | cons a l ih =>
      obtain ⟨hinit, hrest⟩ := ih (max init (d a))
      refine ⟨Int.le_trans (Int.le_max_left _ _) hinit, ?_⟩
      intro b hb
      rcases List.mem_cons.mp hb with rfl | hb
      · exact Int.le_trans (Int.le_max_right _ _) hinit
      · exact hrest b hb

namespace HLSMuxer

variable {ε : Type} {m m' : HLSMuxer} {f : FragmentPtr}

theorem map_listed (m : HLSMuxer) :
  m.fragmentWindow.listed.map m.memory.fragments = m.lastFragments
  := by
  rw [FragmentWindow.listed, lastFragments, window, List.map_drop, List.length_map]
  congr 1
  split
  · omega
  · omega

/-- A playlist that is made is of the last fragments. -/
theorem lists_updatePlayList (h : m.memory.AllTimed) (hlength : 3 ≤ m.window.length)
    (playlist : String) :
  ∃ l : MediaPlayList,
    m.fragmentWindow.updatePlayList m.memory playlist = l.text ∧ m.Lists l
  := by
  rw [window, List.length_map] at hlength
  rw [FragmentWindow.updatePlayList, if_neg (Nat.not_lt.mpr hlength)]
  refine ⟨_, rfl, ⟨?_, ?_, ?_⟩⟩
  · rw [← map_listed, List.map_map]
    rfl
  · rw [← map_listed, List.head?_map, Option.map_map]
    cases hlisted : m.fragmentWindow.listed with
    | nil =>
        have hnone := congrArg List.length hlisted
        rw [FragmentWindow.listed, List.length_drop, List.length_nil] at hnone
        split at hnone
        · omega
        · omega
    | cons f listed => rfl
  · intro v hv
    rw [← map_listed] at hv
    obtain ⟨f, hf, rfl⟩ := List.mem_map.mp hv
    have hmax := (le_foldl_max (fun f => toInt32 (m.memory.fragments f).duration)
      m.fragmentWindow.listed 0).2 f hf
    have hnonneg := (h f).duration_nonneg
    have hlt := (h f).duration_lt
    rw [toInt32_of_fits (by omega) hlt] at hmax
    dsimp only
    omega

/-- The numbers in the window, and that of the current fragment, are the last ones that were
given. -/
structure Numbered (m : HLSMuxer) (n closed : Nat) : Prop where
  held : m.WellHeld
  timed : m.memory.AllTimed
  windowSize : m.fragmentWindow.windowSize = n
  sequenceNos : m.sequenceNos = lastNumbers n closed
  seqNo : m.fragmentSeqNo = closed + m.currentFragment.toList.length
  current : ∀ f ∈ m.currentFragment, (m.memory.fragments f).sequenceNo = closed

theorem Numbered.length_window {n closed : Nat} (h : m.Numbered n closed) :
  m.window.length = min closed n
  := by
  rw [← length_lastNumbers n closed, ← h.sequenceNos, HLSMuxer.sequenceNos, List.length_map]

/-- The window after its first part: the current fragment may come behind the others, and the
first ones leave. -/
theorem window_closeFragment (h : m.WellHeld) (packet : Packet ε) :
  (m.closeFragment packet).window =
    (m.window ++ if m.switches packet then m.currentFragment.toList.map m.memory.fragments
      else []).drop (m.dropped packet).length
  := by
  obtain ⟨-, -, hfragments, hkeeps⟩ := closeFragment_spec h packet
  have hmap : (m.closeFragment packet).window =
      (m.closeFragment packet).fragmentWindow.fragments.map m.memory.fragments
    := by
    apply List.map_congr_left
    intro g hg
    exact (hkeeps g ((mem_closeFragment h packet).mp hg).2).1
  rw [hmap, hfragments, List.map_drop, List.map_append]
  split
  · rfl
  · rfl

/-- So many fragments leave the window that its size is kept. -/
theorem length_dropped {packet : Packet ε} (hswitch : m.switches packet = true)
    (hf : m.currentFragment = some f) :
  (m.dropped packet).length = m.window.length + 1 - m.fragmentWindow.windowSize
  := by
  rw [dropped, if_pos hswitch, hf, List.length_take, Nat.min_eq_left (Nat.sub_le _ _),
    List.length_append, window, List.length_map]
  rfl

/-- There is a current fragment to be given to the window. -/
theorem exists_current {packet : Packet ε} (hswitch : m.switches packet = true) :
  ∃ f, m.currentFragment = some f
  := by
  rw [switches] at hswitch
  split at hswitch
  · rename_i f hf
    exact ⟨f, hf⟩
  · cases hswitch

/-- The current fragment goes to the end of the window. -/
theorem Numbered.closeFragment {n closed : Nat} (h : m.Numbered n closed) {packet : Packet ε}
    (hswitch : m.switches packet = true) :
  (m.closeFragment packet).Numbered n (closed + 1)
  := by
  obtain ⟨hheld, hcurrent, -, -⟩ := closeFragment_spec h.held packet
  rw [if_pos hswitch] at hcurrent
  obtain ⟨f, hf⟩ := exists_current hswitch
  have happend : m.closeFragment packet =
      { m with
        memory := (m.fragmentWindow.appendFragment m.memory f).2
        fragmentWindow := (m.fragmentWindow.appendFragment m.memory f).1
        currentFragment := none }
    := by
    rw [HLSMuxer.closeFragment, hf]
    dsimp only
    rw [if_pos hswitch]
  obtain ⟨htimed, hsize⟩ := FragmentWindow.appendFragment_timed h.timed m.fragmentWindow f
  have hwindow := window_closeFragment h.held packet
  rw [if_pos hswitch, hf, Option.toList_some, List.map_singleton] at hwindow
  have hdropped : (m.dropped packet).length = min closed n + 1 - n
    := by rw [length_dropped hswitch hf, h.length_window, h.windowSize]
  refine ⟨hheld, ?_, ?_, ?_, ?_, ?_⟩
  · rw [happend]
    exact htimed
  · rw [happend]
    exact hsize.trans h.windowSize
  · have hno := h.current f hf
    have hnos := h.sequenceNos
    rw [HLSMuxer.sequenceNos] at hnos
    rw [HLSMuxer.sequenceNos, hwindow, List.map_drop, List.map_append, List.map_singleton, hnos,
      hno, hdropped]
    exact lastNumbers_succ n closed
  · have hseq := h.seqNo
    rw [hf] at hseq
    rw [hcurrent, happend]
    exact hseq
  · rw [hcurrent]
    intro g hg
    cases hg

/-- What is written to the current fragment leaves the window alone. -/
theorem Numbered.performs {n closed : Nat} (h : m.Numbered n closed)
    (hcurrent : m.currentFragment = some f) {pieces : List TsPiece}
    (hperforms : m.Performs m' f pieces) (hmarks : m.Marks m' f) :
  m'.Numbered n closed ∧ m'.window = m.window
  := by
  have hwindow : m'.window = m.window
    := by
    rw [window, window, hperforms.window]
    apply List.map_congr_left
    intro g hg
    apply (hperforms.keeps g _).1
    rintro rfl
    exact h.held.not_mem hcurrent hg
  refine ⟨⟨hperforms.held, ?_, ?_, ?_, ?_, ?_⟩, hwindow⟩
  · intro g
    rcases eq_or_ne g f with rfl | hne
    · exact hmarks.timed
    · rw [(hperforms.keeps g hne).1]
      exact h.timed g
  · rw [hperforms.window]
    exact h.windowSize
  · rw [HLSMuxer.sequenceNos, hwindow]
    exact h.sequenceNos
  · rw [hmarks.seqNo, hperforms.current]
    exact h.seqNo
  · intro g hg
    rw [hperforms.current] at hg
    obtain rfl := Option.some.inj (hcurrent.symm.trans hg)
    rw [hmarks.sequenceNo]
    exact h.current f hcurrent

/-- A fragment that is new has the next number. -/
theorem Numbered.openFragment {n closed : Nat} (h : m.Numbered n closed)
    (hlt : m.fragmentSeqNo < 2 ^ 31) {now : Int} (hopen : m.openFragment now = some (m', f)) :
  m'.Numbered n closed ∧ m'.currentFragment = some f ∧ m'.window = m.window
  := by
  obtain ⟨hheld, hcurrent, hfragments, hkeeps, -⟩ := openFragment_spec h.held hopen
  have hwindow : m'.window = m.window
    := by
    rw [window, window, hfragments]
    apply List.map_congr_left
    intro g hg
    apply (hkeeps g _).1
    rintro rfl
    rw [← hfragments] at hg
    exact hheld.not_mem hcurrent hg
  refine ⟨?_, hcurrent, hwindow⟩
  rcases openFragment_cases hopen with ⟨-, rfl⟩ |
    ⟨hnone, window, memory, encoder, statics, calls, hidle, htables, hperform⟩
  · exact h
  · have htimed := getIdleFragment_timed h.timed m.fragmentWindow
    have hsize := (getIdleFragment_spec (m := m.memory) (w := m.fragmentWindow)
      (hnone ▸ h.held)).2.2.1
    rw [hidle] at htimed hsize
    dsimp only at htimed hsize
    have hreset := htimed.reset (f := f) f
    have hseqNo := h.seqNo
    rw [hnone, Option.toList_none, List.length_nil] at hseqNo
    have hnamed : ((m.opened memory f now).fragments f).Timed ∧
        ((m.opened memory f now).fragments f).sequenceNo = closed
      := by
      rw [opened, HlsMemory.fragments_setFragment]
      refine ⟨⟨hreset.duration_nonneg, hreset.duration_lt, hreset.startDts⟩, ?_⟩
      exact (toInt32_of_fits (by omega) hlt).trans (by omega)
    obtain ⟨hsize', hseq, hkept, htimed'⟩ :=
      perform_marks (TsEncoder.writePatPmt_inTime htables) hnamed.1 hperform
    refine ⟨hheld, ?_, hsize'.trans (hsize.trans h.windowSize), ?_, ?_, ?_⟩
    · intro g
      rcases eq_or_ne g f with rfl | hne
      · exact htimed'
      · rw [(hkeeps g hne).1]
        exact h.timed g
    · rw [HLSMuxer.sequenceNos, hwindow]
      exact h.sequenceNos
    · rw [hseq, hcurrent, Option.toList_some, List.length_singleton, hseqNo]
      rfl
    · rintro g hg
      obtain rfl := Option.some.inj (hcurrent.symm.trans hg)
      rw [hkept]
      exact hnamed.2

/-- What is written to the current fragment is no part of the playlist. -/
theorem Lists.of_window {l : MediaPlayList} (h : m.Lists l) (hwindow : m'.window = m.window) :
  m'.Lists l
  := by
  have hlast : m'.lastFragments = m.lastFragments := by rw [lastFragments, lastFragments, hwindow]
  constructor
  · rw [hlast]
    exact h.segments
  · rw [hlast]
    exact h.mediaSequence
  · rw [hlast]
    exact h.targetDuration

/-- The parts of `OnPacket` after the first one. -/
theorem Numbered.rest {n closed : Nat} (h : m.Numbered n closed) (hlt : m.fragmentSeqNo < 2 ^ 31)
    {now : Int} {packet : Packet ε} (htimestamp : packet.timestamp.toNat < 2 ^ 31)
    {m₁ m₂ : HLSMuxer} (hopen : m.openFragment now = some (m₁, f))
    (hparse : m₁.parseHeader f packet = some m₂) (hencode : m₂.encode f packet = some m') :
  m'.Numbered n closed ∧ m'.window = m.window
  := by
  obtain ⟨hopened, hcurrent, hwindow⟩ := h.openFragment hlt hopen
  obtain ⟨pieces, hperforms⟩ : ∃ pieces, m₁.Performs m₂ f pieces
    := by
    rcases parseHeader_spec hopened.held hparse with rfl | ⟨_, _, _, -, hperforms⟩
    · exact ⟨[], .refl hopened.held f⟩
    · exact ⟨_, hperforms⟩
  obtain ⟨hparsed, hwindow'⟩ :=
    hopened.performs hcurrent hperforms (parseHeader_marks (hopened.timed f) hparse)
  obtain ⟨_, _, _, -, -, hperforms', -⟩ := encode_spec hperforms.held hencode
  obtain ⟨hencoded, hwindow''⟩ := hparsed.performs (hperforms.current.trans hcurrent) hperforms'
    (encode_marks htimestamp (hparsed.timed f) hencode)
  exact ⟨hencoded, hwindow''.trans (hwindow'.trans hwindow)⟩

theorem closeFragment_seqNo (m : HLSMuxer) (packet : Packet ε) :
  (m.closeFragment packet).fragmentSeqNo = m.fragmentSeqNo
  := by
  rw [closeFragment]
  split
  · split
    · rfl
    · rfl
  · rfl

end HLSMuxer

/-! ### Runs -/

namespace PlayingMuxer

variable {ε : Type} {s s' : PlayingMuxer} {n closed : Nat}

/-- The numbers are the last ones, and there is a playlist when three fragments are in the
window. -/
structure Listing (s : PlayingMuxer) (n closed : Nat) : Prop where
  numbered : s.muxer.Numbered n closed
  few : s.muxer.window.length < 3 → s.playlist = ""
  many : 3 ≤ s.muxer.window.length → ∃ l : MediaPlayList, s.playlist = l.text ∧ s.muxer.Lists l

theorem listing_start (name : String) (g : TsTool.Globals) :
  (start name g).Listing 5 0
  := by
  refine ⟨⟨HLSMuxer.wellHeld_new name, fun _ => Fragment.timed_new, rfl, rfl, rfl, ?_⟩, ?_, ?_⟩
  · intro f hf
    cases hf
  · intro _
    rfl
  · intro hlength
    cases hlength

/-- A packet is written, after the current fragment has gone to the window or not. -/
theorem Listing.onPacket (h : s.Listing n closed) {now : Int} {packet : Packet ε}
    (hrange : s.InRange packet) (hpacket : s.onPacket now packet = some s') :
  ∃ closed', closed ≤ closed' ∧ s'.Listing n closed'
  := by
  obtain ⟨htimestamp, hlt⟩ := hrange
  rw [← HLSMuxer.closeFragment_seqNo s.muxer packet] at hlt
  rw [PlayingMuxer.onPacket] at hpacket
  split at hpacket
  · rename_i muxer hmuxer
    cases hpacket
    rw [HLSMuxer.onPacket] at hmuxer
    split at hmuxer
    · rename_i m₁ f hopen
      split at hmuxer
      · rename_i m₂ hparse
        by_cases hswitch : s.muxer.switches packet = true
        · have hclosed := h.numbered.closeFragment hswitch
          obtain ⟨hnumbered, hwindow⟩ := hclosed.rest hlt htimestamp hopen hparse hmuxer
          have hbefore := h.numbered.length_window
          have hafter := hclosed.length_window
          refine ⟨closed + 1, Nat.le_succ closed, hnumbered, ?_, ?_⟩
          · rw [if_pos hswitch, hwindow]
            intro hfew
            rw [FragmentWindow.updatePlayList, if_pos]
            · apply h.few
              omega
            · rw [HLSMuxer.window, List.length_map] at hfew
              exact hfew
          · rw [if_pos hswitch, hwindow]
            intro hmany
            obtain ⟨l, htext, hl⟩ :=
              HLSMuxer.lists_updatePlayList hclosed.timed hmany s.playlist
            exact ⟨l, htext, hl.of_window hwindow⟩
        · rw [HLSMuxer.closeFragment_of_stays hswitch] at hopen hlt
          obtain ⟨hnumbered, hwindow⟩ := h.numbered.rest hlt htimestamp hopen hparse hmuxer
          refine ⟨closed, Nat.le_refl closed, hnumbered, ?_, ?_⟩
          · rw [if_neg hswitch, hwindow]
            exact h.few
          · rw [if_neg hswitch, hwindow]
            intro hmany
            obtain ⟨l, htext, hl⟩ := h.many hmany
            exact ⟨l, htext, hl.of_window hwindow⟩
      · cases hmuxer
    · cases hmuxer
  · cases hpacket

theorem Listing.listed (h : s.Listing n closed) :
  s.Listed
  := by
  constructor
  · rw [h.numbered.length_window, h.numbered.windowSize]
    exact Nat.min_le_right _ _
  · rw [h.numbered.sequenceNos]
    exact isChain_lastNumbers n closed
  · intro hplaylist
    apply h.many
    by_contra hfew
    exact hplaylist (h.few (Nat.not_le.mp hfew))

/-- A window with more numbers given is further on. -/
theorem Listing.forward {closed' : Nat} (h : s.Listing n closed) (h' : s'.Listing n closed')
    (hle : closed ≤ closed') :
  s.Forward s'
  := by
  constructor
  · intro a ha
    rw [h.numbered.sequenceNos] at ha
    obtain ⟨hpos, rfl⟩ := head_lastNumbers.mp ha
    refine ⟨↑(closed' - n), ?_, by omega⟩
    rw [h'.numbered.sequenceNos]
    exact head_lastNumbers.mpr ⟨by omega, rfl⟩
  · intro a ha
    rw [h.numbered.sequenceNos] at ha
    obtain ⟨hpos, rfl⟩ := getLast_lastNumbers.mp ha
    refine ⟨↑(closed' - 1), ?_, by omega⟩
    rw [h'.numbered.sequenceNos]
    exact getLast_lastNumbers.mpr ⟨by omega, rfl⟩

open Runs

/-- The window of a later state is further on. -/
theorem Listing.run (h : s.Listing n closed) {packets : List (Int × Packet ε)}
    (hrange : Steps step (fun s e => ∀ s' ∈ s, s'.InRange e.2) (some s) packets) :
  ∀ s' ∈ run step (some s) packets, ∃ closed', closed ≤ closed' ∧ s'.Listing n closed'
  := by
  induction packets generalizing s closed with
  | nil =>
      rintro s' ⟨⟩
      exact ⟨closed, Nat.le_refl closed, h⟩
  | cons e packets ih =>
      intro s' hs'
      change s' ∈ Runs.run step (s.onPacket e.1 e.2) packets at hs'
      obtain ⟨hfirst, hrest⟩ := hrange
      change Steps step _ (s.onPacket e.1 e.2) packets at hrest
      cases hpacket : s.onPacket e.1 e.2 with
      | none =>
          rw [hpacket, run_of_stuck (s := none) fun _ => rfl] at hs'
          cases hs'
      | some s₁ =>
          rw [hpacket] at hs' hrest
          obtain ⟨closed₁, hle, hlisting⟩ := h.onPacket (hfirst s rfl) hpacket
          obtain ⟨closed', hle', hlisting'⟩ := ih hlisting hrest s' hs'
          exact ⟨closed', Nat.le_trans hle hle', hlisting'⟩

/-- In every state of a run the window is small, its numbers are consecutive, and the playlist is of
its last fragments; and the window never moves back. -/
theorem listed_run (name : String) (g : TsTool.Globals) (packets more : List (Int × Packet ε))
    (h : Steps step (fun s e => ∀ s' ∈ s, s'.InRange e.2) (some (start name g))
      (packets ++ more)) :
  Throughout step (fun s => ∀ s' ∈ s, s'.Listed) (some (start name g)) (packets ++ more) ∧
    ∀ s ∈ run step (some (start name g)) packets,
      ∀ s' ∈ run step (some (start name g)) (packets ++ more), s.Forward s'
  := by
  constructor
  · have hthroughout : Throughout step (fun s => ∀ s' ∈ s, ∃ closed, s'.Listing 5 closed)
        (some (start name g)) (packets ++ more)
      := by
      apply h.throughout
      · rintro s ⟨⟩
        exact ⟨0, listing_start name g⟩
      · intro s e hs hrange s' hs'
        cases s with
        | none => cases hs'
        | some s =>
            obtain ⟨closed, hlisting⟩ := hs s rfl
            obtain ⟨closed', -, hlisting'⟩ := hlisting.onPacket (hrange s rfl) hs'
            exact ⟨closed', hlisting'⟩
    apply hthroughout.mono
    intro s hs s' hs'
    obtain ⟨closed, hlisting⟩ := hs s' hs'
    exact hlisting.listed
  · intro s hs s' hs'
    obtain ⟨hbefore, hafter⟩ := steps_append.mp h
    obtain ⟨closed, -, hlisting⟩ := (listing_start name g).run hbefore s hs
    rw [run_append, hs] at hs'
    rw [hs] at hafter
    obtain ⟨closed', hle, hlisting'⟩ := hlisting.run hafter s' hs'
    exact hlisting.forward hlisting' hle

/-- Key frames of AVC, four seconds apart. -/
def keyFrames : List (Int × Packet Unit) :=
  [0, 4000, 8000, 12000, 16000, 20000, 24000].map fun timestamp =>
    HLSMuxer.videoPacket timestamp [0x01, 0x00, 0x00, 0x00, 0x00, 0x00, 0x00, 0x02, 0x65, 0x88]

/-- The playlist of three fragments. -/
theorem listed_keyFrames :
  (Throughout step (fun s => ∀ s' ∈ s, s'.Listed) (some (start "s" {})) (keyFrames ++ []) ∧
    ∀ s ∈ run step (some (start "s" {})) keyFrames,
      ∀ s' ∈ run step (some (start "s" {})) (keyFrames ++ []), s.Forward s') ∧
    (run step (some (start "s" {})) keyFrames).map PlayingMuxer.playlist =
      some (MediaPlayList.text ⟨4, 0, [(4000, "s_0.ts"), (4000, "s_8000.ts"), (4000, "s_16000.ts")]⟩)
  := by
  constructor
  · apply listed_run "s" {} keyFrames []
    decide +kernel
  · decide +kernel

end PlayingMuxer
