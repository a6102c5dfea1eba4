import Mathlib
import Tmms.Hls.PlayList

/-!
# Names of fragments

A fragment is named after the reading of the clock when it was opened.  The readings do not
decrease, so two names in the window are the same exactly if two fragments that were given to it
one after the other were opened at one reading.  While the names are distinct, a name of the
playlist is that of one fragment.
-/

open Runs

/-- The name of a fragment that was opened at a reading of the clock. -/
def fragmentName (streamName : String) (now : Int) : String :=
  streamName ++ "_" ++ toString now ++ ".ts"

theorem fragmentName_inj {streamName : String} {a b : Int} :
  fragmentName streamName a = fragmentName streamName b ↔ a = b
  := by
  rw [fragmentName, fragmentName, String.append_left_inj, String.append_right_inj]
  exact Int.repr_inj

/-! ### What keeps the name of a fragment -/

namespace HlsMemory

variable {m m' : HlsMemory} {f : FragmentPtr}

theorem performAll_filename {calls : List WriterCall} (hperform : m.performAll f calls = some m') :
  (m'.fragments f).filename = (m.fragments f).filename
  := by
  induction calls generalizing m with
  | nil =>
      cases hperform
      rfl
  | cons call calls ih =>
      rw [performAll] at hperform
      cases call with
      | appendTimeStamp dts =>
          rw [ih hperform, fragments_setFragment]
          rfl
      | write piece =>
          dsimp only [perform] at hperform
          split at hperform
          · rename_i m₁ hwrite
            obtain ⟨_, _, _, _, hfields⟩ := write_fields hwrite
            rw [ih hperform, hfields]
          · cases hperform

end HlsMemory

theorem FragmentWindow.shrinkLoop_windowSize (n : Nat) (w : FragmentWindow) (m : HlsMemory) :
  (w.shrinkLoop n m).1.windowSize = w.windowSize
  := by
  induction n generalizing w m with
  | zero => rfl
  | succ n ih =>
      rw [shrinkLoop]
      split
      · rfl
      · rw [ih]

namespace HLSMuxer

variable {ε : Type} {m m' : HLSMuxer} {f : FragmentPtr}

/-- The name of the stream, the size of the window and the name of a fragment stay. -/
structure KeepsName (m m' : HLSMuxer) (f : FragmentPtr) : Prop where
  streamName : m'.streamName = m.streamName
  windowSize : m'.fragmentWindow.windowSize = m.fragmentWindow.windowSize
  filename : (m'.memory.fragments f).filename = (m.memory.fragments f).filename

theorem KeepsName.trans {m'' : HLSMuxer} (h : m.KeepsName m' f) (h' : m'.KeepsName m'' f) :
  m.KeepsName m'' f
  := ⟨h'.streamName.trans h.streamName, h'.windowSize.trans h.windowSize,
    h'.filename.trans h.filename⟩

theorem perform_keepsName {calls : List WriterCall} (hperform : m.perform f calls = some m') :
  m.KeepsName m' f
  := by
  rw [perform] at hperform
  split at hperform
  · rename_i memory hall
    cases hperform
    exact ⟨rfl, rfl, HlsMemory.performAll_filename hall⟩
  · cases hperform

theorem parseHeader_keepsName {packet : Packet ε} (hparse : m.parseHeader f packet = some m') :
  m.KeepsName m' f
  := by
  rcases parseHeader_cases hparse with rfl | ⟨_, _, encoder, statics, _, -, hset⟩
  · exact ⟨rfl, rfl, rfl⟩
  · obtain ⟨hstream, hsize, hname⟩ := perform_keepsName hset
    exact ⟨hstream, hsize, hname⟩

theorem encode_keepsName {packet : Packet ε} (hencode : m.encode f packet = some m') :
  m.KeepsName m' f
  := by
  obtain ⟨encoder, writer, calls, ret, -, hperform⟩ := encode_cases hencode
  obtain ⟨hstream, hsize, hname⟩ := perform_keepsName hperform
  refine ⟨hstream, hsize, ?_⟩
  rw [hname]
  dsimp only
  rw [HlsMemory.fragments_setFragment]

theorem closeFragment_keepsName (m : HLSMuxer) (packet : Packet ε) :
  (m.closeFragment packet).streamName = m.streamName ∧
    (m.closeFragment packet).fragmentWindow.windowSize = m.fragmentWindow.windowSize
  := by
  rw [closeFragment]
  split
  · split
    · refine ⟨rfl, ?_⟩
      dsimp only
      rw [FragmentWindow.appendFragment, FragmentWindow.shrink]
      split
      · rfl
      · apply FragmentWindow.shrinkLoop_windowSize
    · exact ⟨rfl, rfl⟩
  · exact ⟨rfl, rfl⟩

/-- A fragment that is opened is named after the reading of the clock. -/
theorem openFragment_named (h : m.WellHeld) {now : Int}
    (hopen : m.openFragment now = some (m', f)) :
  m'.streamName = m.streamName ∧
    m'.fragmentWindow.windowSize = m.fragmentWindow.windowSize ∧
    (m.currentFragment = some f ∧ m' = m ∨
      m.currentFragment = none ∧
        (m'.memory.fragments f).filename = fragmentName m.streamName now)
  := by
  rcases openFragment_cases hopen with ⟨hcurrent, rfl⟩ |
    ⟨hnone, window, memory, encoder, statics, calls, hidle, -, hperform⟩
  · exact ⟨rfl, rfl, .inl ⟨hcurrent, rfl⟩⟩
  · obtain ⟨-, -, hsize, -⟩ :=
      getIdleFragment_spec (m := m.memory) (w := m.fragmentWindow) (hnone ▸ h)
    rw [hidle] at hsize
    obtain ⟨hstream, hsize', hname⟩ := perform_keepsName hperform
    refine ⟨hstream, hsize'.trans hsize, .inr ⟨hnone, ?_⟩⟩
    rw [hname]
    dsimp only
    rw [opened, HlsMemory.fragments_setFragment]
    rfl

/-- What a packet leaves of the names: the window is the one after the first part of
`OnPacket`, and the current fragment is the old one, or a new one that is named after the
reading. -/
theorem onPacket_named (h : m.WellHeld) {now : Int} {packet : Packet ε}
    (hpacket : m.onPacket now packet = some m') :
  m'.streamName = m.streamName ∧
    m'.fragmentWindow.windowSize = m.fragmentWindow.windowSize ∧
    m'.window = (m.closeFragment packet).window ∧
    m'.currentFragment.map (fun f => (m'.memory.fragments f).filename) =
      some (((m.closeFragment packet).currentFragment.map fun f =>
        ((m.closeFragment packet).memory.fragments f).filename).getD
          (fragmentName m.streamName now))
  := by
  obtain ⟨hclosed, -, -, -⟩ := closeFragment_spec h packet
  obtain ⟨hstream, hsize⟩ := closeFragment_keepsName m packet
  rw [onPacket] at hpacket
  split at hpacket
  · rename_i m₁ f hopen
    obtain ⟨hopened, hcurrent, hfragments, hkeeps, -⟩ := openFragment_spec hclosed hopen
    obtain ⟨hstream₁, hsize₁, hname₁⟩ := openFragment_named hclosed hopen
    split at hpacket
    · rename_i m₂ hparse
      obtain ⟨pieces, hperforms⟩ : ∃ pieces, m₁.Performs m₂ f pieces
        := by
        rcases parseHeader_spec hopened hparse with rfl | ⟨_, _, _, -, hperforms⟩
        · exact ⟨[], .refl hopened f⟩
        · exact ⟨_, hperforms⟩
      obtain ⟨_, _, _, -, -, hperforms', -⟩ := encode_spec hperforms.held hpacket
      have hboth := hperforms.trans hperforms'
      obtain ⟨hstream₂, hsize₂, hname₂⟩ :=
        (parseHeader_keepsName hparse).trans (encode_keepsName hpacket)
      refine ⟨hstream₂.trans (hstream₁.trans hstream), hsize₂.trans (hsize₁.trans hsize), ?_, ?_⟩
      · rw [window, window, hboth.window, hfragments]
        apply List.map_congr_left
        intro g hg
        have hne : g ≠ f
          := by
          rintro rfl
          rw [← hfragments] at hg
          exact hopened.not_mem hcurrent hg
        exact ((hkeeps g hne).trans (hboth.keeps g hne)).1
      · rw [hboth.current, hcurrent, Option.map_some, hname₂]
        rcases hname₁ with ⟨hsame, rfl⟩ | ⟨hnone, hname⟩
        · rw [hsame]
          rfl
        · rw [hnone, hname, hstream]
          rfl
    · cases hpacket
  · cases hpacket

end HLSMuxer

/-! ### Names in the window -/

namespace HLSMuxer

variable {m m' : HLSMuxer}

/-- A playlist is of the last fragments in the window, and each of its names is that of the
fragment it is given for. -/
structure Resolved (m : HLSMuxer) (l : MediaPlayList) : Prop where
  segments : l.segments = m.fragmentWindow.listed.map fun f =>
    ((m.memory.fragments f).duration, (m.memory.fragments f).filename)
  mediaSequence : ∀ f ∈ m.fragmentWindow.listed.head?,
    (m.memory.fragments f).sequenceNo = l.mediaSequence
  getFragment : ∀ f ∈ m.fragmentWindow.listed,
    m.getFragment (m.memory.fragments f).filename = some f

/-- A playlist has the durations, the names and the first number of the last fragments. -/
structure Plays (m : HLSMuxer) (l : MediaPlayList) : Prop where
  segments : l.segments = m.lastFragments.map fun v => (v.duration, v.filename)
  mediaSequence : ∀ v ∈ m.lastFragments.head?, v.sequenceNo = l.mediaSequence

theorem plays_updatePlayList (hlength : 3 ≤ m.window.length) (playlist : String) :
  ∃ l : MediaPlayList,
    m.fragmentWindow.updatePlayList m.memory playlist = l.text ∧ m.Plays l
  := by
  rw [window, List.length_map] at hlength
  rw [FragmentWindow.updatePlayList, if_neg (Nat.not_lt.mpr hlength)]
  refine ⟨_, rfl, ?_, ?_⟩
  · rw [← map_listed, List.map_map]
    rfl
  · rw [← map_listed, List.head?_map]
    intro v hv
    obtain ⟨f, hf, rfl⟩ := Option.mem_map.mp hv
    dsimp only
    rw [List.headD_eq_head?_getD, Option.mem_def.mp hf]
    rfl

theorem Plays.of_window {l : MediaPlayList} (h : m.Plays l) (hwindow : m'.window = m.window) :
  m'.Plays l
  := by
  have hlast : m'.lastFragments = m.lastFragments := by rw [lastFragments, lastFragments, hwindow]
  constructor
  · rw [hlast]
    exact h.segments
  · rw [hlast]
    exact h.mediaSequence

/-- Distinct names are those of one fragment each. -/
theorem getFragment_of_nodup (h : (m.window.map Fragment.filename).Nodup) {f : FragmentPtr}
    (hf : f ∈ m.fragmentWindow.fragments) :
  m.getFragment (m.memory.fragments f).filename = some f
  := by
  rw [getFragment, FragmentWindow.getFragmentByName]
  rw [window, List.map_map] at h
  generalize m.fragmentWindow.fragments = fragments at h hf
  induction fragments with
  | nil => cases hf
  | cons g fragments ih =>
      rw [List.map_cons, List.nodup_cons] at h
      rcases List.mem_cons.mp hf with rfl | hf
      · apply List.find?_cons_of_pos
        apply beq_self_eq_true
      · rw [List.find?_cons_of_neg, ih h.2 hf]
        intro hsame
        apply h.1
        apply List.mem_map.mpr ⟨f, hf, (beq_iff_eq.mp hsame).symm⟩

theorem Plays.resolved {l : MediaPlayList} (h : m.Plays l)
    (hnodup : (m.window.map Fragment.filename).Nodup) :
  m.Resolved l
  := by
  obtain ⟨hsegments, hsequence⟩ := h
  rw [← map_listed] at hsegments hsequence
  constructor
  · rw [hsegments, List.map_map]
    rfl
  · intro f hf
    apply hsequence
    rw [List.head?_map]
    exact Option.mem_map_of_mem _ hf
  · intro f hf
    apply getFragment_of_nodup hnodup
    rw [FragmentWindow.listed] at hf
    exact List.mem_of_mem_drop hf

end HLSMuxer

/-! ### The last readings -/

theorem sorted_concat {readings : List Int} {now : Int} (hsorted : readings.Pairwise (· ≤ ·))
    (hnow : ∀ r ∈ readings, r ≤ now) :
  (readings ++ [now]).Pairwise (· ≤ ·)
  := by
  rw [List.pairwise_append]
  refine ⟨hsorted, List.pairwise_singleton _ _, ?_⟩
  intro a ha b hb
  rw [List.mem_singleton.mp hb]
  exact hnow a ha

/-- The last five of some readings are distinct with one more exactly if it is later than the
last. -/
theorem nodup_drop_concat_iff {readings : List Int} {now : Int}
    (hsorted : (readings ++ [now]).Pairwise (· ≤ ·))
    (hnodup : (readings.drop (readings.length - 5)).Nodup) :
  ((readings ++ [now]).drop (readings.length + 1 - 5)).Nodup ↔
    ∀ last ∈ readings.getLast?, last < now
  := by
  have hle : readings.length + 1 - 5 ≤ readings.length := by omega
  have hbelow : ∀ a ∈ readings, a ≤ now
    := fun a ha => (List.pairwise_append.mp hsorted).2.2 a ha now List.mem_cons_self
  rw [List.drop_append_of_le_length hle, List.nodup_append]
  constructor
  · rintro ⟨-, -, hother⟩ last hlast
    obtain ⟨before, rfl⟩ := List.getLast?_eq_some_iff.mp hlast
    have hmem : last ∈ (before ++ [last]).drop ((before ++ [last]).length + 1 - 5)
      := by
      rw [List.drop_append_of_le_length]
      · exact List.mem_append_right _ List.mem_cons_self
      · rw [List.length_append, List.length_singleton]
        omega
    have hne := hother last hmem now List.mem_cons_self
    have := hbelow last (List.mem_append_right _ List.mem_cons_self)
    omega
  · intro hlater
    refine ⟨?_, List.nodup_singleton now, ?_⟩
    · have hrest : readings.drop (readings.length + 1 - 5) =
          (readings.drop (readings.length - 5)).drop
            (readings.length + 1 - 5 - (readings.length - 5))
        := by
        rw [List.drop_drop]
        congr 1
        omega
      rw [hrest]
      exact hnodup.sublist (List.drop_sublist _ _)
    · intro a ha b hb
      rw [List.mem_singleton.mp hb]
      have ha := List.mem_of_mem_drop ha
      rcases hlast : readings.getLast? with _ | last
      · rw [List.getLast?_eq_none_iff.mp hlast] at ha
        cases ha
      · have hlt := hlater last hlast
        obtain ⟨before, rfl⟩ := List.getLast?_eq_some_iff.mp hlast
        rcases List.mem_append.mp ha with ha | ha
        · have hinit := (List.pairwise_append.mp (List.pairwise_append.mp hsorted).1).2.2 a ha
            last List.mem_cons_self
          omega
        · rw [List.mem_singleton.mp ha]
          omega

/-! ### Runs -/

/-- A muxer with the readings at which the fragments were opened that were given to the window,
and the one at which the current fragment was. -/
structure NamedMuxer where
  playing : PlayingMuxer
  closed : List Int := []
  current : Option Int := none

namespace NamedMuxer

variable {ε : Type} {s s' : NamedMuxer} {name : String}

/-- `OnPacket`. A fragment that is given to the window takes its reading with it. -/
def onPacket (s : NamedMuxer) (now : Int) (packet : Packet ε) : Option NamedMuxer :=
  match s.playing.onPacket now packet with
  | none => none
  | some playing =>
      if s.playing.muxer.switches packet then
        some { playing := playing, closed := s.closed ++ s.current.toList, current := some now }
      else
        some { s with playing := playing, current := s.current.or (some now) }

/-- A packet at a reading of the clock. It has no result if `OnPacket` has none. -/
def step (s : Option NamedMuxer) (e : Int × Packet ε) : Option NamedMuxer :=
  s.bind fun s => s.onPacket e.1 e.2

/-- The start of a stream. -/
def start (name : String) (g : TsTool.Globals) : NamedMuxer where
  playing := PlayingMuxer.start name g

/-- The names in the window are distinct, and those of the playlist resolve. -/
def Resolves (s : NamedMuxer) : Prop :=
  (s.playing.muxer.window.map Fragment.filename).Nodup ∧
    (s.playing.playlist ≠ "" →
      ∃ l : MediaPlayList, s.playing.playlist = l.text ∧ s.playing.muxer.Resolved l)

/-- When a packet gives the current fragment to the window, that one was opened at a later
reading than the last one in the window. -/
def OpensLater (s : NamedMuxer) (now : Int) (packet : Packet ε) : Prop :=
  (s.onPacket now packet).isSome = true → s.playing.muxer.switches packet = true →
    ∀ last ∈ s.closed.getLast?, ∀ reading ∈ s.current, last < reading

/-- The names are those of the readings. -/
structure Tracks (name : String) (s : NamedMuxer) : Prop where
  held : s.playing.muxer.WellHeld
  streamName : s.playing.muxer.streamName = name
  windowSize : s.playing.muxer.fragmentWindow.windowSize = 5
  window : s.playing.muxer.window.map Fragment.filename =
    (s.closed.drop (s.closed.length - 5)).map (fragmentName name)
  current : s.playing.muxer.currentFragment.map
    (fun f => (s.playing.muxer.memory.fragments f).filename) = s.current.map (fragmentName name)
  sorted : (s.closed ++ s.current.toList).Pairwise (· ≤ ·)
  few : s.playing.muxer.window.length < 3 → s.playing.playlist = ""
  many : 3 ≤ s.playing.muxer.window.length →
    ∃ l : MediaPlayList, s.playing.playlist = l.text ∧ s.playing.muxer.Plays l

theorem tracks_start (name : String) (g : TsTool.Globals) :
  (start name g).Tracks name
  := by
  refine ⟨HLSMuxer.wellHeld_new name, rfl, rfl, rfl, rfl, List.Pairwise.nil, fun _ => rfl, ?_⟩
  intro hmany
  cases hmany

/-- The names resolve exactly if the last readings are distinct. -/
theorem Tracks.resolves_iff (h : s.Tracks name) :
  s.Resolves ↔ (s.closed.drop (s.closed.length - 5)).Nodup
  := by
  have hinj : Function.Injective (fragmentName name) := fun a b => fragmentName_inj.mp
  have hnames : (s.playing.muxer.window.map Fragment.filename).Nodup ↔
      (s.closed.drop (s.closed.length - 5)).Nodup
    := by rw [h.window, List.nodup_map_iff hinj]
  rw [← hnames, Resolves, and_iff_left_of_imp]
  intro hnodup hplaylist
  have hmany : 3 ≤ s.playing.muxer.window.length
    := by
    by_contra hfew
    exact hplaylist (h.few (Nat.not_le.mp hfew))
  obtain ⟨l, htext, hl⟩ := h.many hmany
  exact ⟨l, htext, hl.resolved hnodup⟩

theorem Tracks.length_window (h : s.Tracks name) :
  s.playing.muxer.window.length = min s.closed.length 5
  := by
  have hlength := congrArg List.length h.window
  rw [List.length_map, List.length_map, List.length_drop] at hlength
  omega

/-- A packet that gives the current fragment to the window. -/
theorem Tracks.closes (h : s.Tracks name) {now : Int} {packet : Packet ε}
    (hnow : ∀ r ∈ s.closed ++ s.current.toList, r ≤ now)
    (hswitch : s.playing.muxer.switches packet = true) {playing : PlayingMuxer}
    (hpacket : s.playing.onPacket now packet = some playing) :
  Tracks name
    { playing := playing
      closed := s.closed ++ s.current.toList
      current := some now }
  := by
  rw [PlayingMuxer.onPacket] at hpacket
  split at hpacket
  case h_2 => cases hpacket
  rename_i muxer hmuxer
  cases hpacket
  obtain ⟨hheld, -, -⟩ := HLSMuxer.onPacket_keeps h.held hmuxer
  obtain ⟨hstream, hsize, hwindow, hname⟩ := HLSMuxer.onPacket_named h.held hmuxer
  have hnone := (HLSMuxer.closeFragment_spec h.held packet).2.1
  rw [if_pos hswitch] at hnone
  rw [hnone, h.streamName] at hname
  obtain ⟨g, hg⟩ := HLSMuxer.exists_current hswitch
  obtain ⟨r, hr, hgname⟩ : ∃ r, s.current = some r ∧
      (s.playing.muxer.memory.fragments g).filename = fragmentName name r
    := by
    have hcurrent := h.current
    rw [hg, Option.map_some] at hcurrent
    obtain ⟨r, hr, hname⟩ := Option.map_eq_some_iff.mp hcurrent.symm
    exact ⟨r, hr, hname.symm⟩
  have hclosed := HLSMuxer.window_closeFragment h.held packet
  rw [if_pos hswitch, HLSMuxer.length_dropped hswitch hg, hg, Option.toList_some,
    List.map_singleton, h.windowSize, h.length_window] at hclosed
  have hlength : (s.playing.muxer.closeFragment packet).window.length =
      min (s.closed.length + 1) 5
    := by
    rw [hclosed, List.length_drop, List.length_append, h.length_window, List.length_singleton]
    omega
  rw [hr, Option.toList_some] at hnow ⊢
  refine ⟨hheld, hstream.trans h.streamName, hsize.trans h.windowSize, ?_, ?_, ?_, ?_, ?_⟩
  · dsimp only
    rw [hwindow, hclosed, List.map_drop, List.map_append, h.window, List.map_singleton, hgname,
      ← List.map_singleton, ← List.map_append, ← List.map_drop]
    congr 1
    rw [← List.drop_append_of_le_length (by omega), List.drop_drop, List.length_append,
      List.length_singleton]
    congr 1
    omega
  · exact hname
  · have hsorted := h.sorted
    rw [hr, Option.toList_some] at hsorted
    exact sorted_concat hsorted hnow
  · intro hfew
    dsimp only at hfew ⊢
    rw [hwindow] at hfew
    rw [if_pos hswitch, FragmentWindow.updatePlayList, if_pos]
    · apply h.few
      rw [h.length_window]
      omega
    · rwa [HLSMuxer.window, List.length_map] at hfew
  · intro hmany
    dsimp only at hmany ⊢
    rw [hwindow] at hmany
    obtain ⟨l, htext, hl⟩ := HLSMuxer.plays_updatePlayList hmany s.playing.playlist
    rw [if_pos hswitch]
    exact ⟨l, htext, hl.of_window hwindow⟩

/-- A packet that is written to the current fragment, or to the first one. -/
theorem Tracks.stays (h : s.Tracks name) {now : Int} {packet : Packet ε}
    (hnow : ∀ r ∈ s.closed ++ s.current.toList, r ≤ now)
    (hswitch : ¬ s.playing.muxer.switches packet = true) {playing : PlayingMuxer}
    (hpacket : s.playing.onPacket now packet = some playing) :
  Tracks name { s with playing := playing, current := s.current.or (some now) }
  := by
  rw [PlayingMuxer.onPacket] at hpacket
  split at hpacket
  case h_2 => cases hpacket
  rename_i muxer hmuxer
  cases hpacket
  obtain ⟨hheld, -, -⟩ := HLSMuxer.onPacket_keeps h.held hmuxer
  obtain ⟨hstream, hsize, hwindow, hname⟩ := HLSMuxer.onPacket_named h.held hmuxer
  rw [HLSMuxer.closeFragment_of_stays hswitch] at hwindow hname
  rw [h.current, h.streamName] at hname
  refine ⟨hheld, hstream.trans h.streamName, hsize.trans h.windowSize, ?_, ?_, ?_, ?_, ?_⟩
  · dsimp only
    rw [hwindow]
    exact h.window
  · dsimp only
    rw [hname]
    cases s.current <;> rfl
  · have hsorted := h.sorted
    dsimp only
    cases hcurrent : s.current with
    | some r => rwa [hcurrent] at hsorted
    | none =>
        rw [hcurrent, Option.toList_none, List.append_nil] at hsorted hnow
        rw [Option.none_or, Option.toList_some]
        exact sorted_concat hsorted hnow
  · dsimp only
    rw [hwindow, if_neg hswitch]
    exact h.few
  · intro hmany
    dsimp only at hmany ⊢
    rw [hwindow] at hmany
    obtain ⟨l, htext, hl⟩ := h.many hmany
    rw [if_neg hswitch]
    exact ⟨l, htext, hl.of_window hwindow⟩

/-- One packet at a reading that is not before the others: the names are those of the readings,
and resolve exactly if the fragment that is closed was opened later than the last one. -/
theorem Tracks.onPacket (h : s.Tracks name) (hresolves : s.Resolves) {now : Int}
    {packet : Packet ε} (hnow : ∀ r ∈ s.closed ++ s.current.toList, r ≤ now)
    (hpacket : s.onPacket now packet = some s') :
  s'.Tracks name ∧ (s'.Resolves ↔ s.OpensLater now packet)
  := by
  rw [OpensLater, hpacket]
  rw [NamedMuxer.onPacket] at hpacket
  split at hpacket
  · cases hpacket
  · rename_i playing hplaying
    have hnodup := h.resolves_iff.mp hresolves
    split at hpacket
    next hswitch =>
      cases hpacket
      have htracks := h.closes hnow hswitch hplaying
      refine ⟨htracks, ?_⟩
      rw [htracks.resolves_iff, Option.isSome_some, hswitch, eq_self, true_imp_iff, true_imp_iff]
      obtain ⟨g, hg⟩ := HLSMuxer.exists_current hswitch
      have hcurrent := h.current
      rw [hg, Option.map_some] at hcurrent
      obtain ⟨r, hr, -⟩ := Option.map_eq_some_iff.mp hcurrent.symm
      have hsorted := h.sorted
      rw [hr, Option.toList_some] at hsorted
      have hiff := nodup_drop_concat_iff hsorted hnodup
      rw [hr, Option.toList_some, List.length_append, List.length_singleton, hiff]
      constructor
      · intro hlater last hlast reading hreading
        cases hreading
        exact hlater last hlast
      · intro hlater last hlast
        exact hlater last hlast r rfl
    next hswitch =>
      cases hpacket
      have htracks := h.stays hnow hswitch hplaying
      refine ⟨htracks, iff_of_true ?_ ?_⟩
      · rw [htracks.resolves_iff]
        exact hnodup
      · intro _ hcloses
        contradiction

/-- The readings that a muxer remembers are not after those to come. -/
theorem steps_of_sorted {events : List (Int × Packet ε)} {o : Option NamedMuxer}
    (hbefore : ∀ s ∈ o, ∀ r ∈ s.closed ++ s.current.toList, ∀ e ∈ events, r ≤ e.1)
    (hsorted : (events.map Prod.fst).Pairwise (· ≤ ·)) :
  Steps step (fun o e => ∀ s ∈ o, ∀ r ∈ s.closed ++ s.current.toList, r ≤ e.1) o events
  := by
  induction events generalizing o with
  | nil => trivial
  | cons e events ih =>
      rw [List.map_cons, List.pairwise_cons] at hsorted
      refine ⟨fun s hs r hr => hbefore s hs r hr e List.mem_cons_self, ih ?_ hsorted.2⟩
      intro s' hs' r hr e' he'
      obtain ⟨s, hs, hpacket⟩ := Option.bind_eq_some_iff.mp hs'
      have hlater : e.1 ≤ e'.1 := hsorted.1 e'.1 (List.mem_map_of_mem he')
      have hold : ∀ r ∈ s.closed ++ s.current.toList, r ≤ e'.1
        := fun r hr => hbefore s hs r hr e' (List.mem_cons_of_mem e he')
      rw [NamedMuxer.onPacket] at hpacket
      split at hpacket
      · cases hpacket
      · split at hpacket
        · cases hpacket
          rcases List.mem_append.mp hr with hr | hr
          · exact hold r hr
          · rw [List.mem_singleton.mp hr]
            exact hlater
        · cases hpacket
          dsimp only at hr
          rcases List.mem_append.mp hr with hr | hr
          · exact hold r (List.mem_append_left _ hr)
          · cases hcurrent : s.current with
            | some c =>
                rw [hcurrent] at hr hold
                exact hold r (List.mem_append_right _ hr)
            | none =>
                rw [hcurrent] at hr
                rw [List.mem_singleton.mp hr]
                exact hlater

/-- At readings that do not decrease, the names in the window are distinct and the names of the
playlist resolve in every state of a run exactly if each fragment that is given to the window was
opened at a later reading than the one before it. -/
theorem resolves_iff_opensLater (name : String) (g : TsTool.Globals)
    (events : List (Int × Packet ε)) (h : (events.map Prod.fst).Pairwise (· ≤ ·)) :
  Throughout step (fun o => ∀ s ∈ o, s.Resolves) (some (start name g)) events ↔
    Steps step (fun o e => ∀ s ∈ o, s.OpensLater e.1 e.2) (some (start name g)) events
  := by
  have hsteps := steps_of_sorted (o := some (start name g)) (by
    rintro s ⟨⟩ r hr
    cases hr) h
  apply throughout_iff_steps (I := fun o => ∀ s ∈ o, s.Tracks name) hsteps
  · rintro s ⟨⟩
    exact tracks_start name g
  · rintro s ⟨⟩
    exact (tracks_start name g).resolves_iff.mpr List.nodup_nil
  · intro o e htracks hresolves hnow
    cases o with
    | none =>
        refine ⟨fun s hs => (nomatch hs), iff_of_true ?_ ?_⟩
        · intro s hs
          cases hs
        · intro s hs
          cases hs
    | some s =>
        have hs := htracks s rfl
        have hbefore := hnow s rfl
        change (∀ s' ∈ s.onPacket e.1 e.2, s'.Tracks name) ∧
          ((∀ s' ∈ s.onPacket e.1 e.2, s'.Resolves) ↔ _)
        cases hpacket : s.onPacket e.1 e.2 with
        | none =>
            refine ⟨fun s hs => (nomatch hs), iff_of_true ?_ ?_⟩
            · intro s hs
              cases hs
            · rintro s ⟨⟩
              intro hsome
              rw [hpacket] at hsome
              cases hsome
        | some s' =>
            obtain ⟨htracks', hiff⟩ := hs.onPacket (hresolves s rfl) hbefore hpacket
            constructor
            · rintro s ⟨⟩
              exact htracks'
            · constructor
              · intro hall s hs
                cases hs
                exact hiff.mp (hall s' rfl)
              · intro hall s hs
                cases hs
                exact hiff.mpr (hall s rfl)

instance (s : NamedMuxer) (now : Int) (packet : Packet ε) : Decidable (s.OpensLater now packet) :=
  inferInstanceAs (Decidable (_ → _ → ∀ last ∈ s.closed.getLast?, ∀ reading ∈ s.current, _))

/-- The names of three fragments that are opened eight seconds apart. -/
theorem resolves_keyFrames :
  Throughout step (fun o => ∀ s ∈ o, s.Resolves) (some (start "s" {})) PlayingMuxer.keyFrames
  := by
  apply (resolves_iff_opensLater "s" {} PlayingMuxer.keyFrames (by decide)).mpr
  decide +kernel

/-- Key frames that come in a burst, at one reading of the clock. -/
def burst : List (Int × Packet Unit) := PlayingMuxer.keyFrames.map fun e => (0, e.2)

/-- The names do not always resolve: three fragments of a burst have one name. -/
theorem not_resolves_burst :
  ¬ ∀ (name : String) (g : TsTool.Globals) (events : List (Int × Packet Unit)),
    (events.map Prod.fst).Pairwise (· ≤ ·) →
      Throughout step (fun o => ∀ s ∈ o, s.Resolves) (some (start name g)) events
  := by
  intro h
  have hlast := (h "s" {} burst (by decide)).last
  have hnames : (run step (some (start "s" {})) burst).map
      (fun s => s.playing.muxer.window.map Fragment.filename) = some ["s_0.ts", "s_0.ts", "s_0.ts"]
    := by decide +kernel
  obtain ⟨s, hs, hwindow⟩ := Option.map_eq_some_iff.mp hnames
  have hnodup := (hlast s hs).1
  rw [hwindow] at hnodup
  revert hnodup
  decide

end NamedMuxer
