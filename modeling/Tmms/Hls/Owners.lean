import Tmms.Hls.HLSMuxer
import Tmms.Hls.Storage

/-!
# Owners of fragments

A fragment is in one place: the window, the free list, or it is the current one (`Held`).  So a
packet changes the current fragment and those that leave the window, and the others keep what they
have (`onPacket_keeps`).
-/

/-- The fragments of a muxer are in one place each. -/
structure Held (m : HlsMemory) (w : FragmentWindow) (current : Option FragmentPtr) : Prop where
  owned : m.Owned
  nodup : (w.fragments ++ w.freeFragments ++ current.toList).Nodup
  lt : ∀ f ∈ w.fragments ++ w.freeFragments ++ current.toList, f < m.nextFragment

/-- A fragment and its content stay. -/
def HlsMemory.Keeps (m m' : HlsMemory) (g : FragmentPtr) : Prop :=
  m'.fragments g = m.fragments g ∧ m'.content g = m.content g

variable {m m' : HlsMemory} {w : FragmentWindow} {current : Option FragmentPtr} {f : FragmentPtr}

theorem HlsMemory.Keeps.trans {m'' : HlsMemory} {g : FragmentPtr} (h : m.Keeps m' g)
    (h' : m'.Keeps m'' g) :
  m.Keeps m'' g
  := ⟨h'.1.trans h.1, h'.2.trans h.2⟩

theorem HlsMemory.Owned.keeps (h : m.Owned) (hchanges : m.ChangesOnly m' f) {g : FragmentPtr}
    (hne : g ≠ f) :
  m.Keeps m' g
  := ⟨hchanges.fragments g hne, h.content_eq hchanges hne⟩

/-- A fragment is changed. -/
theorem Held.changes (h : Held m w current) (hchanges : m.ChangesOnly m' f)
    (hstored : m'.Stored f) :
  Held m' w current
  := by
  refine ⟨h.owned.changes hchanges hstored, h.nodup, ?_⟩
  rw [hchanges.nextFragment]
  exact h.lt

/-- Fragments move from one place to another. -/
theorem Held.moves (h : Held m w current) {w' : FragmentWindow} {current' : Option FragmentPtr}
    (hperm : (w'.fragments ++ w'.freeFragments ++ current'.toList).Perm
      (w.fragments ++ w.freeFragments ++ current.toList)) :
  Held m w' current'
  := ⟨h.owned, hperm.nodup_iff.mpr h.nodup, fun f hf => h.lt f (hperm.mem_iff.mp hf)⟩

theorem shrinkLoop_spec (h : Held m w current) (n : Nat) :
  Held (w.shrinkLoop n m).2 (w.shrinkLoop n m).1 current ∧
    (w.shrinkLoop n m).1.fragments = w.fragments.drop n ∧
    ∀ g, g ∉ w.fragments.take n → m.Keeps (w.shrinkLoop n m).2 g
  := by
  induction n generalizing w m with
  | zero => exact ⟨h, rfl, fun g _ => ⟨rfl, rfl⟩⟩
  | succ n ih =>
      rw [FragmentWindow.shrinkLoop]
      split
      · rename_i hnone
        rw [hnone]
        exact ⟨h, List.drop_nil.symm, fun g _ => ⟨rfl, rfl⟩⟩
      · rename_i p fragments hfragments
        obtain ⟨hchanges, hstored, -⟩ := HlsMemory.reset_spec (h.owned.stored p)
        have hmoved : Held (m.reset p) { w with
            fragments := fragments
            freeFragments := w.freeFragments ++ [p] } current
          := by
          apply (h.changes hchanges hstored).moves
          rw [hfragments]
          apply List.perm_iff_count.mpr
          intro g
          simp only [List.count_append, List.count_cons, List.count_nil]
          omega
        obtain ⟨hheld, hrest, hkeeps⟩ := ih hmoved
        refine ⟨hheld, ?_, ?_⟩
        · rw [hrest, hfragments]
          rfl
        · intro g hg
          rw [hfragments, List.take_succ_cons, List.mem_cons, not_or] at hg
          exact (h.owned.keeps hchanges hg.1).trans (hkeeps g hg.2)

namespace HLSMuxer

variable {ε : Type}

/-- The fragments that leave the window with a packet. -/
def dropped (m : HLSMuxer) (packet : Packet ε) : List FragmentPtr :=
  if m.switches packet then
    let fragments := m.fragmentWindow.fragments ++ m.currentFragment.toList
    fragments.take (fragments.length - m.fragmentWindow.windowSize)
  else
    []

/-- The fragments of a muxer are in one place each. -/
def WellHeld (m : HLSMuxer) : Prop := Held m.memory m.fragmentWindow m.currentFragment

theorem wellHeld_new (name : String) :
  ({ streamName := name } : HLSMuxer).WellHeld
  := ⟨HlsMemory.owned_new, List.nodup_nil, fun _ h => (nomatch h)⟩

/-- The current fragment goes to the window, and the oldest ones leave it. -/
theorem closeFragment_spec {m : HLSMuxer} (h : m.WellHeld) (packet : Packet ε) :
  (m.closeFragment packet).WellHeld ∧
    ((m.closeFragment packet).currentFragment = if m.switches packet then none
      else m.currentFragment) ∧
    (m.closeFragment packet).fragmentWindow.fragments =
      (m.fragmentWindow.fragments ++ if m.switches packet then m.currentFragment.toList
        else []).drop (m.dropped packet).length ∧
    ∀ g, g ∉ m.dropped packet → m.memory.Keeps (m.closeFragment packet).memory g
  := by
  rw [closeFragment]
  split
  · rename_i f hf
    by_cases hswitch : m.switches packet = true
    · rw [if_pos hswitch, if_pos hswitch, if_pos hswitch, hf, dropped, if_pos hswitch, hf]
      have hmoved : Held m.memory { m.fragmentWindow with
          fragments := m.fragmentWindow.fragments ++ [f] } none
        := by
        apply h.moves
        rw [hf]
        apply List.perm_iff_count.mpr
        intro g
        simp only [List.count_append, Option.toList, List.count_nil]
        omega
      rw [FragmentWindow.appendFragment, FragmentWindow.shrink]
      dsimp only [Option.toList]
      split
      · rename_i hfits
        have hnone : (m.fragmentWindow.fragments ++ [f]).length - m.fragmentWindow.windowSize = 0
          := Nat.sub_eq_zero_of_le hfits
        rw [hnone]
        exact ⟨hmoved, rfl, rfl, fun g _ => ⟨rfl, rfl⟩⟩
      · obtain ⟨hheld, hrest, hkeeps⟩ := shrinkLoop_spec hmoved
          ((m.fragmentWindow.fragments ++ [f]).length - m.fragmentWindow.windowSize)
        refine ⟨hheld, rfl, ?_, hkeeps⟩
        rw [List.length_take, Nat.min_eq_left (Nat.sub_le _ _)]
        exact hrest
    · rw [if_neg hswitch, if_neg hswitch, if_neg hswitch, dropped, if_neg hswitch,
        List.append_nil]
      exact ⟨h, rfl, rfl, fun g _ => ⟨rfl, rfl⟩⟩
  · rename_i hnone
    have hswitch : m.switches packet = false
      := by
      rw [switches, hnone]
    rw [hswitch, dropped, hswitch, if_neg Bool.false_ne_true, if_neg Bool.false_ne_true,
      if_neg Bool.false_ne_true, List.append_nil]
    exact ⟨h, rfl, rfl, fun g _ => ⟨rfl, rfl⟩⟩

/-- Something is written to a fragment, and nothing else is changed in the memory. -/
structure Performs (m m' : HLSMuxer) (f : FragmentPtr) (pieces : List TsPiece) : Prop where
  held : m'.WellHeld
  window : m'.fragmentWindow = m.fragmentWindow
  current : m'.currentFragment = m.currentFragment
  written : (m'.memory.fragments f).written = (m.memory.fragments f).written ++ pieces
  keeps : ∀ g, g ≠ f → m.memory.Keeps m'.memory g

variable {m m' : HLSMuxer} {f : FragmentPtr}

theorem Performs.refl (h : m.WellHeld) (f : FragmentPtr) :
  m.Performs m f []
  := ⟨h, rfl, rfl, (List.append_nil _).symm, fun _ _ => ⟨rfl, rfl⟩⟩

theorem Performs.trans {m'' : HLSMuxer} {pieces pieces' : List TsPiece}
    (h : m.Performs m' f pieces) (h' : m'.Performs m'' f pieces') :
  m.Performs m'' f (pieces ++ pieces')
  := by
  refine ⟨h'.held, h'.window.trans h.window, h'.current.trans h.current, ?_,
    fun g hg => (h.keeps g hg).trans (h'.keeps g hg)⟩
  rw [h'.written, h.written, List.append_assoc]

theorem perform_spec (h : m.WellHeld) {calls : List WriterCall}
    (hperform : m.perform f calls = some m') :
  m.Performs m' f (WriterCall.pieces calls) ∧ m'.encoder = m.encoder ∧ m'.statics = m.statics
  := by
  rw [perform] at hperform
  split at hperform
  · rename_i memory hall
    obtain rfl := Option.some.inj hperform
    obtain ⟨hchanges, hstored, hwritten⟩ := HlsMemory.performAll_spec (h.owned.stored f) hall
    exact ⟨⟨Held.changes h hchanges hstored, rfl, rfl, hwritten,
      fun g hg => h.owned.keeps hchanges hg⟩, rfl, rfl⟩
  · cases hperform

theorem perform_writer {calls : List WriterCall} (hperform : m.perform f calls = some m') :
  (m'.memory.fragments f).writer = (m.memory.fragments f).writer
  := by
  rw [perform] at hperform
  split at hperform
  · rename_i memory hall
    cases hperform
    exact HlsMemory.performAll_writer hall
  · cases hperform

/-- A header may set the streams. -/
theorem parseHeader_cases {packet : Packet ε} (hparse : m.parseHeader f packet = some m') :
  m' = m ∨ ∃ vc ac encoder statics calls,
    m.encoder.setStreamType m.statics vc ac = some (encoder, statics, calls) ∧
    ({ m with encoder := encoder, statics := statics } : HLSMuxer).perform f calls = some m'
  := by
  rw [parseHeader] at hparse
  split at hparse
  · rw [parseCodec] at hparse
    dsimp only at hparse
    split at hparse
    · split at hparse
      · rename_i htypes
        exact .inr ⟨_, _, _, _, _, htypes, hparse⟩
      · cases hparse
    · split at hparse
      · split at hparse
        · rename_i htypes
          exact .inr ⟨_, _, _, _, _, htypes, hparse⟩
        · cases hparse
      · exact .inl (Option.some.inj hparse).symm
  · exact .inl (Option.some.inj hparse).symm

/-- What setting the streams writes goes to the fragment. -/
theorem parseHeader_spec (h : m.WellHeld) {packet : Packet ε}
    (hparse : m.parseHeader f packet = some m') :
  m' = m ∨ ∃ vc ac calls,
    m.encoder.setStreamType m.statics vc ac = some (m'.encoder, m'.statics, calls) ∧
    m.Performs m' f (WriterCall.pieces calls)
  := by
  rcases parseHeader_cases hparse with hsame | ⟨vc, ac, encoder, statics, calls, htypes, hset⟩
  · exact .inl hsame
  · obtain ⟨hperforms, hencoder, hstatics⟩ :=
      perform_spec (m := { m with encoder := encoder, statics := statics }) h hset
    refine .inr ⟨vc, ac, calls, ?_, ⟨hperforms.held, hperforms.window, hperforms.current,
      hperforms.written, hperforms.keeps⟩⟩
    rw [htypes, hencoder, hstatics]

/-- The encoder is called with what the fragment remembers. -/
theorem encode_cases {packet : Packet ε} (hencode : m.encode f packet = some m') :
  ∃ encoder writer calls ret,
    m.encoder.encode (m.memory.fragments f).writer packet packet.timestamp.toBitVec.toInt =
      some (encoder, writer, calls, ret) ∧
    ({ m with
      encoder := encoder
      memory := m.memory.setFragment f
        { m.memory.fragments f with writer := writer } } : HLSMuxer).perform f calls = some m'
  := by
  rw [encode] at hencode
  split at hencode
  · rename_i hresult
    exact ⟨_, _, _, _, hresult, hencode⟩
  · cases hencode

/-- What the encoder writes of a packet goes to the fragment, with the parameter sets that it
remembers. -/
theorem encode_spec (h : m.WellHeld) {packet : Packet ε} (hencode : m.encode f packet = some m') :
  ∃ writer calls ret,
    m.encoder.encode (m.memory.fragments f).writer packet packet.timestamp.toBitVec.toInt =
      some (m'.encoder, writer, calls, ret) ∧
    m'.statics = m.statics ∧ m.Performs m' f (WriterCall.pieces calls) ∧
    (m'.memory.fragments f).writer = writer
  := by
  obtain ⟨encoder, writer, calls, ret, hresult, hperform⟩ := encode_cases hencode
  have hchanges := HlsMemory.changesOnly_setFragment (m := m.memory) (f := f)
    (v := { m.memory.fragments f with writer := writer }) rfl
  have hstored := (h.owned.stored f).setFragment
    (v := { m.memory.fragments f with writer := writer }) rfl rfl rfl rfl
  have hheld : ({ m with
      encoder := encoder
      memory := m.memory.setFragment f
        { m.memory.fragments f with writer := writer } } : HLSMuxer).WellHeld
    := Held.changes h hchanges hstored
  obtain ⟨hperforms, hencoder, hstatics⟩ := perform_spec hheld hperform
  refine ⟨writer, calls, ret, ?_, hstatics, ⟨hperforms.held, hperforms.window,
    hperforms.current, ?_, fun g hg => (h.owned.keeps hchanges hg).trans (hperforms.keeps g hg)⟩,
    ?_⟩
  · rw [hresult, hencoder]
  · rw [hperforms.written]
    dsimp only
    rw [HlsMemory.fragments_setFragment]
  · rw [perform_writer hperform]
    dsimp only
    rw [HlsMemory.fragments_setFragment]

/-- The idle fragment is not in use. -/
theorem getIdleFragment_spec {m : HlsMemory} {w : FragmentWindow} (h : Held m w none) :
  Held (w.getIdleFragment m).2.2 (w.getIdleFragment m).2.1 (some (w.getIdleFragment m).1) ∧
    (w.getIdleFragment m).2.1.fragments = w.fragments ∧
    (w.getIdleFragment m).2.1.windowSize = w.windowSize ∧
    ∀ g, g ≠ (w.getIdleFragment m).1 → m.Keeps (w.getIdleFragment m).2.2 g
  := by
  rw [FragmentWindow.getIdleFragment]
  cases hfree : w.freeFragments with
  | nil =>
      have hnew : m.nextFragment ∉ w.fragments ++ w.freeFragments ++ (none : Option Nat).toList
        := fun hmem => Nat.lt_irrefl _ (h.lt _ hmem)
      have hnodup := h.nodup
      have hlt := h.lt
      rw [hfree] at hnew hnodup hlt
      rw [Option.toList_none, List.append_nil, List.append_nil] at hnew hnodup hlt
      refine ⟨⟨h.owned.addFragment, ?_, ?_⟩, rfl, rfl, ?_⟩
      · rw [hfree, List.append_nil]
        refine List.nodup_append.mpr ⟨hnodup,
          List.nodup_cons.mpr ⟨List.not_mem_nil, List.nodup_nil⟩, ?_⟩
        intro a ha b hb hab
        rw [hab, List.mem_singleton.mp hb] at ha
        exact hnew ha
      · intro g hg
        rw [hfree, List.append_nil] at hg
        rcases List.mem_append.mp hg with hold | hlast
        · exact Nat.lt_succ_of_lt (hlt g hold)
        · rw [List.mem_singleton.mp hlast]
          exact Nat.lt_succ_self _
      · intro g hg
        have hsame : m.addFragment.fragments g = m.fragments g := Function.update_of_ne hg _ _
        refine ⟨hsame, ?_⟩
        rw [HlsMemory.content, HlsMemory.content, hsame]
        rfl
  | cons p freeFragments =>
      refine ⟨h.moves ?_, rfl, rfl, fun g _ => ⟨rfl, rfl⟩⟩
      rw [hfree]
      apply List.perm_iff_count.mpr
      intro g
      simp only [List.count_append, List.count_cons, List.count_nil, Option.toList]
      omega

/-- The fragment that is opened: it is reset, and has a name and a number. -/
def opened (m : HLSMuxer) (memory : HlsMemory) (f : FragmentPtr) (now : Int) : HlsMemory :=
  (memory.reset f).setFragment f
    ((((memory.reset f).fragments f).setBaseFileName m.streamName now).setSequenceNo
      m.fragmentSeqNo)

/-- There is a current fragment, or one that is idle is opened and the tables are written. -/
theorem openFragment_cases {now : Int} (hopen : m.openFragment now = some (m', f)) :
  m.currentFragment = some f ∧ m' = m ∨
    m.currentFragment = none ∧ ∃ window memory encoder statics calls,
      m.fragmentWindow.getIdleFragment m.memory = (f, window, memory) ∧
      m.encoder.writePatPmt m.statics = some (encoder, statics, calls) ∧
      ({ m with
        memory := m.opened memory f now
        fragmentWindow := window
        currentFragment := some f
        fragmentSeqNo := m.fragmentSeqNo + 1
        encoder := encoder
        statics := statics } : HLSMuxer).perform f calls = some m'
  := by
  rw [openFragment] at hopen
  split at hopen
  · rename_i hcurrent
    obtain ⟨rfl, rfl⟩ := Prod.mk.inj (Option.some.inj hopen)
    exact .inl ⟨hcurrent, rfl⟩
  · rename_i hcurrent
    generalize hidle : m.fragmentWindow.getIdleFragment m.memory = idle at hopen
    obtain ⟨f', window, memory⟩ := idle
    dsimp only at hopen
    split at hopen
    · rename_i htables
      split at hopen
      · rename_i hperform
        obtain ⟨rfl, rfl⟩ := Prod.mk.inj (Option.some.inj hopen)
        exact .inr ⟨hcurrent, _, _, _, _, _, rfl, htables, hperform⟩
      · cases hopen
    · cases hopen

/-- There is a current fragment, which may be new: then it has the program tables. -/
theorem openFragment_spec (h : m.WellHeld) {now : Int}
    (hopen : m.openFragment now = some (m', f)) :
  m'.WellHeld ∧ m'.currentFragment = some f ∧
    m'.fragmentWindow.fragments = m.fragmentWindow.fragments ∧
    (∀ g, g ≠ f → m.memory.Keeps m'.memory g) ∧
    (m' = m ∨ m.currentFragment = none ∧ ∃ calls,
      m.encoder.writePatPmt m.statics = some (m'.encoder, m'.statics, calls) ∧
      (m'.memory.fragments f).written = WriterCall.pieces calls)
  := by
  rcases openFragment_cases hopen with ⟨hcurrent, rfl⟩ |
    ⟨hcurrent, window, memory, encoder, statics, calls, hidle, htables, hperform⟩
  · exact ⟨h, hcurrent, rfl, fun _ _ => ⟨rfl, rfl⟩, .inl rfl⟩
  · obtain ⟨hheld, hwindow, -, hkeeps⟩ :=
      getIdleFragment_spec (m := m.memory) (w := m.fragmentWindow) (hcurrent ▸ h)
    rw [hidle] at hheld hwindow hkeeps
    dsimp only at hheld hwindow hkeeps
    obtain ⟨hchanges, hstored, hreset⟩ := HlsMemory.reset_spec (hheld.owned.stored f)
    have hchanges' := HlsMemory.changesOnly_setFragment (m := memory.reset f) (f := f)
      (v := (((memory.reset f).fragments f).setBaseFileName m.streamName now).setSequenceNo
        m.fragmentSeqNo) rfl
    have hstored' := hstored.setFragment
      (v := (((memory.reset f).fragments f).setBaseFileName m.streamName now).setSequenceNo
        m.fragmentSeqNo) rfl rfl rfl rfl
    have hnamed := (hheld.changes hchanges hstored).changes hchanges' hstored'
    obtain ⟨hperforms, hencoder, hstatics⟩ := perform_spec (by exact hnamed) hperform
    refine ⟨hperforms.held, hperforms.current, ?_, ?_, .inr ⟨hcurrent, calls, ?_, ?_⟩⟩
    · rw [hperforms.window]
      exact hwindow
    · intro g hg
      exact (((hkeeps g hg).trans (hheld.owned.keeps hchanges hg)).trans
        ((hheld.changes hchanges hstored).owned.keeps hchanges' hg)).trans
        (hperforms.keeps g hg)
    · rw [htables, hencoder, hstatics]
    · rw [hperforms.written]
      dsimp only
      rw [opened, HlsMemory.fragments_setFragment, hreset]
      rfl

/-- What is current is not in the window. -/
theorem WellHeld.not_mem (h : m.WellHeld) (hcurrent : m.currentFragment = some f) :
  f ∉ m.fragmentWindow.fragments
  := by
  intro hmem
  have hnodup := h.nodup
  rw [hcurrent] at hnodup
  apply (List.nodup_append.mp hnodup).2.2 f (List.mem_append_left _ hmem) f
  · exact List.mem_singleton_self f
  · rfl

/-- The encoder has no part in closing a fragment. -/
theorem closeFragment_encoder (m : HLSMuxer) (packet : Packet ε) :
  (m.closeFragment packet).encoder = m.encoder ∧ (m.closeFragment packet).statics = m.statics
  := by
  rw [closeFragment]
  split
  · split
    · exact ⟨rfl, rfl⟩
    · exact ⟨rfl, rfl⟩
  · exact ⟨rfl, rfl⟩

theorem closeFragment_of_stays {packet : Packet ε} (h : ¬ m.switches packet = true) :
  m.closeFragment packet = m
  := by
  rw [closeFragment]
  split
  · rw [if_neg h]
  · rfl

/-- What is in the window after a packet was in it before, or was current and is closed. -/
theorem mem_closeFragment (h : m.WellHeld) (packet : Packet ε) :
  f ∈ (m.closeFragment packet).fragmentWindow.fragments ↔
    (f ∈ m.fragmentWindow.fragments ∨ m.switches packet ∧ m.currentFragment = some f) ∧
      f ∉ m.dropped packet
  := by
  obtain ⟨-, -, hfragments, -⟩ := closeFragment_spec h packet
  rw [hfragments, dropped]
  by_cases hswitch : m.switches packet = true
  · rw [if_pos hswitch, if_pos hswitch]
    dsimp only
    generalize hall : m.fragmentWindow.fragments ++ m.currentFragment.toList = all
    have hnodup : all.Nodup
      := by
      rw [← hall]
      refine List.Nodup.sublist ?_ h.nodup
      rw [List.append_assoc]
      exact (List.sublist_append_right _ _).append_left _
    have hmem : f ∈ all ↔ f ∈ m.fragmentWindow.fragments ∨
        m.switches packet ∧ m.currentFragment = some f
      := by
      rw [← hall, List.mem_append, Option.mem_toList, and_iff_right hswitch]
    rw [← hmem, List.length_take, Nat.min_eq_left (Nat.sub_le _ _)]
    generalize all.length - m.fragmentWindow.windowSize = n
    have hsplit := List.take_append_drop n all
    rw [← hsplit] at hnodup
    constructor
    · intro hdrop
      exact ⟨List.mem_of_mem_drop hdrop,
        fun htake => (List.nodup_append.mp hnodup).2.2 f htake f hdrop rfl⟩
    · rintro ⟨hin, hout⟩
      rw [← hsplit] at hin
      exact (List.mem_append.mp hin).resolve_left hout
  · rw [if_neg hswitch, if_neg hswitch, List.append_nil]
    constructor
    · intro hin
      exact ⟨.inl hin, List.not_mem_nil⟩
    · rintro ⟨hin | ⟨hclosed, -⟩, -⟩
      · exact hin
      · exact absurd hclosed hswitch

/-- A packet leaves the fragments of the window alone that stay in it or come into it. -/
theorem onPacket_keeps (h : m.WellHeld) {now : Int} {packet : Packet ε}
    (hpacket : m.onPacket now packet = some m') :
  m'.WellHeld ∧
    m'.fragmentWindow.fragments = (m.closeFragment packet).fragmentWindow.fragments ∧
    ∀ g ∈ m'.fragmentWindow.fragments, m.memory.Keeps m'.memory g
  := by
  obtain ⟨hclosed, -, -, hkeeps⟩ := closeFragment_spec h packet
  rw [onPacket] at hpacket
  split at hpacket
  · rename_i m₁ f hopen
    obtain ⟨hopened, hcurrent, hwindow, hkeeps₁, -⟩ := openFragment_spec hclosed hopen
    split at hpacket
    · rename_i m₂ hparse
      obtain ⟨pieces, hperforms⟩ : ∃ pieces, m₁.Performs m₂ f pieces
        := by
        rcases parseHeader_spec hopened hparse with rfl | ⟨_, _, _, -, hperforms⟩
        · exact ⟨[], .refl hopened f⟩
        · exact ⟨_, hperforms⟩
      obtain ⟨_, _, _, -, -, hperforms', -⟩ := encode_spec hperforms.held hpacket
      have hboth := hperforms.trans hperforms'
      have hfragments : m'.fragmentWindow.fragments =
          (m.closeFragment packet).fragmentWindow.fragments
        := by rw [hboth.window, hwindow]
      refine ⟨hboth.held, hfragments, ?_⟩
      intro g hg
      have hdropped : g ∉ m.dropped packet
        := by
        rw [hfragments] at hg
        exact ((mem_closeFragment h packet).mp hg).2
      have hne : g ≠ f
        := by
        rintro rfl
        rw [hboth.window] at hg
        exact hopened.not_mem hcurrent hg
      exact ((hkeeps g hdropped).trans (hkeeps₁ g hne)).trans (hboth.keeps g hne)
    · cases hpacket
  · cases hpacket

end HLSMuxer
