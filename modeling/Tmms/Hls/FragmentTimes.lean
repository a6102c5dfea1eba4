import Tmms.Hls.Owners

/-!
# Times of fragments

A fragment has a duration of the timestamps that were appended to it.  What is written to it has no
part in that, and the encoder appends the timestamp of its packet and no other.  So all fragments
have durations below `2 ^ 31` when the timestamps are, and a fragment keeps its sequence number
while it is current.
-/

/-! ### Times of a fragment -/

/-- A fragment has a duration of timestamps below `2 ^ 31`. -/
structure Fragment.Timed (v : Fragment) : Prop where
  duration_nonneg : 0 ≤ v.duration
  duration_lt : v.duration < 2 ^ 31
  startDts : v.startDts = -1 ∨ 0 ≤ v.startDts

theorem Fragment.timed_new : ({} : Fragment).Timed
  := ⟨Int.le_refl 0, by decide, .inl rfl⟩

theorem Fragment.timed_reset (v : Fragment) : v.reset.Timed
  := ⟨Int.le_refl 0, Fragment.timed_new.duration_lt, .inl rfl⟩

theorem Fragment.Timed.appendTimeStamp {v : Fragment} (h : v.Timed) {dts : Int} (hge : 0 ≤ dts)
    (hlt : dts < 2 ^ 31) :
  (v.appendTimeStamp dts).Timed
  := by
  have hstart := h.startDts
  rw [Fragment.appendTimeStamp]
  constructor
  · dsimp only
    omega
  · dsimp only
    split
    · omega
    · omega
  · dsimp only
    split
    · omega
    · omega

/-- The number and the times of a fragment stay. -/
def Fragment.SameTimes (v v' : Fragment) : Prop :=
  v'.sequenceNo = v.sequenceNo ∧ v'.duration = v.duration ∧ v'.startDts = v.startDts

theorem Fragment.SameTimes.timed {v v' : Fragment} (h : v.SameTimes v') (hv : v.Timed) :
  v'.Timed
  := by
  obtain ⟨-, hduration, hstart⟩ := h
  constructor
  · rw [hduration]
    exact hv.duration_nonneg
  · rw [hduration]
    exact hv.duration_lt
  · rw [hstart]
    exact hv.startDts

/-- The timestamps that calls append are below `2 ^ 31`. -/
def WriterCall.InTime (calls : List WriterCall) : Prop :=
  ∀ dts, .appendTimeStamp dts ∈ calls → 0 ≤ dts ∧ dts < 2 ^ 31

theorem WriterCall.inTime_writes (codec : Option Codec) (packets : List (List UInt8)) :
  InTime (writes codec packets)
  := by
  intro dts hmem
  obtain ⟨bytes, -, hbytes⟩ := List.mem_map.mp hmem
  cases hbytes

theorem WriterCall.InTime.append {calls calls' : List WriterCall} (h : InTime calls)
    (h' : InTime calls') :
  InTime (calls ++ calls')
  := by
  intro dts hmem
  rcases List.mem_append.mp hmem with hmem | hmem
  · exact h dts hmem
  · exact h' dts hmem

theorem WriterCall.inTime_cons {dts : Int} (hge : 0 ≤ dts) (hlt : dts < 2 ^ 31)
    {calls : List WriterCall} (h : InTime calls) :
  InTime (.appendTimeStamp dts :: calls)
  := by
  intro dts' hmem
  rcases List.mem_cons.mp hmem with heq | hmem
  · cases heq
    exact ⟨hge, hlt⟩
  · exact h dts' hmem

namespace HlsMemory

variable {m m' : HlsMemory} {f : FragmentPtr}

/-- What is written has no part in the times. -/
theorem write_times {piece : TsPiece} (hwrite : m.write f piece = some m') :
  (m.fragments f).SameTimes (m'.fragments f)
  := by
  obtain ⟨_, _, _, _, hfields⟩ := write_fields hwrite
  rw [hfields]
  exact ⟨rfl, rfl, rfl⟩

/-- Calls keep the number of a fragment, and its duration is one of timestamps in time. -/
theorem performAll_times {calls : List WriterCall} (h : WriterCall.InTime calls)
    (hv : (m.fragments f).Timed) (hperform : m.performAll f calls = some m') :
  (m'.fragments f).sequenceNo = (m.fragments f).sequenceNo ∧ (m'.fragments f).Timed
  := by
  induction calls generalizing m with
  | nil =>
      cases hperform
      exact ⟨rfl, hv⟩
  | cons call calls ih =>
      have hrest : WriterCall.InTime calls := fun dts hdts => h dts (List.mem_cons_of_mem _ hdts)
      rw [performAll] at hperform
      cases call with
      | appendTimeStamp dts =>
          obtain ⟨hge, hlt⟩ := h dts List.mem_cons_self
          have hcall : ((m.setFragment f ((m.fragments f).appendTimeStamp dts)).fragments f).Timed
            := by
            rw [fragments_setFragment]
            exact hv.appendTimeStamp hge hlt
          obtain ⟨hno, htimed⟩ := ih hrest hcall hperform
          refine ⟨?_, htimed⟩
          rw [hno, fragments_setFragment]
          rfl
      | write piece =>
          dsimp only [perform] at hperform
          split at hperform
          · rename_i m₁ hwrite
            have hsame := write_times hwrite
            obtain ⟨hno, htimed⟩ := ih hrest (hsame.timed hv) hperform
            exact ⟨hno.trans hsame.1, htimed⟩
          · cases hperform

end HlsMemory

/-! ### What the encoder calls -/

namespace TsEncoder

variable {e e' : TsEncoder} {g g' : TsTool.Globals} {calls : List WriterCall} {ε : Type}

theorem writePatPmt_inTime (hwrite : e.writePatPmt g = some (e', g', calls)) :
  WriterCall.InTime calls
  := by
  rw [writePatPmt] at hwrite
  split at hwrite
  · obtain ⟨⟨patWriter, g₁, pat⟩, -, hrest⟩ := Option.bind_eq_some_iff.mp hwrite
    obtain ⟨⟨pmtWriter, g₂, pmt⟩, -, hresult⟩ := Option.bind_eq_some_iff.mp hrest
    cases hresult
    exact (WriterCall.inTime_writes none pat).append (WriterCall.inTime_writes none pmt)
  · cases hwrite
    exact WriterCall.inTime_writes none []

theorem setStreamType_inTime {vc ac : UInt8}
    (hset : e.setStreamType g vc ac = some (e', g', calls)) :
  WriterCall.InTime calls
  := by
  rw [setStreamType] at hset
  dsimp only at hset
  split at hset
  · exact writePatPmt_inTime hset
  · cases hset
    exact WriterCall.inTime_writes none []

/-- A packet is written at its timestamp. -/
theorem encode_inTime {writer writer' : StreamWriter} {data : Packet ε} {dts ret : Int}
    (hge : 0 ≤ dts) (hlt : dts < 2 ^ 31)
    (hencode : e.encode writer data dts = some (e', writer', calls, ret)) :
  WriterCall.InTime calls
  := by
  have hnil : WriterCall.InTime [] := WriterCall.inTime_writes none []
  have hcalls : ∀ codec packets, WriterCall.InTime (.appendTimeStamp dts :: writes codec packets)
    := fun codec packets =>
      WriterCall.inTime_cons hge hlt (WriterCall.inTime_writes codec packets)
  rw [encode] at hencode
  split at hencode
  · split at hencode
    · rename_i audio calls' ret' haudio
      cases hencode
      rw [AudioEncoder.encodeAudio] at haudio
      split at haudio
      · cases haudio
      · split at haudio
        · cases haudio
          exact hnil
        · split at haudio
          · cases haudio
            exact hnil
          · split at haudio
            · cases haudio
              apply hcalls
            · split at haudio
              · cases haudio
                apply hcalls
              · cases haudio
                apply hcalls none []
    · cases hencode
  · split at hencode
    · split at hencode
      · rename_i video writer' calls' ret' hvideo
        cases hencode
        rw [VideoEncoder.encodeVideo] at hvideo
        split at hvideo
        · cases hvideo
        · split at hvideo
          · cases hvideo
            exact hnil
          · split at hvideo
            · cases hvideo
              exact hnil
            · split at hvideo
              · cases hvideo
                apply hcalls
              · cases hvideo
                apply hcalls none []
      · cases hencode
    · cases hencode
      exact hnil

end TsEncoder

/-! ### All fragments -/

namespace HlsMemory

variable {m : HlsMemory} {f : FragmentPtr}

/-- All fragments have durations of timestamps in time. -/
def AllTimed (m : HlsMemory) : Prop := ∀ f, (m.fragments f).Timed

theorem AllTimed.setFragment (h : m.AllTimed) {v : Fragment} (hv : v.Timed) :
  (m.setFragment f v).AllTimed
  := by
  intro g
  rcases eq_or_ne g f with rfl | hne
  · rw [fragments_setFragment]
    exact hv
  · have hsame : (m.setFragment f v).fragments g = m.fragments g := Function.update_of_ne hne _ _
    rw [hsame]
    exact h g

theorem fragments_reset (m : HlsMemory) (f : FragmentPtr) :
  (m.reset f).fragments = (m.setFragment f (m.fragments f).reset).fragments
  := by
  rw [reset]
  dsimp only
  split
  · rfl
  · rfl

theorem AllTimed.reset (h : m.AllTimed) :
  (m.reset f).AllTimed
  := by
  intro g
  rw [fragments_reset]
  exact h.setFragment (Fragment.timed_reset _) g

end HlsMemory

theorem FragmentWindow.shrinkLoop_timed {m : HlsMemory} (h : m.AllTimed) (n : Nat)
    (w : FragmentWindow) :
  (w.shrinkLoop n m).2.AllTimed ∧ (w.shrinkLoop n m).1.windowSize = w.windowSize
  := by
  induction n generalizing w m with
  | zero => exact ⟨h, rfl⟩
  | succ n ih =>
      rw [FragmentWindow.shrinkLoop]
      split
      · exact ⟨h, rfl⟩
      · exact ih h.reset _

theorem FragmentWindow.appendFragment_timed {m : HlsMemory} (h : m.AllTimed) (w : FragmentWindow)
    (f : FragmentPtr) :
  (w.appendFragment m f).2.AllTimed ∧ (w.appendFragment m f).1.windowSize = w.windowSize
  := by
  rw [FragmentWindow.appendFragment, FragmentWindow.shrink]
  split
  · exact ⟨h, rfl⟩
  · exact FragmentWindow.shrinkLoop_timed h _ _

namespace HLSMuxer

variable {ε : Type} {m m' : HLSMuxer} {f : FragmentPtr}

/-- The next number stays, and the fragment that is written to keeps its number and has times. -/
structure Marks (m m' : HLSMuxer) (f : FragmentPtr) : Prop where
  windowSize : m'.fragmentWindow.windowSize = m.fragmentWindow.windowSize
  seqNo : m'.fragmentSeqNo = m.fragmentSeqNo
  sequenceNo : (m'.memory.fragments f).sequenceNo = (m.memory.fragments f).sequenceNo
  timed : (m'.memory.fragments f).Timed

theorem perform_marks {calls : List WriterCall} (h : WriterCall.InTime calls)
    (hv : (m.memory.fragments f).Timed) (hperform : m.perform f calls = some m') :
  m.Marks m' f
  := by
  rw [perform] at hperform
  split at hperform
  · rename_i memory hall
    cases hperform
    obtain ⟨hno, htimed⟩ := HlsMemory.performAll_times h hv hall
    exact ⟨rfl, rfl, hno, htimed⟩
  · cases hperform

theorem parseHeader_marks {packet : Packet ε} (hv : (m.memory.fragments f).Timed)
    (hparse : m.parseHeader f packet = some m') :
  m.Marks m' f
  := by
  rcases parseHeader_cases hparse with rfl | ⟨_, _, encoder, statics, _, htypes, hset⟩
  · exact ⟨rfl, rfl, rfl, hv⟩
  · obtain ⟨hsize, hseq, hno, htimed⟩ := perform_marks
      (m := { m with encoder := encoder, statics := statics })
      (TsEncoder.setStreamType_inTime htypes) hv hset
    exact ⟨hsize, hseq, hno, htimed⟩

theorem encode_marks {packet : Packet ε} (htimestamp : packet.timestamp.toNat < 2 ^ 31)
    (hv : (m.memory.fragments f).Timed) (hencode : m.encode f packet = some m') :
  m.Marks m' f
  := by
  have hdts : packet.timestamp.toBitVec.toInt = packet.timestamp.toNat
    := by
    apply BitVec.toInt_eq_toNat_of_lt
    rw [UInt64.toNat_toBitVec]
    omega
  obtain ⟨encoder, writer, calls, ret, hresult, hperform⟩ := encode_cases hencode
  rw [hdts] at hresult
  have hsame : ({ m.memory.fragments f with writer := writer } : Fragment).Timed
    := ⟨hv.duration_nonneg, hv.duration_lt, hv.startDts⟩
  rw [← HlsMemory.fragments_setFragment m.memory f { m.memory.fragments f with writer := writer }]
    at hsame
  obtain ⟨hsize, hseq, hno, htimed⟩ := perform_marks
    (m := { m with
      encoder := encoder
      memory := m.memory.setFragment f { m.memory.fragments f with writer := writer } })
    (TsEncoder.encode_inTime (by omega) (by omega) hresult) hsame hperform
  refine ⟨hsize, hseq, ?_, htimed⟩
  rw [hno]
  dsimp only
  rw [HlsMemory.fragments_setFragment]

theorem getIdleFragment_timed {m : HlsMemory} (h : m.AllTimed) (w : FragmentWindow) :
  (w.getIdleFragment m).2.2.AllTimed
  := by
  rw [FragmentWindow.getIdleFragment]
  split
  · exact h.setFragment Fragment.timed_new
  · exact h

end HLSMuxer
