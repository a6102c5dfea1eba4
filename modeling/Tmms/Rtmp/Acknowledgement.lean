import Tmms.Library.Runs
import Tmms.Rtmp.Segmentation

/-!
# Acknowledgements

`ParseMessage` adds to `in_bytes_` what the buffer holds more than at the end of the last parse, and
`SendBytesRecv` reports `in_bytes_` once it reaches the window and begins to count again at zero.
So the first report is the number of bytes received so far and the next ones are not: they count the
bytes since the last report.
-/

open BytesReader

namespace ChunkReader

/-- A Window Acknowledgement Size message announces a size that an `int32_t` can be. -/
def AnnouncesWindow (p : RtmpPacket) : Prop :=
  p.type = kRtmpMsgTypeWindowACKSize.toNat → 4 ≤ p.payload.length →
    1 ≤ (readUint32T p.payload).toNat ∧ (readUint32T p.payload).toNat < 2 ^ 31

instance (p : RtmpPacket) : Decidable (AnnouncesWindow p) :=
  inferInstanceAs (Decidable (_ → _))

/-- The window in force is the size of one. -/
structure HasWindow (s : ChunkReader) : Prop where
  pos : 1 ≤ s.ackSize
  lt : s.ackSize < 2 ^ 31

theorem hasWindow_new :
  HasWindow {}
  := ⟨by decide, by decide⟩

theorem HasWindow.set {s : ChunkReader} (h : HasWindow s) (csid : UInt32) (st : ChunkStream) :
  HasWindow (s.set csid st)
  := ⟨h.pos, h.lt⟩

/-- A message changes the window only if it announces one. -/
theorem HasWindow.messageComplete {s : ChunkReader} (h : HasWindow s) {p : RtmpPacket}
    (hp : AnnouncesWindow p) :
  HasWindow (s.messageComplete p)
  := by
  rw [ChunkReader.messageComplete]
  split
  · rw [handleChunkSize]
    split
    · exact ⟨h.pos, h.lt⟩
    · exact h
  · split
    case isTrue htype =>
      rw [handleAckWindowSize]
      split
      case isTrue hlen =>
        obtain ⟨hpos, hlt⟩ := hp htype hlen
        have hsize := int32_of_lt hlt
        constructor
        · change 1 ≤ int32 _
          omega
        · change int32 _ < _
          omega
      case isFalse => exact h
    case isFalse => exact h

theorem HasWindow.readBody {s : ChunkReader} (h : HasWindow s) (csid : UInt32) (o : OpenStream)
    (parsed : Nat) (body : List UInt8) :
  Pass.Leaves HasWindow AnnouncesWindow (s.readBody csid o parsed body)
  := by
  rw [ChunkReader.readBody]
  dsimp only
  split
  · exact h.set csid _
  · split
    · intro hout
      apply (h.set csid _).messageComplete
      exact hout _ (List.mem_singleton_self _)
    · exact fun _ => h.set csid _

/-- A pass keeps the window the size of one, as long as the messages it hands on announce one. -/
theorem HasWindow.pass {s : ChunkReader} (h : HasWindow s) (b : List UInt8) :
  Pass.Leaves HasWindow AnnouncesWindow (s.pass b)
  := by
  obtain hwait | ⟨fmt, csid, n, hb, h1, hne, hlen⟩ := s.pass_cases b
  · rw [hwait]
    exact h
  · rw [pass_of_header s hb h1 hne hlen, readRest]
    split
    · split
      · exact h.set csid _
      · apply h.readBody
    · apply h.readBody

theorem HasWindow.parse {s : ChunkReader} (h : HasWindow s) {b : List UInt8}
    (hout : ∀ p ∈ (s.parse b).out, AnnouncesWindow p) :
  HasWindow (s.parse b).state
  := incremental.keeps_run (fun _ b hs => hs.pass b) h hout

end ChunkReader

/-- A connection, with the number of bytes that have arrived on its chunk stream. -/
structure CountedReceiver where
  receiver : RtmpReceiver
  received : Nat

namespace CountedReceiver

/-- The bytes behind the handshake are there when the chunk stream begins. -/
def start (leftover : List UInt8) : CountedReceiver :=
  ⟨{ unread := leftover }, leftover.length⟩

/-- A read. -/
def onRead (s : CountedReceiver) (bytes : List UInt8) : CountedReceiver :=
  ⟨s.receiver.onRead bytes, s.received + bytes.length⟩

/-- The value of the last acknowledgement. -/
def acknowledged (s : CountedReceiver) : Int := s.receiver.bytesRecv.getLastD 0

/-- What a read brings `in_bytes_` to. -/
def count (s : CountedReceiver) (bytes : List UInt8) : Int :=
  s.receiver.inBytes + (s.receiver.unread.length + bytes.length - s.receiver.lastLeft)

/-- At a read, an acknowledgement has the number of bytes received so far, more than the ones
before it.  When there is none, less than the window in force is left unacknowledged: so what
arrives between two acknowledgements is less than a window, and a read. -/
structure Counts (s : CountedReceiver) (bytes : List UInt8) : Prop where
  value : (s.onRead bytes).receiver.bytesRecv = s.receiver.bytesRecv ∨
    (s.onRead bytes).receiver.bytesRecv = s.receiver.bytesRecv ++ [((s.onRead bytes).received : Int)]
  increasing : (s.onRead bytes).receiver.bytesRecv.Pairwise (· < ·)
  window : (s.onRead bytes).receiver.bytesRecv = s.receiver.bytesRecv →
    (s.onRead bytes).received - s.acknowledged < s.receiver.reader.ackSize

/-- A read does not bring `in_bytes_` to the window again, and not to `2 ^ 31`. -/
def Meets (s : CountedReceiver) (bytes : List UInt8) : Prop :=
  s.count bytes < 2 ^ 31 ∧
    (s.receiver.reader.ackSize ≤ s.count bytes → s.receiver.bytesRecv = [])

instance (s : CountedReceiver) (bytes : List UInt8) : Decidable (Meets s bytes) :=
  inferInstanceAs (Decidable (_ ∧ _))

/-- Fewer than `2 ^ 32` bytes have arrived, and the windows announced are sizes of one. -/
structure Regular (s : CountedReceiver) : Prop where
  received_lt : s.received < 2 ^ 32
  announces : ∀ p ∈ s.receiver.delivered, ChunkReader.AnnouncesWindow p

/-- There was at most one acknowledgement, and what was received and not acknowledged is in
`in_bytes_` or was in the buffer before the first read. -/
structure Inv (s : CountedReceiver) : Prop where
  hasWindow : s.receiver.reader.HasWindow
  count_nonneg : 0 ≤ s.count []
  received : s.received = s.acknowledged + s.count []
  once : s.receiver.bytesRecv = [] ∨ ∃ v, s.receiver.bytesRecv = [v] ∧ 1 ≤ v

/-! ### One read -/

theorem wrap_of_lt {x : Int} (hnonneg : 0 ≤ x) (hlt : x < 2 ^ 31) :
  RtmpReceiver.wrap x = x
  := by
  rw [RtmpReceiver.wrap, Int.bmod_eq_of_le]
  · omega
  · omega

/-- From `2 ^ 31` on the count is negative. -/
theorem wrap_neg {x : Int} (hge : 2 ^ 31 ≤ x) (hlt : x < 2 ^ 32) :
  RtmpReceiver.wrap x < 0
  := by
  rw [RtmpReceiver.wrap, Int.bmod_def]
  omega

/-- What a read leaves in the buffer is not counted again. -/
theorem count_onRead (s : CountedReceiver) (bytes : List UInt8) :
  (s.onRead bytes).count [] = (s.onRead bytes).receiver.inBytes
  := by
  rw [count]
  change _ + (((s.onRead bytes).receiver.unread.length : Int) + 0
    - ((s.onRead bytes).receiver.unread.length : Int)) = _
  omega

theorem count_nil_add (s : CountedReceiver) (bytes : List UInt8) :
  s.count bytes = s.count [] + bytes.length
  := by
  rw [count, count, List.length_nil]
  omega

/-- The bytes are counted before the messages among them are read. -/
theorem receiver_onRead (s : CountedReceiver) (bytes : List UInt8) :
  ((s.onRead bytes).receiver.bytesRecv, (s.onRead bytes).receiver.inBytes) =
    if s.receiver.reader.ackSize ≤ RtmpReceiver.wrap (s.count bytes) then
      (s.receiver.bytesRecv ++ [RtmpReceiver.wrap (s.count bytes)], 0)
    else
      (s.receiver.bytesRecv, RtmpReceiver.wrap (s.count bytes))
  := by
  rw [onRead, RtmpReceiver.onRead, RtmpReceiver.parseMessage, RtmpReceiver.sendBytesRecv, count]
  simp only [List.length_append, Int.natCast_add]
  split
  · rfl
  · rfl

theorem reader_onRead (s : CountedReceiver) (bytes : List UInt8) :
  (s.onRead bytes).receiver.reader = (s.receiver.reader.parse (s.receiver.unread ++ bytes)).state
  := by
  rw [onRead, RtmpReceiver.onRead, RtmpReceiver.parseMessage, RtmpReceiver.sendBytesRecv]
  dsimp only
  split
  · rfl
  · rfl

theorem delivered_onRead (s : CountedReceiver) (bytes : List UInt8) :
  (s.onRead bytes).receiver.delivered =
    s.receiver.delivered ++ (s.receiver.reader.parse (s.receiver.unread ++ bytes)).out
  := by
  rw [onRead, RtmpReceiver.onRead, RtmpReceiver.parseMessage, RtmpReceiver.sendBytesRecv]
  dsimp only
  split
  · rfl
  · rfl

/-- A read that does not bring the count to the window. -/
theorem onRead_of_lt {s : CountedReceiver} {bytes : List UInt8}
    (hlt : RtmpReceiver.wrap (s.count bytes) < s.receiver.reader.ackSize) :
  (s.onRead bytes).receiver.bytesRecv = s.receiver.bytesRecv ∧
    (s.onRead bytes).receiver.inBytes = RtmpReceiver.wrap (s.count bytes)
  := by
  have h := receiver_onRead s bytes
  rw [if_neg (by omega)] at h
  exact Prod.mk.inj h

/-- A read that brings the count to the window. -/
theorem onRead_of_ge {s : CountedReceiver} {bytes : List UInt8}
    (hge : s.receiver.reader.ackSize ≤ RtmpReceiver.wrap (s.count bytes)) :
  (s.onRead bytes).receiver.bytesRecv
      = s.receiver.bytesRecv ++ [RtmpReceiver.wrap (s.count bytes)] ∧
    (s.onRead bytes).receiver.inBytes = 0
  := by
  have h := receiver_onRead s bytes
  rw [if_pos hge] at h
  exact Prod.mk.inj h

theorem Regular.of_onRead {s : CountedReceiver} {bytes : List UInt8}
    (h : Regular (s.onRead bytes)) :
  Regular s
  := by
  constructor
  · exact Nat.lt_of_le_of_lt (Nat.le_add_right _ _) h.received_lt
  · intro p hp
    apply h.announces p
    rw [delivered_onRead]
    exact List.mem_append_left _ hp

/-! ### Runs -/

theorem inv_start (leftover : List UInt8) :
  Inv (start leftover)
  := by
  have hcount : (start leftover).count [] = leftover.length := by
    change (0 : Int) + ((leftover.length : Int) + 0 - 0) = _
    omega
  refine ⟨ChunkReader.hasWindow_new, ?_, ?_, .inl rfl⟩
  · rw [hcount]
    omega
  · rw [hcount]
    change (leftover.length : Int) = 0 + leftover.length
    omega

theorem Inv.hasWindow_onRead {s : CountedReceiver} (h : Inv s) {bytes : List UInt8}
    (hregular : Regular (s.onRead bytes)) :
  (s.onRead bytes).receiver.reader.HasWindow
  := by
  rw [reader_onRead]
  apply h.hasWindow.parse
  intro p hp
  apply hregular.announces p
  rw [delivered_onRead]
  exact List.mem_append_right _ hp

/-- A read that is counted below the window leaves its bytes in `in_bytes_`. -/
theorem Inv.onRead_of_lt {s : CountedReceiver} (h : Inv s) {bytes : List UInt8}
    (hregular : Regular (s.onRead bytes)) (hlt : s.count bytes < s.receiver.reader.ackSize) :
  Counts s bytes ∧ Inv (s.onRead bytes)
  := by
  have hnonneg := h.count_nonneg
  have hadd := count_nil_add s bytes
  have hwrap : RtmpReceiver.wrap (s.count bytes) = s.count bytes := by
    have hwindow := h.hasWindow.lt
    apply wrap_of_lt
    · omega
    · omega
  obtain ⟨hbytesRecv, hinBytes⟩ := CountedReceiver.onRead_of_lt (hwrap.symm ▸ hlt)
  have hcount := count_onRead s bytes
  rw [hinBytes, hwrap] at hcount
  have hacknowledged : (s.onRead bytes).acknowledged = s.acknowledged := by
    rw [acknowledged, acknowledged, hbytesRecv]
  have hreceived : ((s.onRead bytes).received : Int) = s.received + bytes.length :=
    Int.natCast_add _ _
  have hsum := h.received
  constructor
  · refine ⟨.inl hbytesRecv, ?_, fun _ => by omega⟩
    rw [hbytesRecv]
    obtain hnil | ⟨v, hone, -⟩ := h.once
    · rw [hnil]
      exact .nil
    · rw [hone]
      exact List.pairwise_singleton _ _
  · refine ⟨h.hasWindow_onRead hregular, by omega, by omega, ?_⟩
    rw [hbytesRecv]
    exact h.once

/-- The first acknowledgement has the number of bytes received. -/
theorem Inv.onRead_of_first {s : CountedReceiver} (h : Inv s) {bytes : List UInt8}
    (hregular : Regular (s.onRead bytes)) (hge : s.receiver.reader.ackSize ≤ s.count bytes)
    (hlt : s.count bytes < 2 ^ 31) (hfirst : s.receiver.bytesRecv = []) :
  Counts s bytes ∧ Inv (s.onRead bytes)
  := by
  have hpos := h.hasWindow.pos
  have hwrap : RtmpReceiver.wrap (s.count bytes) = s.count bytes := wrap_of_lt (by omega) hlt
  obtain ⟨hbytesRecv, hinBytes⟩ := onRead_of_ge (hwrap.symm ▸ hge)
  have hcount := count_onRead s bytes
  rw [hwrap, hfirst, List.nil_append] at hbytesRecv
  rw [hinBytes] at hcount
  have hreceived : ((s.onRead bytes).received : Int) = s.count bytes := by
    have hsum := h.received
    have hadd := count_nil_add s bytes
    rw [acknowledged, hfirst, List.getLastD_nil] at hsum
    change ((s.received + bytes.length : Nat) : Int) = _
    omega
  constructor
  · constructor
    · right
      rw [hbytesRecv, hfirst, List.nil_append, hreceived]
    · rw [hbytesRecv]
      exact List.pairwise_singleton _ _
    · intro hsame
      rw [hbytesRecv, hfirst] at hsame
      cases hsame
  · refine ⟨h.hasWindow_onRead hregular, by omega, ?_, ?_⟩
    · rw [hcount, hreceived, acknowledged, hbytesRecv, List.getLastD_cons, List.getLastD_nil,
        Int.add_zero]
    · right
      exact ⟨_, hbytesRecv, by omega⟩

/-- The second acknowledgement has not. -/
theorem Inv.not_counts_of_second {s : CountedReceiver} (h : Inv s) {bytes : List UInt8}
    (hge : s.receiver.reader.ackSize ≤ s.count bytes) (hlt : s.count bytes < 2 ^ 31)
    (hsecond : s.receiver.bytesRecv ≠ []) :
  ¬ Counts s bytes
  := by
  have hpos := h.hasWindow.pos
  have hwrap : RtmpReceiver.wrap (s.count bytes) = s.count bytes := wrap_of_lt (by omega) hlt
  obtain ⟨hbytesRecv, -⟩ := onRead_of_ge (hwrap.symm ▸ hge)
  obtain hnil | ⟨v, hone, hv⟩ := h.once
  · exact absurd hnil hsecond
  have hsum := h.received
  have hadd := count_nil_add s bytes
  rw [acknowledged, hone, List.getLastD_cons, List.getLastD_nil] at hsum
  intro hcounts
  obtain hsame | htotal := hcounts.value
  · have hlen := congrArg List.length (hbytesRecv.symm.trans hsame)
    rw [List.length_append, List.length_singleton] at hlen
    omega
  · have hvalue := List.append_cancel_left (hbytesRecv.symm.trans htotal)
    rw [hwrap] at hvalue
    have hreceived := List.head_eq_of_cons_eq hvalue
    change s.count bytes = ((s.received + bytes.length : Nat) : Int) at hreceived
    omega

/-- From `2 ^ 31` bytes on the window passes unnoticed. -/
theorem Inv.not_counts_of_wrap {s : CountedReceiver} (h : Inv s) {bytes : List UInt8}
    (hregular : Regular (s.onRead bytes)) (hge : 2 ^ 31 ≤ s.count bytes) :
  ¬ Counts s bytes
  := by
  have hsum := h.received
  have hadd := count_nil_add s bytes
  have hlt : s.received + bytes.length < 2 ^ 32 := hregular.received_lt
  have hpos := h.hasWindow.pos
  have hwindow := h.hasWindow.lt
  have hacknowledged : 0 ≤ s.acknowledged := by
    rw [acknowledged]
    obtain hnil | ⟨v, hone, hv⟩ := h.once
    · rw [hnil]
      exact Int.le_refl 0
    · rw [hone, List.getLastD_cons, List.getLastD_nil]
      omega
  have hwrap := wrap_neg hge (by omega)
  obtain ⟨hbytesRecv, -⟩ := CountedReceiver.onRead_of_lt
    (show RtmpReceiver.wrap (s.count bytes) < s.receiver.reader.ackSize by omega)
  intro hcounts
  have hleft := hcounts.window hbytesRecv
  change ((s.received + bytes.length : Nat) : Int) - s.acknowledged < _ at hleft
  omega

/-- What one read does: it counts as it should exactly if it meets the condition, and the
invariant is kept. -/
theorem Inv.step {s : CountedReceiver} (h : Inv s) {bytes : List UInt8}
    (hregular : Regular (s.onRead bytes)) :
  (Counts s bytes ↔ Meets s bytes) ∧ (Meets s bytes → Inv (s.onRead bytes))
  := by
  by_cases hlt : s.count bytes < 2 ^ 31
  · by_cases hge : s.receiver.reader.ackSize ≤ s.count bytes
    · by_cases hfirst : s.receiver.bytesRecv = []
      · obtain ⟨hcounts, hinv⟩ := h.onRead_of_first hregular hge hlt hfirst
        exact ⟨iff_of_true hcounts ⟨hlt, fun _ => hfirst⟩, fun _ => hinv⟩
      · refine ⟨iff_of_false (h.not_counts_of_second hge hlt hfirst) ?_, ?_⟩
        · exact fun hmeets => hfirst (hmeets.2 hge)
        · exact fun hmeets => absurd (hmeets.2 hge) hfirst
    · obtain ⟨hcounts, hinv⟩ := h.onRead_of_lt hregular (Int.not_le.mp hge)
      exact ⟨iff_of_true hcounts ⟨hlt, fun hle => absurd hle hge⟩, fun _ => hinv⟩
  · refine ⟨iff_of_false (h.not_counts_of_wrap hregular (Int.not_lt.mp hlt)) ?_, ?_⟩
    · exact fun hmeets => hlt hmeets.1
    · exact fun hmeets => absurd hmeets.1 hlt

/-- The acknowledgements of a connection count the stream exactly if no read after the first one
fills the window, and none counts to `2 ^ 31`. -/
theorem counts_iff_meets (leftover : List UInt8) (reads : List (List UInt8))
    (h : Regular (Runs.run onRead (start leftover) reads)) :
  Runs.Steps onRead Counts (start leftover) reads ↔
    Runs.Steps onRead Meets (start leftover) reads
  := by
  apply Runs.steps_iff_steps (Runs.throughout_of_last h fun _ _ => Regular.of_onRead).steps
    (inv_start leftover)
  exact fun s bytes hs hregular => hs.step hregular

/-- A Window Acknowledgement Size message of 16, which is acknowledged once it is there again. -/
theorem counts_windows :
  Runs.Steps onRead Counts (start [])
    [[2, 0, 0, 0, 0, 0, 4, 5, 0, 0, 0, 0, 0, 0, 0, 16],
      [2, 0, 0, 0, 0, 0, 4, 5, 0, 0, 0, 0, 0, 0, 0, 16]]
  := by
  apply (counts_iff_meets [] _ _).mpr
  · decide +kernel
  · constructor
    · decide
    · decide +kernel

/-- The same message three times: the acknowledgement of the third has 16 where 48 bytes have
arrived. -/
theorem not_counts_again :
  ¬ ∀ leftover reads, Regular (Runs.run onRead (start leftover) reads) →
    Runs.Steps onRead Counts (start leftover) reads
  := by
  intro h
  obtain ⟨-, -, hthird, -⟩ := h []
    [[2, 0, 0, 0, 0, 0, 4, 5, 0, 0, 0, 0, 0, 0, 0, 16],
      [2, 0, 0, 0, 0, 0, 4, 5, 0, 0, 0, 0, 0, 0, 0, 16],
      [2, 0, 0, 0, 0, 0, 4, 5, 0, 0, 0, 0, 0, 0, 0, 16]]
    ⟨by decide, by decide +kernel⟩
  have hvalue := hthird.value
  revert hvalue
  decide +kernel

end CountedReceiver
