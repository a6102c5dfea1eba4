import Mathlib.Tactic.SplitIfs
import Mathlib.Tactic.Use
import Tmms.Rtmp.ChunkWriter

/-!
# The overloads of BuildChunk

`BuildChunk(const PacketPtr &)` allows a delta header only where there is no previous
header, and then looks at the previous header.  So it never writes a delta header, and it
dereferences a null pointer for the first message on a chunk stream that does not ask for
format 0.
-/

namespace ChunkWriter

/-! ### The first byte of a message -/

/-- The first byte of a basic header tells the format. -/
theorem basicHeader_cons (fmt : RtmpFmt) (csId : UInt32) :
  ∃ b bytes, basicHeader fmt csId = b :: bytes ∧ RtmpFmt.ofByte b = fmt
  := by
  rw [basicHeader]
  split
  next h =>
    refine ⟨_, _, rfl, ?_⟩
    apply RtmpFmt.ofByte_toByte_or fmt
    apply UInt32.lt_iff_toNat_lt.mp h
  · split
    · refine ⟨_, _, rfl, ?_⟩
      cases fmt with
      | fmt0 => rfl
      | fmt1 => rfl
      | fmt2 => rfl
      | fmt3 => rfl
    · refine ⟨_, _, rfl, ?_⟩
      apply RtmpFmt.ofByte_toByte_or fmt (n := 1) (by decide)

/-- Messages whose first headers are the same begin in the same format. -/
theorem fmt_of_firstHeader_eq {fmt fmt' : RtmpFmt} {h h' : RtmpMsgHeader} {t t' : UInt32}
    (heq : firstHeader fmt h t = firstHeader fmt' h' t') :
  fmt = fmt'
  := by
  obtain ⟨b, bytes, hb, rfl⟩ := basicHeader_cons fmt h.csId
  obtain ⟨b', bytes', hb', rfl⟩ := basicHeader_cons fmt' h'.csId
  rw [firstHeader, firstHeader, hb, hb'] at heq
  rw [(List.cons.inj heq).1]

/-- A message begins in format 0 exactly when no delta header is allowed. -/
theorem chooseFmt_eq_fmt0 (useDelta : Bool) (st : OutStream) (h : RtmpMsgHeader)
    (timestamp : UInt32) :
  chooseFmt useDelta st h timestamp = .fmt0 ↔ useDelta = false
  := by
  rw [chooseFmt]
  cases useDelta with
  | false => simp
  | true =>
      simp only [if_true, Bool.true_eq_false, iff_false]
      split
      · split
        · decide
        · decide
      · decide

/-! ### Nodes -/

/-- The loop only appends nodes. -/
theorem sendingBufs_buildBody (h : RtmpMsgHeader) (timestamp : UInt32) (body : List UInt8)
    (fuel : Nat) (w : ChunkWriter) (bytesParsed : UInt32) :
  ∃ nodes, (buildBody h timestamp body fuel w bytesParsed).sendingBufs = w.sendingBufs ++ nodes
  := by
  induction fuel generalizing w bytesParsed with
  | zero =>
      use []
      rw [List.append_nil]
      rfl
  | succ fuel ih =>
      rw [buildBody]
      split
      · split
        · refine ⟨_, rfl⟩
        · obtain ⟨nodes, hnodes⟩ := ih _ _
          rw [hnodes]
          simp only [pushHeader, pushBody, List.append_assoc]
          refine ⟨_, rfl⟩
      · refine ⟨_, rfl⟩

/-- A message appends the node of its first headers, and other nodes. -/
theorem sendingBufs_buildNodes (w : ChunkWriter) (packet : RtmpPacket) (timestamp : UInt32)
    (useDelta : Bool) :
  let st := w.streams packet.ext.csId
  ∃ nodes, (w.buildNodes packet timestamp useDelta).sendingBufs
    = w.sendingBufs ++ (firstHeader (chooseFmt useDelta st packet.ext timestamp) packet.ext
      (carried useDelta st timestamp) :: nodes)
  := by
  rw [buildNodes]
  dsimp only
  obtain ⟨nodes, hnodes⟩ := sendingBufs_buildBody packet.ext
    (carried useDelta (w.streams packet.ext.csId) timestamp) packet.data
    (packet.ext.msgLen.toNat + 1) _ 0
  rw [hnodes]
  use nodes
  simp only [set, pushHeader, List.append_assoc, List.singleton_append]

/-- The packets kept have no part in the loop. -/
theorem buildBody_keep (h : RtmpMsgHeader) (timestamp : UInt32) (body : List UInt8)
    (fuel : Nat) (w : ChunkWriter) (bytesParsed : UInt32) (packet : RtmpPacket) :
  buildBody h timestamp body fuel (w.keep packet) bytesParsed
    = (buildBody h timestamp body fuel w bytesParsed).keep packet
  := by
  induction fuel generalizing w bytesParsed with
  | zero => rfl
  | succ fuel ih =>
      have hbody : ∀ (w : ChunkWriter) (bytes : List UInt8),
          (w.keep packet).pushBody bytes = (w.pushBody bytes).keep packet := fun _ _ => rfl
      have hheader : ∀ (w : ChunkWriter) (bytes : List UInt8),
          (w.keep packet).pushHeader bytes = (w.pushHeader bytes).keep packet := fun _ _ => rfl
      have hsize : (w.keep packet).outChunkSize = w.outChunkSize := rfl
      have hcurrent : ∀ w : ChunkWriter, (w.keep packet).outCurrent = w.outCurrent :=
        fun _ => rfl
      simp only [buildBody, hbody, hheader, hsize, hcurrent, ih]
      split_ifs
      · rfl
      · rfl
      · rfl

/-- The packets kept have no part in what is written. -/
theorem buildNodes_keep (w : ChunkWriter) (packet : RtmpPacket) (timestamp : UInt32)
    (useDelta : Bool) :
  (w.keep packet).buildNodes packet timestamp useDelta
    = (w.buildNodes packet timestamp useDelta).keep packet
  := by
  rw [buildNodes, buildNodes, ← buildBody_keep]
  rfl

/-! ### Where the overloads agree -/

/-- The two overloads do the same: no null pointer is dereferenced, the nodes appended have
the same bytes, and the tables left are the same. -/
def SameChunks (w : ChunkWriter) (packet : RtmpPacket) (timestamp : UInt32) (fmt0 : Bool) :
    Prop :=
  ∃ w', w.buildChunkConst packet timestamp fmt0 = some w' ∧
    w'.sendingBufs = (w.buildChunk packet timestamp fmt0).sendingBufs ∧
    w'.streams = (w.buildChunk packet timestamp fmt0).streams

/-- Both write format 0 where the const overload returns and the other one does not use a
delta. -/
theorem sameChunks_of_absolute {w : ChunkWriter} {packet : RtmpPacket} {timestamp : UInt32}
    {fmt0 : Bool} (hconst : useDeltaConst (w.streams packet.ext.csId) fmt0 = some false)
    (hmove : useDelta (w.streams packet.ext.csId) packet.ext timestamp fmt0 = false) :
  SameChunks w packet timestamp fmt0
  := by
  rw [SameChunks, buildChunkConst, buildChunk, hmove, hconst]
  refine ⟨_, rfl, ?_⟩
  rw [buildNodes_keep]
  use rfl

/-- The overloads differ where the const overload returns and the other one uses a delta. -/
theorem not_sameChunks_of_delta {w : ChunkWriter} {packet : RtmpPacket} {timestamp : UInt32}
    {fmt0 : Bool} (hconst : useDeltaConst (w.streams packet.ext.csId) fmt0 = some false)
    (hmove : useDelta (w.streams packet.ext.csId) packet.ext timestamp fmt0 = true) :
  ¬ SameChunks w packet timestamp fmt0
  := by
  rw [SameChunks, buildChunkConst, buildChunk, hmove, hconst]
  rintro ⟨w', hw', hbufs, -⟩
  obtain rfl := Option.some.inj hw'
  rw [buildNodes_keep] at hbufs
  obtain ⟨nodes, hnodes⟩ := w.sendingBufs_buildNodes packet timestamp false
  obtain ⟨nodes', hnodes'⟩ := w.sendingBufs_buildNodes packet timestamp true
  simp only [keep, hnodes, hnodes'] at hbufs
  have hfmt := fmt_of_firstHeader_eq (List.cons.inj (List.append_cancel_left hbufs)).1
  rw [(chooseFmt_eq_fmt0 ..).mpr rfl] at hfmt
  cases (chooseFmt_eq_fmt0 ..).mp hfmt.symm

/-- The overloads do the same exactly when format 0 is asked for, or there is a previous
header which a delta header may not be based on. -/
theorem sameChunks_iff (w : ChunkWriter) (packet : RtmpPacket) (timestamp : UInt32)
    (fmt0 : Bool) :
  SameChunks w packet timestamp fmt0 ↔
    fmt0 = true ∨ ∃ prev, (w.streams packet.ext.csId).header = some prev ∧
      (timestamp < prev.timestamp ∨ packet.ext.msgSid ≠ prev.msgSid)
  := by
  cases fmt0 with
  | true =>
      simp only [true_or, iff_true]
      apply sameChunks_of_absolute
      · rfl
      · rfl
  | false =>
      simp only [Bool.false_eq_true, false_or]
      cases hprev : (w.streams packet.ext.csId).header with
      | none =>
          have hconst : w.buildChunkConst packet timestamp false = none := by
            simp [buildChunkConst, useDeltaConst, hprev]
          constructor
          · rintro ⟨w', hw', -⟩
            rw [hconst] at hw'
            cases hw'
          · rintro ⟨prev, h, -⟩
            cases h
      | some prev =>
          have hconst : useDeltaConst (w.streams packet.ext.csId) false = some false := by
            simp [useDeltaConst, hprev]
          have hmove : useDelta (w.streams packet.ext.csId) packet.ext timestamp false = false ↔
              timestamp < prev.timestamp ∨ packet.ext.msgSid ≠ prev.msgSid := by
            simp [useDelta, hprev]
            grind
          simp only [Option.some.injEq, exists_eq_left']
          rw [← hmove]
          constructor
          · intro hsame
            by_contra hdelta
            apply not_sameChunks_of_delta hconst (Bool.not_eq_false _ ▸ hdelta) hsame
          · intro habs
            apply sameChunks_of_absolute hconst habs

/-- The first message on a chunk stream, when it does not ask for format 0. -/
theorem not_sameChunks_first :
  ¬ ∀ packet timestamp fmt0, SameChunks {} packet timestamp fmt0
  := by
  intro h
  obtain ⟨w', hw', -⟩ := h { capacity := 1, ext := { csId := 3, msgLen := 1 } } 0 false
  cases hw'

end ChunkWriter
