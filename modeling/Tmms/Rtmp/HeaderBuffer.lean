import Tmms.Rtmp.ChunkSync
import Tmms.Rtmp.OutQueue

/-!
# The buffer of the chunk headers

The headers of all chunks of a batch stand one behind the other in `out_buffer_`.  Before the headers
of the first chunk of a message are written, nobody looks whether there is room, and before those of
the other chunks only whether there is any; then the message ends early.  So a batch is built whole,
and inside of the buffer, exactly if all its headers together fit.
-/

open ChunkWriter

/-- One call of `BuildChunk`, of the overload for `const PacketPtr &` or of the other one. -/
structure BuildCall where
  packet : QueuedPacket
  timestamp : UInt32 := 0
  fmt0 : Bool := false
  isConst : Bool := false

/-- The message has less than 2^24 bytes. -/
def BuildCall.Short (c : BuildCall) : Prop := ∀ h ∈ c.packet.ext, h.msgLen.toNat < 2 ^ 24

namespace ChunkWriter

/-- `BuildChunk`, which does nothing with a packet without a header. There is no result when the
null pointer is dereferenced. -/
def call (w : ChunkWriter) (c : BuildCall) : Option ChunkWriter :=
  match c.packet.withHeader with
  | none => some w
  | some packet =>
      if c.isConst then
        w.buildChunkConst packet c.timestamp c.fmt0
      else
        some (w.buildChunk packet c.timestamp c.fmt0)

/-- The calls of a batch. -/
def buildBatch : ChunkWriter → List BuildCall → Option ChunkWriter
  | w, [] => some w
  | w, c :: batch => (w.call c).bind (buildBatch · batch)

/-! ### What a batch should be -/

/-- The payloads of the chunks of a message of `n` bytes from the position `k` on: some of `size`
bytes, and the rest. -/
def pieces (size n : Nat) (body : List UInt8) : Nat → Nat → List (List UInt8)
  | 0, k => [(body.drop k).take (n - k)]
  | more + 1, k => (body.drop k).take size :: pieces size n body more (k + size)

/-- The number of chunks of a message behind the first. -/
def moreChunks (size : Nat) (h : RtmpMsgHeader) : Nat := (h.msgLen.toNat - 1) / size

/-- The nodes that are appended carry a message: headers, and the payload in chunks. -/
def Carries (w w' : ChunkWriter) (h : RtmpMsgHeader) (body : List UInt8) : Prop :=
  let payloads := pieces w.outChunkSize.toNat h.msgLen.toNat body
    (moreChunks w.outChunkSize.toNat h) 0
  ∃ headers : List (List UInt8), headers.length = payloads.length ∧
    w'.sendingBufs = w.sendingBufs ++ (headers.zip payloads).flatMap fun x => [x.1, x.2]

/-- The nodes of a message: for each chunk its headers and its payload. -/
def chunkNodes (size : Nat) (h : RtmpMsgHeader) (body : List UInt8) (fmt : RtmpFmt)
    (timestamp : UInt32) : List (List UInt8) :=
  let more := moreChunks size h
  ((firstHeader fmt h timestamp :: List.replicate more (nextHeader h timestamp)).zip
    (pieces size h.msgLen.toNat body more 0)).flatMap fun x => [x.1, x.2]

/-- Every call that returns has written its headers inside of `out_buffer_`, and carries its
message if there is one. -/
def BatchSound : ChunkWriter → List BuildCall → Prop
  | _, [] => True
  | w, c :: batch => ∀ w', w.call c = some w' →
      (w'.outCurrent ≤ outBufferSize ∧ ∀ h ∈ c.packet.ext, w.Carries w' h c.packet.data) ∧
        BatchSound w' batch

/-! ### The size of the headers -/

/-- The test for a delta header. -/
def deltaFor (st : OutStream) (h : RtmpMsgHeader) (c : BuildCall) : Option Bool :=
  if c.isConst then useDeltaConst st c.fmt0 else some (useDelta st h c.timestamp c.fmt0)

/-- The bytes of all headers of a message. -/
def messageHeaders (size : Nat) (st : OutStream) (h : RtmpMsgHeader) (timestamp : UInt32)
    (useDelta : Bool) : Nat :=
  (firstHeader (chooseFmt useDelta st h timestamp) h (carried useDelta st timestamp)).length +
    moreChunks size h * (nextHeader h (carried useDelta st timestamp)).length

/-- The bytes of all headers of a batch, from the previous headers of the chunk streams. -/
def headerBytes (size : Nat) : (UInt32 → OutStream) → List BuildCall → Nat
  | _, [] => 0
  | streams, c :: batch =>
      match c.packet.ext with
      | none => headerBytes size streams batch
      | some h =>
          let st := streams h.csId
          match deltaFor st h c with
          | none => 0
          | some useDelta =>
              messageHeaders size st h c.timestamp useDelta +
                headerBytes size (Function.update streams h.csId
                  (nextStream (chooseFmt useDelta st h c.timestamp) st h
                    (carried useDelta st c.timestamp))) batch

/-! ### Payloads -/

@[simp]
theorem length_pieces (size n : Nat) (body : List UInt8) (more k : Nat) :
  (pieces size n body more k).length = more + 1
  := by
  induction more generalizing k with
  | zero => rfl
  | succ more ih => rw [pieces, List.length_cons, ih]

/-! ### The loop over the chunks -/

section Loop

variable {h : RtmpMsgHeader} {c : Nat}

/-- The chunks that are left behind a turn of the loop. -/
theorem more_cases (hpos : 0 < c) (n k : Nat) :
  ((n - k - 1) / c = 0 ∧ (n : Int) - k ≤ c) ∨
    ((n - k - 1) / c = (n - (k + c) - 1) / c + 1 ∧ k + c < n)
  := by
  by_cases hmore : k + c < n
  · right
    have hleft := chunks_left hpos (show c < n - k by omega)
    rw [Nat.sub_sub n k c] at hleft
    exact ⟨hleft, hmore⟩
  · left
    exact ⟨Nat.div_eq_of_lt (by omega), by omega⟩

theorem nextHeader_pos (h : RtmpMsgHeader) (v : UInt32) :
  0 < (nextHeader h v).length
  := by
  have hbasic := List.length_pos_of_ne_nil (basicHeader_ne_nil .fmt3 h.csId)
  rw [nextHeader, List.length_append]
  omega

/-- With room for the headers all chunks are built. The induction is on the chunks that are left. -/
theorem buildBody_room (hlen : h.msgLen.toNat < 2 ^ 31) (hpos : 0 < c) (v : UInt32)
    (body : List UInt8) {more : Nat} :
  ∀ {w : ChunkWriter} {hd : List UInt8} {k fuel : Nat}, w.outChunkSize = c →
    k ≤ h.msgLen.toNat → (h.msgLen.toNat - k - 1) / c = more → more < fuel →
    w.outCurrent + hd.length + more * (nextHeader h v).length ≤ outBufferSize →
  (buildBody h v body fuel (w.pushHeader hd) (UInt32.ofNat k)).sendingBufs =
      w.sendingBufs ++ ((hd :: List.replicate more (nextHeader h v)).zip
        (pieces c h.msgLen.toNat body more k)).flatMap (fun x => [x.1, x.2]) ∧
    (buildBody h v body fuel (w.pushHeader hd) (UInt32.ofNat k)).outCurrent =
      w.outCurrent + hd.length + more * (nextHeader h v).length
  := by
  induction more with
  | zero =>
      intro w hd k fuel hc hk hmore hfuel hroom
      obtain ⟨fuel, rfl⟩ := Nat.exists_eq_succ_of_ne_zero (Nat.ne_of_gt hfuel)
      obtain ⟨-, hlast⟩ | ⟨hleft, -⟩ := more_cases hpos h.msgLen.toNat k
      · rw [buildBody_last hlen hk (by rw [← hc] at hlast; exact hlast), Nat.zero_mul]
        refine ⟨?_, rfl⟩
        change w.sendingBufs ++ [hd] ++ [_] = _
        rw [List.append_assoc]
        rfl
      · rw [hmore] at hleft
        cases hleft
  | succ more ih =>
      intro w hd k fuel hc hk hmore hfuel hroom
      obtain ⟨fuel, rfl⟩ := Nat.exists_eq_succ_of_ne_zero (show fuel ≠ 0 by omega)
      obtain ⟨hzero, -⟩ | ⟨hleft, hlt⟩ := more_cases hpos h.msgLen.toNat k
      · rw [hmore] at hzero
        cases hzero
      · have hnext := nextHeader_pos h v
        rw [Nat.succ_mul] at hroom
        have hfree : ¬ outBufferSize ≤ (w.pushHeader hd).outCurrent
          := by
          change ¬ outBufferSize ≤ w.outCurrent + hd.length
          omega
        have hc' : (w.pushHeader hd).outChunkSize = c := hc
        rw [buildBody_more hlen hc' hlt, if_neg hfree]
        have hmore' : (h.msgLen.toNat - (k + c) - 1) / c = more := by omega
        obtain ⟨hbufs, hcurrent⟩ :=
          @ih ((w.pushHeader hd).pushBody ((body.drop k).take c)) (nextHeader h v) (k + c) fuel hc
            (Nat.le_of_lt hlt) hmore' (by omega)
            (by
              change w.outCurrent + hd.length + (nextHeader h v).length + _ ≤ _
              omega)
        rw [hbufs, hcurrent]
        constructor
        · change w.sendingBufs ++ [hd] ++ [_] ++ _ = _
          rw [List.append_assoc, List.append_assoc]
          rfl
        · change w.outCurrent + hd.length + (nextHeader h v).length + _ = _
          rw [Nat.succ_mul]
          omega

/-- Without room for all headers, one is written beyond the buffer or chunks are missing. -/
theorem buildBody_noRoom (hlen : h.msgLen.toNat < 2 ^ 31) (hpos : 0 < c) (v : UInt32)
    (body : List UInt8) {more : Nat} :
  ∀ {w : ChunkWriter} {k fuel : Nat}, w.outChunkSize = c →
    k ≤ h.msgLen.toNat → (h.msgLen.toNat - k - 1) / c = more → more < fuel →
    outBufferSize < w.outCurrent + more * (nextHeader h v).length →
  outBufferSize < (buildBody h v body fuel w (UInt32.ofNat k)).outCurrent ∨
    (buildBody h v body fuel w (UInt32.ofNat k)).sendingBufs.length
      < w.sendingBufs.length + (2 * more + 1)
  := by
  induction more with
  | zero =>
      intro w k fuel hc hk hmore hfuel hroom
      obtain ⟨fuel, rfl⟩ := Nat.exists_eq_succ_of_ne_zero (Nat.ne_of_gt hfuel)
      obtain ⟨-, hlast⟩ | ⟨hleft, -⟩ := more_cases hpos h.msgLen.toNat k
      · left
        rw [buildBody_last hlen hk (by rw [← hc] at hlast; exact hlast)]
        rwa [Nat.zero_mul] at hroom
      · rw [hmore] at hleft
        cases hleft
  | succ more ih =>
      intro w k fuel hc hk hmore hfuel hroom
      obtain ⟨fuel, rfl⟩ := Nat.exists_eq_succ_of_ne_zero (show fuel ≠ 0 by omega)
      obtain ⟨hzero, -⟩ | ⟨hleft, hlt⟩ := more_cases hpos h.msgLen.toNat k
      · rw [hmore] at hzero
        cases hzero
      · rw [buildBody_more hlen hc hlt]
        split
        case isTrue =>
          right
          change (w.sendingBufs ++ [_]).length < _
          rw [List.length_append, List.length_singleton]
          omega
        case isFalse =>
          rw [Nat.succ_mul] at hroom
          have hmore' : (h.msgLen.toNat - (k + c) - 1) / c = more := by omega
          apply (@ih ((w.pushBody ((body.drop k).take c)).pushHeader (nextHeader h v)) (k + c) fuel
            hc (Nat.le_of_lt hlt) hmore' (by omega) ?_).imp_right
          · intro hmissing
            change _ < (w.sendingBufs ++ [_] ++ [_]).length + _ at hmissing
            rw [List.length_append, List.length_append, List.length_singleton,
              List.length_singleton] at hmissing
            omega
          · change _ < w.outCurrent + (nextHeader h v).length + _
            omega

end Loop

/-! ### Messages -/

/-- There are two nodes for each chunk. -/
theorem length_nodes {headers payloads : List (List UInt8)}
    (h : headers.length = payloads.length) :
  ((headers.zip payloads).flatMap fun x => [x.1, x.2]).length = 2 * payloads.length
  := by
  have htwo (x : List UInt8 × List UInt8) : [x.1, x.2].length = 2 := rfl
  rw [List.length_flatMap, List.map_congr_left (fun x _ => htwo x), List.map_const',
    List.sum_replicate_nat, List.length_zip, h, Nat.min_self, Nat.mul_comm]

/-- These nodes carry the message. -/
theorem carries_chunkNodes {w w' : ChunkWriter} {h : RtmpMsgHeader} {body : List UInt8}
    {fmt : RtmpFmt} {timestamp : UInt32}
    (hbufs : w'.sendingBufs = w.sendingBufs ++
      chunkNodes w.outChunkSize.toNat h body fmt timestamp) :
  w.Carries w' h body
  := by
  refine ⟨_, ?_, hbufs⟩
  rw [List.length_cons, List.length_replicate, length_pieces]

/-- The headers of a message fit, and it is built whole, or they do not, and it is not. -/
theorem buildNodes_cases (w : ChunkWriter) {packet : RtmpPacket}
    (hlen : packet.ext.msgLen.toNat < 2 ^ 31) (timestamp : UInt32) (useDelta : Bool) :
  let st := w.streams packet.ext.csId
  let needed := messageHeaders w.outChunkSize.toNat st packet.ext timestamp useDelta
  let w' := w.buildNodes packet timestamp useDelta
  (w.outCurrent + needed ≤ outBufferSize ∧ w'.outCurrent = w.outCurrent + needed ∧
      w'.sendingBufs = w.sendingBufs ++ chunkNodes w.outChunkSize.toNat packet.ext packet.data
        (chooseFmt useDelta st packet.ext timestamp) (carried useDelta st timestamp)) ∨
    (outBufferSize < w.outCurrent + needed ∧
      ¬ (w'.outCurrent ≤ outBufferSize ∧ w.Carries w' packet.ext packet.data))
  := by
  intro stream needed w'
  have hpos : 0 < w.outChunkSize.toNat
    := by
    have hpos := w.outChunkSize_pos
    omega
  have hc : w.outChunkSize = (w.outChunkSize.toNat : Int)
    := by
    have hpos := w.outChunkSize_pos
    omega
  let h := packet.ext
  let v := carried useDelta (w.streams h.csId) timestamp
  let hd := firstHeader (chooseFmt useDelta (w.streams h.csId) h timestamp) h v
  let st := nextStream (chooseFmt useDelta (w.streams h.csId) h timestamp) (w.streams h.csId) h v
  let more := moreChunks w.outChunkSize.toNat h
  have hw' : w' = buildBody h v packet.data (h.msgLen.toNat + 1) ((w.set h.csId st).pushHeader hd)
      (UInt32.ofNat 0) := rfl
  have hneeded : needed = hd.length + more * (nextHeader h v).length := rfl
  have hmore : (h.msgLen.toNat - 0 - 1) / w.outChunkSize.toNat = more := rfl
  have hfuel : more < h.msgLen.toNat + 1 := Nat.lt_succ_of_le
    (Nat.le_trans (Nat.div_le_self _ _) (Nat.sub_le _ _))
  by_cases hroom : w.outCurrent + needed ≤ outBufferSize
  · left
    rw [hneeded, ← Nat.add_assoc] at hroom ⊢
    obtain ⟨hbufs, hcurrent⟩ := @buildBody_room h _ hlen hpos v packet.data more (w.set h.csId st) hd
      0 _ hc (Nat.zero_le _) hmore hfuel hroom
    rw [← hw'] at hbufs hcurrent
    exact ⟨hroom, hcurrent, hbufs⟩
  · right
    refine ⟨Nat.lt_of_not_le hroom, ?_⟩
    rintro ⟨hin, headers, hheaders, hbufs⟩
    obtain hbeyond | hmissing := @buildBody_noRoom h _ hlen hpos v packet.data more
      ((w.set h.csId st).pushHeader hd) 0 _ hc (Nat.zero_le _) hmore hfuel
      (by
        change _ < w.outCurrent + hd.length + _
        omega)
    · rw [← hw'] at hbeyond
      omega
    · rw [← hw', hbufs] at hmissing
      change _ < (w.sendingBufs ++ [_]).length + _ at hmissing
      rw [List.length_append, List.length_append, length_nodes hheaders, length_pieces,
        List.length_singleton] at hmissing
      change _ + 2 * (more + 1) < _ at hmissing
      omega

/-- What a call with a header does: it has no result, or it builds the message. -/
theorem call_cases (w : ChunkWriter) {c : BuildCall} {h : RtmpMsgHeader} (hext : c.packet.ext = some h)
    (hlen : h.msgLen.toNat < 2 ^ 31) :
  (deltaFor (w.streams h.csId) h c = none ∧ w.call c = none) ∨
    ∃ useDelta w', deltaFor (w.streams h.csId) h c = some useDelta ∧ w.call c = some w' ∧
      w'.outChunkSize = w.outChunkSize ∧
      w'.streams = Function.update w.streams h.csId
        (nextStream (chooseFmt useDelta (w.streams h.csId) h c.timestamp) (w.streams h.csId) h
          (carried useDelta (w.streams h.csId) c.timestamp)) ∧
      let needed := messageHeaders w.outChunkSize.toNat (w.streams h.csId) h c.timestamp useDelta
      ((w.outCurrent + needed ≤ outBufferSize ∧ w'.outCurrent = w.outCurrent + needed ∧
          w'.sendingBufs = w.sendingBufs ++ chunkNodes w.outChunkSize.toNat h c.packet.data
            (chooseFmt useDelta (w.streams h.csId) h c.timestamp)
            (carried useDelta (w.streams h.csId) c.timestamp)) ∨
        (outBufferSize < w.outCurrent + needed ∧
          ¬ (w'.outCurrent ≤ outBufferSize ∧ w.Carries w' h c.packet.data)))
  := by
  have hwith : ∃ packet, c.packet.withHeader = some packet ∧ packet.ext = h ∧
      packet.data = c.packet.data
    := by
    rw [QueuedPacket.withHeader, hext]
    exact ⟨_, rfl, rfl, rfl⟩
  obtain ⟨packet, hpacket, rfl, hdata⟩ := hwith
  rw [call, hpacket]
  dsimp only
  cases hconst : c.isConst with
  | false =>
      right
      obtain ⟨hstreams, hsize⟩ := buildBody_frame packet.ext
        (carried (useDelta (w.streams packet.ext.csId) packet.ext c.timestamp c.fmt0)
          (w.streams packet.ext.csId) c.timestamp) packet.data (packet.ext.msgLen.toNat + 1)
        ((w.pushHeader _).set packet.ext.csId _) 0
      refine ⟨_, _, ?_, rfl, hsize, hstreams, ?_⟩
      · rw [deltaFor, hconst]
        rfl
      · rw [← hdata]
        exact w.buildNodes_cases hlen c.timestamp _
  | true =>
      rw [buildChunkConst, deltaFor, hconst, if_pos rfl, if_pos rfl]
      cases useDeltaConst (w.streams packet.ext.csId) c.fmt0 with
      | none => exact Or.inl ⟨rfl, rfl⟩
      | some useDelta =>
          right
          obtain ⟨hstreams, hsize⟩ := buildBody_frame packet.ext
            (carried useDelta (w.streams packet.ext.csId) c.timestamp) packet.data
            (packet.ext.msgLen.toNat + 1)
            (((w.keep packet).pushHeader _).set packet.ext.csId _) 0
          refine ⟨_, _, rfl, rfl, hsize, hstreams, ?_⟩
          rw [← hdata]
          exact (w.keep packet).buildNodes_cases hlen c.timestamp useDelta

/-- A batch is built whole and inside exactly if its headers fit behind those that are there. -/
theorem batchSound_iff_of_le {w : ChunkWriter} {batch : List BuildCall}
    (hshort : ∀ c ∈ batch, c.Short) (hin : w.outCurrent ≤ outBufferSize) :
  BatchSound w batch ↔
    w.outCurrent + headerBytes w.outChunkSize.toNat w.streams batch ≤ outBufferSize
  := by
  induction batch generalizing w with
  | nil => exact iff_of_true trivial hin
  | cons c batch ih =>
      have hshort' : ∀ c ∈ batch, c.Short := fun c hc => hshort c (List.mem_cons_of_mem _ hc)
      rw [BatchSound, headerBytes]
      cases hext : c.packet.ext with
      | none =>
          have hcall : w.call c = some w
            := by
            rw [call, QueuedPacket.withHeader, hext]
            rfl
          rw [hcall, ← ih hshort' hin]
          constructor
          · intro hsound
            exact (hsound w rfl).2
          · intro hsound w' hw'
            rw [← Option.some.inj hw']
            exact ⟨⟨hin, nofun⟩, hsound⟩
      | some h =>
          have hlen : h.msgLen.toNat < 2 ^ 31
            := Nat.lt_trans (hshort c List.mem_cons_self h hext) (by decide)
          obtain ⟨hdelta, hcall⟩ | ⟨useDelta, w', hdelta, hcall, hsize, hstreams, hcases⟩ :=
            w.call_cases hext hlen
          · rw [hcall]
            dsimp only
            rw [hdelta]
            dsimp only
            rw [Nat.add_zero]
            exact iff_of_true (fun _ hnone => by cases hnone) hin
          · rw [hcall]
            dsimp only
            rw [hdelta]
            dsimp only at hcases ⊢
            obtain ⟨hroom, hcurrent, hbufs⟩ | ⟨hroom, hnot⟩ := hcases
            · have hin' : w'.outCurrent ≤ outBufferSize := by omega
              have hih := ih hshort' hin'
              rw [hcurrent, hstreams, hsize, Nat.add_assoc] at hih
              rw [← hih]
              constructor
              · intro hsound
                exact (hsound w' rfl).2
              · intro hsound w'' hw''
                rw [← Option.some.inj hw'']
                refine ⟨⟨hin', fun h' hh' => ?_⟩, hsound⟩
                rw [← Option.some.inj hh']
                exact carries_chunkNodes hbufs
            · apply iff_of_false
              · intro hsound
                obtain ⟨⟨hin', hcarries⟩, -⟩ := hsound w' rfl
                exact hnot ⟨hin', hcarries h rfl⟩
              · omega

/-- A batch behind a write completion is built whole and inside of the buffer exactly if its headers
fit. -/
theorem batchSound_iff (w : ChunkWriter) {batch : List BuildCall}
    (hshort : ∀ c ∈ batch, c.Short) :
  BatchSound w.checkAndSend batch ↔
    headerBytes w.outChunkSize.toNat w.streams batch ≤ outBufferSize
  := by
  have hin : w.checkAndSend.outCurrent ≤ outBufferSize := Nat.zero_le _
  rw [batchSound_iff_of_le hshort hin]
  change 0 + _ ≤ _ ↔ _
  rw [Nat.zero_add]
  rfl

/-- An audio message from the queue. -/
def audioCall : BuildCall where
  packet := {
    capacity := 3
    data := [1, 2, 3]
    ext := some { csId := 4, msgLen := 3, msgType := 8, msgSid := 1 } }

/-- Ten small messages fit. -/
theorem batchSound_audio :
  BatchSound ({} : ChunkWriter).checkAndSend (List.replicate 10 audioCall)
  := by
  have hshort : ∀ c ∈ List.replicate 10 audioCall, c.Short
    := by
    intro c hc h hh
    rw [List.eq_of_mem_replicate hc] at hh
    rw [← Option.some.inj hh]
    decide
  exact (batchSound_iff {} hshort).mpr (by decide)

/-- A message of 2^24 - 1 bytes from the queue. -/
def longCall : BuildCall where
  packet := {
    capacity := 16777215
    data := List.replicate 16777215 0
    ext := some { csId := 6, msgLen := 16777215, msgType := 9, msgSid := 1 } }

/-- The headers of 4096 chunks do not fit. -/
theorem not_batchSound_long :
  ¬ BatchSound ({} : ChunkWriter).checkAndSend [longCall]
  := by
  have hshort : ∀ c ∈ [longCall], c.Short
    := by
    intro c hc h hh
    rw [List.mem_singleton.mp hc] at hh
    rw [← Option.some.inj hh]
    decide
  rw [batchSound_iff_of_le hshort (Nat.zero_le _)]
  decide

end ChunkWriter

/-! ### The batches of a connection -/

namespace RtmpOut

/-- The calls for packets from the queue. -/
def queueCalls (queue : List QueuedPacket) : List BuildCall :=
  queue.map fun packet => { packet := packet }

/-- The calls for the frames of a player. -/
def frameCalls (fmt0 : Bool) (frames : List (QueuedPacket × UInt32)) : List BuildCall :=
  frames.map fun frame => {
    packet := frame.1
    timestamp := frame.2
    fmt0 := fmt0
    isConst := true }

/-- `Send` builds the first packets of the queue. -/
theorem buildBatch_sendLoop (n : Nat) (c : RtmpOut) :
  c.writer.buildBatch (queueCalls (c.outWaitingQueue.take n)) = some (sendLoop n c).writer
  := by
  induction n generalizing c with
  | zero => rfl
  | succ n ih =>
      rw [sendLoop]
      cases hqueue : c.outWaitingQueue with
      | nil => rfl
      | cons packet queue =>
          have hcall : c.writer.call { packet := packet } = some (buildQueued c.writer packet)
            := by
            rw [call, buildQueued]
            cases packet.withHeader with
            | none => rfl
            | some packet => rfl
          have hrest := ih { c with
            writer := buildQueued c.writer packet
            outWaitingQueue := queue }
          rw [List.take_succ_cons, queueCalls, List.map_cons, buildBatch, hcall]
          exact hrest

/-- A player builds its frames. -/
theorem buildBatch_buildFrames (fmt0 : Bool) (w : ChunkWriter)
    (frames : List (QueuedPacket × UInt32)) :
  w.buildBatch (frameCalls fmt0 frames) = buildFrames fmt0 w frames
  := by
  induction frames generalizing w with
  | nil => rfl
  | cons frame frames ih =>
      rw [frameCalls, List.map_cons, buildBatch, buildFrames, call]
      cases frame.1.withHeader with
      | none => exact ih w
      | some packet =>
          dsimp only
          rw [if_pos rfl]
          cases w.buildChunkConst packet frame.2 fmt0 with
          | none => rfl
          | some w' => exact ih w'

end RtmpOut
