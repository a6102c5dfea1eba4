import Mathlib.Logic.Function.Basic
import Tmms.Rtmp.Header

/-!
# Writing chunks

The two overloads of `RtmpContext::BuildChunk`.  For each chunk stream the sender keeps the
header of its last message and its last timestamp delta.  A message becomes a list of nodes,
one for the headers of each chunk and one for its payload: the header nodes lie one behind
the other in `out_buffer_`, the payload nodes in the packet.

The overloads are copies of each other but for the test that allows a delta header.
-/

open BytesReader BytesWriter Endian

/-- The entries of `out_message_headers_` and `out_deltas_` for one chunk stream. -/
structure OutStream where
  header : Option RtmpMsgHeader := none
  delta : UInt32 := 0
  deriving DecidableEq, Repr

/-- What `BuildChunk` keeps and writes to: `outCurrent` is how far `out_current_` is into
`out_buffer_`, and `sendingBufs` has the bytes of each node. `out_chunk_size_` is an
`int32_t` that is never assigned. -/
structure ChunkWriter where
  streams : UInt32 → OutStream := fun _ => {}
  outCurrent : Nat := 0
  sendingBufs : List (List UInt8) := []
  outSendingPackets : List RtmpPacket := []
  outChunkSize : Int := 4096
  outChunkSize_pos : 0 < outChunkSize := by decide
  outChunkSize_lt : outChunkSize < 2 ^ 31 := by decide

/-- The size of `out_buffer_`. -/
def outBufferSize : Nat := 4096

namespace ChunkWriter

/-- A node for bytes written at `out_current_`. -/
def pushHeader (w : ChunkWriter) (bytes : List UInt8) : ChunkWriter :=
  { w with
    sendingBufs := w.sendingBufs ++ [bytes]
    outCurrent := w.outCurrent + bytes.length }

/-- A node for bytes of the packet. -/
def pushBody (w : ChunkWriter) (bytes : List UInt8) : ChunkWriter :=
  { w with sendingBufs := w.sendingBufs ++ [bytes] }

/-- The writer with the entries of one chunk stream replaced. -/
def set (w : ChunkWriter) (csid : UInt32) (st : OutStream) : ChunkWriter :=
  { w with streams := Function.update w.streams csid st }

/-- The packet is kept until the nodes are sent. -/
def keep (w : ChunkWriter) (packet : RtmpPacket) : ChunkWriter :=
  { w with outSendingPackets := w.outSendingPackets ++ [packet] }

/-- The basic header. -/
def basicHeader (fmt : RtmpFmt) (csId : UInt32) : List UInt8 :=
  if csId < 64 then
    [fmt.toByte ||| csId.toUInt8]
  else if csId < 64 + 256 then
    [fmt.toByte, (csId - 64).toUInt8]
  else
    (fmt.toByte ||| 1) :: leBytes 2 (csId - 64).toUInt16.toNat

/-- The message header: `timestamp` is the absolute one in format 0 and the delta in the
others. -/
def messageHeader (fmt : RtmpFmt) (h : RtmpMsgHeader) (timestamp : UInt32) : List UInt8 :=
  let ts := if extendedMark ≤ timestamp then extendedMark else timestamp
  match fmt with
  | .fmt0 => writeUint24T ts ++ (writeUint24T h.msgLen ++ (writeUint8T h.msgType ++
      storeUint32 h.msgSid))
  | .fmt1 => writeUint24T ts ++ (writeUint24T h.msgLen ++ writeUint8T h.msgType)
  | .fmt2 => writeUint24T ts
  | .fmt3 => []

/-- The extended timestamp, in the order of the host. -/
def extendedField (timestamp : UInt32) : List UInt8 :=
  if extendedMark ≤ timestamp then storeUint32 timestamp else []

/-- The headers of the first chunk of a message. -/
def firstHeader (fmt : RtmpFmt) (h : RtmpMsgHeader) (timestamp : UInt32) : List UInt8 :=
  basicHeader fmt h.csId ++ (messageHeader fmt h timestamp ++ extendedField timestamp)

/-- The headers of the other chunks of a message. -/
def nextHeader (h : RtmpMsgHeader) (timestamp : UInt32) : List UInt8 :=
  basicHeader .fmt3 h.csId ++ extendedField timestamp

/-- The loop over the chunks, with `bytesParsed` bytes of the payload sent. The size of a
node is an `int32_t` turned into a `size_t`. -/
def buildBody (h : RtmpMsgHeader) (timestamp : UInt32) (body : List UInt8) :
    Nat → ChunkWriter → UInt32 → ChunkWriter
  | 0, w, _ => w
  | fuel + 1, w, bytesParsed =>
    let size := min (int32 (h.msgLen - bytesParsed)) w.outChunkSize
    let w := w.pushBody ((body.drop bytesParsed.toNat).take (size % 2 ^ 64).toNat)
    let bytesParsed := bytesParsed + UInt32.ofInt size
    if bytesParsed < h.msgLen then
      if outBufferSize ≤ w.outCurrent then
        w
      else
        buildBody h timestamp body fuel (w.pushHeader (nextHeader h timestamp)) bytesParsed
    else
      w

/-- The format of the first chunk, once the test for a delta header has been made. -/
def chooseFmt (useDelta : Bool) (st : OutStream) (h : RtmpMsgHeader) (timestamp : UInt32) :
    RtmpFmt :=
  let prev := st.header.getD {}
  if useDelta then
    if h.msgType = prev.msgType ∧ h.msgLen = prev.msgLen then
      if timestamp - prev.timestamp = st.delta then .fmt3 else .fmt2
    else
      .fmt1
  else
    .fmt0

/-- The timestamp the chunks of a message carry: a delta, or the absolute one. -/
def carried (useDelta : Bool) (st : OutStream) (timestamp : UInt32) : UInt32 :=
  if useDelta then timestamp - (st.header.getD {}).timestamp else timestamp

/-- The entries of the chunk stream after a message. -/
def nextStream (fmt : RtmpFmt) (st : OutStream) (h : RtmpMsgHeader) (timestamp : UInt32) :
    OutStream where
  header := some { h with
    timestamp :=
      if fmt = .fmt0 then timestamp else (st.header.getD {}).timestamp + timestamp }
  delta :=
    match fmt with
    | .fmt0 => 0
    | .fmt1 => timestamp
    | .fmt2 => timestamp
    | .fmt3 => st.delta

/-- `BuildChunk` behind the test for a delta header. One turn of the loop more than there
are bytes to send is enough. -/
def buildNodes (w : ChunkWriter) (packet : RtmpPacket) (timestamp : UInt32) (useDelta : Bool) :
    ChunkWriter :=
  let h := packet.ext
  let st := w.streams h.csId
  let fmt := chooseFmt useDelta st h timestamp
  let timestamp := carried useDelta st timestamp
  let w := (w.pushHeader (firstHeader fmt h timestamp)).set h.csId
    (nextStream fmt st h timestamp)
  buildBody h timestamp packet.data (h.msgLen.toNat + 1) w 0

/-- The test for a delta header in `BuildChunk(PacketPtr &&)`. -/
def useDelta (st : OutStream) (h : RtmpMsgHeader) (timestamp : UInt32) (fmt0 : Bool) : Bool :=
  !fmt0 &&
    match st.header with
    | none => false
    | some prev => decide (prev.timestamp ≤ timestamp) && h.msgSid == prev.msgSid

/-- The test for a delta header in `BuildChunk(const PacketPtr &)`: it goes on to look at
the previous header when there is none. -/
def useDeltaConst (st : OutStream) (fmt0 : Bool) : Option Bool :=
  if fmt0 then
    some false
  else
    match st.header with
    | none => none
    | some _ => some false

/-- `BuildChunk(PacketPtr &&)`, for a packet with a header. -/
def buildChunk (w : ChunkWriter) (packet : RtmpPacket) (timestamp : UInt32) (fmt0 : Bool) :
    ChunkWriter :=
  (w.buildNodes packet timestamp
    (useDelta (w.streams packet.ext.csId) packet.ext timestamp fmt0)).keep packet

/-- `BuildChunk(const PacketPtr &)`, for a packet with a header: `none` when the null pointer
is dereferenced. -/
def buildChunkConst (w : ChunkWriter) (packet : RtmpPacket) (timestamp : UInt32)
    (fmt0 : Bool) : Option ChunkWriter :=
  (useDeltaConst (w.streams packet.ext.csId) fmt0).map
    ((w.keep packet).buildNodes packet timestamp)

/-- What `CheckAndSend` does before the next batch is built. -/
def checkAndSend (w : ChunkWriter) : ChunkWriter :=
  { w with outCurrent := 0, sendingBufs := [], outSendingPackets := [] }

end ChunkWriter
