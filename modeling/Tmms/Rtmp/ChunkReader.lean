import Tmms.Library.Incremental
import Tmms.Rtmp.Header

/-!
# Reading chunks

`RtmpContext::ParseMessage`.  Each chunk stream keeps the header of its last chunk, the
packet of the message in progress, the last timestamp delta and whether its timestamps are
extended.  One turn of the loop is `ChunkReader.pass`: on a short read it returns with the
chunk stream already changed and nothing consumed.

Byte counts are natural numbers: the sources count the readable bytes in 32 bits, and a
`MsgBuffer` holds fewer than `2 ^ 31` of them.
-/

open BytesReader

/-- The entries of `in_message_headers_`, `in_packets_`, `in_deltas_` and `in_ext_` for one
chunk stream. -/
structure ChunkStream where
  header : Option RtmpMsgHeader := none
  packet : Option RtmpPacket := none
  delta : UInt32 := 0
  ext : Bool := false
  deriving DecidableEq, Repr

/-- A chunk stream whose previous header and packet exist, as they do from the first
message header on. -/
structure OpenStream where
  prev : RtmpMsgHeader
  packet : RtmpPacket
  delta : UInt32
  ext : Bool
  deriving DecidableEq, Repr

/-- The entries an open chunk stream leaves in the tables. -/
def OpenStream.toStream (o : OpenStream) : ChunkStream :=
  ⟨some o.prev, some o.packet, o.delta, o.ext⟩

namespace ChunkStream

/-- `*prev`, allocated when there is none. -/
def prev (st : ChunkStream) : RtmpMsgHeader := st.header.getD {}

/-- The message length a chunk is opened with: the announced one, or else the previous
one, or else the chunk size. -/
def openLen (st : ChunkStream) (fmt : RtmpFmt) (chunkSize : Int) (h : List UInt8) : UInt32 :=
  if fmt = .fmt0 ∨ fmt = .fmt1 then
    readUint24T (h.drop 3)
  else if st.prev.msgLen = 0 then
    UInt32.ofInt chunkSize
  else
    st.prev.msgLen

/-- The packet of the message in progress, allocated when there is none. -/
def openPacket (st : ChunkStream) (fmt : RtmpFmt) (csid : UInt32) (chunkSize : Int)
    (h : List UInt8) : RtmpPacket :=
  st.packet.getD (.newPacket (st.openLen fmt chunkSize h)
    { csId := csid, msgLen := st.openLen fmt chunkSize h })

/-- The message header of a chunk, read from `h`, the bytes behind the basic header. -/
def readHeader (st : ChunkStream) (fmt : RtmpFmt) (csid : UInt32) (chunkSize : Int)
    (h : List UInt8) : OpenStream :=
  let packet := st.openPacket fmt csid chunkSize h
  let header := packet.ext
  let ts := readUint24T h
  match fmt with
  | .fmt0 =>
    { prev := st.prev
      packet := { packet with
        ext := { header with
          timestamp := ts
          msgLen := readUint24T (h.drop 3)
          msgType := readUint8T (h.drop 6)
          msgSid := loadUint32 (h.drop 7) } }
      delta := 0
      ext := ts == extendedMark }
  | .fmt1 =>
    { prev := st.prev
      packet := { packet with
        ext := { header with
          timestamp := ts + st.prev.timestamp
          msgLen := readUint24T (h.drop 3)
          msgType := readUint8T (h.drop 6)
          msgSid := st.prev.msgSid } }
      delta := ts
      ext := ts == extendedMark }
  | .fmt2 =>
    { prev := st.prev
      packet := { packet with
        ext := { header with
          timestamp := ts + st.prev.timestamp
          msgLen := st.prev.msgLen
          msgType := st.prev.msgType
          msgSid := st.prev.msgSid } }
      delta := ts
      ext := ts == extendedMark }
  | .fmt3 =>
    { prev := st.prev
      packet := { packet with
        ext := { header with
          timestamp :=
            if header.timestamp = 0 then st.delta + st.prev.timestamp else header.timestamp
          msgLen := st.prev.msgLen
          msgType := st.prev.msgType
          msgSid := st.prev.msgSid } }
      delta := st.delta
      ext := st.ext }

end ChunkStream

/-- The extended timestamp, which format 0 reads and does not keep. -/
def OpenStream.readExt (o : OpenStream) (fmt : RtmpFmt) (h : List UInt8) : OpenStream :=
  if fmt = .fmt0 then
    o
  else
    { o with
      packet := { o.packet with
        ext := { o.packet.ext with timestamp := readUint32T h + o.prev.timestamp } }
      delta := readUint32T h }

/-- What `ParseMessage` keeps between chunks. -/
structure ChunkReader where
  streams : UInt32 → ChunkStream := fun _ => {}
  inChunkSize : Int := 128
  ackSize : Int := 2500000

namespace ChunkReader

/-- The reader with the entries of one chunk stream replaced. -/
def set (s : ChunkReader) (csid : UInt32) (st : ChunkStream) : ChunkReader :=
  { s with streams := Function.update s.streams csid st }

/-- `HandleChunkSize`. -/
def handleChunkSize (s : ChunkReader) (p : RtmpPacket) : ChunkReader :=
  if 4 ≤ p.payload.length then
    { s with inChunkSize := int32 (readUint32T p.payload) }
  else
    s

/-- `HandleAckWindowSize`. -/
def handleAckWindowSize (s : ChunkReader) (p : RtmpPacket) : ChunkReader :=
  if 4 ≤ p.payload.length then
    { s with ackSize := int32 (readUint32T p.payload) }
  else
    s

/-- What `MessageComplete` does to the reader. The handlers of the other types send messages
or call the handler of the application, and leave it alone. They are taken to return: a command
that they cannot read ends the process (`Commands`). -/
def messageComplete (s : ChunkReader) (p : RtmpPacket) : ChunkReader :=
  if p.type = kRtmpMsgTypeChunkSize.toNat then
    s.handleChunkSize p
  else if p.type = kRtmpMsgTypeWindowACKSize.toNat then
    s.handleAckWindowSize p
  else
    s

/-- The basic header: format, chunk stream id and size. -/
def basicHeader : List UInt8 → Option (RtmpFmt × UInt32 × Nat)
  | [] => none
  | b :: rest =>
    if b &&& 0x3F = 0 then
      match rest with
      | [] => none
      | b₁ :: _ => some (.ofByte b, 64 + b₁.toUInt32, 2)
    else if b &&& 0x3F = 1 then
      match rest with
      | b₁ :: b₂ :: _ => some (.ofByte b, 64 + b₁.toUInt32 + b₂.toUInt32 * 256, 3)
      | _ => none
    else
      some (.ofByte b, (b &&& 0x3F).toUInt32, 1)

/-- The packet as it is handed to `MessageComplete`. -/
def completed (p : RtmpPacket) : RtmpPacket :=
  { p with type := p.ext.msgType.toNat, timestamp := p.ext.timestamp.toUInt64 }

/-- The payload of a chunk whose headers took `parsed` bytes. A negative `bytes` is compared
as a number of `2 ^ 31` and more, which no buffer holds. -/
def readBody (s : ChunkReader) (csid : UInt32) (o : OpenStream) (parsed : Nat)
    (body : List UInt8) : Pass ChunkReader RtmpPacket :=
  let bytes := min o.packet.space s.inChunkSize
  if bytes < 0 ∨ (body.length : Int) < bytes then
    .wait (s.set csid o.toStream)
  else
    let packet := o.packet.append (body.take bytes.toNat)
    if packet.space = 0 then
      .take ((s.set csid ⟨some packet.ext, none, o.delta, o.ext⟩).messageComplete
          (completed packet))
        (parsed + bytes.toNat) [completed packet]
    else
      .take (s.set csid ⟨some packet.ext, some packet, o.delta, o.ext⟩)
        (parsed + bytes.toNat) []

/-- The rest of a chunk whose headers took `parsed` bytes so far: the extended timestamp when
there is one, and the payload. -/
def readRest (s : ChunkReader) (fmt : RtmpFmt) (csid : UInt32) (o : OpenStream) (parsed : Nat)
    (h : List UInt8) : Pass ChunkReader RtmpPacket :=
  if o.ext then
    if h.length < 4 then
      .wait (s.set csid o.toStream)
    else
      s.readBody csid (o.readExt fmt h) (parsed + 4) (h.drop 4)
  else
    s.readBody csid o parsed h

/-- One turn of the loop of `ParseMessage`. -/
def pass (s : ChunkReader) (b : List UInt8) : Pass ChunkReader RtmpPacket :=
  if b.length ≤ 1 then
    .wait s
  else
    match basicHeader b with
    | none => .wait s
    | some (fmt, csid, parsed) =>
      let h := b.drop parsed
      if h = [] ∨ h.length < fmt.headerSize then
        .wait s
      else
        s.readRest fmt csid ((s.streams csid).readHeader fmt csid s.inChunkSize h)
          (parsed + fmt.headerSize) (h.drop fmt.headerSize)

/-- The loop of `ParseMessage`. -/
def parse (s : ChunkReader) (b : List UInt8) : Pass.Result ChunkReader UInt8 RtmpPacket :=
  Pass.run pass s b

end ChunkReader

/-- The receiving side of an `RtmpContext` in state `kRtmpMessage`, with the unread bytes of
its buffer, the byte counts `SendBytesRecv` reported and the packets `MessageComplete` was
given. -/
structure RtmpReceiver where
  reader : ChunkReader := {}
  unread : List UInt8 := []
  inBytes : Int := 0
  lastLeft : Int := 0
  bytesRecv : List Int := []
  delivered : List RtmpPacket := []

namespace RtmpReceiver

/-- Conversion of a sum to `int32_t`. -/
def wrap (x : Int) : Int := x.bmod (2 ^ 32)

/-- `SendBytesRecv`. -/
def sendBytesRecv (c : RtmpReceiver) : RtmpReceiver :=
  if c.reader.ackSize ≤ c.inBytes then
    { c with bytesRecv := c.bytesRecv ++ [c.inBytes], inBytes := 0 }
  else
    c

/-- `ParseMessage`: the count of received bytes, then the loop. -/
def parseMessage (c : RtmpReceiver) : RtmpReceiver :=
  let c := sendBytesRecv { c with inBytes := wrap (c.inBytes + (c.unread.length - c.lastLeft)) }
  let r := c.reader.parse c.unread
  { c with reader := r.state, unread := r.unread, delivered := c.delivered ++ r.out }

/-- `Parse` in state `kRtmpMessage`, after a read appended `bytes` to the buffer. -/
def onRead (c : RtmpReceiver) (bytes : List UInt8) : RtmpReceiver :=
  let c := parseMessage { c with unread := c.unread ++ bytes }
  { c with lastLeft := c.unread.length }

/-- Successive reads. -/
def onReads (c : RtmpReceiver) (reads : List (List UInt8)) : RtmpReceiver :=
  reads.foldl onRead c

end RtmpReceiver
