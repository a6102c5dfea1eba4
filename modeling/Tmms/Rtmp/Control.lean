import Tmms.Library.Memory
import Tmms.Rtmp.ChunkReader

/-!
# Control messages

The messages with which the two sides of a connection tell each other sizes and events.  A body is
written into a packet that `NewPacket` has zeroed; the one of a user control message is written at
its front three times over, and not behind what is there.
-/

open BytesReader BytesWriter Endian Memory

/-- `kRtmpMsgTypeBytesRead`. -/
def kRtmpMsgTypeBytesRead : UInt8 := 3

/-- `kRtmpMsgTypeUserControl`. -/
def kRtmpMsgTypeUserControl : UInt8 := 4

/-- `kRtmpMsgTypeSetPeerBW`. -/
def kRtmpMsgTypeSetPeerBW : UInt8 := 6

/-- `kRtmpCSIDCommand`. -/
def kRtmpCSIDCommand : UInt32 := 2

/-- `kRtmpEventTypeSetBufferLength`. -/
def kRtmpEventTypeSetBufferLength : UInt16 := 3

/-- `kRtmpEventTypePingRequest`. -/
def kRtmpEventTypePingRequest : UInt16 := 5

/-- `kRtmpEventTypePingResponse`. -/
def kRtmpEventTypePingResponse : UInt16 := 6

/-- The type, the length and the writes of a control message. -/
structure ControlPacket where
  msgType : UInt8
  msgLen : Nat
  writes : List Write
  deriving DecidableEq, Repr

/-- The packet that is put into the queue. -/
def ControlPacket.packet (p : ControlPacket) : RtmpPacket where
  capacity := 64
  size := UInt32.ofNat p.msgLen
  data := block 64 p.writes
  ext := {
    csId := kRtmpCSIDCommand
    msgLen := UInt32.ofNat p.msgLen
    msgType := p.msgType }

/-! ### Sending -/

/-- `SendSetChunkSize`, with `out_chunk_size_` as a `uint32_t`. -/
def sendSetChunkSize (outChunkSize : UInt32) : ControlPacket where
  msgType := kRtmpMsgTypeChunkSize
  msgLen := 4
  writes := [(0, writeUint32T outChunkSize)]

/-- `SendAckWindowSize`, with `ack_size_` as a `uint32_t`. -/
def sendAckWindowSize (ackSize : UInt32) : ControlPacket where
  msgType := kRtmpMsgTypeWindowACKSize
  msgLen := 4
  writes := [(0, writeUint32T ackSize)]

/-- `SendSetPeerBandwidth`. The limit is a dynamic one. -/
def sendSetPeerBandwidth (ackSize : UInt32) : ControlPacket where
  msgType := kRtmpMsgTypeSetPeerBW
  msgLen := 5
  writes := [(0, writeUint32T ackSize), (4, [0x02])]

/-- What `SendBytesRecv` sends, with `in_bytes_` as a `uint32_t`. -/
def sendBytesRecv (inBytes : UInt32) : ControlPacket where
  msgType := kRtmpMsgTypeBytesRead
  msgLen := 4
  writes := [(0, writeUint32T inBytes)]

/-- `SendUserCtrlMessage`. The length is that of all that is written. -/
def sendUserCtrlMessage (nType : UInt16) (value1 value2 : UInt32) : ControlPacket where
  msgType := kRtmpMsgTypeUserControl
  msgLen := if nType = kRtmpEventTypeSetBufferLength then 10 else 6
  writes := [(0, writeUint16T nType), (0, writeUint32T value1)] ++
    if nType = kRtmpEventTypeSetBufferLength then [(0, writeUint32T value2)] else []

/-! ### Receiving -/

/-- What `HandleUserMessage` reads, and the message it sends back. -/
structure UserEvent where
  type : UInt16
  value : UInt32
  reply : Option ControlPacket
  deriving DecidableEq, Repr

/-- `HandleUserMessage`. There is no event when the message is too short. -/
def handleUserMessage (p : RtmpPacket) : Option UserEvent :=
  let body := p.payload
  if body.length < 6 then
    none
  else
    let type := readUint16T body
    let value := readUint32T (body.drop 2)
    if type = kRtmpEventTypeSetBufferLength ∧ body.length < 10 then
      none
    else if type = kRtmpEventTypePingRequest then
      some ⟨type, value, some (sendUserCtrlMessage kRtmpEventTypePingResponse value 0)⟩
    else
      some ⟨type, value, none⟩

/-! ### Messages -/

/-- What a control message says. -/
inductive ControlMessage where
  | setChunkSize (size : UInt32)
  | ackWindowSize (size : UInt32)
  | setPeerBandwidth (size : UInt32)
  | bytesRecv (count : UInt32)
  | userCtrl (nType : UInt16) (value1 value2 : UInt32)
  deriving DecidableEq, Repr

namespace ControlMessage

/-- The packet for a message. -/
def send : ControlMessage → ControlPacket
  | setChunkSize size => sendSetChunkSize size
  | ackWindowSize size => sendAckWindowSize size
  | setPeerBandwidth size => sendSetPeerBandwidth size
  | bytesRecv count => sendBytesRecv count
  | userCtrl nType value1 value2 => sendUserCtrlMessage nType value1 value2

/-- The body a message should have: its fields one behind the other, in network order. -/
def body : ControlMessage → List UInt8
  | setChunkSize size => beBytes 4 size.toNat
  | ackWindowSize size => beBytes 4 size.toNat
  | setPeerBandwidth size => beBytes 4 size.toNat ++ [0x02]
  | bytesRecv count => beBytes 4 count.toNat
  | userCtrl nType value1 value2 =>
      beBytes 2 nType.toNat ++ (beBytes 4 value1.toNat ++
        if nType = kRtmpEventTypeSetBufferLength then beBytes 4 value2.toNat else [])

/-- The receiver takes from a packet what the message says. An acknowledgement is not looked at,
and neither is the bandwidth of the peer. -/
def Recovered (m : ControlMessage) (p : RtmpPacket) : Prop :=
  match m with
  | setChunkSize size => ∀ s : ChunkReader, s.messageComplete p = { s with inChunkSize := int32 size }
  | ackWindowSize size => ∀ s : ChunkReader, s.messageComplete p = { s with ackSize := int32 size }
  | setPeerBandwidth _ => True
  | bytesRecv _ => True
  | userCtrl nType value1 _ => ∃ reply, handleUserMessage p = some ⟨nType, value1, reply⟩

/-- A message has the body it should have, the receiver recovers it, and every byte of it was
written. -/
structure RoundTrips (m : ControlMessage) : Prop where
  body_eq : m.send.packet.payload = m.body
  recovered : m.Recovered (ChunkReader.completed m.send.packet)
  written : ∀ i, i < m.send.msgLen → Written m.send.writes i

/-- A message other than a user control message. -/
def isSize : ControlMessage → Bool
  | userCtrl _ _ _ => false
  | _ => true

/-! ### Bodies -/

/-- A body that is a single number. -/
theorem payload_number {p : ControlPacket} {n : UInt32} (hlen : p.msgLen = 4)
    (hwrites : p.writes = [(0, writeUint32T n)]) :
  p.packet.payload = beBytes 4 n.toNat
  := by
  have hsize : p.packet.size.toNat = (beBytes 4 n.toNat).length
    := by
    rw [ControlPacket.packet, hlen, length_beBytes]
    rfl
  rw [Packet.payload, hsize, ControlPacket.packet, hwrites, block, List.foldl_cons, List.foldl_nil,
    put_replicate, writeUint32T, List.take_left]

/-- Whatever is received of a body is its payload. -/
theorem payload_completed (p : RtmpPacket) :
  (ChunkReader.completed p).payload = p.payload
  := rfl

/-- The type of what is received. -/
theorem type_completed (m : ControlMessage) :
  (ChunkReader.completed m.send.packet).type = m.send.msgType.toNat
  := rfl

theorem roundTrips_setChunkSize (size : UInt32) :
  (setChunkSize size).RoundTrips
  := by
  have hpayload : (setChunkSize size).send.packet.payload = beBytes 4 size.toNat :=
    payload_number rfl rfl
  have hread := readUint32T_beBytes size
  constructor
  · exact hpayload
  · intro s
    have htype : (ChunkReader.completed (setChunkSize size).send.packet).type =
        kRtmpMsgTypeChunkSize.toNat := type_completed _
    rw [ChunkReader.messageComplete, if_pos htype, ChunkReader.handleChunkSize,
      payload_completed, hpayload, length_beBytes, if_pos (Nat.le_refl _), hread]
  · intro i hi
    exact ⟨_, List.mem_singleton_self _, Nat.zero_le _, hi⟩

theorem roundTrips_ackWindowSize (size : UInt32) :
  (ackWindowSize size).RoundTrips
  := by
  have hpayload : (ackWindowSize size).send.packet.payload = beBytes 4 size.toNat :=
    payload_number rfl rfl
  have hread := readUint32T_beBytes size
  constructor
  · exact hpayload
  · intro s
    have htype : (ChunkReader.completed (ackWindowSize size).send.packet).type =
        kRtmpMsgTypeWindowACKSize.toNat := type_completed _
    have hother : ¬ (ChunkReader.completed (ackWindowSize size).send.packet).type =
        kRtmpMsgTypeChunkSize.toNat
      := by
      rw [htype]
      decide
    rw [ChunkReader.messageComplete, if_neg hother, if_pos htype,
      ChunkReader.handleAckWindowSize, payload_completed, hpayload, length_beBytes,
      if_pos (Nat.le_refl _), hread]
  · intro i hi
    exact ⟨_, List.mem_singleton_self _, Nat.zero_le _, hi⟩

theorem roundTrips_bytesRecv (count : UInt32) :
  (bytesRecv count).RoundTrips
  := ⟨payload_number rfl rfl, trivial,
    fun _ hi => ⟨_, List.mem_singleton_self _, Nat.zero_le _, hi⟩⟩

theorem roundTrips_setPeerBandwidth (size : UInt32) :
  (setPeerBandwidth size).RoundTrips
  := by
  constructor
  · change (put (put (List.replicate 64 0) (0, writeUint32T size)) (4, [0x02])).take 5 = _
    rw [put_replicate, put_behind (length_writeUint32T size).symm, length_writeUint32T,
      put_replicate, ← List.append_assoc]
    rfl
  · trivial
  · intro i hi
    by_cases hfour : i < 4
    · exact ⟨_, List.mem_cons_self, Nat.zero_le _, hfour⟩
    · refine ⟨(4, [0x02]), List.mem_cons_of_mem _ (List.mem_singleton_self _), by omega, hi⟩

/-- Nothing is ever written behind the fourth byte of a user control message. -/
theorem not_written_userCtrl (nType : UInt16) (value1 value2 : UInt32) :
  ¬ Written (userCtrl nType value1 value2).send.writes 4
  := by
  rintro ⟨w, hw, -, hlt⟩
  have hshort : w.1 = 0 ∧ w.2.length ≤ 4
    := by
    obtain hw | hw := List.mem_append.mp hw
    · obtain rfl | hw := List.mem_cons.mp hw
      · exact ⟨rfl, Nat.le_trans (Nat.le_of_eq (length_beBytes 2 _)) (by decide)⟩
      · rw [List.mem_singleton.mp hw]
        exact ⟨rfl, Nat.le_of_eq (length_writeUint32T value1)⟩
    · split at hw
      · rw [List.mem_singleton.mp hw]
        exact ⟨rfl, Nat.le_of_eq (length_writeUint32T value2)⟩
      · cases hw
  omega

/-- Exactly the messages that tell a size come across. -/
theorem roundTrips_iff (m : ControlMessage) :
  m.RoundTrips ↔ m.isSize = true
  := by
  cases m with
  | setChunkSize size => exact iff_of_true (roundTrips_setChunkSize size) rfl
  | ackWindowSize size => exact iff_of_true (roundTrips_ackWindowSize size) rfl
  | setPeerBandwidth size => exact iff_of_true (roundTrips_setPeerBandwidth size) rfl
  | bytesRecv count => exact iff_of_true (roundTrips_bytesRecv count) rfl
  | userCtrl nType value1 value2 =>
      apply iff_of_false
      · intro h
        apply not_written_userCtrl nType value1 value2 (h.written 4 _)
        change 4 < (if _ then 10 else 6)
        split
        · decide
        · decide
      · nofun

/-- The stream begin that answers a play command is read as one of stream 65536. -/
theorem not_roundTrips_streamBegin :
  ¬ (userCtrl 0 1 0).RoundTrips ∧
    handleUserMessage (ChunkReader.completed (userCtrl 0 1 0).send.packet)
      = some ⟨0, 65536, none⟩
  := by
  constructor
  · intro h
    have hbody := h.body_eq
    revert hbody
    decide
  · decide

end ControlMessage
