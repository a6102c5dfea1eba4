import Tmms.Base.Packet

/-!
# RTMP message headers

The header of a message, the four formats in which a chunk gives it, and the type ids of
the messages the chunk layer itself acts on.
-/

/-- `RtmpMsgHeader`. -/
structure RtmpMsgHeader where
  csId : UInt32 := 0
  timestamp : UInt32 := 0
  msgLen : UInt32 := 0
  msgType : UInt8 := 0
  msgSid : UInt32 := 0
  deriving DecidableEq, Repr

/-- A packet with an RTMP header as its extension. -/
abbrev RtmpPacket := Packet RtmpMsgHeader

/-- The format of a chunk's message header. -/
inductive RtmpFmt where
  | fmt0 | fmt1 | fmt2 | fmt3
  deriving DecidableEq, Repr

namespace RtmpFmt

/-- The two high bits of the first byte of a chunk. -/
def ofByte (b : UInt8) : RtmpFmt :=
  if b.toNat < 64 then fmt0
  else if b.toNat < 128 then fmt1
  else if b.toNat < 192 then fmt2
  else fmt3

/-- `fmt << 6`. -/
def toByte : RtmpFmt → UInt8
  | fmt0 => 0x00
  | fmt1 => 0x40
  | fmt2 => 0x80
  | fmt3 => 0xC0

/-- The bytes of the message header without the extended timestamp. -/
def headerSize : RtmpFmt → Nat
  | fmt0 => 11
  | fmt1 => 7
  | fmt2 => 3
  | fmt3 => 0

/-- The format is read back from a first byte, whatever its low six bits. -/
theorem ofByte_toByte_or (fmt : RtmpFmt) {n : Nat} (h : n < 64) :
  ofByte (fmt.toByte ||| UInt8.ofNat n) = fmt
  := by
  have hall : ∀ m : Fin 64, ofByte (fmt.toByte ||| UInt8.ofNat m) = fmt := by
    cases fmt with
    | fmt0 => decide
    | fmt1 => decide
    | fmt2 => decide
    | fmt3 => decide
  apply hall ⟨n, h⟩

/-- The low six bits are read back from a first byte. -/
theorem toByte_or_and (fmt : RtmpFmt) {n : Nat} (h : n < 64) :
  (fmt.toByte ||| UInt8.ofNat n) &&& 0x3F = UInt8.ofNat n
  := by
  have hall : ∀ m : Fin 64,
      (fmt.toByte ||| UInt8.ofNat m) &&& 0x3F = UInt8.ofNat m := by
    cases fmt with
    | fmt0 => decide
    | fmt1 => decide
    | fmt2 => decide
    | fmt3 => decide
  apply hall ⟨n, h⟩

end RtmpFmt

/-- `kRtmpMsgTypeChunkSize`. -/
def kRtmpMsgTypeChunkSize : UInt8 := 1

/-- `kRtmpMsgTypeWindowACKSize`. -/
def kRtmpMsgTypeWindowACKSize : UInt8 := 5

/-- The timestamp field that announces an extended timestamp. -/
def extendedMark : UInt32 := 0xFFFFFF

/-- A message as its receiver sees it. -/
structure Message where
  csId : UInt32
  msgType : UInt8
  msgSid : UInt32
  timestamp : UInt32
  payload : List UInt8
  deriving DecidableEq, Repr

/-- What the packet handed to `MessageComplete` says. -/
def Packet.message (p : RtmpPacket) : Message where
  csId := p.ext.csId
  msgType := p.ext.msgType
  msgSid := p.ext.msgSid
  timestamp := p.ext.timestamp
  payload := p.payload
