import Tmms.Base.Packet
import Tmms.Library.StunMessage
import Tmms.Mpegts.Crc32

/-!
# STUN

`Stun` reads the binding request of a player and writes the response to it into a packet of 512
bytes.  The response has the name of the request, whose length nothing limits, so it fits if the
name has at most 444 bytes (`encode_responds_iff`).  The HMAC is that of OpenSSL, which is a
parameter here.
-/

open Endian BytesReader BytesWriter StunMessage

/-- `kStunMagicCookie`. -/
def kStunMagicCookie : UInt32 := 0x2112A442

/-- `kStunMsgBindingResponse`. -/
def kStunMsgBindingResponse : UInt16 := 0x0101

/-- `kStunAttrUsername`. -/
def kStunAttrUsername : UInt16 := 0x0006

/-- `kStunAttrPassword`. -/
def kStunAttrPassword : UInt16 := 0x0007

/-- `kStunAttrMessageIntegrity`. -/
def kStunAttrMessageIntegrity : UInt16 := 0x0008

/-- `kStunAttrXorMappedAddress`. -/
def kStunAttrXorMappedAddress : UInt16 := 0x0020

/-- `kStunAttrFingerprint`. -/
def kStunAttrFingerprint : UInt16 := 0x8028

/-- What `Decode` takes for an id. -/
abbrev TransactionId := { bytes : List UInt8 // bytes.length = 12 }

/-- What HMAC-SHA1 gives. -/
abbrev Mac := { bytes : List UInt8 // bytes.length = 20 }

/-- A message that has been decoded. -/
structure Stun where
  type : UInt16
  stunLength : UInt16
  transcationId : TransactionId
  userName : List UInt8 := []
  password : List UInt8 := []
  mappedAddr : UInt32 := 0
  mappedPort : UInt16 := 0

namespace Stun

/-- The `switch` over the type of an attribute. -/
def assign (s : Stun) (attrType : UInt16) (value : List UInt8) : Stun :=
  if attrType = kStunAttrUsername then
    { s with userName := value }
  else if attrType = kStunAttrPassword then
    { s with password := value }
  else
    s

/-- The loop of `Decode`. -/
def decodeLoop (s : Stun) (data : List UInt8) : Option Stun :=
  if _h : 4 ≤ data.length then
    let attrType := readUint16T data
    let attrLen := (readUint16T (data.drop 2)).toNat
    let paddingLen := (4 - attrLen % 4) % 4
    let data := data.drop 4
    if data.length < paddingLen + attrLen then
      none
    else
      decodeLoop (s.assign attrType (data.take attrLen)) (data.drop (attrLen + paddingLen))
  else
    some s
  termination_by data.length
  decreasing_by
    rw [List.length_drop, List.length_drop]
    omega

/-- `Decode`. `IsStun` lets only datagrams through that have a whole header. -/
def decode (data : List UInt8) : Option Stun :=
  if h : 20 ≤ data.length then
    if readUint32T (data.drop 4) ≠ kStunMagicCookie then
      none
    else
      decodeLoop {
        type := readUint16T data
        stunLength := readUint16T (data.drop 2)
        transcationId := ⟨(data.drop 8).take 12, by
          rw [List.length_take, List.length_drop]
          omega⟩ } (data.drop 20)
  else
    none

/-- `LocalUFrag`, the name up to the first colon. -/
def localUFrag (s : Stun) : List UInt8 :=
  if s.userName.contains 0x3a then s.userName.takeWhile (· ≠ 0x3a) else []

/-- What `OnStun` sets for the response. -/
def respond (s : Stun) (password : List UInt8) (addr : UInt32) (port : UInt16) : Stun :=
  { s with
    password := password
    type := kStunMsgBindingResponse
    mappedAddr := addr
    mappedPort := port }

/-- The header with a length. -/
def header (s : Stun) (length : Nat) : List UInt8 :=
  writeUint16T s.type ++ writeUint16T (UInt16.ofNat length) ++ writeUint32T kStunMagicCookie ++
    s.transcationId.val

/-- The attributes in front of those that protect the message. -/
def attributes (s : Stun) : List UInt8 :=
  let paddingBytes := (4 - s.userName.length % 4) % 4
  writeUint16T kStunAttrUsername ++ writeUint16T (UInt16.ofNat s.userName.length) ++ s.userName ++
      List.replicate paddingBytes (0 : UInt8) ++
    (writeUint16T kStunAttrXorMappedAddress ++ writeUint16T 8 ++ writeUint8T 0 ++ writeUint8T 0x01 ++
      writeUint16T (s.mappedPort ^^^ (kStunMagicCookie >>> 16).toUInt16) ++
      writeUint32T (s.mappedAddr ^^^ kStunMagicCookie))

section
variable (hmacSha1 : List UInt8 → List UInt8 → Mac)

/-- `Encode`. It has no result if it writes behind the packet. -/
def encode (s : Stun) (g : TsTool.Globals) : Option (Packet Unit × TsTool.Globals) :=
  let dataBytes := s.attributes.length
  let integrity :=
    writeUint16T kStunAttrMessageIntegrity ++ writeUint16T 20 ++
      (hmacSha1 s.password (s.header (dataBytes + (4 + 20)) ++ s.attributes)).val
  let payloadLen := dataBytes + (4 + 20) + (4 + 4)
  let front := s.header payloadLen ++ s.attributes ++ integrity
  let crc := TsTool.crc32Ieee g front
  let bytes :=
    front ++ (writeUint16T kStunAttrFingerprint ++ writeUint16T 4 ++
      writeUint32T (crc.1 ^^^ 0x5354554e))
  if bytes.length ≤ 512 then
    some ({ Packet.newPacket 512 () with
      size := UInt32.ofNat (payloadLen + 20)
      data := bytes }, crc.2)
  else
    none

end

/-! ### What is written -/

/-- The value of the mapped address. -/
def mappedAddress (s : Stun) : List UInt8 :=
  ([0x00, 0x01] : List UInt8) ++ beBytes 2 (s.mappedPort ^^^ (kStunMagicCookie >>> 16).toUInt16).toNat ++
    beBytes 4 (s.mappedAddr ^^^ kStunMagicCookie).toNat

theorem length_mappedAddress (s : Stun) :
  s.mappedAddress.length = 8
  := by
  rw [mappedAddress, List.length_append, List.length_append, length_beBytes, length_beBytes]
  rfl

theorem length_attributes (s : Stun) :
  s.attributes.length = 4 + s.userName.length + padding s.userName.length + 12
  := by
  rw [attributes]
  simp only [List.length_append, length_beBytes, writeUint16T, writeUint32T, writeUint8T,
    List.length_replicate, List.length_singleton, padding]

/-- The attributes, if the length of the name has sixteen bits. -/
theorem attributes_eq {s : Stun} (h : s.userName.length < 65536) :
  s.attributes =
    attributeBytes kStunAttrUsername.toNat s.userName ++
      attributeBytes kStunAttrXorMappedAddress.toNat s.mappedAddress
  := by
  have hname : (UInt16.ofNat s.userName.length).toNat = s.userName.length
    := by rw [UInt16.toNat_ofNat', Nat.mod_eq_of_lt h]
  rw [attributes, attributeBytes, attributeBytes, length_mappedAddress]
  rw [writeUint16T, writeUint16T, hname]
  simp only [List.append_assoc, mappedAddress, padding, writeUint16T, writeUint32T, writeUint8T]
  rfl

theorem header_eq {s : Stun} {length : Nat} (h : length < 65536) :
  s.header length = headerBytes s.type.toNat length s.transcationId.val
  := by
  rw [header, headerBytes, writeUint16T, writeUint16T, UInt16.toNat_ofNat', Nat.mod_eq_of_lt h,
    List.append_assoc, List.append_assoc]
  rfl

/-! ### Reading what is written -/

theorem readUint16T_of_take {bytes : List UInt8} {n : UInt16} (h : bytes.take 2 = beBytes 2 n.toNat) :
  readUint16T bytes = n
  := by rw [readUint16T, h, beNat_beBytes_of_lt n.toNat_lt, UInt16.ofNat_toNat]

/-- An attribute is assigned. -/
theorem decodeLoop_attributeBytes (s : Stun) (type : UInt16) {value : List UInt8}
    (h : value.length < 65536) (rest : List UInt8) :
  decodeLoop s (attributeBytes type.toNat value ++ rest) = decodeLoop (s.assign type value) rest
  := by
  obtain ⟨htype, hlength, hvalue, hrest⟩ := attributeBytes_parts type.toNat value rest
  have hsize := length_attributeBytes type.toNat value
  have hfour : 4 ≤ (attributeBytes type.toNat value ++ rest).length
    := by
    rw [List.length_append]
    omega
  have hcount : (readUint16T ((attributeBytes type.toNat value ++ rest).drop 2)).toNat = value.length
    := by
    rw [readUint16T, hlength, beNat_beBytes_of_lt h, UInt16.toNat_ofNat', Nat.mod_eq_of_lt h]
  have hfits : ¬ ((attributeBytes type.toNat value ++ rest).drop 4).length <
      (4 - value.length % 4) % 4 + value.length
    := by
    rw [padding] at hsize
    rw [List.length_drop, List.length_append]
    omega
  have hnext : 4 + (value.length + (4 - value.length % 4) % 4) =
      4 + value.length + padding value.length
    := by rw [padding, Nat.add_assoc]
  rw [decodeLoop, dif_pos hfour]
  dsimp only
  rw [readUint16T_of_take htype, hcount, if_neg hfits, hvalue, List.drop_drop, hnext, hrest]

theorem decodeLoop_nil (s : Stun) : decodeLoop s [] = some s
  := by
  rw [decodeLoop]
  exact dif_neg (Nat.not_succ_le_zero 3)

/-- A response to a request: the length is that of the attributes, which start on boundaries of four
bytes, the last two are computed over what is in front of them, and the request's name and id are
read back. -/
structure Responds (hmacSha1 : List UInt8 → List UInt8 → Mac) (crc32 : List UInt8 → UInt32)
    (s : Stun) (bytes : List UInt8) : Prop where
  length : 20 ≤ bytes.length ∧ (readUint16T (bytes.drop 2)).toNat = bytes.length - 20
  attributes : ∃ username mapped integrity fingerprint : Attribute,
    Message.parse bytes = some ⟨s.type.toNat, s.transcationId.val,
      [username, mapped, integrity, fingerprint]⟩ ∧
    (∀ a ∈ [username, mapped, integrity, fingerprint], a.offset % 4 = 0) ∧
    username.type = kStunAttrUsername.toNat ∧ username.value = s.userName ∧
    mapped.type = kStunAttrXorMappedAddress.toNat ∧ mapped.value = s.mappedAddress ∧
    integrity.type = kStunAttrMessageIntegrity.toNat ∧
    integrity.value = (hmacSha1 s.password (protectedBytes bytes integrity)).val ∧
    fingerprint.type = kStunAttrFingerprint.toNat ∧
    fingerprint.value =
      beBytes 4 (crc32 (protectedBytes bytes fingerprint) ^^^ 0x5354554e).toNat
  decoded : ∃ s', decode bytes = some s' ∧ s'.userName = s.userName ∧
    s'.transcationId = s.transcationId

/-! ### The response -/

variable (hmacSha1 : List UInt8 → List UInt8 → Mac)

theorem length_header (s : Stun) (length : Nat) :
  (s.header length).length = 20
  := by
  rw [header, List.length_append, List.length_append, List.length_append, s.transcationId.property,
    length_writeUint32T, writeUint16T, writeUint16T, length_beBytes, length_beBytes]

/-- The code of a message, in front of which is `front`. -/
def integrity (s : Stun) (front : List UInt8) : List UInt8 :=
  (hmacSha1 s.password
    (headerBytes s.type.toNat (front.length + 4 + 20) s.transcationId.val ++ front)).val

/-- The checksum of a message, in front of which is `front`. -/
def fingerprint (s : Stun) (crc32 : List UInt8 → UInt32) (front : List UInt8) : List UInt8 :=
  beBytes 4 (crc32 (headerBytes s.type.toNat (front.length + 4 + 4) s.transcationId.val ++
    front) ^^^ 0x5354554e).toNat

/-- The attribute with the code. -/
def integrityBytes (s : Stun) (front : List UInt8) : List UInt8 :=
  attributeBytes kStunAttrMessageIntegrity.toNat (s.integrity hmacSha1 front)

/-- The attribute with the checksum. -/
def fingerprintBytes (s : Stun) (crc32 : List UInt8 → UInt32) (front : List UInt8) : List UInt8 :=
  attributeBytes kStunAttrFingerprint.toNat (s.fingerprint crc32 front)

theorem length_integrity (s : Stun) (front : List UInt8) :
  (s.integrity hmacSha1 front).length = 20
  := (hmacSha1 _ _).property

theorem length_fingerprint (s : Stun) (crc32 : List UInt8 → UInt32) (front : List UInt8) :
  (s.fingerprint crc32 front).length = 4
  := length_beBytes 4 _

theorem length_integrityBytes (s : Stun) (front : List UInt8) :
  (s.integrityBytes hmacSha1 front).length = 24
  := by
  rw [integrityBytes, length_attributeBytes, length_integrity]
  rfl

theorem length_fingerprintBytes (s : Stun) (crc32 : List UInt8 → UInt32) (front : List UInt8) :
  (s.fingerprintBytes crc32 front).length = 8
  := by
  rw [fingerprintBytes, length_attributeBytes, length_fingerprint]
  rfl

/-- The header and the four attributes. -/
def messageBytes (s : Stun) (crc32 : List UInt8 → UInt32) : List UInt8 :=
  let integrity := s.integrityBytes hmacSha1 s.attributes
  let fingerprint := s.fingerprintBytes crc32 (s.attributes ++ integrity)
  headerBytes s.type.toNat (s.attributes ++ (integrity ++ fingerprint)).length
    s.transcationId.val ++ (s.attributes ++ (integrity ++ fingerprint))

theorem length_messageBytes (s : Stun) (crc32 : List UInt8 → UInt32) :
  (s.messageBytes hmacSha1 crc32).length = 68 + s.userName.length + padding s.userName.length
  := by
  have hattributes := length_attributes s
  rw [messageBytes, List.length_append, length_headerBytes _ _ s.transcationId.property,
    List.length_append, List.length_append, length_integrityBytes, length_fingerprintBytes]
  omega

/-- What is written, and where it ends. -/
theorem encode_eq {s : Stun} (h : s.userName.length < 65000) (g : TsTool.Globals) :
  ∃ g', s.encode hmacSha1 g =
    if (s.messageBytes hmacSha1 fun bytes => (TsTool.crc32Ieee g bytes).1).length ≤ 512 then
      some ({ Packet.newPacket 512 () with
        size := UInt32.ofNat (s.messageBytes hmacSha1 fun bytes =>
          (TsTool.crc32Ieee g bytes).1).length
        data := s.messageBytes hmacSha1 fun bytes => (TsTool.crc32Ieee g bytes).1 }, g')
    else
      none
  := by
  have hattributes := length_attributes s
  have hpadding : padding s.userName.length < 4 := Nat.mod_lt _ (by decide)
  have hintegrity : writeUint16T kStunAttrMessageIntegrity ++ writeUint16T 20 ++
      (hmacSha1 s.password (s.header (s.attributes.length + (4 + 20)) ++ s.attributes)).val =
        s.integrityBytes hmacSha1 s.attributes
    := by
    rw [integrityBytes, attributeBytes_of_mod, header_eq (by omega), length_integrity]
    · rfl
    · rw [length_integrity]
  have hlength : s.attributes.length + (4 + 20) + (4 + 4) =
      (s.attributes ++ s.integrityBytes hmacSha1 s.attributes).length + 4 + 4
    := by rw [List.length_append, length_integrityBytes]
  have hfront : s.header (s.attributes.length + (4 + 20) + (4 + 4)) ++ s.attributes ++
      s.integrityBytes hmacSha1 s.attributes =
        headerBytes s.type.toNat
          ((s.attributes ++ s.integrityBytes hmacSha1 s.attributes).length + 4 + 4)
          s.transcationId.val ++ (s.attributes ++ s.integrityBytes hmacSha1 s.attributes)
    := by rw [header_eq (by omega), hlength, List.append_assoc]
  have hfingerprint : ∀ crc : UInt32,
      writeUint16T kStunAttrFingerprint ++ writeUint16T 4 ++ writeUint32T crc =
        attributeBytes kStunAttrFingerprint.toNat (beBytes 4 crc.toNat)
    := by
    intro crc
    rw [attributeBytes_of_mod, length_beBytes]
    · rfl
    · rw [length_beBytes]
  have hall : s.attributes.length + (4 + 20) + (4 + 4) + 20 =
      (s.messageBytes hmacSha1 fun bytes => (TsTool.crc32Ieee g bytes).1).length
    := by
    rw [length_messageBytes]
    omega
  have hbytes : headerBytes s.type.toNat
        ((s.attributes ++ s.integrityBytes hmacSha1 s.attributes).length + 4 + 4)
        s.transcationId.val ++ (s.attributes ++ s.integrityBytes hmacSha1 s.attributes) ++
      s.fingerprintBytes (fun bytes => (TsTool.crc32Ieee g bytes).1)
        (s.attributes ++ s.integrityBytes hmacSha1 s.attributes) =
      s.messageBytes hmacSha1 fun bytes => (TsTool.crc32Ieee g bytes).1
    := by
    rw [messageBytes, List.append_assoc, List.append_assoc, List.length_append, List.length_append,
      List.length_append, length_fingerprintBytes, Nat.add_assoc, Nat.add_assoc]
  rw [encode]
  dsimp only
  rw [hintegrity, hfront, hfingerprint, hall]
  exact ⟨_, by rw [← hbytes]; rfl⟩

/-- What is written in the packet has at most 512 bytes, so the name at most 444. -/
theorem userName_le_of_encode {s : Stun} {g g' : TsTool.Globals} {packet : Packet Unit}
    (h : s.encode hmacSha1 g = some (packet, g')) :
  s.userName.length ≤ 444
  := by
  have hattributes := length_attributes s
  rw [encode] at h
  dsimp only at h
  split at h
  · rename_i hfits
    rw [List.length_append, List.length_append, List.length_append, List.length_append,
      List.length_append, List.length_append, List.length_append, length_header, Subtype.property (hmacSha1 _ _),
      length_writeUint32T, writeUint16T, writeUint16T, writeUint16T, writeUint16T, length_beBytes,
      length_beBytes, length_beBytes, length_beBytes] at hfits
    rw [padding] at hattributes
    omega
  · cases h

/-- The name and the address are read. -/
theorem parseAttributes_attributes {s : Stun} (h : s.userName.length < 65000) (rest : List UInt8) :
  parseAttributes 20 (s.attributes ++ rest) =
    (parseAttributes (20 + s.attributes.length) rest).map fun later =>
      ⟨20, kStunAttrUsername.toNat, s.userName⟩ ::
        ⟨20 + (attributeBytes kStunAttrUsername.toNat s.userName).length,
          kStunAttrXorMappedAddress.toNat, s.mappedAddress⟩ :: later
  := by
  have hname : s.userName.length < 65536 := Nat.lt_trans h (by decide)
  have haddress : s.mappedAddress.length < 65536
    := by
    rw [length_mappedAddress]
    decide
  rw [attributes_eq hname, List.append_assoc, List.length_append,
    parseAttributes_attributeBytes (UInt16.toNat_lt _) hname,
    parseAttributes_attributeBytes (UInt16.toNat_lt _) haddress, Option.map_map, ← Nat.add_assoc]
  rfl

/-- The attributes that are read in a message. -/
theorem parse_messageBytes {s : Stun} (htype : s.type.toNat < 2 ^ 14)
    (h : s.userName.length < 65000) (crc32 : List UInt8 → UInt32) :
  Message.parse (s.messageBytes hmacSha1 crc32) = some ⟨s.type.toNat, s.transcationId.val,
    [⟨20, kStunAttrUsername.toNat, s.userName⟩,
      ⟨20 + (attributeBytes kStunAttrUsername.toNat s.userName).length,
        kStunAttrXorMappedAddress.toNat, s.mappedAddress⟩,
      ⟨20 + s.attributes.length, kStunAttrMessageIntegrity.toNat,
        s.integrity hmacSha1 s.attributes⟩,
      ⟨20 + s.attributes.length + 24, kStunAttrFingerprint.toNat,
        s.fingerprint crc32 (s.attributes ++ s.integrityBytes hmacSha1 s.attributes)⟩]⟩
  := by
  have hpadding : padding s.userName.length < 4 := Nat.mod_lt _ (by decide)
  have hlength : (s.attributes ++ (s.integrityBytes hmacSha1 s.attributes ++
      s.fingerprintBytes crc32 (s.attributes ++ s.integrityBytes hmacSha1 s.attributes))).length <
        65536
    := by
    rw [List.length_append, List.length_append, length_integrityBytes, length_fingerprintBytes,
      length_attributes]
    omega
  have hcode : ∀ offset rest, parseAttributes offset
      (s.integrityBytes hmacSha1 s.attributes ++ rest) = (parseAttributes (offset + 24) rest).map
        (⟨offset, kStunAttrMessageIntegrity.toNat, s.integrity hmacSha1 s.attributes⟩ :: ·)
    := by
    intro offset rest
    have hparse := parseAttributes_attributeBytes (UInt16.toNat_lt kStunAttrMessageIntegrity)
      (Nat.lt_of_le_of_lt (Nat.le_of_eq (length_integrity hmacSha1 s s.attributes)) (by decide))
      offset rest
    rwa [← integrityBytes, length_integrityBytes] at hparse
  have hcheck : ∀ front offset, parseAttributes offset (s.fingerprintBytes crc32 front) =
      some [⟨offset, kStunAttrFingerprint.toNat, s.fingerprint crc32 front⟩]
    := by
    intro front offset
    have hparse := parseAttributes_attributeBytes (UInt16.toNat_lt kStunAttrFingerprint)
      (Nat.lt_of_le_of_lt (Nat.le_of_eq (length_fingerprint s crc32 front)) (by decide)) offset []
    rwa [List.append_nil, parseAttributes_nil] at hparse
  rw [messageBytes, Message.parse_headerBytes htype hlength s.transcationId.property,
    parseAttributes_attributes h, hcode, hcheck]
  rfl

/-- A name and an id are read back. -/
theorem decode_messageBytes {s : Stun} (h : s.userName.length < 65000)
    (crc32 : List UInt8 → UInt32) :
  ∃ s', decode (s.messageBytes hmacSha1 crc32) = some s' ∧ s'.userName = s.userName ∧
    s'.transcationId = s.transcationId
  := by
  obtain ⟨-, -, hcookie, hid, hrest⟩ := headerBytes_parts s.type.toNat
    (s.attributes ++ (s.integrityBytes hmacSha1 s.attributes ++
      s.fingerprintBytes crc32 (s.attributes ++ s.integrityBytes hmacSha1 s.attributes))).length
    s.transcationId.property
    (s.attributes ++ (s.integrityBytes hmacSha1 s.attributes ++
      s.fingerprintBytes crc32 (s.attributes ++ s.integrityBytes hmacSha1 s.attributes)))
  rw [← messageBytes] at hcookie hid hrest
  have hlength : 20 ≤ (s.messageBytes hmacSha1 crc32).length
    := by
    rw [length_messageBytes]
    omega
  have hmagic : readUint32T ((s.messageBytes hmacSha1 crc32).drop 4) = kStunMagicCookie
    := by
    rw [readUint32T, hcookie, beNat_beBytes_of_lt (by decide)]
    rfl
  have hname : s.userName.length < 65536 := Nat.lt_trans h (by decide)
  have hattributes : ∀ s₀ : Stun, ∀ rest, decodeLoop s₀ (s.attributes ++ rest) =
      decodeLoop ((s₀.assign kStunAttrUsername s.userName).assign kStunAttrXorMappedAddress
        s.mappedAddress) rest
    := by
    intro s₀ rest
    have haddress := Nat.lt_of_le_of_lt (Nat.le_of_eq (length_mappedAddress s))
      (show 8 < 65536 by decide)
    rw [attributes_eq hname, List.append_assoc, decodeLoop_attributeBytes _ _ hname,
      decodeLoop_attributeBytes _ _ haddress]
  have hcode : ∀ s₀ : Stun, ∀ front rest, decodeLoop s₀ (s.integrityBytes hmacSha1 front ++ rest) =
      decodeLoop s₀ rest
    := by
    intro s₀ front rest
    have hmac := Nat.lt_of_le_of_lt (Nat.le_of_eq (length_integrity hmacSha1 s front))
      (show 20 < 65536 by decide)
    rw [integrityBytes, decodeLoop_attributeBytes _ _ hmac]
    rfl
  have hcheck : ∀ s₀ : Stun, ∀ front, decodeLoop s₀ (s.fingerprintBytes crc32 front) = some s₀
    := by
    intro s₀ front
    have hcrc := Nat.lt_of_le_of_lt (Nat.le_of_eq (length_fingerprint s crc32 front))
      (show 4 < 65536 by decide)
    have hloop := decodeLoop_attributeBytes s₀ kStunAttrFingerprint hcrc []
    rw [List.append_nil, decodeLoop_nil] at hloop
    exact hloop
  rw [decode, dif_pos hlength, if_neg (not_not.mpr hmagic), hrest, hattributes, hcode, hcheck]
  exact ⟨_, rfl, rfl, Subtype.ext hid⟩

/-- What is written for a message whose name has at most 444 bytes. -/
theorem responds_messageBytes {s : Stun} (htype : s.type.toNat < 2 ^ 14)
    (h : s.userName.length < 65000) (crc32 : List UInt8 → UInt32) :
  Responds hmacSha1 crc32 s (s.messageBytes hmacSha1 crc32)
  := by
  obtain ⟨-, hsize, -, -, -⟩ := headerBytes_parts s.type.toNat
    (s.attributes ++ (s.integrityBytes hmacSha1 s.attributes ++
      s.fingerprintBytes crc32 (s.attributes ++ s.integrityBytes hmacSha1 s.attributes))).length
    s.transcationId.property
    (s.attributes ++ (s.integrityBytes hmacSha1 s.attributes ++
      s.fingerprintBytes crc32 (s.attributes ++ s.integrityBytes hmacSha1 s.attributes)))
  rw [← messageBytes, List.length_append, List.length_append, length_integrityBytes,
    length_fingerprintBytes] at hsize
  have hlength := length_messageBytes hmacSha1 s crc32
  have hattributes := length_attributes s
  have hpadding : padding s.userName.length < 4 := Nat.mod_lt _ (by decide)
  refine ⟨⟨?_, ?_⟩, ⟨_, _, _, _, parse_messageBytes hmacSha1 htype h crc32, ?_, rfl, rfl, rfl, rfl,
    rfl, ?_, rfl, ?_⟩, decode_messageBytes hmacSha1 h crc32⟩
  · omega
  · rw [readUint16T, hsize, beNat_beBytes_of_lt (by omega), UInt16.toNat_ofNat',
      Nat.mod_eq_of_lt (by omega)]
    omega
  · have hname := length_attributeBytes_mod kStunAttrUsername.toNat s.userName
    have haligned : s.attributes.length % 4 = 0
      := by
      rw [length_attributeBytes] at hname
      omega
    rw [List.forall_mem_cons, List.forall_mem_cons, List.forall_mem_cons, List.forall_mem_cons]
    refine ⟨show 20 % 4 = 0 by decide, ?_, ?_, ?_, List.forall_mem_nil _⟩
    · change (20 + (attributeBytes kStunAttrUsername.toNat s.userName).length) % 4 = 0
      omega
    · change (20 + s.attributes.length) % 4 = 0
      omega
    · change (20 + s.attributes.length + 24) % 4 = 0
      omega
  · dsimp only
    rw [messageBytes, protectedBytes_headerBytes s.transcationId.property _ _ _ rfl]
    dsimp only
    rw [length_integrity]
    rfl
  · dsimp only
    rw [messageBytes, ← List.append_assoc s.attributes, protectedBytes_headerBytes
      s.transcationId.property _ _ _ (by rw [List.length_append, length_integrityBytes,
        Nat.add_assoc])]
    dsimp only
    rw [length_fingerprint]
    rfl

/-- The response is written in the packet if the name has at most 444 bytes, and only then. -/
theorem encode_responds_iff (s : Stun) (password : List UInt8) (addr : UInt32) (port : UInt16)
    (g : TsTool.Globals) :
  (∃ packet g', (s.respond password addr port).encode hmacSha1 g = some (packet, g') ∧
      packet.Filled ∧
      Responds hmacSha1 (fun bytes => (TsTool.crc32Ieee g bytes).1) (s.respond password addr port)
        packet.data) ↔
    s.userName.length ≤ 444
  := by
  constructor
  · rintro ⟨packet, g', hencode, -⟩
    have hname := userName_le_of_encode hmacSha1 hencode
    exact hname
  · intro hname
    have hlong : (s.respond password addr port).userName.length < 65000
      := by
      change s.userName.length < 65000
      omega
    have htype : (s.respond password addr port).type.toNat < 2 ^ 14
      := show kStunMsgBindingResponse.toNat < 2 ^ 14 by decide
    obtain ⟨g', hencode⟩ := encode_eq hmacSha1 hlong g
    have hlength := length_messageBytes hmacSha1 (s.respond password addr port)
      fun bytes => (TsTool.crc32Ieee g bytes).1
    have hfits : 68 + s.userName.length + padding s.userName.length ≤ 512
      := by
      rw [padding]
      omega
    have hle := Nat.le_trans (Nat.le_of_eq hlength) hfits
    rw [if_pos hle] at hencode
    refine ⟨_, g', hencode, ⟨?_, ?_⟩, responds_messageBytes hmacSha1 htype hlong _⟩
    · dsimp only
      rw [UInt32.toNat_ofNat', Nat.mod_eq_of_lt]
      omega
    · dsimp only
      rw [UInt32.toNat_ofNat', Nat.mod_eq_of_lt (by omega)]
      exact hle

/-- A request whose name has 448 bytes, eight of them before the colon. -/
theorem not_encode_responds_long :
  ¬ ∀ (hmacSha1 : List UInt8 → List UInt8 → Mac) (data : List UInt8) (s : Stun)
      (password : List UInt8) (addr : UInt32) (port : UInt16) (g : TsTool.Globals),
      decode data = some s →
      ∃ packet g', (s.respond password addr port).encode hmacSha1 g = some (packet, g') ∧
        packet.Filled ∧
        Responds hmacSha1 (fun bytes => (TsTool.crc32Ieee g bytes).1)
          (s.respond password addr port) packet.data
  := by
  intro h
  have hname : (decode ([0x00, 0x01, 0x01, 0xc4, 0x21, 0x12, 0xa4, 0x42] ++ List.replicate 12 0 ++
      [0x00, 0x06, 0x01, 0xc0] ++ List.replicate 8 0x61 ++ 0x3a :: List.replicate 439 0x61)).map
        (fun s => s.userName.length) = some 448
    := by decide +kernel
  obtain ⟨s, hdecode, hlength⟩ := Option.map_eq_some_iff.mp hname
  have hall := h (fun _ _ => ⟨List.replicate 20 0, List.length_replicate⟩) _ s [] 0 0 {} hdecode
  have hle := (encode_responds_iff _ s [] 0 0 {}).mp hall
  omega

end Stun
