import Tmms.Library.Runs
import Tmms.Rtmp.ChunkReader

/-!
# The RTMP handshake

`RtmpHandShake`, and what `RtmpContext` does until the handshake is done.  `CheckC1S1` is
declared in the header and defined nowhere, so it is a parameter, as HMAC-SHA256 is.

A call of `Send` may write everything at once, and then `write_complete_cb_` runs before the
call returns; else it runs later.  An event says how many of the calls of `Send` made in it
complete at once.
-/

/-- The states of a handshake. -/
inductive RtmpHandShakeState where
  | init | postC0C1 | waitS0S1 | postC2 | waitS2 | doning
  | waitC0C1 | postS0S1 | postS2 | waitC2
  | done
  deriving DecidableEq, Repr

/-- `kRtmpHandShakePacketSize`. -/
def kRtmpHandShakePacketSize : Nat := 1536

/-- `SHA256_DIGEST_LENGTH`. -/
def sha256DigestLength : Nat := 32

/-- `HMAC` with SHA-256 of a key and a message, and `CheckC1S1` of the client or the server,
which gives the offset of the digest, or a negative number for a C1 or S1 that is refused. -/
structure HandShakeCrypto where
  hmac : List UInt8 → List UInt8 → List UInt8
  length_hmac : ∀ key message, (hmac key message).length = sha256DigestLength
  checkC1S1 : Bool → List UInt8 → Int

/-- What a handshake draws: the bytes of `GenRandom` for C1 or S1 and for C2 or S2, and the
time in seconds. -/
structure HandShakeDraws where
  c1s1 : Nat → UInt8
  c2s2 : Nat → UInt8
  now : UInt32

def rtmpServerVer : List UInt8 := [0x0D, 0x0E, 0x0A, 0x0D]

def rtmpClientVer : List UInt8 := [0x0C, 0x00, 0x0D, 0x0E]

/-- The part of the keys that is the same for players and servers. -/
def rtmpKeyEnd : List UInt8 :=
  [0xF0, 0xEE, 0xC2, 0x4A, 0x80, 0x68, 0xBE, 0xE8, 0x2E, 0x00, 0xD0, 0xD1, 0x02, 0x9E, 0x7E, 0x57,
    0x6E, 0xEC, 0x5D, 0x2D, 0x29, 0x80, 0x6F, 0xAB, 0x93, 0xB8, 0xE6, 0x36, 0xCF, 0xEB, 0x31, 0xAE]

/-- "Genuine Adobe Flash Player 001". -/
def rtmpPlayerKeyOpen : List UInt8 :=
  [71, 101, 110, 117, 105, 110, 101, 32, 65, 100, 111, 98, 101, 32, 70, 108, 97, 115, 104, 32,
    80, 108, 97, 121, 101, 114, 32, 48, 48, 49]

/-- "Genuine Adobe Flash Media Server 001". -/
def rtmpServerKeyOpen : List UInt8 :=
  [71, 101, 110, 117, 105, 110, 101, 32, 65, 100, 111, 98, 101, 32, 70, 108, 97, 115, 104, 32,
    77, 101, 100, 105, 97, 32, 83, 101, 114, 118, 101, 114, 32, 48, 48, 49]

/-- Some bytes of a list are replaced, from a position on. -/
def overwrite (data : List UInt8) (pos : Nat) (bytes : List UInt8) : List UInt8 :=
  data.take pos ++ bytes ++ data.drop (pos + bytes.length)

/-- `CalculateDigest`: the digest of all bytes, or of those around the digest itself. -/
def calculateDigest (crypto : HandShakeCrypto) (src : List UInt8) (gap : Nat)
    (key : List UInt8) : List UInt8 :=
  if gap = 0 then
    crypto.hmac key src
  else
    crypto.hmac key (src.take gap ++ src.drop (gap + sha256DigestLength))

/-- `GetDigestOffset`. -/
def getDigestOffset (buf : List UInt8) (off modVal : Nat) : Nat :=
  (((buf.drop off).take 4).map UInt8.toNat).sum % modVal + (off + 4)

structure RtmpHandShake where
  isClient : Bool
  isComplexHandshake : Bool := true
  digest : List UInt8 := []
  c1s1 : List UInt8 := []
  c2s2 : List UInt8 := []
  state : RtmpHandShakeState := .init
  deriving DecidableEq, Repr

namespace RtmpHandShake

variable (crypto : HandShakeCrypto) (draws : HandShakeDraws)

/-- `CreateC1S1`. -/
def createC1S1 (h : RtmpHandShake) : RtmpHandShake :=
  let random := (List.range (kRtmpHandShakePacketSize + 1)).map draws.c1s1
  let c1s1 := overwrite (overwrite random 0 [0x03]) 1 [0, 0, 0, 0]
  if h.isComplexHandshake then
    let offset := getDigestOffset (c1s1.drop 1) 8 728
    let c1s1 := overwrite c1s1 5 (if h.isClient then rtmpClientVer else rtmpServerVer)
    let data := calculateDigest crypto (c1s1.drop 1) offset
      (if h.isClient then rtmpPlayerKeyOpen else rtmpServerKeyOpen)
    { h with c1s1 := overwrite c1s1 (1 + offset) data, digest := data }
  else
    { h with c1s1 := overwrite c1s1 5 [0, 0, 0, 0] }

/-- `CreateC2S2` for a C1 or S1 with the digest at an offset. -/
def createC2S2 (h : RtmpHandShake) (data : List UInt8) (offset : Nat) : RtmpHandShake :=
  let random := (List.range kRtmpHandShakePacketSize).map draws.c2s2
  let c2s2 := overwrite (overwrite random 0 (data.take 8)) 0 (Endian.beBytes 4 draws.now.toNat)
  if h.isComplexHandshake then
    let key := (if h.isClient then rtmpPlayerKeyOpen else rtmpServerKeyOpen) ++ rtmpKeyEnd
    let digest := crypto.hmac key ((data.drop offset).take sha256DigestLength)
    let signed := kRtmpHandShakePacketSize - sha256DigestLength
    { h with c2s2 := overwrite c2s2 signed (crypto.hmac digest (c2s2.take signed)) }
  else
    { h with c2s2 := c2s2 }

/-- `CheckC2S2`. -/
def checkC2S2 (_data : List UInt8) : Bool := true

/-- `WriteComplete`, with what it sends. -/
def writeComplete (h : RtmpHandShake) : RtmpHandShake × Option (List UInt8) :=
  match h.state with
  | .postS0S1 => ({ h with state := .postS2 }, some h.c2s2)
  | .postS2 => ({ h with state := .waitC2 }, none)
  | .postC0C1 => ({ h with state := .waitS0S1 }, none)
  | .postC2 => ({ h with state := .waitS2 }, none)
  | .doning => ({ h with state := .done }, none)
  | _ => (h, none)

end RtmpHandShake

/-- The states of an `RtmpContext`. -/
inductive RtmpContextState where
  | handShake
  | watingDone
  | message
  deriving DecidableEq, Repr

/-- An end of a connection until the handshake is done, and what it receives from then on.
`buf` holds the unread bytes until then and `sent` what the handshake gave to `Send`;
`writing` says that a write is not complete, `connects` counts the calls of `SendConnect`. -/
structure HandShakeEnd where
  handShake : RtmpHandShake
  state : RtmpContextState := .handShake
  buf : List UInt8 := []
  receiver : RtmpReceiver := {}
  sent : List (List UInt8) := []
  writing : Bool := false
  connects : Nat := 0
  closed : Bool := false

namespace HandShakeEnd

variable (crypto : HandShakeCrypto) (draws : HandShakeDraws)

/-- The state of the context in which messages are read. A client sends its connect then. -/
def toMessages (c : HandShakeEnd) : HandShakeEnd :=
  { c with
    state := .message
    connects := if c.handShake.isClient then c.connects + 1 else c.connects }

/-- `OnWriteComplete`, with what the handshake sends. In the state `kRtmpMessage` it is about
messages. -/
def writeCompleted (c : HandShakeEnd) : HandShakeEnd × Option (List UInt8) :=
  match c.state with
  | .handShake =>
      ({ c with handShake := c.handShake.writeComplete.1, writing := false },
        c.handShake.writeComplete.2)
  | .watingDone => ({ c.toMessages with writing := false }, none)
  | .message => ({ c with writing := false }, none)

/-- `Send` of the handshake, with the number of writes that complete at once. -/
def send : Nat → HandShakeEnd → List UInt8 → HandShakeEnd
  | 0, c, bytes => { c with sent := c.sent ++ [bytes], writing := true }
  | atOnce + 1, c, bytes =>
      match { c with sent := c.sent ++ [bytes] }.writeCompleted with
      | (c, none) => c
      | (c, some bytes) => send atOnce c bytes

/-- A write is complete. -/
def onWriteComplete (c : HandShakeEnd) (atOnce : Nat) : HandShakeEnd :=
  match c.writeCompleted with
  | (c, none) => c
  | (c, some bytes) => c.send atOnce bytes

/-- `Start`. -/
def start (isClient : Bool) (atOnce : Nat) : HandShakeEnd :=
  let h := RtmpHandShake.createC1S1 crypto draws { isClient := isClient }
  if isClient then
    send atOnce { handShake := { h with state := .postC0C1 } } h.c1s1
  else
    { handShake := { h with state := .waitC0C1 } }

/-- `HandShake`, with what it returns. The cases of the states in which a client waits do
nothing. -/
def handShakeStep (c : HandShakeEnd) (atOnce : Nat) : Int × HandShakeEnd :=
  match c.handShake.state with
  | .waitC0C1 =>
      if c.buf.length < 1537 then
        (1, c)
      else
        let offset := crypto.checkC1S1 c.handShake.isClient (c.buf.take 1537)
        if 0 ≤ offset then
          let h := c.handShake.createC2S2 crypto draws ((c.buf.drop 1).take 1536) offset.toNat
          (1, send atOnce
            { c with handShake := { h with state := .postS0S1 }, buf := c.buf.drop 1537 } h.c1s1)
        else
          (-1, c)
  | .waitC2 =>
      if c.buf.length < 1536 then
        (1, c)
      else if RtmpHandShake.checkC2S2 (c.buf.take 1536) then
        (0, { c with
          handShake := { c.handShake with state := .done }
          buf := c.buf.drop 1536 })
      else
        (-1, c)
  | .waitS0S1 => (1, c)
  | .waitS2 => (1, c)
  | _ => (1, c)

/-- `Parse`, with what it returns. -/
def parse (c : HandShakeEnd) (atOnce : Nat) : Int × HandShakeEnd :=
  match c.state with
  | .handShake =>
      let (ret, c) := c.handShakeStep crypto draws atOnce
      if ret = 0 then
        let c := c.toMessages
        if 0 < c.buf.length then
          (1, { c with receiver := c.receiver.onRead c.buf, buf := [] })
        else
          (ret, c)
      else if ret = 2 then
        (ret, { c with state := .watingDone })
      else
        (ret, c)
  | .watingDone => (0, c)
  | .message => (1, { c with receiver := c.receiver.onRead c.buf, buf := [] })

/-- `OnMessage` after a read. -/
def onRead (c : HandShakeEnd) (bytes : List UInt8) (atOnce : Nat) : HandShakeEnd :=
  if c.closed then
    c
  else
    let (ret, c) := { c with buf := c.buf ++ bytes }.parse crypto draws atOnce
    if ret = -1 then { c with closed := true } else c

/-! ### Reads -/

variable {crypto draws} {c c' : HandShakeEnd} {bytes : List UInt8} {atOnce : Nat}

theorem onRead_eq (hopen : c.closed = false) {ret : Int} (hret : ret ≠ -1)
    (hparse : parse crypto draws { c with buf := c.buf ++ bytes } atOnce = (ret, c')) :
  c.onRead crypto draws bytes atOnce = c'
  := by
  rw [onRead, if_neg (by rw [hopen]; exact Bool.false_ne_true), hparse]
  apply if_neg hret

/-- The handshake waits for more. -/
theorem parse_of_wait (hstate : c.state = .handShake)
    (hstep : c.handShakeStep crypto draws atOnce = (1, c')) :
  c.parse crypto draws atOnce = (1, c')
  := by
  rw [parse, hstate]
  dsimp only
  rw [hstep]
  rfl

/-- The handshake fails. -/
theorem parse_of_refused (hstate : c.state = .handShake)
    (hstep : c.handShakeStep crypto draws atOnce = (-1, c')) :
  c.parse crypto draws atOnce = (-1, c')
  := by
  rw [parse, hstate]
  dsimp only
  rw [hstep]
  rfl

/-- When the handshake fails, the connection is closed. -/
theorem onRead_of_refused (hopen : c.closed = false)
    (hparse : parse crypto draws { c with buf := c.buf ++ bytes } atOnce = (-1, c')) :
  c.onRead crypto draws bytes atOnce = { c' with closed := true }
  := by
  rw [onRead, if_neg (by rw [hopen]; exact Bool.false_ne_true), hparse]
  rfl

/-- The handshake is done, and the bytes behind it are read as chunks. -/
theorem parse_of_done (hstate : c.state = .handShake)
    (hstep : c.handShakeStep crypto draws atOnce = (0, c')) :
  c.parse crypto draws atOnce =
    if 0 < c'.buf.length then
      (1, { c'.toMessages with receiver := c'.receiver.onRead c'.buf, buf := [] })
    else
      (0, c'.toMessages)
  := by
  rw [parse, hstate]
  dsimp only
  rw [hstep]
  rfl

/-- Bytes are read as chunks. -/
theorem parse_message (hstate : c.state = .message) :
  c.parse crypto draws atOnce = (1, { c with receiver := c.receiver.onRead c.buf, buf := [] })
  := by
  rw [parse, hstate]

/-- A server sends no connect. -/
theorem toMessages_of_server (hserver : c.handShake.isClient = false) :
  c.toMessages = { c with state := .message }
  := by
  rw [toMessages, hserver]
  rfl

/-- Only in two states does a handshake look at what it has received. -/
theorem handShakeStep_of_ne (h0 : c.handShake.state ≠ .waitC0C1)
    (h2 : c.handShake.state ≠ .waitC2) :
  c.handShakeStep crypto draws atOnce = (1, c)
  := by
  rw [handShakeStep]
  split
  · contradiction
  · contradiction
  · rfl
  · rfl
  · rfl

theorem handShakeStep_shortC0C1 (hstate : c.handShake.state = .waitC0C1)
    (hshort : c.buf.length < 1537) :
  c.handShakeStep crypto draws atOnce = (1, c)
  := by
  rw [handShakeStep, hstate]
  apply if_pos hshort

/-- C0C1 is there and is accepted. -/
theorem handShakeStep_C0C1 (hstate : c.handShake.state = .waitC0C1)
    (hall : ¬ c.buf.length < 1537)
    (haccept : 0 ≤ crypto.checkC1S1 c.handShake.isClient (c.buf.take 1537)) :
  c.handShakeStep crypto draws atOnce =
    (1, send atOnce
      { c with
        handShake :=
          { c.handShake.createC2S2 crypto draws ((c.buf.drop 1).take 1536)
              (crypto.checkC1S1 c.handShake.isClient (c.buf.take 1537)).toNat with
            state := .postS0S1 }
        buf := c.buf.drop 1537 }
      (c.handShake.createC2S2 crypto draws ((c.buf.drop 1).take 1536)
        (crypto.checkC1S1 c.handShake.isClient (c.buf.take 1537)).toNat).c1s1)
  := by
  rw [handShakeStep, hstate]
  dsimp only
  rw [if_neg hall, if_pos haccept]

/-- C0C1 is there and is refused. -/
theorem handShakeStep_refused (hstate : c.handShake.state = .waitC0C1)
    (hall : ¬ c.buf.length < 1537)
    (hrefuse : ¬ 0 ≤ crypto.checkC1S1 c.handShake.isClient (c.buf.take 1537)) :
  c.handShakeStep crypto draws atOnce = (-1, c)
  := by
  rw [handShakeStep, hstate]
  dsimp only
  rw [if_neg hall, if_neg hrefuse]

theorem handShakeStep_shortC2 (hstate : c.handShake.state = .waitC2)
    (hshort : c.buf.length < 1536) :
  c.handShakeStep crypto draws atOnce = (1, c)
  := by
  rw [handShakeStep, hstate]
  apply if_pos hshort

/-- C2 is there. -/
theorem handShakeStep_C2 (hstate : c.handShake.state = .waitC2)
    (hall : ¬ c.buf.length < 1536) :
  c.handShakeStep crypto draws atOnce =
    (0, { c with
      handShake := { c.handShake with state := .done }
      buf := c.buf.drop 1536 })
  := by
  rw [handShakeStep, hstate]
  apply if_neg hall

end HandShakeEnd

namespace RtmpHandShake

/-- `CreateC2S2` makes the C2 or S2 and nothing else, whatever the state is. -/
theorem createC2S2_frame (crypto : HandShakeCrypto) (draws : HandShakeDraws)
    (h : RtmpHandShake) (state : RtmpHandShakeState) (data : List UInt8) (offset : Nat) :
  createC2S2 crypto draws { h with state := state } data offset =
      { createC2S2 crypto draws h data offset with state := state } ∧
    (createC2S2 crypto draws h data offset).c1s1 = h.c1s1 ∧
    (createC2S2 crypto draws h data offset).isClient = h.isClient
  := by
  simp only [createC2S2]
  split
  · exact ⟨rfl, rfl, rfl⟩
  · exact ⟨rfl, rfl, rfl⟩

end RtmpHandShake
