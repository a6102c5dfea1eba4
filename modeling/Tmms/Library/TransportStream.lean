import Mathlib.Data.List.Basic
import Tmms.Library.Endian

/-!
# Transport streams

How packets of an MPEG transport stream, and the header of a packetized elementary stream in
them, are read.  A packet has 188 bytes: four bytes of header, an adaptation field if the
header says so, and a payload.  Reading fails unless everything fits: the adaptation field has
what its flags say and stuffing bytes, and the length of a PES packet is right or 0.

Clocks and times have 33 bits at 90 kHz, and begin again.  What is not after another time is at
most half the range before it.
-/

open Endian

namespace TransportStream

/-- An adaptation field: the clock reference, if there is one, and the number of stuffing
bytes. -/
structure AdaptationField where
  pcr : Option (List UInt8)
  stuffing : Nat
  deriving DecidableEq, Repr

/-- Reads what is behind the length of an adaptation field. -/
def AdaptationField.parse : List UInt8 → Option AdaptationField
  | [] => some ⟨none, 0⟩
  | flags :: fields =>
      if flags = 0x00 ∧ fields = List.replicate fields.length 0xff then
        some ⟨none, fields.length⟩
      else if flags = 0x10 ∧ 6 ≤ fields.length ∧
          fields.drop 6 = List.replicate (fields.length - 6) 0xff then
        some ⟨some (fields.take 6), fields.length - 6⟩
      else
        none

/-- A packet. -/
structure TsPacket where
  payloadUnitStart : Bool
  pid : Nat
  continuity : Nat
  adaptation : Option AdaptationField
  payload : List UInt8
  deriving DecidableEq, Repr

/-- Splits off the adaptation field, as the adaptation field control says. -/
def splitAdaptation (control : Nat) (body : List UInt8) :
    Option (Option AdaptationField × List UInt8) :=
  if control = 1 then
    some (none, body)
  else if control = 3 then
    match body with
    | [] => none
    | length :: rest =>
        if length.toNat ≤ rest.length then
          (AdaptationField.parse (rest.take length.toNat)).map fun field =>
            (some field, rest.drop length.toNat)
        else
          none
  else
    none

/-- Reads a packet. -/
def TsPacket.parse : List UInt8 → Option TsPacket
  | sync :: b1 :: b2 :: b3 :: body =>
      if sync = 0x47 ∧ b1.toNat / 128 = 0 ∧ b3.toNat / 64 = 0 ∧ body.length = 184 then
        (splitAdaptation (b3.toNat / 16 % 4) body).map fun (adaptation, payload) =>
          ⟨b1.toNat / 64 % 2 = 1, 256 * (b1.toNat % 32) + b2.toNat, b3.toNat % 16, adaptation,
            payload⟩
      else
        none
  | _ => none

/-- What a packet carries, whatever its header says of the stream: the adaptation field, if
there is one, and the payload. -/
def contents : List UInt8 → Option (Option AdaptationField × List UInt8)
  | sync :: _ :: _ :: b3 :: body =>
      if sync = 0x47 ∧ body.length = 184 then
        splitAdaptation (b3.toNat / 16 % 4) body
      else
        none
  | _ => none

/-- A packet of an elementary stream. -/
structure PesPacket where
  streamId : UInt8
  packetLength : Nat
  pts : Nat
  dts : Nat
  payload : List UInt8
  deriving DecidableEq, Repr

/-- Reads a time of 33 bits behind its four bits of marks. -/
def parseTimestamp (fourbits : Nat) : List UInt8 → Option Nat
  | [b0, b1, b2, b3, b4] =>
      if b0.toNat / 16 = fourbits ∧ b0.toNat % 2 = 1 ∧ b2.toNat % 2 = 1 ∧ b4.toNat % 2 = 1 then
        some (1073741824 * (b0.toNat / 2 % 8) + 32768 * ((256 * b1.toNat + b2.toNat) / 2)
          + (256 * b3.toNat + b4.toNat) / 2)
      else
        none
  | _ => none

/-- Reads the times that the flags announce: one for both, or two. -/
def parseTimestamps (flags : Nat) (fields : List UInt8) : Option (Nat × Nat) :=
  if flags = 2 then
    (parseTimestamp 2 fields).map fun pts => (pts, pts)
  else if flags = 3 then
    match parseTimestamp 3 (fields.take 5), parseTimestamp 1 (fields.drop 5) with
    | some pts, some dts => some (pts, dts)
    | _, _ => none
  else
    none

/-- Reads a packet of an elementary stream. -/
def PesPacket.parse : List UInt8 → Option PesPacket
  | p0 :: p1 :: p2 :: streamId :: l0 :: l1 :: marks :: flags :: headerLength :: rest =>
      let packetLength := 256 * l0.toNat + l1.toNat
      if p0 = 0 ∧ p1 = 0 ∧ p2 = 1 ∧ marks.toNat / 64 = 2 ∧ headerLength.toNat ≤ rest.length ∧
          (packetLength = 0 ∨ packetLength = 3 + rest.length) then
        (parseTimestamps (flags.toNat / 64) (rest.take headerLength.toNat)).map fun (pts, dts) =>
          ⟨streamId, packetLength, pts, dts, rest.drop headerLength.toNat⟩
      else
        none
  | _ => none

/-- The payloads of packets, one behind the other. -/
def payloads : List (List UInt8) → Option (List UInt8)
  | [] => some []
  | packet :: packets =>
      (contents packet).bind fun (_, payload) => (payloads packets).map (payload ++ ·)

/-- The data of the packet of an elementary stream that is cut into packets. -/
def elementaryData (packets : List (List UInt8)) : Option (List UInt8) :=
  (payloads packets).bind fun bytes => (PesPacket.parse bytes).map PesPacket.payload

/-- The times in the header of a packet of an elementary stream, which may go on in other packets
of the transport stream. -/
structure PesTimes where
  pts : Nat
  dts : Option Nat
  deriving DecidableEq, Repr

/-- Reads the times. -/
def PesTimes.parse : List UInt8 → Option PesTimes
  | p0 :: p1 :: p2 :: _ :: _ :: _ :: marks :: flags :: headerLength :: rest =>
      if p0 = 0 ∧ p1 = 0 ∧ p2 = 1 ∧ marks.toNat / 64 = 2 ∧ headerLength.toNat ≤ rest.length then
        (parseTimestamps (flags.toNat / 64) (rest.take headerLength.toNat)).map fun (pts, dts) =>
          ⟨pts, if flags.toNat / 64 = 2 then none else some dts⟩
      else
        none
  | _ => none

/-- The time of decoding is that of presentation, if it is left out. -/
def PesTimes.decoding (times : PesTimes) : Nat := times.dts.getD times.pts

/-- Reads a clock reference in ticks at 27 MHz: 33 bits at 90 kHz, six bits that say nothing, and
nine bits that count 300 ticks. -/
def parsePcr (bytes : List UInt8) : Option Nat :=
  if bytes.length = 6 then
    some (300 * (beNat bytes / 2 ^ 15) + beNat bytes % 2 ^ 9)
  else
    none

/-- A clock in ticks at 27 MHz is not after a time at 90 kHz. -/
def NotAfter (clock time : Nat) : Prop :=
  (300 * (time : Int) - clock) % (300 * 2 ^ 33) < 300 * 2 ^ 32

instance (clock time : Nat) : Decidable (NotAfter clock time) :=
  inferInstanceAs (Decidable ((300 * (time : Int) - clock) % (300 * 2 ^ 33) < 300 * 2 ^ 32))

/-! ### Reading -/

/-- What is read is a packet of 188 bytes. -/
theorem TsPacket.length_of_parse {b : List UInt8} {t : TsPacket} (h : TsPacket.parse b = some t) :
  b.length = 188
  := by
  match b, h with
  | sync :: b1 :: b2 :: b3 :: body, h =>
      rw [TsPacket.parse] at h
      split at h
      · rename_i hfits
        rw [List.length_cons, List.length_cons, List.length_cons, List.length_cons, hfits.2.2.2]
      · cases h

/-- A packet is read from what it carries, when its header has no errors. -/
theorem parse_of_contents {b1 b2 b3 : UInt8} {body payload : List UInt8}
    {adaptation : Option AdaptationField} (h1 : b1.toNat / 128 = 0) (h3 : b3.toNat / 64 = 0)
    (h : contents (0x47 :: b1 :: b2 :: b3 :: body) = some (adaptation, payload)) :
  TsPacket.parse (0x47 :: b1 :: b2 :: b3 :: body) =
    some ⟨b1.toNat / 64 % 2 = 1, 256 * (b1.toNat % 32) + b2.toNat, b3.toNat % 16, adaptation,
      payload⟩
  := by
  rw [contents] at h
  split at h
  · rename_i hlength
    rw [TsPacket.parse, if_pos ⟨rfl, h1, h3, hlength.2⟩, h]
    rfl
  · cases h

/-- A packet without an adaptation field. -/
theorem contents_of_payload {b1 b2 b3 : UInt8} {payload : List UInt8} (h3 : b3.toNat / 16 = 1)
    (hlength : payload.length = 184) :
  contents (0x47 :: b1 :: b2 :: b3 :: payload) = some (none, payload)
  := by
  rw [contents, if_pos ⟨rfl, hlength⟩, h3]
  rfl

/-- A packet with an adaptation field. -/
theorem contents_of_adaptation {b1 b2 b3 length : UInt8} {field payload : List UInt8}
    {adaptation : AdaptationField} (h3 : b3.toNat / 16 = 3) (hlength : length.toNat = field.length)
    (hfield : AdaptationField.parse field = some adaptation)
    (htotal : field.length + payload.length = 183) :
  contents (0x47 :: b1 :: b2 :: b3 :: length :: (field ++ payload)) =
    some (some adaptation, payload)
  := by
  have hbody : (length :: (field ++ payload)).length = 184
    := by
    rw [List.length_cons, List.length_append]
    omega
  have hle : length.toNat ≤ (field ++ payload).length
    := by
    rw [List.length_append]
    omega
  rw [contents, if_pos ⟨rfl, hbody⟩, h3, splitAdaptation, if_neg (by decide), if_pos (by decide)]
  rw [if_pos hle, List.take_left' hlength.symm, List.drop_left' hlength.symm, hfield]
  rfl

/-- Stuffing alone. -/
theorem parse_stuffing (n : Nat) :
  AdaptationField.parse (0x00 :: List.replicate n 0xff) = some ⟨none, n⟩
  := by
  rw [AdaptationField.parse, List.length_replicate]
  exact if_pos ⟨rfl, rfl⟩

/-- A clock reference, and stuffing. -/
theorem parse_pcr {pcr : List UInt8} (h : pcr.length = 6) (n : Nat) :
  AdaptationField.parse (0x10 :: (pcr ++ List.replicate n 0xff)) = some ⟨some pcr, n⟩
  := by
  have hlength : (pcr ++ List.replicate n (0xff : UInt8)).length = 6 + n
    := by rw [List.length_append, List.length_replicate, h]
  rw [AdaptationField.parse, if_neg (fun h => absurd h.1 (by decide)), List.drop_left' h,
    List.take_left' h, hlength, Nat.add_sub_cancel_left, if_pos ⟨rfl, Nat.le_add_right 6 n, rfl⟩]

/-- A packet of an elementary stream. -/
theorem parse_of_fields {streamId l0 l1 marks flags headerLength : UInt8}
    {fields data : List UInt8} {times : Nat × Nat} (hmarks : marks.toNat / 64 = 2)
    (hlength : headerLength.toNat = fields.length)
    (hpacket : 256 * l0.toNat + l1.toNat = 0 ∨
      256 * l0.toNat + l1.toNat = 3 + (fields.length + data.length))
    (htimes : parseTimestamps (flags.toNat / 64) fields = some times) :
  PesPacket.parse (0 :: 0 :: 1 :: streamId :: l0 :: l1 :: marks :: flags :: headerLength ::
      (fields ++ data)) =
    some ⟨streamId, 256 * l0.toNat + l1.toNat, times.1, times.2, data⟩
  := by
  have hle : headerLength.toNat ≤ (fields ++ data).length
    := by
    rw [List.length_append]
    omega
  rw [PesPacket.parse, if_pos, List.take_left' hlength.symm, List.drop_left' hlength.symm, htimes]
  · rfl
  · rw [List.length_append]
    rw [List.length_append] at hle
    exact ⟨rfl, rfl, rfl, hmarks, hle, hpacket⟩

/-- The times of a packet of an elementary stream. -/
theorem times_of_fields {streamId l0 l1 marks flags headerLength : UInt8}
    {fields data : List UInt8} {times : Nat × Nat} (hmarks : marks.toNat / 64 = 2)
    (hlength : headerLength.toNat = fields.length)
    (htimes : parseTimestamps (flags.toNat / 64) fields = some times) :
  PesTimes.parse (0 :: 0 :: 1 :: streamId :: l0 :: l1 :: marks :: flags :: headerLength ::
      (fields ++ data)) =
    some ⟨times.1, if flags.toNat / 64 = 2 then none else some times.2⟩
  := by
  have hle : headerLength.toNat ≤ (fields ++ data).length
    := by
    rw [List.length_append]
    omega
  rw [PesTimes.parse, if_pos ⟨rfl, rfl, rfl, hmarks, hle⟩, List.take_left' hlength.symm, htimes]
  rfl

end TransportStream
