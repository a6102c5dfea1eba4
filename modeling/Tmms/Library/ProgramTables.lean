import Tmms.Library.Endian
import Tmms.Library.TransportStream

/-!
# Program tables

How the tables of a transport stream are read that say what is in the stream.  A section of a
table is in packets of its own: the first one is marked, a pointer of zero is in front of the
section, and bytes of ones are behind it.  A section ends with a checksum of what is before it,
by a function that is a parameter.  The association table has the identifiers of map tables, and
a map table has the types and the identifiers of elementary streams.  Tables with descriptors are
not read.
-/

open Endian

namespace TransportStream

/-- Packets of an identifier have a section in their payloads. -/
def Carries (pid : Nat) (bytes : List UInt8) (packets : List (List UInt8)) : Prop :=
  ∃ ts : List TsPacket, packets.map TsPacket.parse = ts.map some ∧
    (∀ t ∈ ts, t.pid = pid) ∧
    ts.map TsPacket.payloadUnitStart = true :: List.replicate (ts.length - 1) false ∧
    ∃ stuffing, ts.flatMap TsPacket.payload = 0x00 :: (bytes ++ List.replicate stuffing 0xff)

/-- A section. -/
structure TableSection where
  tableId : UInt8
  extension : Nat
  body : List UInt8
  deriving DecidableEq, Repr

/-- Reads a section. -/
def TableSection.parse (check : List UInt8 → UInt32) : List UInt8 → Option TableSection
  | tableId :: l0 :: l1 :: e0 :: e1 :: version :: number :: last :: rest =>
      let size := rest.length - 4
      if l0.toNat / 16 = 0xb ∧ 256 * (l0.toNat % 16) + l1.toNat = 5 + rest.length ∧
          4 ≤ rest.length ∧ version.toNat / 64 = 3 ∧ version.toNat % 2 = 1 ∧
          beNat (rest.drop size) =
            (check (tableId :: l0 :: l1 :: e0 :: e1 :: version :: number :: last ::
              rest.take size)).toNat then
        some ⟨tableId, 256 * e0.toNat + e1.toNat, rest.take size⟩
      else
        none
  | _ => none

/-- Reads the programs of an association table: their numbers, and the identifiers of their map
tables. -/
def parsePrograms : List UInt8 → Option (List (Nat × Nat))
  | [] => some []
  | n0 :: n1 :: p0 :: p1 :: rest =>
      (parsePrograms rest).map
        ((256 * n0.toNat + n1.toNat, 256 * (p0.toNat % 32) + p1.toNat) :: ·)
  | _ => none

/-- Reads the streams of a map table: their types and identifiers. -/
def parseStreams : List UInt8 → Option (List (UInt8 × Nat))
  | [] => some []
  | type :: p0 :: p1 :: i0 :: i1 :: rest =>
      if 256 * (i0.toNat % 16) + i1.toNat = 0 then
        (parseStreams rest).map ((type, 256 * (p0.toNat % 32) + p1.toNat) :: ·)
      else
        none
  | _ => none

/-- Reads a map table: the identifier of the clock reference, and the streams. -/
def parseMap : List UInt8 → Option (Nat × List (UInt8 × Nat))
  | c0 :: c1 :: i0 :: i1 :: rest =>
      if 256 * (i0.toNat % 16) + i1.toNat = 0 then
        (parseStreams rest).map fun streams => (256 * (c0.toNat % 32) + c1.toNat, streams)
      else
        none
  | _ => none

variable (check : List UInt8 → UInt32)

/-- Packets have a table with some body. -/
def CarriesTable (pid : Nat) (tableId : UInt8) (body : List UInt8)
    (packets : List (List UInt8)) : Prop :=
  ∃ bytes extension, Carries pid bytes packets ∧
    TableSection.parse check bytes = some ⟨tableId, extension, body⟩

/-- Packets have an association table with the identifier of a map table. -/
def IsAssociation (mapPid : Nat) (packets : List (List UInt8)) : Prop :=
  ∃ body programs, CarriesTable check 0 0x00 body packets ∧
    parsePrograms body = some programs ∧ mapPid ∈ programs.map Prod.snd

/-- Packets have a map table with a stream of some type and identifier. -/
def IsMap (mapPid : Nat) (stream : UInt8 × Nat) (packets : List (List UInt8)) : Prop :=
  ∃ body pcrPid streams, CarriesTable check mapPid 0x02 body packets ∧
    parseMap body = some (pcrPid, streams) ∧ stream ∈ streams

/-! ### Reading -/

/-- There is a packet. -/
theorem Carries.ne_nil {pid : Nat} {bytes : List UInt8} {packets : List (List UInt8)}
    (h : Carries pid bytes packets) :
  packets ≠ []
  := by
  rintro rfl
  obtain ⟨ts, hparse, -, hstarts, -⟩ := h
  cases ts with
  | nil => cases hstarts
  | cons t ts => cases hparse

variable {check}

/-- The length in a section is that of what is behind it. -/
theorem TableSection.length_of_parse {bytes : List UInt8} {s : TableSection}
    (h : TableSection.parse check bytes = some s) :
  256 * ((bytes.getD 1 0).toNat % 16) + (bytes.getD 2 0).toNat = (bytes.drop 3).length
  := by
  match bytes, h with
  | tableId :: l0 :: l1 :: e0 :: e1 :: version :: number :: last :: rest, h =>
      rw [TableSection.parse] at h
      split at h
      · rename_i hfits
        change 256 * (l0.toNat % 16) + l1.toNat = rest.length + 5
        rw [hfits.2.1, Nat.add_comm]
      · cases h

/-- A section with the right length and checksum. -/
theorem parse_of_section {tableId l0 l1 e0 e1 version number last : UInt8}
    {body crc : List UInt8} (hlength : l0.toNat / 16 = 0xb ∧
      256 * (l0.toNat % 16) + l1.toNat = 9 + body.length)
    (hversion : version.toNat / 64 = 3 ∧ version.toNat % 2 = 1) (hsize : crc.length = 4)
    (hcrc : beNat crc = (check (tableId :: l0 :: l1 :: e0 :: e1 :: version :: number :: last ::
      body)).toNat) :
  TableSection.parse check (tableId :: l0 :: l1 :: e0 :: e1 :: version :: number :: last ::
      (body ++ crc)) =
    some ⟨tableId, 256 * e0.toNat + e1.toNat, body⟩
  := by
  have hbody : (body ++ crc).length - 4 = body.length
    := by
    rw [List.length_append]
    omega
  rw [TableSection.parse, hbody, List.take_left' rfl, List.drop_left' rfl, List.length_append, hsize]
  apply if_pos
  refine ⟨hlength.1, ?_, ?_, hversion.1, hversion.2, hcrc⟩
  · rw [hlength.2]
    omega
  · omega

end TransportStream
