import Mathlib.Data.List.Basic
import Tmms.Library.Endian

/-!
# Payloads of RTP packets

How an RTP packet is read, and how the units of an H.264 stream are taken from the payloads.  A
payload is a unit, or an aggregate of units with their lengths in front of them, or a fragment of a
unit.  The fragments of a unit are in the payloads one after another, the first and the last of
them are marked, and no fragment is both.  Reading fails where a payload is none of these, and
where a fragment does not follow the one before it.
-/

open Endian

namespace RtpPayload

/-- An RTP packet without padding or an extension. -/
structure RtpPacket where
  marker : Bool
  payloadType : Nat
  sequenceNumber : Nat
  timestamp : Nat
  ssrc : Nat
  payload : List UInt8
  deriving DecidableEq, Repr

/-- Reads a packet. -/
def RtpPacket.parse : List UInt8 → Option RtpPacket
  | b0 :: b1 :: rest =>
      let sources := 4 * (b0.toNat % 16)
      if b0.toNat / 16 = 8 ∧ 10 + sources ≤ rest.length then
        some {
          marker := b1.toNat / 128 = 1
          payloadType := b1.toNat % 128
          sequenceNumber := beNat (rest.take 2)
          timestamp := beNat ((rest.drop 2).take 4)
          ssrc := beNat ((rest.drop 6).take 4)
          payload := rest.drop (10 + sources) }
      else
        none
  | _ => none

/-- A packet with no contributing sources. -/
theorem RtpPacket.parse_fields (b1 : UInt8) {number timestamp ssrc : List UInt8}
    (hnumber : number.length = 2) (htimestamp : timestamp.length = 4) (hssrc : ssrc.length = 4)
    (payload : List UInt8) :
  RtpPacket.parse (0x80 :: b1 :: (number ++ (timestamp ++ (ssrc ++ payload)))) =
    some ⟨b1.toNat / 128 = 1, b1.toNat % 128, beNat number, beNat timestamp, beNat ssrc, payload⟩
  := by
  have hfits : 10 ≤ (number ++ (timestamp ++ (ssrc ++ payload))).length
    := by
    rw [List.length_append, List.length_append, List.length_append]
    omega
  have hsix : (number ++ (timestamp ++ (ssrc ++ payload))).drop 6 = ssrc ++ payload
    := by
    rw [← List.append_assoc]
    exact List.drop_left' (by rw [List.length_append, hnumber, htimestamp])
  have hten : (number ++ (timestamp ++ (ssrc ++ payload))).drop 10 = payload
    := by
    rw [← List.append_assoc, ← List.append_assoc]
    exact List.drop_left' (by
      rw [List.length_append, List.length_append, hnumber, htimestamp, hssrc])
  have hsources : 4 * ((0x80 : UInt8).toNat % 16) = 0 := rfl
  rw [RtpPacket.parse, hsources, Nat.add_zero, if_pos ⟨rfl, hfits⟩, hsix, hten, List.take_left' hnumber,
    List.drop_left' hnumber, List.take_left' htimestamp, List.take_left' hssrc]

/-- The number of a packet is in its third and fourth bytes. -/
theorem RtpPacket.sequenceNumber_of_parse {bytes : List UInt8} {p : RtpPacket}
    (h : RtpPacket.parse bytes = some p) :
  p.sequenceNumber = beNat ((bytes.drop 2).take 2)
  := by
  rcases bytes with _ | ⟨b0, _ | ⟨b1, rest⟩⟩
  · cases h
  · cases h
  · rw [RtpPacket.parse] at h
    split at h
    · rw [← Option.some.inj h]
      rfl
    · cases h

/-- The unit that the fragments read so far are the beginning of. -/
abbrev Pending := Option (List UInt8)

/-- Reads the units of an aggregate. -/
def splitAggregate (bytes : List UInt8) : Option (List (List UInt8)) :=
  if _h : bytes = [] then
    some []
  else
    let size := beNat (bytes.take 2)
    if 2 + size ≤ bytes.length then
      (splitAggregate (bytes.drop (2 + size))).map ((bytes.drop 2).take size :: ·)
    else
      none
  termination_by bytes.length
  decreasing_by
    have := List.length_pos_iff.mpr _h
    rw [List.length_drop]
    omega

/-- Reads a fragment, whose unit has the reference bits of the indicator and the type of the
header. -/
def feedFragment (pending : Pending) (indicator header : UInt8) (data : List UInt8) :
    Option (Pending × List (List UInt8)) :=
  let type := indicator &&& 0xe0 ||| header &&& 0x1f
  let start := header.toNat / 128 = 1
  let stop := header.toNat / 64 % 2 = 1
  match pending with
  | none => if start ∧ ¬ stop then some (some (type :: data), []) else none
  | some unit =>
      if ¬ start ∧ unit.head? = some type then
        if stop then some (none, [unit ++ data]) else some (some (unit ++ data), [])
      else
        none

/-- Reads a payload. -/
def feed (pending : Pending) : List UInt8 → Option (Pending × List (List UInt8))
  | [] => none
  | indicator :: rest =>
      let type := indicator.toNat % 32
      if 1 ≤ type ∧ type ≤ 23 ∧ pending = none then
        some (none, [indicator :: rest])
      else if type = 24 ∧ pending = none then
        (splitAggregate rest).map fun units => (none, units)
      else if type = 28 then
        match rest with
        | [] => none
        | header :: data => feedFragment pending indicator header data
      else
        none

/-- Reads payloads. -/
def feedAll (pending : Pending) : List (List UInt8) → Option (Pending × List (List UInt8))
  | [] => some (pending, [])
  | payload :: payloads =>
      (feed pending payload).bind fun (pending, units) =>
        (feedAll pending payloads).map fun (pending, later) => (pending, units ++ later)

/-- The units in payloads that end with no unit begun. -/
def depacketize (payloads : List (List UInt8)) : Option (List (List UInt8)) :=
  (feedAll none payloads).bind fun (pending, units) => if pending = none then some units else none

/-! ### Composition -/

variable {pending pending' : Pending} {payloads units : List (List UInt8)}

theorem feedAll_cons {payload : List UInt8} {first : List (List UInt8)}
    (h : feed pending payload = some (pending', first)) (payloads : List (List UInt8)) :
  feedAll pending (payload :: payloads) =
    (feedAll pending' payloads).map fun (pending, later) => (pending, first ++ later)
  := by
  rw [feedAll, h]
  rfl

/-- Payloads are read one part after another. -/
theorem feedAll_append (h : feedAll pending payloads = some (pending', units))
    (rest : List (List UInt8)) :
  feedAll pending (payloads ++ rest) =
    (feedAll pending' rest).map fun (pending, later) => (pending, units ++ later)
  := by
  induction payloads generalizing pending units with
  | nil =>
      obtain ⟨rfl, rfl⟩ := Prod.mk.inj (Option.some.inj h)
      change feedAll pending rest = _
      cases feedAll pending rest with
      | none => rfl
      | some result => rfl
  | cons payload payloads ih =>
      cases hfirst : feed pending payload with
      | none =>
          rw [feedAll, hfirst] at h
          cases h
      | some result =>
          obtain ⟨pending₁, first⟩ := result
          rw [feedAll_cons hfirst] at h
          cases hrest : feedAll pending₁ payloads with
          | none =>
              rw [hrest] at h
              cases h
          | some result =>
              obtain ⟨pending₂, later⟩ := result
              rw [hrest] at h
              obtain ⟨rfl, rfl⟩ := Prod.mk.inj (Option.some.inj h)
              rw [List.cons_append, feedAll_cons hfirst, ih hrest]
              cases feedAll pending₂ rest with
              | none => rfl
              | some result =>
                  change some (result.1, first ++ (later ++ result.2)) = some (result.1, _)
                  rw [← List.append_assoc]

theorem depacketize_of_feedAll (h : feedAll none payloads = some (none, units)) :
  depacketize payloads = some units
  := by
  rw [depacketize, h]
  rfl

/-- A unit in a payload of its own. -/
theorem feed_unit {type : UInt8} (data : List UInt8) (h : 1 ≤ type.toNat % 32)
    (h' : type.toNat % 32 ≤ 23) :
  feed none (type :: data) = some (none, [type :: data])
  := if_pos ⟨h, h', rfl⟩

/-- A fragment. -/
theorem feed_fragment {indicator : UInt8} (h : indicator.toNat % 32 = 28) (header : UInt8)
    (data : List UInt8) :
  feed pending (indicator :: header :: data) = feedFragment pending indicator header data
  := by
  change (if 1 ≤ indicator.toNat % 32 ∧ indicator.toNat % 32 ≤ 23 ∧ pending = none then
    some (none, [indicator :: header :: data]) else if indicator.toNat % 32 = 24 ∧ pending = none then
    _ else if indicator.toNat % 32 = 28 then _ else none) = _
  rw [h, if_neg fun hsmall => absurd hsmall.2.1 (by decide),
    if_neg fun haggregate => absurd haggregate.1 (by decide), if_pos rfl]

/-- An aggregate. -/
theorem feed_aggregate {indicator : UInt8} (h : indicator.toNat % 32 = 24) (bytes : List UInt8) :
  feed none (indicator :: bytes) = (splitAggregate bytes).map fun units => (none, units)
  := by
  change (if 1 ≤ indicator.toNat % 32 ∧ indicator.toNat % 32 ≤ 23 ∧ none = none then
    some (none, [indicator :: bytes]) else if indicator.toNat % 32 = 24 ∧ none = none then
    _ else _) = _
  rw [h, if_neg fun hsmall => absurd hsmall.2.1 (by decide), if_pos ⟨rfl, rfl⟩]

/-- The first unit of an aggregate. -/
theorem splitAggregate_cons {size unit rest : List UInt8} (hlength : size.length = 2)
    (hsize : beNat size = unit.length) :
  splitAggregate (size ++ unit ++ rest) = (splitAggregate rest).map (unit :: ·)
  := by
  have hnonempty : size ++ unit ++ rest ≠ []
    := by
    apply List.length_pos_iff.mp
    rw [List.length_append, List.length_append]
    omega
  have htake : beNat ((size ++ unit ++ rest).take 2) = unit.length
    := by rw [List.append_assoc, List.take_left' hlength, hsize]
  have hfits : 2 + unit.length ≤ (size ++ unit ++ rest).length
    := by
    rw [List.length_append, List.length_append]
    omega
  have hrest : (size ++ unit ++ rest).drop (2 + unit.length) = rest
    := List.drop_left' (by rw [List.length_append, hlength])
  have hunit : ((size ++ unit ++ rest).drop 2).take unit.length = unit
    := by rw [List.append_assoc, List.drop_left' hlength, List.take_left' rfl]
  rw [splitAggregate, dif_neg hnonempty]
  dsimp only
  rw [htake, if_pos hfits, hrest, hunit]

theorem splitAggregate_nil : splitAggregate [] = some []
  := by rw [splitAggregate, dif_pos rfl]

end RtpPayload
