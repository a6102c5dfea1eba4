import Mathlib.Data.List.Basic

/-!
# Audio data transport streams

How a stream of AAC frames is read: each has a header of seven bytes, or nine with a checksum, which
says how long the frame is with its header.  The next frame begins where that length ends, so a
reader stays in step as long as the lengths are right, and a length that is shorter than the header
leads nowhere.
-/

namespace Adts

/-- What a header says. -/
structure Header where
  crcAbsent : Bool
  profile : Nat
  samplingFrequencyIndex : Nat
  channelConfiguration : Nat
  frameLength : Nat
  rawDataBlocks : Nat
  deriving DecidableEq, Repr

/-- The length of a header. -/
def Header.size (header : Header) : Nat := if header.crcAbsent then 7 else 9

/-- Reads the first seven bytes of a header. -/
def Header.parse : List UInt8 → Option (Header × List UInt8)
  | b0 :: b1 :: b2 :: b3 :: b4 :: b5 :: b6 :: rest =>
      if b0 = 0xff ∧ b1.toNat / 16 = 15 ∧ b1.toNat / 2 % 4 = 0 then
        some (⟨b1.toNat % 2 = 1, b2.toNat / 64, b2.toNat / 4 % 16,
          4 * (b2.toNat % 2) + b3.toNat / 64,
          2048 * (b3.toNat % 4) + 8 * b4.toNat + b5.toNat / 32, b6.toNat % 4⟩, rest)
      else
        none
  | _ => none

/-- A frame. -/
structure Frame where
  header : Header
  data : List UInt8
  deriving DecidableEq, Repr

/-- Reads frames up to the end. The first argument bounds how many there are. -/
def parseFrames : Nat → List UInt8 → Option (List Frame)
  | _, [] => some []
  | 0, _ :: _ => none
  | n + 1, b :: bytes =>
      (Header.parse (b :: bytes)).bind fun (header, rest) =>
        if header.size ≤ header.frameLength ∧ header.frameLength ≤ 7 + rest.length then
          (parseFrames n (rest.drop (header.frameLength - 7))).map
            (⟨header, (rest.take (header.frameLength - 7)).drop (header.size - 7)⟩ :: ·)
        else
          none

/-- Bytes are a header, whatever is behind them. -/
def Heads (head : List UInt8) (header : Header) : Prop :=
  ∀ rest, Header.parse (head ++ rest) = some (header, rest)

theorem Heads.ne_nil {head : List UInt8} {header : Header} (h : Heads head header) :
  ∃ b bytes, head = b :: bytes
  := by
  cases head with
  | nil => cases h []
  | cons b bytes => exact ⟨b, bytes, rfl⟩

/-- A frame is read, and the reader is in step with what is behind it. -/
theorem parseFrames_cons {head data : List UInt8} {header : Header} (h : Heads head header)
    (hcrc : header.crcAbsent = true) (hlength : header.frameLength = 7 + data.length) (n : Nat)
    (rest : List UInt8) :
  parseFrames (n + 1) ((head ++ data) ++ rest) = (parseFrames n rest).map (⟨header, data⟩ :: ·)
  := by
  have hparse := h (data ++ rest)
  obtain ⟨b, bytes, rfl⟩ := h.ne_nil
  have hsize : header.size = 7 := if_pos hcrc
  rw [List.append_assoc, List.cons_append] at *
  rw [parseFrames, hparse, Option.bind_some]
  dsimp only
  rw [hsize, hlength, Nat.add_sub_cancel_left, List.take_left' rfl, List.drop_left' rfl,
    Nat.sub_self, List.drop_zero, if_pos]
  rw [List.length_append]
  omega

/-- A frame that is shorter than its header is no frame. -/
theorem parseFrames_short {head : List UInt8} {header : Header} (h : Heads head header)
    (hlength : header.frameLength < header.size) (n : Nat) (rest : List UInt8) :
  parseFrames n (head ++ rest) = none
  := by
  have hparse := h rest
  obtain ⟨b, bytes, rfl⟩ := h.ne_nil
  rw [List.cons_append] at *
  cases n with
  | zero => rfl
  | succ n =>
      rw [parseFrames, hparse, Option.bind_some]
      exact if_neg fun hfits => Nat.not_lt_of_le hfits.1 hlength

end Adts
