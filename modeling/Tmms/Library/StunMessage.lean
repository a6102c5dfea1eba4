import Mathlib.Data.List.Basic
import Tmms.Library.Endian

/-!
# STUN messages

How a STUN message is read: a header of twenty bytes with the length of what is behind it, and
attributes.  An attribute has its type, the length of its value, the value, and padding up to a
multiple of four bytes that its length does not count.  What protects a message is computed over
the bytes before the attribute that holds it, with the length in the header going up to the end of
that attribute.
-/

open Endian

namespace StunMessage

/-- An attribute and its position in the message. -/
structure Attribute where
  offset : Nat
  type : Nat
  value : List UInt8
  deriving DecidableEq, Repr

/-- How many bytes are behind a value. -/
def padding (length : Nat) : Nat := (4 - length % 4) % 4

/-- Reads attributes. -/
def parseAttributes (offset : Nat) (bytes : List UInt8) : Option (List Attribute) :=
  if _h : bytes = [] then
    some []
  else
    let length := beNat ((bytes.drop 2).take 2)
    let size := 4 + length + padding length
    if size ≤ bytes.length then
      (parseAttributes (offset + size) (bytes.drop size)).map
        (⟨offset, beNat (bytes.take 2), (bytes.drop 4).take length⟩ :: ·)
    else
      none
  termination_by bytes.length
  decreasing_by
    have := List.length_pos_iff.mpr _h
    rw [List.length_drop]
    omega

/-- A message. -/
structure Message where
  type : Nat
  transactionId : List UInt8
  attributes : List Attribute
  deriving DecidableEq, Repr

/-- Reads a message. -/
def Message.parse (bytes : List UInt8) : Option Message :=
  if 20 ≤ bytes.length ∧ beNat (bytes.take 2) < 2 ^ 14 ∧
      beNat ((bytes.drop 2).take 2) = bytes.length - 20 ∧
      beNat ((bytes.drop 4).take 4) = 0x2112A442 then
    (parseAttributes 20 (bytes.drop 20)).map fun attributes =>
      ⟨beNat (bytes.take 2), (bytes.drop 8).take 12, attributes⟩
  else
    none

/-- The bytes before an attribute, with the length up to the end of the attribute. -/
def protectedBytes (bytes : List UInt8) (a : Attribute) : List UInt8 :=
  bytes.take 2 ++ beBytes 2 (a.offset + 4 + a.value.length - 20) ++
    (bytes.take a.offset).drop 4

/-! ### Reading what is written -/

/-- The bytes of an attribute. -/
def attributeBytes (type : Nat) (value : List UInt8) : List UInt8 :=
  beBytes 2 type ++ (beBytes 2 value.length ++ (value ++ List.replicate (padding value.length) 0))

theorem length_attributeBytes (type : Nat) (value : List UInt8) :
  (attributeBytes type value).length = 4 + value.length + padding value.length
  := by
  rw [attributeBytes, List.length_append, List.length_append, List.length_append, length_beBytes,
    length_beBytes, List.length_replicate]
  omega

/-- A value that ends where the next attribute may start has no padding. -/
theorem attributeBytes_of_mod {value : List UInt8} (h : value.length % 4 = 0) (type : Nat) :
  attributeBytes type value = beBytes 2 type ++ beBytes 2 value.length ++ value
  := by
  rw [attributeBytes, padding, h, List.append_assoc]
  exact congrArg (fun bytes => beBytes 2 type ++ (beBytes 2 value.length ++ bytes))
    (List.append_nil value)

/-- An attribute ends where the next one may start. -/
theorem length_attributeBytes_mod (type : Nat) (value : List UInt8) :
  (attributeBytes type value).length % 4 = 0
  := by
  rw [length_attributeBytes, padding]
  omega

/-- The parts of an attribute in front of other bytes. -/
theorem attributeBytes_parts (type : Nat) (value rest : List UInt8) :
  (attributeBytes type value ++ rest).take 2 = beBytes 2 type ∧
    ((attributeBytes type value ++ rest).drop 2).take 2 = beBytes 2 value.length ∧
    ((attributeBytes type value ++ rest).drop 4).take value.length = value ∧
    (attributeBytes type value ++ rest).drop (4 + value.length + padding value.length) = rest
  := by
  have hbehind : (attributeBytes type value ++ rest).drop 2 =
      beBytes 2 value.length ++ (value ++ (List.replicate (padding value.length) 0 ++ rest))
    := by
    rw [attributeBytes, List.append_assoc, List.drop_left' (length_beBytes 2 _), List.append_assoc,
      List.append_assoc]
  refine ⟨?_, ?_, ?_, ?_⟩
  · rw [attributeBytes, List.append_assoc, List.take_left' (length_beBytes 2 _)]
  · rw [hbehind, List.take_left' (length_beBytes 2 _)]
  · have hfour := List.drop_drop (i := 2) (j := 2) (l := attributeBytes type value ++ rest)
    rw [← hfour, hbehind, List.drop_left' (length_beBytes 2 _), List.take_left' rfl]
  · exact List.drop_left' (length_attributeBytes type value)

theorem parseAttributes_nil (offset : Nat) : parseAttributes offset [] = some []
  := by rw [parseAttributes, dif_pos rfl]

theorem parseAttributes_attributeBytes {type : Nat} {value : List UInt8} (htype : type < 65536)
    (hvalue : value.length < 65536) (offset : Nat) (rest : List UInt8) :
  parseAttributes offset (attributeBytes type value ++ rest) =
    (parseAttributes (offset + (attributeBytes type value).length) rest).map (⟨offset, type, value⟩ :: ·)
  := by
  obtain ⟨hhead, hlength, hbody, hrest⟩ := attributeBytes_parts type value rest
  have hsize := length_attributeBytes type value
  have hnonempty : attributeBytes type value ++ rest ≠ []
    := by
    apply List.length_pos_iff.mp
    rw [List.length_append]
    omega
  have hfits : 4 + value.length + padding value.length ≤ (attributeBytes type value ++ rest).length
    := by
    rw [List.length_append]
    omega
  rw [parseAttributes, dif_neg hnonempty]
  dsimp only
  rw [hlength, beNat_beBytes_of_lt hvalue, if_pos hfits, hrest, hhead, beNat_beBytes_of_lt htype,
    hbody, hsize]

/-- The bytes of a header. -/
def headerBytes (type length : Nat) (id : List UInt8) : List UInt8 :=
  beBytes 2 type ++ (beBytes 2 length ++ (beBytes 4 0x2112A442 ++ id))

variable {type length : Nat} {id : List UInt8}

theorem length_headerBytes (type length : Nat) (hid : id.length = 12) :
  (headerBytes type length id).length = 20
  := by
  rw [headerBytes, List.length_append, List.length_append, List.length_append, length_beBytes,
    length_beBytes, length_beBytes, hid]

theorem headerBytes_append (type length : Nat) (id rest : List UInt8) :
  headerBytes type length id ++ rest =
    beBytes 2 type ++ (beBytes 2 length ++ (beBytes 4 0x2112A442 ++ (id ++ rest)))
  := by rw [headerBytes, List.append_assoc, List.append_assoc, List.append_assoc]

/-- The parts of a header in front of other bytes. -/
theorem headerBytes_parts (type length : Nat) (hid : id.length = 12) (rest : List UInt8) :
  (headerBytes type length id ++ rest).take 2 = beBytes 2 type ∧
    ((headerBytes type length id ++ rest).drop 2).take 2 = beBytes 2 length ∧
    ((headerBytes type length id ++ rest).drop 4).take 4 = beBytes 4 0x2112A442 ∧
    ((headerBytes type length id ++ rest).drop 8).take 12 = id ∧
    (headerBytes type length id ++ rest).drop 20 = rest
  := by
  have htwo : (headerBytes type length id ++ rest).drop 2 =
      beBytes 2 length ++ (beBytes 4 0x2112A442 ++ (id ++ rest))
    := by rw [headerBytes_append, List.drop_left' (length_beBytes 2 _)]
  have hfour : (headerBytes type length id ++ rest).drop 4 = beBytes 4 0x2112A442 ++ (id ++ rest)
    := by
    have hsplit := List.drop_drop (i := 2) (j := 2) (l := headerBytes type length id ++ rest)
    rw [← hsplit, htwo, List.drop_left' (length_beBytes 2 _)]
  have height : (headerBytes type length id ++ rest).drop 8 = id ++ rest
    := by
    have hsplit := List.drop_drop (i := 4) (j := 4) (l := headerBytes type length id ++ rest)
    rw [← hsplit, hfour, List.drop_left' (length_beBytes 4 _)]
  refine ⟨?_, ?_, ?_, ?_, ?_⟩
  · rw [headerBytes_append, List.take_left' (length_beBytes 2 _)]
  · rw [htwo, List.take_left' (length_beBytes 2 _)]
  · rw [hfour, List.take_left' (length_beBytes 4 _)]
  · rw [height, List.take_left' hid]
  · exact List.drop_left' (length_headerBytes type length hid)

/-- A message is read as its attributes are. -/
theorem Message.parse_headerBytes (htype : type < 2 ^ 14) {rest : List UInt8}
    (hlength : rest.length < 65536) (hid : id.length = 12) :
  Message.parse (headerBytes type rest.length id ++ rest) =
    (parseAttributes 20 rest).map fun attributes => ⟨type, id, attributes⟩
  := by
  obtain ⟨hhead, hsize, hcookie, htransaction, hrest⟩ := headerBytes_parts type rest.length hid rest
  have hall : (headerBytes type rest.length id ++ rest).length = 20 + rest.length
    := by rw [List.length_append, length_headerBytes type rest.length hid]
  rw [Message.parse, hhead, beNat_beBytes_of_lt (Nat.lt_trans htype (by decide)), hsize,
    beNat_beBytes_of_lt hlength, hcookie, htransaction, hrest, hall, if_pos]
  exact ⟨Nat.le_add_right 20 _, htype, (Nat.add_sub_cancel_left 20 _).symm,
    beNat_beBytes_of_lt (by decide)⟩

/-- What protects a message is computed over what is in front of it. -/
theorem protectedBytes_headerBytes (hid : id.length = 12) (front back : List UInt8) (a : Attribute)
    (ha : a.offset = 20 + front.length) :
  protectedBytes (headerBytes type length id ++ (front ++ back)) a =
    headerBytes type (front.length + 4 + a.value.length) id ++ front
  := by
  have hlength : a.offset + 4 + a.value.length - 20 = front.length + 4 + a.value.length
    := by omega
  have htake : (headerBytes type length id ++ (front ++ back)).take a.offset =
      headerBytes type length id ++ front
    := by
    rw [← List.append_assoc]
    apply List.take_left'
    rw [List.length_append, length_headerBytes type length hid, ha]
  have hfour : (headerBytes type length id ++ front).drop 4 =
      beBytes 4 0x2112A442 ++ (id ++ front)
    := by
    have hfirst : (beBytes 2 type ++ beBytes 2 length).length = 4
      := by rw [List.length_append, length_beBytes, length_beBytes]
    rw [headerBytes_append, ← List.append_assoc, List.drop_left' hfirst]
  rw [protectedBytes, hlength, htake, hfour, headerBytes_append,
    List.take_left' (length_beBytes 2 _), headerBytes_append, List.append_assoc]

end StunMessage
