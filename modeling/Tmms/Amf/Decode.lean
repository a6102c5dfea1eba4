import Tmms.Base.Bytes

/-!
# Decoding AMF0

`AMFObject::Decode`, `AMFObject::DecodeOnce` and the decoders of the elements.  A decoder is
given the bytes of the body from its position on, so the size passed along with the pointer
is their number, and skipping a field is dropping its bytes.

A decoder rejects by returning -1.  A read that leaves the body is an error of its own here:
the sources make no difference, and what they do from there on is not said.
-/

open BytesReader

/-- The data types, in the order of their codes. -/
inductive AMFDataType where
  | number | boolean | string | object | movieClip | null | undefined | reference | ecmaArray
  | objectEnd | strictArray | date | longString | unsupported | recordset | xmlDoc
  | typedObject | avmplus | invalid
  deriving DecidableEq, Repr

/-- The type of a type byte. No other type has a code. -/
def AMFDataType.ofByte (b : UInt8) : AMFDataType :=
  match b.toNat with
  | 0 => number
  | 1 => boolean
  | 2 => string
  | 3 => object
  | 4 => movieClip
  | 5 => null
  | 6 => undefined
  | 7 => reference
  | 8 => ecmaArray
  | 9 => objectEnd
  | 10 => strictArray
  | 11 => date
  | 12 => longString
  | 13 => unsupported
  | 14 => recordset
  | 15 => xmlDoc
  | 16 => typedObject
  | 17 => avmplus
  | _ => invalid

/-- A decoded value with its name. Arrays are decoded into objects, and a null value gets no
name. A number and a date have no value where the conversion they are read by is undefined. -/
inductive AMFAny where
  | number (name : List UInt8) (number : Option UInt64)
  | boolean (name : List UInt8) (b : Bool)
  | string (name : List UInt8) (s : List UInt8)
  | object (name : List UInt8) (properties : List AMFAny)
  | null
  | date (name : List UInt8) (utc : Option UInt64) (offset : UInt16)
  | longString (name : List UInt8) (s : List UInt8)

/-- Why nothing is decoded: -1 is returned, or bytes outside the body are read. A decoder
that is given too little fuel stops. -/
inductive DecodeError where
  | rejected
  | outOfBounds
  | outOfFuel
  deriving DecidableEq, Repr

namespace AMFAny

/-- The values decoded and the number of bytes consumed. -/
abbrev Decoded := Except DecodeError (List AMFAny × Nat)

/-- `AMFNumber::Decode`. -/
def decodeNumber (name b : List UInt8) : Decoded :=
  if 8 ≤ b.length then
    .ok ([.number name (readUint64T b)], 8)
  else
    .error .rejected

/-- `AMFBoolean::Decode`. -/
def decodeBoolean (name b : List UInt8) : Decoded :=
  if 1 ≤ b.length then
    .ok ([.boolean name (b.headD 0 != 0)], 1)
  else
    .error .rejected

/-- `AMFString::Decode`. -/
def decodeString (name b : List UInt8) : Decoded :=
  if b.length < 2 then
    .error .rejected
  else
    let len := (readUint16T b).toNat
    if b.length < len + 2 then
      .error .rejected
    else
      .ok ([.string name ((b.drop 2).take len)], len + 2)

/-- `AMFDate::Decode`. -/
def decodeDate (name b : List UInt8) : Decoded :=
  if b.length < 10 then
    .error .rejected
  else
    .ok ([.date name (readUint64T b) (readUint16T (b.drop 8))], 10)

/-- `AMFLongString::Decode`. The sum of the length and 4 is one of 32 bits. -/
def decodeLongString (name b : List UInt8) : Decoded :=
  if b.length < 4 then
    .error .rejected
  else
    let len := readUint32T b
    if b.length < (len + 4).toNat then
      .error .rejected
    else if b.length < len.toNat + 4 then
      .error .outOfBounds
    else
      .ok ([.longString name ((b.drop 4).take len.toNat)], (len + 4).toNat)

end AMFAny

namespace AMFObject

open AMFAny

/-- `DecodeString`: the name of a property and how many bytes are skipped for it, none for
an empty name. -/
def decodeName (b : List UInt8) : Except DecodeError (List UInt8 × Nat) :=
  let len := (readUint16T b).toNat
  if b.length < 2 ∨ b.length < len + 2 then
    .error .outOfBounds
  else
    .ok ((b.drop 2).take len, if len = 0 then 0 else len + 2)

/-- The name of a property if it has one, the size of its field, the type, and the bytes
behind the type. -/
def decodeTag (has : Bool) (b : List UInt8) :
    Except DecodeError (List UInt8 × Nat × AMFDataType × List UInt8) :=
  match if has then decodeName b else .ok ([], 0) with
  | .error e => .error e
  | .ok (name, k) =>
    match b.drop k with
    | [] => .error .outOfBounds
    | type :: rest => .ok (name, k, .ofByte type, rest)

/-- The elements of a strict array, decoded one by one. -/
def decodeItems (once : List UInt8 → Decoded) : Nat → List UInt8 → Decoded
  | 0, _ => .ok ([], 0)
  | count + 1, b =>
    match once b with
    | .error e => .error e
    | .ok (ps, n) =>
      match decodeItems once count (b.drop n) with
      | .error e => .error e
      | .ok (qs, m) => .ok (ps ++ qs, n + m)

/-- The switch over the types that `Decode` and `DecodeOnce` share, without the end of an
object. -/
def decodeValue (object once : List UInt8 → Decoded) (type : AMFDataType)
    (name b : List UInt8) : Decoded :=
  match type with
  | .number => decodeNumber name b
  | .boolean => decodeBoolean name b
  | .string => AMFAny.decodeString name b
  | .object =>
    match object b with
    | .error e => .error e
    | .ok (ps, n) => .ok ([.object name ps], n)
  | .null => .ok ([.null], 0)
  | .ecmaArray =>
    if b.length < 4 then
      .error .outOfBounds
    else
      match object (b.drop 4) with
      | .error e => .error e
      | .ok (ps, n) => .ok ([.object name ps], 4 + n)
  | .strictArray =>
    if b.length < 4 then
      .error .outOfBounds
    else
      -- the count is an `int`
      match decodeItems once (int32 (readUint32T b)).toNat (b.drop 4) with
      | .error e => .error e
      | .ok (ps, n) => .ok ([.object name ps], 4 + n)
  | .date => decodeDate name b
  | .longString => decodeLongString name b
  | _ => .ok ([], 0)

mutual

/-- `AMFObject::Decode`. -/
def decode : Nat → Bool → List UInt8 → Decoded
  | 0, _, _ => .error .outOfFuel
  | fuel + 1, has, b =>
    if b.length < 3 then
      .ok ([], 0)
    else if readUint24T b = 9 then
      .ok ([], 3)
    else
      match decodeTag has b with
      | .error e => .error e
      | .ok (name, k, type, rest) =>
        if type = .objectEnd then
          .ok ([], k + 1)
        else
          match decodeValue (decode fuel true) (decodeOnce fuel) type name rest with
          | .error e => .error e
          | .ok (ps, n) =>
            match decode fuel has (rest.drop n) with
            | .error e => .error e
            | .ok (qs, m) => .ok (ps ++ qs, k + 1 + n + m)

/-- `AMFObject::DecodeOnce`, which is only called with a name to read. -/
def decodeOnce : Nat → List UInt8 → Decoded
  | 0, _ => .error .outOfFuel
  | fuel + 1, b =>
    match decodeTag true b with
    | .error e => .error e
    | .ok (name, k, type, rest) =>
      if type = .objectEnd then
        .ok ([], k + 1)
      else
        match decodeValue (decode fuel true) (decodeOnce fuel) type name rest with
        | .error e => .error e
        | .ok (ps, n) => .ok (ps, k + 1 + n)

end

/-- `Decode` on a whole body. Every turn and every call consumes a byte, so one unit of fuel
more than there are bytes is enough. -/
def decodeBody (has : Bool) (b : List UInt8) : Decoded := decode (b.length + 1) has b

end AMFObject
