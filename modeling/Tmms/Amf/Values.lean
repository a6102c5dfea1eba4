import Tmms.Amf.Turns
import Tmms.Base.Doubles

/-!
# AMF0 values

The values of AMF0 and the bytes that the format gives them, apart from what the program
decodes.  `Same` says that a decoded property is a value with a name.  A decoded number is a
`uint64_t` that is made a double again, and the bits of that double are compared.
-/

open BytesReader Endian

/-- The bytes of a string that are counted by two bytes. -/
structure ShortString where
  bytes : List UInt8
  short : bytes.length < 2 ^ 16

/-- The bytes of a string that are counted by four bytes. The size of a body is an `int`, so that
no longer one is in a body. -/
structure LongString where
  bytes : List UInt8
  short : bytes.length < 2 ^ 31

/-- The values of AMF0. The count of an ECMA array is only a hint, and a date has a time zone. -/
inductive Amf0 where
  | number (bits : UInt64)
  | boolean (b : Bool)
  | string (s : ShortString)
  | object (members : List (ShortString × Amf0))
  | null
  | undefined
  | ecmaArray (count : UInt32) (members : List (ShortString × Amf0))
  | strictArray (elements : List Amf0)
  | date (bits : UInt64) (zone : UInt16)
  | longString (s : LongString)

namespace ShortString

/-- A string behind its length. -/
def utf8 (s : ShortString) : List UInt8 := beBytes 2 s.bytes.length ++ s.bytes

end ShortString

namespace Amf0

/-- The type of a value. -/
def type : Amf0 → AMFDataType
  | number _ => .number
  | boolean _ => .boolean
  | string _ => .string
  | object _ => .object
  | null => .null
  | undefined => .undefined
  | ecmaArray _ _ => .ecmaArray
  | strictArray _ => .strictArray
  | date _ _ => .date
  | longString _ => .longString

/-- The code of the type of a value. -/
def code : Amf0 → UInt8
  | number _ => 0
  | boolean _ => 1
  | string _ => 2
  | object _ => 3
  | null => 5
  | undefined => 6
  | ecmaArray _ _ => 8
  | strictArray _ => 10
  | date _ _ => 11
  | longString _ => 12

/-- The end of the members of an object: an empty name, and the code that ends objects. -/
def objectEnd : List UInt8 := [0, 0, 9]

mutual

/-- The bytes of a value behind its type. -/
def payload : Amf0 → List UInt8
  | number bits => beBytes 8 bits.toNat
  | boolean b => [if b then 1 else 0]
  | string s => s.utf8
  | object members => membersBytes members ++ objectEnd
  | null => []
  | undefined => []
  | ecmaArray count members => beBytes 4 count.toNat ++ (membersBytes members ++ objectEnd)
  | strictArray elements => beBytes 4 elements.length ++ elementsBytes elements
  | date bits zone => beBytes 8 bits.toNat ++ beBytes 2 zone.toNat
  | longString s => beBytes 4 s.bytes.length ++ s.bytes

/-- The bytes of named values. -/
def membersBytes : List (ShortString × Amf0) → List UInt8
  | [] => []
  | (name, v) :: members => name.utf8 ++ v.code :: payload v ++ membersBytes members

/-- The bytes of values without names. -/
def elementsBytes : List Amf0 → List UInt8
  | [] => []
  | v :: elements => v.code :: payload v ++ elementsBytes elements

end

/-- The bytes of a value. -/
def bytes (v : Amf0) : List UInt8 := v.code :: v.payload

/-- The bytes of a named value. -/
def memberBytes (m : ShortString × Amf0) : List UInt8 := m.1.utf8 ++ m.2.bytes

mutual

/-- A property is a value with a name. -/
def Same (name : List UInt8) : Amf0 → AMFAny → Prop
  | number bits, .number n x => n = name ∧ x.map doubleOfUint64 = some bits
  | boolean b, .boolean n c => n = name ∧ c = b
  | string s, .string n t => n = name ∧ t = s.bytes
  | object members, .object n ps => n = name ∧ SameMembers members ps
  | null, .null => name = []
  | ecmaArray _ members, .object n ps => n = name ∧ SameMembers members ps
  | strictArray elements, .object n ps => n = name ∧ SameElements elements ps
  | date bits zone, .date n x offset =>
      n = name ∧ x.map doubleOfUint64 = some bits ∧ offset = zone
  | longString s, .longString n t => n = name ∧ t = s.bytes
  | _, _ => False

/-- Properties are named values. -/
def SameMembers : List (ShortString × Amf0) → List AMFAny → Prop
  | [], [] => True
  | (name, v) :: members, p :: ps => Same name.bytes v p ∧ SameMembers members ps
  | _, _ => False

/-- Properties are values without names. -/
def SameElements : List Amf0 → List AMFAny → Prop
  | [], [] => True
  | v :: elements, p :: ps => Same [] v p ∧ SameElements elements ps
  | _, _ => False

end

theorem membersBytes_cons (m : ShortString × Amf0) (members : List (ShortString × Amf0)) :
  membersBytes (m :: members) = memberBytes m ++ membersBytes members
  := by
  rw [membersBytes, memberBytes, bytes]

theorem ofByte_code (v : Amf0) :
  AMFDataType.ofByte v.code = v.type
  := by
  cases v <;> rfl

theorem type_ne_objectEnd (v : Amf0) :
  v.type ≠ .objectEnd
  := by
  cases v <;> rintro ⟨⟩

theorem code_ne_nine (v : Amf0) :
  v.code ≠ 9
  := by
  intro h
  have htype := ofByte_code v
  rw [h] at htype
  apply type_ne_objectEnd v htype.symm

/-! ### Reading what was written -/

theorem readUint16T_utf8 (s : ShortString) (rest : List UInt8) :
  (readUint16T (s.utf8 ++ rest)).toNat = s.bytes.length
  := by
  rw [ShortString.utf8, List.append_assoc, readUint16T, List.take_left' (length_beBytes 2 _),
    beNat_beBytes_of_lt s.short, UInt16.toNat_ofNat_of_lt' s.short]

theorem readUint32T_beBytes {n : Nat} (h : n < 2 ^ 32) (rest : List UInt8) :
  (readUint32T (beBytes 4 n ++ rest)).toNat = n
  := by
  rw [readUint32T, List.take_left' (length_beBytes 4 _), beNat_beBytes_of_lt h,
    UInt32.toNat_ofNat_of_lt' h]

theorem readUint64T_beBytes (bits : UInt64) (rest : List UInt8) :
  readUint64T (beBytes 8 bits.toNat ++ rest) = truncateDouble bits
  := by
  rw [readUint64T, List.take_left' (length_beBytes 8 _), beNat_beBytes_of_lt bits.toNat_lt,
    UInt64.ofNat_toNat]

theorem readUint24T_cons (x y z : UInt8) (rest : List UInt8) :
  (readUint24T (x :: y :: z :: rest)).toNat = x.toNat * 2 ^ 16 + y.toNat * 2 ^ 8 + z.toNat
  := by
  have hx := x.toNat_lt
  have hy := y.toNat_lt
  have hz := z.toNat_lt
  change (UInt32.ofNat (z.toNat + 256 * (y.toNat + 256 * (x.toNat + 256 * 0)))).toNat = _
  rw [UInt32.toNat_ofNat_of_lt']
  · omega
  · change _ < 2 ^ 32
    omega

theorem length_utf8 (s : ShortString) :
  s.utf8.length = s.bytes.length + 2
  := by
  rw [ShortString.utf8, List.length_append, length_beBytes, Nat.add_comm]

theorem drop_utf8 (s : ShortString) (rest : List UInt8) :
  ((s.utf8 ++ rest).drop 2).take s.bytes.length = s.bytes
  := by
  rw [ShortString.utf8, List.append_assoc, List.drop_left' (length_beBytes 2 _),
    List.take_left' rfl]

end Amf0

namespace AMFObject

open AMFAny Amf0

/-- The name and the type of a member are read. -/
theorem decodeTag_member {name : ShortString} (hname : name.bytes ≠ []) (v : Amf0)
    (rest : List UInt8) :
  decodeTag true (name.utf8 ++ v.code :: rest) =
    .ok (name.bytes, name.bytes.length + 2, v.type, rest)
  := by
  have hlen := readUint16T_utf8 name (v.code :: rest)
  have hlong : ¬ ((name.utf8 ++ v.code :: rest).length < 2 ∨
      (name.utf8 ++ v.code :: rest).length < name.bytes.length + 2)
    := by
    rw [List.length_append, length_utf8]
    omega
  have hdecode : decodeName (name.utf8 ++ v.code :: rest) =
      .ok (name.bytes, name.bytes.length + 2)
    := by
    rw [decodeName, hlen, if_neg hlong, drop_utf8, if_neg (by rwa [List.length_eq_zero_iff])]
  rw [decodeTag, if_pos rfl, hdecode]
  dsimp only
  rw [List.drop_left' (length_utf8 name)]
  dsimp only
  rw [ofByte_code]

/-- A member with a name is not taken for the end of an object. -/
theorem readUint24T_member_ne {name : ShortString} (hname : name.bytes ≠ [])
    (rest : List UInt8) :
  readUint24T (name.utf8 ++ rest) ≠ 9
  := by
  intro h9
  obtain ⟨c, tail, hcons⟩ := List.exists_cons_of_ne_nil hname
  have hlen : name.bytes.length = tail.length + 1 := by rw [hcons, List.length_cons]
  have hshort := name.short
  have hread := readUint24T_cons (.ofNat (name.bytes.length / 256)) (.ofNat name.bytes.length) c
    (tail ++ rest)
  have hutf8 : name.utf8 ++ rest =
      .ofNat (name.bytes.length / 256) :: .ofNat name.bytes.length :: c :: (tail ++ rest)
    := by
    rw [ShortString.utf8, List.append_assoc]
    nth_rewrite 2 [hcons]
    rfl
  rw [← hutf8, h9, UInt8.toNat_ofNat', UInt8.toNat_ofNat'] at hread
  change 9 = _ at hread
  omega

/-- A member with a name is decoded, and then what is behind it. -/
theorem decodeBody_member {name : ShortString} (hname : name.bytes ≠ []) (v : Amf0)
    (rest : List UInt8) :
  decodeBody true (memberBytes (name, v) ++ rest) =
    match decodeValueBody v.type name.bytes (v.payload ++ rest) with
    | .error e => .error e
    | .ok (ps, n) =>
      after ps (name.bytes.length + 3 + n) (decodeBody true ((v.payload ++ rest).drop n))
  := by
  have hbytes : memberBytes (name, v) ++ rest = name.utf8 ++ v.code :: (v.payload ++ rest)
    := by rw [memberBytes, bytes, List.append_assoc, List.cons_append]
  rw [hbytes]
  apply decodeBody_turn
  · rw [List.length_append, length_utf8, List.length_cons]
    omega
  · apply readUint24T_member_ne hname
  · apply decodeTag_member hname
  · apply type_ne_objectEnd

theorem decodeBody_objectEnd (has : Bool) (rest : List UInt8) :
  decodeBody has (objectEnd ++ rest) = .ok ([], 3)
  := by
  apply decodeBody_marker
  · simp [objectEnd]
  · rfl

/-! ### Values without parts -/

/-- What is decoded of a value without parts. -/
def leaf (name : List UInt8) : Amf0 → Option (List AMFAny)
  | .number bits => some [.number name (truncateDouble bits)]
  | .boolean b => some [.boolean name b]
  | .string s => some [.string name s.bytes]
  | .null => some [.null]
  | .undefined => some []
  | .date bits zone => some [.date name (truncateDouble bits) zone]
  | .longString s => some [.longString name s.bytes]
  | _ => none

theorem decodeLongString_longString (name : List UInt8) (s : LongString) (rest : List UInt8) :
  decodeLongString name (beBytes 4 s.bytes.length ++ s.bytes ++ rest) =
    .ok ([.longString name s.bytes], 4 + s.bytes.length)
  := by
  have hshort := s.short
  have hread := @readUint32T_beBytes s.bytes.length (by omega) (s.bytes ++ rest)
  rw [← List.append_assoc] at hread
  have hsum : (readUint32T (beBytes 4 s.bytes.length ++ s.bytes ++ rest) + 4).toNat =
      4 + s.bytes.length
    := by
    rw [UInt32.toNat_add, hread]
    change (s.bytes.length + 4) % 2 ^ 32 = _
    rw [Nat.mod_eq_of_lt (by omega), Nat.add_comm]
  have hlen : (beBytes 4 s.bytes.length ++ s.bytes ++ rest).length =
      4 + s.bytes.length + rest.length
    := by simp only [List.length_append, length_beBytes]
  have hdrop : ((beBytes 4 s.bytes.length ++ s.bytes ++ rest).drop 4).take s.bytes.length = s.bytes
    := by rw [List.append_assoc, List.drop_left' (length_beBytes 4 _), List.take_left' rfl]
  rw [decodeLongString]
  dsimp only
  rw [hsum, hread, hdrop, hlen, if_neg (by omega), if_neg (by omega), if_neg (by omega)]

/-- A value without parts is decoded, whatever follows it. -/
theorem decodeValueBody_leaf {name : List UInt8} {v : Amf0} {ps : List AMFAny}
    (h : leaf name v = some ps) (rest : List UInt8) :
  decodeValueBody v.type name (v.payload ++ rest) = .ok (ps, v.payload.length)
  := by
  cases v with
  | number bits =>
      cases h
      change decodeNumber name (beBytes 8 bits.toNat ++ rest) = _
      rw [decodeNumber, readUint64T_beBytes, if_pos (by simp), payload, length_beBytes]
  | boolean b =>
      cases h
      cases b <;> rfl
  | string s =>
      cases h
      change AMFAny.decodeString name (s.utf8 ++ rest) = _
      have hlen : (s.utf8 ++ rest).length = s.bytes.length + 2 + rest.length
        := by rw [List.length_append, length_utf8]
      rw [AMFAny.decodeString, readUint16T_utf8]
      dsimp only
      rw [drop_utf8, hlen, payload, length_utf8, if_neg (by omega), if_neg (by omega)]
  | null =>
      cases h
      rfl
  | undefined =>
      cases h
      rfl
  | date bits zone =>
      cases h
      change decodeDate name (beBytes 8 bits.toNat ++ beBytes 2 zone.toNat ++ rest) = _
      have hlen : (beBytes 8 bits.toNat ++ beBytes 2 zone.toNat ++ rest).length =
          10 + rest.length
        := by simp only [List.length_append, length_beBytes]
      rw [decodeDate, hlen, if_neg (by omega), List.append_assoc, readUint64T_beBytes,
        List.drop_left' (length_beBytes 8 _), readUint16T_toNat, payload, List.length_append,
        length_beBytes, length_beBytes]
  | longString s =>
      cases h
      change decodeLongString name (beBytes 4 s.bytes.length ++ s.bytes ++ rest) = _
      rw [decodeLongString_longString, payload, List.length_append, length_beBytes]
  | object members => cases h
  | ecmaArray count members => cases h
  | strictArray elements => cases h

/-! ### What is read in the wrong place -/

theorem after_eq_ok {ps qs : List AMFAny} {n m : Nat} {r : Decoded}
    (h : after ps n r = .ok (qs, m)) :
  ∃ qs' m', r = .ok (qs', m') ∧ qs = ps ++ qs' ∧ m = n + m'
  := by
  cases r with
  | error e => cases h
  | ok r =>
      cases h
      exact ⟨r.1, r.2, rfl, rfl, rfl⟩

/-- Where an empty name is read, the first byte of the name is taken for the type of a number,
which is zero. -/
theorem decodeBody_zeros {c : UInt8} {rest : List UInt8} {qs : List AMFAny} {n : Nat}
    (h : decodeBody true (0 :: 0 :: c :: rest) = .ok (qs, n)) :
  c = 9 ∧ qs = [] ∨
    ∃ qs' m, qs = .number [] (some 0) :: qs' ∧ decodeBody true (rest.drop 6) = .ok (qs', m) ∧
      n = 9 + m
  := by
  have h3 : 3 ≤ (0 :: 0 :: c :: rest).length
    := by
    simp only [List.length_cons]
    omega
  by_cases hc : c = 9
  · left
    rw [hc, decodeBody_marker (hc ▸ h3) rfl] at h
    cases h
    exact ⟨hc, rfl⟩
  · right
    have h9 : readUint24T (0 :: 0 :: c :: rest) ≠ 9
      := by
      intro h9
      have hread := readUint24T_cons 0 0 c rest
      rw [h9] at hread
      apply hc
      apply UInt8.toNat_inj.mp
      change 9 = 0 * 2 ^ 16 + 0 * 2 ^ 8 + c.toNat at hread
      change c.toNat = 9
      omega
    have htag : decodeTag true (0 :: 0 :: c :: rest) = .ok ([], 0, .number, 0 :: c :: rest) := rfl
    have hzero : readUint64T (0 :: c :: rest) = some 0
      := by
      apply truncateDouble_of_lt
      rw [List.take_succ_cons, beNat_zero_cons]
      have hlt := beNat_lt ((c :: rest).take 7)
      have hlen : ((c :: rest).take 7).length ≤ 7 := List.length_take_le 7 _
      have hpow : 256 ^ ((c :: rest).take 7).length ≤ 256 ^ 7 :=
        Nat.pow_le_pow_right (by decide) hlen
      rw [UInt64.toNat_ofNat']
      omega
    have hvalue : decodeValueBody .number [] (0 :: c :: rest) = decodeNumber [] (0 :: c :: rest) :=
      rfl
    rw [decodeBody_turn h3 h9 htag (by rintro ⟨⟩), hvalue, decodeNumber, hzero] at h
    split at h
    next h' =>
      split at h'
      · cases h'
      · cases h
    next ps m h' =>
      split at h'
      · cases h'
        obtain ⟨qs', m', hrest, hqs, hn⟩ := after_eq_ok h
        exact ⟨qs', m', hqs, hrest, hn⟩
      · cases h'

/-- Behind an empty name, only a number that is zero is decoded to what it was. -/
theorem same_zero {name : ShortString} {v : Amf0}
    (h : Same name.bytes v (.number [] (some 0))) :
  memberBytes (name, v) = List.replicate 11 0
  := by
  cases v with
  | number bits =>
      obtain ⟨hname, hbits⟩ := h
      cases hbits
      rw [memberBytes, ShortString.utf8, ← hname]
      rfl
  | _ => cases h

end AMFObject
