import Tmms.Amf.Values
import Tmms.Base.Strings

/-!
# Encoding commands

What `AMFAny` encodes and `RtmpContext` sends: strings, numbers, booleans, null markers and
objects of named strings, numbers and booleans.  The bytes are AMF0, and they are decoded again
except for three things.  A number that is no whole number comes back as another one, behind an
empty name two bytes are read twice, and a null or a boolean at the end is not read at all.
-/

open BytesReader Endian

namespace AMFAny

/-- `WriteNumber` of the double with these bits. -/
def writeNumber (value : UInt64) : List UInt8 := beBytes 8 value.toNat

/-- `EncodeNumber`. -/
def encodeNumber (dVal : UInt64) : List UInt8 := 0 :: writeNumber dVal

/-- `EncodeString`. -/
def encodeString (str : List UInt8) : List UInt8 := 2 :: (beBytes 2 str.length ++ str)

/-- `EncodeBoolean`. -/
def encodeBoolean (b : Bool) : List UInt8 := [1, if b then 1 else 0]

/-- `EncodeName`. -/
def encodeName (name : List UInt8) : List UInt8 := beBytes 2 name.length ++ name

/-- `EncodeNamedNumber`. -/
def encodeNamedNumber (name : List UInt8) (dVal : UInt64) : List UInt8 :=
  encodeName name ++ encodeNumber dVal

/-- `EncodeNamedString`. -/
def encodeNamedString (name value : List UInt8) : List UInt8 :=
  encodeName name ++ encodeString value

/-- `EncodeNamedBoolean`. -/
def encodeNamedBoolean (name : List UInt8) (bVal : Bool) : List UInt8 :=
  encodeName name ++ encodeBoolean bVal

end AMFAny

open AMFAny Amf0 AMFObject

/-- What a member of an object that is sent can be. -/
inductive CommandField where
  | number (bits : UInt64)
  | string (s : ShortString)
  | boolean (b : Bool)

namespace CommandField

/-- The bytes of a field with its name. -/
def encodeNamed (name : ShortString) : CommandField → List UInt8
  | number bits => encodeNamedNumber name.bytes bits
  | string s => encodeNamedString name.bytes s.bytes
  | boolean b => encodeNamedBoolean name.bytes b

def value : CommandField → Amf0
  | number bits => .number bits
  | string s => .string s
  | boolean b => .boolean b

/-- What a field is decoded to. -/
def property (name : List UInt8) : CommandField → AMFAny
  | number bits => .number name (truncateDouble bits)
  | string s => .string name s.bytes
  | boolean b => .boolean name b

/-- A number is a whole number. -/
def Kept : CommandField → Prop
  | number bits => IsWhole bits
  | _ => True

end CommandField

/-- What is sent in a command. -/
inductive CommandValue where
  | number (bits : UInt64)
  | string (s : ShortString)
  | boolean (b : Bool)
  | null
  | object (members : List (ShortString × CommandField))

namespace CommandValue

def encode : CommandValue → List UInt8
  | number bits => encodeNumber bits
  | string s => encodeString s.bytes
  | boolean b => encodeBoolean b
  | null => [5]
  | object members => 3 :: (members.flatMap (fun m => m.2.encodeNamed m.1) ++ [0x00, 0x00, 0x09])

def value : CommandValue → Amf0
  | number bits => .number bits
  | string s => .string s
  | boolean b => .boolean b
  | null => .null
  | object members => .object (members.map (fun m => (m.1, m.2.value)))

/-- The bytes of a command. -/
def encodeAll (vs : List CommandValue) : List UInt8 := vs.flatMap encode

/-- The bytes of a command are consumed and yield the values again. -/
def RoundTrips (vs : List CommandValue) : Prop :=
  ∃ ps, decodeBody false (encodeAll vs) = .ok (ps, (encodeAll vs).length) ∧
    SameElements (vs.map value) ps

/-- The numbers in a value are whole numbers, and the names in it are not empty. -/
def Kept : CommandValue → Prop
  | number bits => IsWhole bits
  | object members => ∀ m ∈ members, m.1.bytes ≠ [] ∧ m.2.Kept
  | _ => True

/-- A number does not begin as the end of an object does, and the names in an object are not
empty. -/
def Readable : CommandValue → Prop
  | number bits => bits.toNat / 2 ^ 48 ≠ 9
  | object members => ∀ m ∈ members, m.1.bytes ≠ []
  | _ => True

/-- What a value is decoded to. -/
def property : CommandValue → AMFAny
  | number bits => .number [] (truncateDouble bits)
  | string s => .string [] s.bytes
  | boolean b => .boolean [] b
  | null => .null
  | object members => .object [] (members.map (fun m => m.2.property m.1.bytes))

/-- A value takes three bytes at least. -/
def Long : CommandValue → Prop
  | boolean _ => False
  | null => False
  | _ => True

/-- Every value is kept, and the last one is no boolean and no null. -/
def Representable (vs : List CommandValue) : Prop :=
  (∀ v ∈ vs, v.Kept) ∧ ∀ v ∈ vs.getLast?, v.Long

end CommandValue

/-! ### Commands are AMF0 -/

theorem CommandField.encodeNamed_eq (name : ShortString) (f : CommandField) :
  f.encodeNamed name = memberBytes (name, f.value)
  := by
  cases f <;> rfl

theorem membersBytes_flatMap (members : List (ShortString × CommandField)) :
  membersBytes (members.map (fun m => (m.1, m.2.value))) =
    members.flatMap (fun m => m.2.encodeNamed m.1)
  := by
  induction members with
  | nil => rfl
  | cons m members ih =>
      rw [List.map_cons, membersBytes, List.flatMap_cons, ih, CommandField.encodeNamed_eq]
      rfl

/-- A value is encoded as AMF0 says. -/
theorem CommandValue.encode_eq (v : CommandValue) :
  v.encode = v.value.bytes
  := by
  cases v with
  | object members =>
      rw [encode, ← membersBytes_flatMap]
      rfl
  | _ => rfl

/-! ### Fields -/

theorem CommandField.leaf_value (name : List UInt8) (f : CommandField) :
  leaf name f.value = some [f.property name]
  := by
  cases f <;> rfl

theorem CommandField.same_property_iff (name : List UInt8) (f : CommandField) :
  Same name f.value (f.property name) ↔ f.Kept
  := by
  cases f with
  | number bits =>
      rw [Kept, ← doubleOfUint64_truncateDouble_iff]
      apply and_iff_right rfl
  | string s => exact iff_of_true ⟨rfl, rfl⟩ trivial
  | boolean b => exact iff_of_true ⟨rfl, rfl⟩ trivial

/-- A field is decoded, and then what is behind it. -/
theorem decodeBody_field {name : ShortString} (hname : name.bytes ≠ []) (f : CommandField)
    (rest : List UInt8) :
  decodeBody true (memberBytes (name, f.value) ++ rest) =
    after [f.property name.bytes] (memberBytes (name, f.value)).length (decodeBody true rest)
  := by
  have hlen : (memberBytes (name, f.value)).length = name.bytes.length + 3 + f.value.payload.length
    := by
    rw [memberBytes, List.length_append, length_utf8, bytes, List.length_cons]
    dsimp only
    omega
  rw [decodeBody_member hname, decodeValueBody_leaf (f.leaf_value name.bytes), hlen]
  dsimp only
  rw [List.drop_left' rfl]

/-! ### Empty names -/

/-- The members behind zeros that are left over are not decoded to themselves: as long as they
look right, more zeros are left over. -/
theorem not_sameMembers_behind (members : List (ShortString × Amf0)) (k : Nat)
    {rest : List UInt8} {qs : List AMFAny} {n : Nat}
    (h : decodeBody true (List.replicate (k + 2) 0 ++
      (membersBytes members ++ (objectEnd ++ rest))) = .ok (qs, n)) :
  ¬ SameMembers members qs
  := by
  induction members generalizing k qs n with
  | nil =>
      have hzeros : List.replicate (k + 2) 0 ++ (membersBytes [] ++ (objectEnd ++ rest)) =
          0 :: 0 :: 0 :: (List.replicate k 0 ++ 0 :: 9 :: rest)
        := by
        change List.replicate (k + 2) 0 ++ ([0] ++ 0 :: 9 :: rest) = _
        rw [← List.append_assoc, ← List.replicate_succ']
        rfl
      rw [hzeros] at h
      obtain ⟨hc, -⟩ | ⟨qs', m, hqs, -, -⟩ := decodeBody_zeros h
      · cases hc
      · rw [hqs]
        rintro ⟨⟩
  | cons m members ih =>
      intro hsame
      have hhead : List.replicate (k + 2) 0 ++
          (membersBytes (m :: members) ++ (objectEnd ++ rest)) =
            0 :: 0 :: (List.replicate k 0 ++ (membersBytes (m :: members) ++ (objectEnd ++ rest)))
        := by rw [List.replicate_succ, List.replicate_succ]; rfl
      obtain ⟨c, tail, htail⟩ : ∃ c tail,
          List.replicate k 0 ++ (membersBytes (m :: members) ++ (objectEnd ++ rest)) = c :: tail
        := by
        apply List.exists_cons_of_ne_nil
        simp [objectEnd]
      rw [hhead, htail] at h
      obtain ⟨-, hnone⟩ | ⟨qs', m', hqs, hrest, -⟩ := decodeBody_zeros h
      · rw [hnone] at hsame
        cases hsame
      · rw [hqs] at hsame
        have hbytes := same_zero hsame.1
        have hlater : tail.drop 6 =
            List.replicate (k + 2 + 2) 0 ++ (membersBytes members ++ (objectEnd ++ rest))
          := by
          have hzeros : List.replicate k 0 ++
              (membersBytes (m :: members) ++ (objectEnd ++ rest)) =
                0 :: (List.replicate 6 0 ++ (List.replicate (k + 2 + 2) 0 ++
                  (membersBytes members ++ (objectEnd ++ rest))))
            := by
            rw [membersBytes_cons, hbytes, List.append_assoc, ← List.append_assoc,
              List.replicate_append_replicate, ← List.append_assoc (List.replicate 6 0),
              List.replicate_append_replicate, ← List.cons_append, ← List.replicate_succ]
            congr 2
            omega
          rw [hzeros] at htail
          injection htail with _ htail
          rw [← htail, List.drop_left' List.length_replicate]
        rw [hlater] at hrest
        apply ih (k + 2) hrest hsame.2

/-! ### Objects -/

/-- The members of an object that is sent. -/
def fields (members : List (ShortString × CommandField)) : List (ShortString × Amf0) :=
  members.map (fun m => (m.1, m.2.value))

/-- Fields with names are decoded. -/
theorem decodeBody_fields {members : List (ShortString × CommandField)}
    (hnames : ∀ m ∈ members, m.1.bytes ≠ []) (rest : List UInt8) :
  decodeBody true (membersBytes (fields members) ++ rest) =
    after (members.map (fun m => m.2.property m.1.bytes)) (membersBytes (fields members)).length
      (decodeBody true rest)
  := by
  induction members with
  | nil =>
      change decodeBody true rest = after [] 0 (decodeBody true rest)
      cases decodeBody true rest with
      | error e => rfl
      | ok r => simp only [after, List.nil_append, Nat.zero_add]
  | cons m members ih =>
      obtain ⟨hname, hrest⟩ := List.forall_mem_cons.mp hnames
      rw [fields, List.map_cons, membersBytes_cons, List.append_assoc, decodeBody_field hname,
        ← fields, ih hrest, after_after, List.length_append]
      rfl

theorem sameMembers_fields {members : List (ShortString × CommandField)}
    (hkept : ∀ m ∈ members, m.2.Kept) :
  SameMembers (fields members) (members.map (fun m => m.2.property m.1.bytes))
  := by
  induction members with
  | nil => trivial
  | cons m members ih =>
      obtain ⟨hm, hrest⟩ := List.forall_mem_cons.mp hkept
      exact ⟨(m.2.same_property_iff m.1.bytes).mpr hm, ih hrest⟩

/-- Fields that are decoded to themselves have names and are kept, and nothing else is
consumed. -/
theorem kept_of_sameMembers {members : List (ShortString × CommandField)} {rest : List UInt8}
    {qs : List AMFAny} {n : Nat}
    (h : decodeBody true (membersBytes (fields members) ++ (objectEnd ++ rest)) = .ok (qs, n))
    (hsame : SameMembers (fields members) qs) :
  (∀ m ∈ members, m.1.bytes ≠ [] ∧ m.2.Kept) ∧ n = (membersBytes (fields members)).length + 3
  := by
  induction members generalizing qs n with
  | nil =>
      change decodeBody true (objectEnd ++ rest) = _ at h
      rw [decodeBody_objectEnd] at h
      cases h
      exact ⟨by simp, rfl⟩
  | cons m members ih =>
      rw [fields, List.map_cons] at h hsame
      by_cases hname : m.1.bytes = []
      · -- the two bytes of the empty name are read again
        have hbytes : membersBytes ((m.1, m.2.value) :: fields members) ++ (objectEnd ++ rest) =
            0 :: 0 :: m.2.value.code ::
              (m.2.value.payload ++ (membersBytes (fields members) ++ (objectEnd ++ rest)))
          := by
          rw [membersBytes, ShortString.utf8, hname, List.append_assoc]
          simp [beBytes, leBytes]
        have h' := h
        rw [← fields, hbytes] at h'
        obtain ⟨hnine, -⟩ | ⟨qs', m', hqs, hrest, -⟩ := decodeBody_zeros h'
        · exact absurd hnine (code_ne_nine _)
        · rw [hqs] at hsame
          have hzero := same_zero hsame.1
          exfalso
          have hlater : (m.2.value.payload ++
              (membersBytes (fields members) ++ (objectEnd ++ rest))).drop 6 =
                List.replicate (0 + 2) 0 ++ (membersBytes (fields members) ++ (objectEnd ++ rest))
            := by
            rw [memberBytes, ShortString.utf8, hname] at hzero
            have hpayload : m.2.value.payload = List.replicate 8 0
              := by
              injection hzero with _ hzero
              injection hzero with _ hzero
              injection hzero with _ hzero
            rw [hpayload]
            rfl
          rw [hlater] at hrest
          apply not_sameMembers_behind _ 0 hrest hsame.2
      · rw [membersBytes_cons, List.append_assoc, decodeBody_field hname, ← fields] at h
        obtain ⟨qs', n', hrest, rfl, rfl⟩ := after_eq_ok h
        obtain ⟨hm, hsame'⟩ := hsame
        obtain ⟨hkept, hn⟩ := ih hrest hsame'
        refine ⟨List.forall_mem_cons.mpr ⟨⟨hname, ?_⟩, hkept⟩, ?_⟩
        · apply (m.2.same_property_iff m.1.bytes).mp hm
        · rw [fields, List.map_cons, membersBytes_cons, List.length_append, hn, fields]
          omega

/-! ### Commands -/

namespace CommandValue

theorem encodeAll_cons (v : CommandValue) (vs : List CommandValue) :
  encodeAll (v :: vs) = v.value.code :: (v.value.payload ++ encodeAll vs)
  := by
  rw [encodeAll, List.flatMap_cons, encode_eq]
  rfl

/-- No value but a number is taken for the end of an object. -/
theorem readUint24T_ne {x : UInt8} {rest : List UInt8} (hx : x ≠ 0)
    (h3 : 3 ≤ (x :: rest).length) :
  readUint24T (x :: rest) ≠ 9
  := by
  intro h9
  match rest with
  | [] => simp at h3
  | [_] => simp at h3
  | y :: z :: rest =>
      have hread := readUint24T_cons x y z rest
      rw [h9] at hread
      change 9 = _ at hread
      apply hx
      apply UInt8.toNat_inj.mp
      change x.toNat = 0
      omega

/-- Nor is a number that does not begin so. -/
theorem readUint24T_number_ne {bits : UInt64} (h : bits.toNat / 2 ^ 48 ≠ 9) (rest : List UInt8) :
  readUint24T (0 :: (beBytes 8 bits.toNat ++ rest)) ≠ 9
  := by
  intro h9
  have hread := readUint24T_cons 0
    (.ofNat (bits.toNat / 256 / 256 / 256 / 256 / 256 / 256 / 256))
    (.ofNat (bits.toNat / 256 / 256 / 256 / 256 / 256 / 256))
    ((beBytes 8 bits.toNat ++ rest).drop 2)
  have hbytes : 0 :: (beBytes 8 bits.toNat ++ rest) =
      0 :: .ofNat (bits.toNat / 256 / 256 / 256 / 256 / 256 / 256 / 256) ::
        .ofNat (bits.toNat / 256 / 256 / 256 / 256 / 256 / 256) ::
          (beBytes 8 bits.toNat ++ rest).drop 2 := rfl
  have hlt := bits.toNat_lt
  have hnine : (9 : UInt32).toNat = 9 := rfl
  have hnone : (0 : UInt8).toNat = 0 := rfl
  rw [← hbytes, h9, UInt8.toNat_ofNat', UInt8.toNat_ofNat', hnine, hnone] at hread
  omega

/-- A whole number does not. -/
theorem Kept.readable {v : CommandValue} (h : v.Kept) :
  v.Readable
  := by
  cases v with
  | number bits =>
      change bits.toNat / 2 ^ 48 ≠ 9
      rcases h with hzero | ⟨⟨hlow, -⟩, -⟩
      · rw [hzero]
        decide
      · omega
  | object members => exact fun m hm => (h m hm).1
  | _ => trivial

/-- The value of a command without parts. -/
theorem decodeBody_cons_leaf {v : CommandValue} {vs : List CommandValue} {p : AMFAny}
    (h3 : 3 ≤ (encodeAll (v :: vs)).length) (h9 : readUint24T (encodeAll (v :: vs)) ≠ 9)
    (hleaf : leaf [] v.value = some [p]) :
  decodeBody false (encodeAll (v :: vs)) =
    after [p] (v.value.payload.length + 1) (decodeBody false (encodeAll vs))
  := by
  rw [encodeAll_cons] at *
  have htag : decodeTag false (v.value.code :: (v.value.payload ++ encodeAll vs)) =
      .ok ([], 0, v.value.type, v.value.payload ++ encodeAll vs)
    := by
    rw [← ofByte_code]
    rfl
  rw [decodeBody_property h3 h9 htag (type_ne_objectEnd _) (decodeValueBody_leaf hleaf _),
    List.drop_left' rfl, Nat.zero_add, Nat.add_comm]

/-- An object of a command. -/
theorem decodeBody_cons_object {members : List (ShortString × CommandField)}
    {vs : List CommandValue} :
  decodeBody false (encodeAll (object members :: vs)) =
    match decodeBody true (membersBytes (fields members) ++ (objectEnd ++ encodeAll vs)) with
    | .error e => .error e
    | .ok (qs, n) =>
      after [.object [] qs] (1 + n) (decodeBody false
        ((membersBytes (fields members) ++ (objectEnd ++ encodeAll vs)).drop n))
  := by
  have hbytes : encodeAll (object members :: vs) =
      3 :: (membersBytes (fields members) ++ (objectEnd ++ encodeAll vs))
    := by
    rw [encodeAll_cons, ← List.append_assoc]
    rfl
  have h3 : 3 ≤ (3 :: (membersBytes (fields members) ++ (objectEnd ++ encodeAll vs))).length
    := by
    simp only [objectEnd, List.length_cons, List.length_append]
    omega
  have h9 := @readUint24T_ne 3 _ (by decide) h3
  have htag : decodeTag false (3 :: (membersBytes (fields members) ++ (objectEnd ++ encodeAll vs))) =
      .ok ([], 0, .object, membersBytes (fields members) ++ (objectEnd ++ encodeAll vs)) := rfl
  have hvalue : decodeValueBody .object []
      (membersBytes (fields members) ++ (objectEnd ++ encodeAll vs)) =
        match decodeBody true (membersBytes (fields members) ++ (objectEnd ++ encodeAll vs)) with
        | .error e => .error e
        | .ok (ps, n) => .ok ([.object [] ps], n) := rfl
  rw [hbytes, decodeBody_turn h3 h9 htag (by rintro ⟨⟩), hvalue]
  cases decodeBody true (membersBytes (fields members) ++ (objectEnd ++ encodeAll vs)) with
  | error e => rfl
  | ok r => rfl

/-- A command takes three bytes, if its last value does. -/
theorem three_le_length {vs : List CommandValue} (h : vs ≠ []) (hlast : ∀ v ∈ vs.getLast?, v.Long) :
  3 ≤ (encodeAll vs).length
  := by
  induction vs with
  | nil => contradiction
  | cons v vs ih =>
      rw [encodeAll_cons, List.length_cons, List.length_append]
      by_cases hvs : vs = []
      · have hlong : v.Long
          := by
          apply hlast
          rw [hvs]
          rfl
        cases v with
        | number bits =>
            change 3 ≤ (beBytes 8 bits.toNat).length + _ + 1
            rw [length_beBytes]
            omega
        | string s =>
            change 3 ≤ s.utf8.length + _ + 1
            rw [length_utf8]
            omega
        | boolean b => cases hlong
        | null => cases hlong
        | object members =>
            change 3 ≤ (membersBytes (fields members) ++ objectEnd).length + _ + 1
            rw [List.length_append]
            simp only [objectEnd, List.length_cons]
            omega
      · have h3 := ih hvs (by
          intro w hw
          apply hlast
          rwa [List.getLast?_cons_of_ne_nil hvs])
        omega

/-- A value that is readable is not taken for the end of an object. -/
theorem readUint24T_encodeAll_ne {v : CommandValue} {vs : List CommandValue} (hread : v.Readable)
    (h3 : 3 ≤ (encodeAll (v :: vs)).length) :
  readUint24T (encodeAll (v :: vs)) ≠ 9
  := by
  rw [encodeAll_cons] at *
  cases v with
  | number bits => apply readUint24T_number_ne hread
  | string s => exact readUint24T_ne (by rintro ⟨⟩) h3
  | boolean b => exact readUint24T_ne (by rintro ⟨⟩) h3
  | null => exact readUint24T_ne (by rintro ⟨⟩) h3
  | object members => exact readUint24T_ne (by rintro ⟨⟩) h3

/-- A value is an object, or it is decoded to one property, which is the value if it is kept. -/
theorem leaf_cases (v : CommandValue) :
  (∃ members, v = object members) ∨
    (leaf [] v.value = some [v.property] ∧ (Same [] v.value v.property ↔ v.Kept))
  := by
  cases v with
  | object members => exact .inl ⟨members, rfl⟩
  | number bits => exact .inr ⟨rfl, (CommandField.number bits).same_property_iff []⟩
  | string s => exact .inr ⟨rfl, (CommandField.string s).same_property_iff []⟩
  | boolean b => exact .inr ⟨rfl, (CommandField.boolean b).same_property_iff []⟩
  | null => exact .inr ⟨rfl, iff_of_true rfl trivial⟩

theorem drop_fields (members : List (ShortString × CommandField)) (vs : List CommandValue) :
  (membersBytes (fields members) ++ (objectEnd ++ encodeAll vs)).drop
      ((membersBytes (fields members)).length + 3) =
    encodeAll vs
  := by
  rw [← List.append_assoc]
  apply List.drop_left'
  rw [List.length_append]
  rfl

theorem long_of_cons {v : CommandValue} {vs : List CommandValue}
    (h : ∀ w ∈ (v :: vs).getLast?, w.Long) :
  ∀ w ∈ vs.getLast?, w.Long
  := by
  intro w hw
  apply h
  cases vs with
  | nil => cases hw
  | cons u us => rwa [List.getLast?_cons_cons]

/-- A command whose values are readable and that does not end too early is decoded value by
value. -/
theorem decodeBody_encodeAll {vs : List CommandValue} (h : ∀ v ∈ vs, v.Readable)
    (hlast : ∀ v ∈ vs.getLast?, v.Long) :
  decodeBody false (encodeAll vs) = .ok (vs.map property, (encodeAll vs).length)
  := by
  induction vs with
  | nil => rfl
  | cons v vs ih =>
      obtain ⟨hread, hreads⟩ := List.forall_mem_cons.mp h
      have hdecode := ih hreads (long_of_cons hlast)
      have h3 := three_le_length (List.cons_ne_nil v vs) hlast
      have h9 := readUint24T_encodeAll_ne hread h3
      obtain ⟨members, rfl⟩ | ⟨hleaf, -⟩ := v.leaf_cases
      · have hfields := decodeBody_fields hread (objectEnd ++ encodeAll vs)
        rw [decodeBody_objectEnd] at hfields
        have hlen : (encodeAll (object members :: vs)).length =
            1 + ((membersBytes (fields members)).length + 3) + (encodeAll vs).length
          := by
          rw [encodeAll_cons, List.length_cons, List.length_append]
          change (membersBytes (fields members) ++ objectEnd).length + _ + 1 = _
          rw [List.length_append]
          change _ + 3 + _ + 1 = _
          omega
        rw [decodeBody_cons_object, hfields, hlen]
        dsimp only [after]
        rw [List.append_nil, drop_fields, hdecode]
        rfl
      · have hlen : (encodeAll (v :: vs)).length =
            v.value.payload.length + 1 + (encodeAll vs).length
          := by
          rw [encodeAll_cons, List.length_cons, List.length_append]
          omega
        rw [decodeBody_cons_leaf h3 h9 hleaf, hdecode, hlen]
        rfl

/-- Values that are kept are what they are decoded to. -/
theorem sameElements_property {vs : List CommandValue} (h : ∀ v ∈ vs, v.Kept) :
  SameElements (vs.map value) (vs.map property)
  := by
  induction vs with
  | nil => trivial
  | cons v vs ih =>
      obtain ⟨hkept, hrest⟩ := List.forall_mem_cons.mp h
      refine ⟨?_, ih hrest⟩
      obtain ⟨members, rfl⟩ | ⟨-, hp⟩ := v.leaf_cases
      · exact ⟨rfl, sameMembers_fields (fun m hm => (hkept m hm).2)⟩
      · exact hp.mpr hkept

/-- A command whose values are kept and that does not end too early is decoded to itself. -/
theorem roundTrips_of_representable {vs : List CommandValue} (h : Representable vs) :
  RoundTrips vs
  := ⟨vs.map property, decodeBody_encodeAll (fun v hv => (h.1 v hv).readable) h.2,
    sameElements_property h.1⟩

/-- A command that is decoded to itself has values that are kept, and the last one is long. -/
theorem representable_of_sameElements {vs : List CommandValue} {ps : List AMFAny} {n : Nat}
    (h : decodeBody false (encodeAll vs) = .ok (ps, n)) (hsame : SameElements (vs.map value) ps) :
  Representable vs
  := by
  induction vs generalizing ps n with
  | nil => exact ⟨by simp, by simp⟩
  | cons v vs ih =>
      have hsome : ps ≠ []
        := by
        rintro rfl
        cases hsame
      have h3 : 3 ≤ (encodeAll (v :: vs)).length
        := by
        by_contra hshort
        rw [decodeBody_short (Nat.lt_of_not_le hshort)] at h
        cases h
        contradiction
      have h9 : readUint24T (encodeAll (v :: vs)) ≠ 9
        := by
        intro h9
        rw [decodeBody_marker h3 h9] at h
        cases h
        contradiction
      obtain ⟨hkept, hrest⟩ : v.Kept ∧ Representable vs
        := by
        obtain ⟨members, rfl⟩ | ⟨hleaf, hp⟩ := v.leaf_cases
        · rw [decodeBody_cons_object] at h
          split at h
          next => cases h
          next qs m hqs =>
            obtain ⟨ps', n', hrest, rfl, -⟩ := after_eq_ok h
            obtain ⟨⟨-, hmembers⟩, hsame'⟩ := hsame
            obtain ⟨hkept, rfl⟩ := kept_of_sameMembers hqs hmembers
            rw [drop_fields] at hrest
            exact ⟨hkept, ih hrest hsame'⟩
        · rw [decodeBody_cons_leaf h3 h9 hleaf] at h
          obtain ⟨ps', n', hrest, rfl, -⟩ := after_eq_ok h
          exact ⟨hp.mp hsame.1, ih hrest hsame.2⟩
      refine ⟨List.forall_mem_cons.mpr ⟨hkept, hrest.1⟩, ?_⟩
      intro w hw
      by_cases hvs : vs = []
      · rw [hvs] at hw h3
        cases hw
        cases v with
        | boolean b => simp [encodeAll, encode, encodeBoolean] at h3
        | null => simp [encodeAll, encode] at h3
        | number bits => trivial
        | string s => trivial
        | object members => trivial
      · apply hrest.2
        rwa [List.getLast?_cons_of_ne_nil hvs] at hw

/-- A command is decoded to itself exactly if its numbers are whole, its names are not empty and
it ends with no boolean and no null. -/
theorem roundTrips_iff_representable (vs : List CommandValue) :
  RoundTrips vs ↔ Representable vs
  := by
  constructor
  · rintro ⟨ps, hdecode, hsame⟩
    apply representable_of_sameElements hdecode hsame
  · intro h
    apply roundTrips_of_representable h

/-- What `SendCreateStream` sends: the name, 4.0, and a null marker at the end. -/
def createStream : List CommandValue :=
  [.string ⟨ascii "createStream", by decide⟩, .number 0x4010000000000000, .null]

theorem not_roundTrips_createStream :
  ¬ RoundTrips createStream
  := by
  rintro ⟨ps, hdecode, hsame⟩
  apply (representable_of_sameElements hdecode hsame).2 .null
  rfl

end CommandValue
