import Tmms.Amf.Decode

/-!
# Bounds of AMF0 decoding

The decoders check the length of numbers, booleans, strings and dates.  They do not check
that the name of a property and the type byte behind it are inside the body, nor the count
of an array, and the check of a long string is void where its length and 4 do not add up in
32 bits.  `Cut` says that such a field does not fit, `Walk` where decoding gets to.  Decoding
stays inside the body, and returns -1 or a length within it, exactly when it gets to no field
that is cut.
-/

open BytesReader

namespace AMFObject

open AMFAny

/-! ### The parts of a body -/

/-- What is decoded at a position: the rest of an object with or without names, one named
property, the value of a property, or the elements of a strict array. -/
inductive Part where
  | object (has : Bool)
  | once
  | value (type : AMFDataType) (name : List UInt8)
  | values (count : Nat)

/-- Decoding a part. -/
def decodePart (fuel : Nat) : Part → List UInt8 → Decoded
  | .object has, b => decode fuel has b
  | .once, b => decodeOnce fuel b
  | .value type name, b => decodeValue (decode fuel true) (decodeOnce fuel) type name b
  | .values count, b => decodeItems (decodeOnce fuel) count b

/-- The count of a strict array. -/
def itemCount (b : List UInt8) : Nat := (int32 (readUint32T b)).toNat

/-- The size of the field of a name, as it is skipped. -/
def nameSize (b : List UInt8) : Nat :=
  if (readUint16T b).toNat = 0 then 0 else (readUint16T b).toNat + 2

/-- How many bytes a value without parts takes, where it fits. -/
def leafSize (type : AMFDataType) (b : List UInt8) : Option Nat :=
  match type with
  | .number => if 8 ≤ b.length then some 8 else none
  | .boolean => if 1 ≤ b.length then some 1 else none
  | .string =>
    if 2 ≤ b.length ∧ (readUint16T b).toNat + 2 ≤ b.length then
      some ((readUint16T b).toNat + 2)
    else
      none
  | .date => if 10 ≤ b.length then some 10 else none
  | .longString =>
    if 4 ≤ b.length ∧ (readUint32T b).toNat + 4 ≤ b.length then
      some (readUint32T b + 4).toNat
    else
      none
  | .object | .ecmaArray | .strictArray => none
  | _ => some 0

/-- How many bytes a part at the head of some bytes takes. -/
inductive Spans : Part → List UInt8 → Nat → Prop where
  | short {has : Bool} {b : List UInt8} (h3 : b.length < 3) : Spans (.object has) b 0
  | marker {has : Bool} {b : List UInt8} (h3 : 3 ≤ b.length) (h9 : readUint24T b = 9) :
      Spans (.object has) b 3
  | objectEnd {has : Bool} {b name rest : List UInt8} {k : Nat} (h3 : 3 ≤ b.length)
      (h9 : readUint24T b ≠ 9) (ht : decodeTag has b = .ok (name, k, .objectEnd, rest)) :
      Spans (.object has) b (k + 1)
  | property {has : Bool} {b name rest : List UInt8} {k n m : Nat} {type : AMFDataType}
      (h3 : 3 ≤ b.length) (h9 : readUint24T b ≠ 9)
      (ht : decodeTag has b = .ok (name, k, type, rest)) (hne : type ≠ .objectEnd)
      (hv : Spans (.value type name) rest n) (hr : Spans (.object has) (rest.drop n) m) :
      Spans (.object has) b (k + 1 + n + m)
  | onceEnd {b name rest : List UInt8} {k : Nat}
      (ht : decodeTag true b = .ok (name, k, .objectEnd, rest)) : Spans .once b (k + 1)
  | once {b name rest : List UInt8} {k n : Nat} {type : AMFDataType}
      (ht : decodeTag true b = .ok (name, k, type, rest)) (hne : type ≠ .objectEnd)
      (hv : Spans (.value type name) rest n) : Spans .once b (k + 1 + n)
  | leaf {type : AMFDataType} {name b : List UInt8} {n : Nat} (h : leafSize type b = some n) :
      Spans (.value type name) b n
  | object {name b : List UInt8} {n : Nat} (h : Spans (.object true) b n) :
      Spans (.value .object name) b n
  | ecmaArray {name b : List UInt8} {n : Nat} (h4 : 4 ≤ b.length)
      (h : Spans (.object true) (b.drop 4) n) : Spans (.value .ecmaArray name) b (4 + n)
  | strictArray {name b : List UInt8} {n : Nat} (h4 : 4 ≤ b.length)
      (h : Spans (.values (itemCount b)) (b.drop 4) n) :
      Spans (.value .strictArray name) b (4 + n)
  | none {b : List UInt8} : Spans (.values 0) b 0
  | some {b : List UInt8} {count n m : Nat} (h : Spans .once b n)
      (hr : Spans (.values count) (b.drop n) m) : Spans (.values (count + 1)) b (n + m)

/-- Decoding a part gets to decoding another part. -/
inductive Walk : Part → List UInt8 → Part → List UInt8 → Prop where
  | refl (p : Part) (b : List UInt8) : Walk p b p b
  | value {has : Bool} {b name rest c : List UInt8} {k : Nat} {type : AMFDataType} {q : Part}
      (h3 : 3 ≤ b.length) (h9 : readUint24T b ≠ 9)
      (ht : decodeTag has b = .ok (name, k, type, rest)) (hne : type ≠ .objectEnd)
      (w : Walk (.value type name) rest q c) : Walk (.object has) b q c
  | next {has : Bool} {b name rest c : List UInt8} {k n : Nat} {type : AMFDataType} {q : Part}
      (h3 : 3 ≤ b.length) (h9 : readUint24T b ≠ 9)
      (ht : decodeTag has b = .ok (name, k, type, rest)) (hne : type ≠ .objectEnd)
      (hv : Spans (.value type name) rest n) (w : Walk (.object has) (rest.drop n) q c) :
      Walk (.object has) b q c
  | onceValue {b name rest c : List UInt8} {k : Nat} {type : AMFDataType} {q : Part}
      (ht : decodeTag true b = .ok (name, k, type, rest)) (hne : type ≠ .objectEnd)
      (w : Walk (.value type name) rest q c) : Walk .once b q c
  | object {name b c : List UInt8} {q : Part} (w : Walk (.object true) b q c) :
      Walk (.value .object name) b q c
  | ecmaArray {name b c : List UInt8} {q : Part} (h4 : 4 ≤ b.length)
      (w : Walk (.object true) (b.drop 4) q c) : Walk (.value .ecmaArray name) b q c
  | strictArray {name b c : List UInt8} {q : Part} (h4 : 4 ≤ b.length)
      (w : Walk (.values (itemCount b)) (b.drop 4) q c) : Walk (.value .strictArray name) b q c
  | item {b c : List UInt8} {count : Nat} {q : Part} (w : Walk .once b q c) :
      Walk (.values (count + 1)) b q c
  | items {b c : List UInt8} {count n : Nat} {q : Part} (h : Spans .once b n)
      (w : Walk (.values count) (b.drop n) q c) : Walk (.values (count + 1)) b q c

/-- A field that is read without a check does not fit: the name of a property and its type,
the count of an array, or a long string whose length and 4 are within the size in 32 bits
only. -/
def Cut : Part → List UInt8 → Prop
  | .object true, b => 3 ≤ b.length ∧ readUint24T b ≠ 9 ∧ b.length < nameSize b + 1
  | .once, b => b.length < 2 ∨ b.length < nameSize b + 1
  | .value .ecmaArray _, b => b.length < 4
  | .value .strictArray _, b => b.length < 4
  | .value .longString _, b =>
    4 ≤ b.length ∧ (readUint32T b + 4).toNat ≤ b.length ∧ b.length < (readUint32T b).toNat + 4
  | _, _ => False

/-! ### Names and types -/

theorem decodeName_cases (b : List UInt8) :
  (b.length < 2 ∨ b.length < (readUint16T b).toNat + 2) ∧
      decodeName b = .error .outOfBounds ∨
    2 ≤ b.length ∧ (readUint16T b).toNat + 2 ≤ b.length ∧
      decodeName b = .ok ((b.drop 2).take (readUint16T b).toNat, nameSize b)
  := by
  rw [decodeName, nameSize]
  by_cases h : b.length < 2 ∨ b.length < (readUint16T b).toNat + 2
  · left
    use h
    simp only [if_pos h]
  · right
    use by omega, by omega
    simp only [if_neg h]

/-- A name and a type are read inside the body, or the read leaves it and the field is cut. -/
theorem decodeTag_true (b : List UInt8) :
  (b.length < 2 ∨ b.length < nameSize b + 1) ∧ decodeTag true b = .error .outOfBounds ∨
    ∃ name type rest, decodeTag true b = .ok (name, nameSize b, type, rest) ∧
      nameSize b + 1 + rest.length = b.length
  := by
  obtain ⟨hcut, hname⟩ | ⟨h2, hlen, hname⟩ := decodeName_cases b
  · left
    constructor
    · rw [nameSize]
      split <;> omega
    · simp only [decodeTag, if_true, hname]
  · cases hdrop : b.drop (nameSize b) with
    | nil =>
        have hle := List.drop_eq_nil_iff.mp hdrop
        left
        use by omega
        simp only [decodeTag, if_true, hname, hdrop]
    | cons x rest =>
        have hsize := congrArg List.length hdrop
        rw [List.length_drop, List.length_cons] at hsize
        right
        use (b.drop 2).take (readUint16T b).toNat, .ofByte x, rest
        constructor
        · simp only [decodeTag, if_true, hname, hdrop]
        · omega

/-- Without names a type is read wherever there is a byte. -/
theorem decodeTag_false {b : List UInt8} (h : 0 < b.length) :
  ∃ type rest, decodeTag false b = .ok ([], 0, type, rest) ∧ 0 + 1 + rest.length = b.length
  := by
  cases b with
  | nil => cases h
  | cons x rest =>
      use .ofByte x, rest, rfl
      rw [List.length_cons]
      omega

/-- What is left behind a type. -/
theorem decodeTag_length {has : Bool} {b name rest : List UInt8} {k : Nat} {type : AMFDataType}
    (ht : decodeTag has b = .ok (name, k, type, rest)) :
  k + 1 + rest.length = b.length
  := by
  cases has with
  | true =>
      obtain ⟨-, he⟩ | ⟨name', type', rest', hok, hlen⟩ := decodeTag_true b
      · cases he.symm.trans ht
      · cases hok.symm.trans ht
        apply hlen
  | false =>
      cases b with
      | nil => cases ht
      | cons x rest' =>
          cases ht
          rw [List.length_cons]
          omega

/-- In an object that goes on, a tag is not read only where it is cut. -/
theorem cut_of_decodeTag {has : Bool} {b : List UInt8} {e : DecodeError} (h3 : 3 ≤ b.length)
    (h9 : readUint24T b ≠ 9) (ht : decodeTag has b = .error e) :
  e = .outOfBounds ∧ Cut (.object has) b
  := by
  cases has with
  | true =>
      obtain ⟨hcut, he⟩ | ⟨_, _, _, hok, -⟩ := decodeTag_true b
      · cases he.symm.trans ht
        use rfl, h3, h9
        omega
      · cases hok.symm.trans ht
  | false =>
      obtain ⟨_, _, hok, -⟩ := decodeTag_false (b := b) (by omega)
      cases hok.symm.trans ht

/-! ### The element decoders -/

/-- The result is that of a value without parts: its size if it fits, else -1. -/
def LeafResult (type : AMFDataType) (b : List UInt8) : Decoded → Prop
  | .ok (_, n) => leafSize type b = some n ∧ n ≤ b.length
  | .error .rejected => leafSize type b = none
  | .error .outOfBounds => False
  | .error .outOfFuel => False

theorem decodeNumber_result (name b : List UInt8) :
  LeafResult .number b (decodeNumber name b)
  := by
  rw [decodeNumber]
  split
  next h => use if_pos h, h
  next h => apply if_neg h

theorem decodeBoolean_result (name b : List UInt8) :
  LeafResult .boolean b (decodeBoolean name b)
  := by
  rw [decodeBoolean]
  split
  next h => use if_pos h, h
  next h => apply if_neg h

theorem decodeString_result (name b : List UInt8) :
  LeafResult .string b (AMFAny.decodeString name b)
  := by
  rw [AMFAny.decodeString]
  split
  next h2 =>
    apply if_neg
    omega
  next h2 =>
    dsimp only
    split
    next h =>
      apply if_neg
      omega
    next h =>
      constructor
      · apply if_pos
        omega
      · apply Nat.le_of_not_lt h

theorem decodeDate_result (name b : List UInt8) :
  LeafResult .date b (decodeDate name b)
  := by
  rw [decodeDate]
  split
  next h =>
    apply if_neg
    omega
  next h =>
    constructor
    · apply if_pos
      omega
    · apply Nat.le_of_not_lt h

/-- The sum of 32 bits is at most the sum. -/
theorem toNat_add_four_le (len : UInt32) :
  (len + 4).toNat ≤ len.toNat + 4
  := by
  rw [UInt32.toNat_add]
  apply Nat.mod_le

/-- A long string stays inside the body where its length and 4 add up, or do not fit. -/
theorem decodeLongString_result {name b : List UInt8}
    (hcut : ¬ Cut (.value .longString name) b) :
  LeafResult .longString b (decodeLongString name b)
  := by
  have hle := toNat_add_four_le (readUint32T b)
  rw [decodeLongString]
  split
  next h4 =>
    apply if_neg
    omega
  next h4 =>
    dsimp only
    split
    next hsum =>
      apply if_neg
      omega
    next hsum =>
      split
      next hlen =>
        apply hcut
        exact ⟨by omega, by omega, hlen⟩
      next hlen =>
        constructor
        · apply if_pos
          omega
        · apply Nat.le_of_not_lt hsum

/-- Values without parts that are not cut. -/
theorem decodeValue_result {object once : List UInt8 → Decoded} {type : AMFDataType}
    {name b : List UInt8} (hobject : type ≠ .object) (hecma : type ≠ .ecmaArray)
    (hstrict : type ≠ .strictArray) (hcut : ¬ Cut (.value type name) b) :
  LeafResult type b (decodeValue object once type name b)
  := by
  cases type with
  | object => contradiction
  | ecmaArray => contradiction
  | strictArray => contradiction
  | number => apply decodeNumber_result
  | boolean => apply decodeBoolean_result
  | string => apply decodeString_result
  | date => apply decodeDate_result
  | longString => apply decodeLongString_result hcut
  | _ => use rfl, Nat.zero_le _

/-! ### What decoding does -/

/-- A result accounted for by what is there: a length within the bytes that the part spans, a
rejection, or a read outside the body at a cut field decoding gets to. -/
def Accounted (p : Part) (b : List UInt8) : Decoded → Prop
  | .ok (_, n) => Spans p b n ∧ n ≤ b.length
  | .error .rejected => True
  | .error .outOfBounds => ∃ q c, Walk p b q c ∧ Cut q c
  | .error .outOfFuel => False

/-- A result of a part on the way accounts for the result of the whole. -/
theorem Accounted.error {p q : Part} {b c : List UInt8} {e : DecodeError}
    (h : Accounted q c (.error e)) (hw : ∀ r d, Walk q c r d → Walk p b r d) :
  Accounted p b (.error e)
  := by
  cases e with
  | rejected => trivial
  | outOfBounds =>
      obtain ⟨r, d, hwalk, hcut⟩ := h
      use r, d, hw r d hwalk, hcut
  | outOfFuel => apply h

section Step

variable {fuel : Nat} {object once : List UInt8 → Decoded}

/-- The elements of a strict array, where each of them is accounted for. -/
theorem accounted_items (honce : ∀ b, b.length < fuel → Accounted .once b (once b))
    (count : Nat) (b : List UInt8) (hb : b.length < fuel) :
  Accounted (.values count) b (decodeItems once count b)
  := by
  induction count generalizing b with
  | zero =>
      use .none
      apply Nat.zero_le
  | succ count ih =>
      have hfirst := honce b hb
      rw [decodeItems]
      cases hr : once b with
      | error e =>
          rw [hr] at hfirst
          apply hfirst.error
          intro r d
          apply Walk.item
      | ok r =>
          rw [hr] at hfirst
          obtain ⟨ps, n⟩ := r
          obtain ⟨hspans, hn⟩ := hfirst
          have hrest := ih (b.drop n) (by rw [List.length_drop]; omega)
          dsimp only
          cases hr' : decodeItems once count (b.drop n) with
          | error e =>
              rw [hr'] at hrest
              apply hrest.error
              intro r d
              apply Walk.items hspans
          | ok r' =>
              rw [hr'] at hrest
              obtain ⟨qs, m⟩ := r'
              obtain ⟨hspans', hm⟩ := hrest
              rw [List.length_drop] at hm
              constructor
              · apply Spans.some hspans hspans'
              · omega

/-- The values without parts. -/
theorem accounted_leaf (type : AMFDataType) (name b : List UInt8)
    (hobject : type ≠ .object) (hecma : type ≠ .ecmaArray) (hstrict : type ≠ .strictArray) :
  Accounted (.value type name) b (decodeValue object once type name b)
  := by
  by_cases hcut : Cut (.value type name) b
  · cases type with
    | longString =>
        obtain ⟨h4, hsum, hlen⟩ := hcut
        rw [decodeValue, decodeLongString, if_neg (by omega)]
        dsimp only
        rw [if_neg (by omega), if_pos hlen]
        exact ⟨_, _, .refl _ _, h4, hsum, hlen⟩
    | _ => contradiction
  · have hresult : LeafResult type b (decodeValue object once type name b)
      := by apply decodeValue_result hobject hecma hstrict hcut
    cases hv : decodeValue object once type name b with
    | ok r =>
        rw [hv] at hresult
        use .leaf hresult.1, hresult.2
    | error e =>
        rw [hv] at hresult
        cases e with
        | rejected => trivial
        | outOfBounds => contradiction
        | outOfFuel => contradiction

/-- A value, where the objects and the elements in it are accounted for. -/
theorem accounted_value (hobject : ∀ b, b.length < fuel → Accounted (.object true) b (object b))
    (honce : ∀ b, b.length < fuel → Accounted .once b (once b)) (type : AMFDataType)
    (name b : List UInt8) (hb : b.length < fuel) :
  Accounted (.value type name) b (decodeValue object once type name b)
  := by
  by_cases htype : type = .object ∨ type = .ecmaArray ∨ type = .strictArray
  · obtain rfl | rfl | rfl := htype
    · have hall := hobject b hb
      rw [decodeValue]
      cases hr : object b with
      | error e =>
          rw [hr] at hall
          apply hall.error
          intro r d
          apply Walk.object
      | ok r =>
          rw [hr] at hall
          use .object hall.1, hall.2
    · rw [decodeValue]
      split
      next h4 => exact ⟨_, _, .refl _ _, h4⟩
      next h4 =>
        have hall := hobject (b.drop 4) (by rw [List.length_drop]; omega)
        cases hr : object (b.drop 4) with
        | error e =>
            rw [hr] at hall
            apply hall.error
            intro r d
            apply Walk.ecmaArray (by omega)
        | ok r =>
            rw [hr] at hall
            obtain ⟨hspans, hn⟩ := hall
            rw [List.length_drop] at hn
            use .ecmaArray (by omega) hspans
            omega
    · rw [decodeValue]
      split
      next h4 => exact ⟨_, _, .refl _ _, h4⟩
      next h4 =>
        have hall := accounted_items honce (itemCount b) (b.drop 4) (by rw [List.length_drop]; omega)
        rw [itemCount] at hall
        cases hr : decodeItems once (int32 (readUint32T b)).toNat (b.drop 4) with
        | error e =>
            rw [hr] at hall
            apply hall.error
            intro r d
            apply Walk.strictArray (by omega)
        | ok r =>
            rw [hr] at hall
            obtain ⟨hspans, hn⟩ := hall
            rw [List.length_drop] at hn
            use .strictArray (by omega) hspans
            omega
  · apply accounted_leaf
    · intro h
      apply htype (.inl h)
    · intro h
      apply htype (.inr (.inl h))
    · intro h
      apply htype (.inr (.inr h))

/-- The rest of an object behind its first type byte. -/
theorem accounted_property (hvalue : ∀ type name b, b.length < fuel →
      Accounted (.value type name) b (decodeValue object once type name b))
    {has : Bool} {next : List UInt8 → Decoded}
    (hnext : ∀ b, b.length < fuel → Accounted (.object has) b (next b)) {b name rest : List UInt8}
    {k : Nat} {type : AMFDataType} (hb : b.length < fuel + 1) (h3 : 3 ≤ b.length)
    (h9 : readUint24T b ≠ 9) (ht : decodeTag has b = .ok (name, k, type, rest))
    (hne : type ≠ .objectEnd) :
  Accounted (.object has) b
    (match decodeValue object once type name rest with
      | .error e => .error e
      | .ok (ps, n) =>
        match next (rest.drop n) with
        | .error e => .error e
        | .ok (qs, m) => .ok (ps ++ qs, k + 1 + n + m))
  := by
  have hlen := decodeTag_length ht
  have hall := hvalue type name rest (by omega)
  cases hv : decodeValue object once type name rest with
  | error e =>
      rw [hv] at hall
      apply hall.error
      intro r d
      apply Walk.value h3 h9 ht hne
  | ok r =>
      rw [hv] at hall
      obtain ⟨ps, n⟩ := r
      obtain ⟨hspans, hn⟩ := hall
      have hrest := hnext (rest.drop n) (by rw [List.length_drop]; omega)
      dsimp only
      cases hr : next (rest.drop n) with
      | error e =>
          rw [hr] at hrest
          apply hrest.error
          intro r d
          apply Walk.next h3 h9 ht hne hspans
      | ok r =>
          rw [hr] at hrest
          obtain ⟨qs, m⟩ := r
          obtain ⟨hspans', hm⟩ := hrest
          rw [List.length_drop] at hm
          constructor
          · apply Spans.property h3 h9 ht hne hspans hspans'
          · omega

/-- A named property behind its type byte. -/
theorem accounted_onceValue (hvalue : ∀ type name b, b.length < fuel →
      Accounted (.value type name) b (decodeValue object once type name b))
    {b name rest : List UInt8} {k : Nat} {type : AMFDataType} (hb : b.length < fuel + 1)
    (ht : decodeTag true b = .ok (name, k, type, rest)) (hne : type ≠ .objectEnd) :
  Accounted .once b
    (match decodeValue object once type name rest with
      | .error e => .error e
      | .ok (ps, n) => .ok (ps, k + 1 + n))
  := by
  have hlen := decodeTag_length ht
  have hall := hvalue type name rest (by omega)
  cases hv : decodeValue object once type name rest with
  | error e =>
      rw [hv] at hall
      apply hall.error
      intro r d
      apply Walk.onceValue ht hne
  | ok r =>
      rw [hv] at hall
      obtain ⟨ps, n⟩ := r
      obtain ⟨hspans, hn⟩ := hall
      constructor
      · apply Spans.once ht hne hspans
      · omega

end Step

/-- With more fuel than there are bytes, every result is accounted for. -/
theorem accounted_decode (fuel : Nat) :
  (∀ has b, b.length < fuel → Accounted (.object has) b (decode fuel has b)) ∧
    ∀ b, b.length < fuel → Accounted .once b (decodeOnce fuel b)
  := by
  induction fuel with
  | zero =>
      constructor
      · intro has b hb
        contradiction
      · intro b hb
        contradiction
  | succ fuel ih =>
      have hvalue : ∀ type name b, b.length < fuel →
          Accounted (.value type name) b
            (decodeValue (decode fuel true) (decodeOnce fuel) type name b)
        := by
        intro type name b
        apply accounted_value (ih.1 true) ih.2
      constructor
      · intro has b hb
        rw [decode]
        split
        next h3 =>
          use .short h3
          apply Nat.zero_le
        next h3 =>
          split
          next h9 =>
            use .marker (by omega) h9
            omega
          next h9 =>
            cases ht : decodeTag has b with
            | error e =>
                obtain ⟨rfl, hcut⟩ := cut_of_decodeTag (by omega) h9 ht
                use .object has, b, .refl _ _, hcut
            | ok r =>
                obtain ⟨name, k, type, rest⟩ := r
                dsimp only
                split
                next hend =>
                  subst hend
                  have hlen := decodeTag_length ht
                  use .objectEnd (by omega) h9 ht
                  omega
                next hne =>
                  apply accounted_property hvalue (ih.1 has) hb (by omega) h9 ht hne
      · intro b hb
        rw [decodeOnce]
        cases ht : decodeTag true b with
        | error e =>
            obtain ⟨hcut, he⟩ | ⟨_, _, _, he, -⟩ := decodeTag_true b
            · cases he.symm.trans ht
              use .once, b, .refl _ _, hcut
            · cases he.symm.trans ht
        | ok r =>
            obtain ⟨name, k, type, rest⟩ := r
            dsimp only
            split
            next hend =>
              subst hend
              have hlen := decodeTag_length ht
              use .onceEnd ht
              omega
            next hne =>
              apply accounted_onceValue hvalue hb ht hne

/-! ### What the parts determine -/

/-- A value without parts that has a size is decoded to it. -/
theorem decodeValue_of_leafSize {object once : List UInt8 → Decoded} {type : AMFDataType}
    {name b : List UInt8} {n : Nat} (h : leafSize type b = some n) :
  ∃ ps, decodeValue object once type name b = .ok (ps, n)
  := by
  have hcut : ¬ Cut (.value type name) b
    := by
    rintro hcut
    cases type with
    | longString =>
        obtain ⟨h4, -, hlen⟩ := hcut
        rw [leafSize, if_neg (by omega)] at h
        cases h
    | ecmaArray => cases h
    | strictArray => cases h
    | _ => contradiction
  have hresult : LeafResult type b (decodeValue object once type name b)
    := by
    apply decodeValue_result _ _ _ hcut
    · rintro rfl
      cases h
    · rintro rfl
      cases h
    · rintro rfl
      cases h
  cases hv : decodeValue object once type name b with
  | ok r =>
      rw [hv] at hresult
      obtain ⟨ps, m⟩ := r
      obtain ⟨hsize, -⟩ := hresult
      cases hsize.symm.trans h
      use ps
  | error e =>
      rw [hv] at hresult
      cases e with
      | rejected => cases hresult.symm.trans h
      | outOfBounds => contradiction
      | outOfFuel => contradiction

/-- Unfolding the decoding of an object that goes on. -/
theorem decode_property {fuel : Nat} {has : Bool} {b name rest : List UInt8} {k : Nat}
    {type : AMFDataType} (h3 : 3 ≤ b.length) (h9 : readUint24T b ≠ 9)
    (ht : decodeTag has b = .ok (name, k, type, rest)) (hne : type ≠ .objectEnd) :
  decode (fuel + 1) has b =
    match decodeValue (decode fuel true) (decodeOnce fuel) type name rest with
    | .error e => .error e
    | .ok (ps, n) =>
      match decode fuel has (rest.drop n) with
      | .error e => .error e
      | .ok (qs, m) => .ok (ps ++ qs, k + 1 + n + m)
  := by
  rw [decode, if_neg (by omega), if_neg h9, ht]
  exact if_neg hne

/-- Unfolding the decoding of a named property. -/
theorem decodeOnce_value {fuel : Nat} {b name rest : List UInt8} {k : Nat} {type : AMFDataType}
    (ht : decodeTag true b = .ok (name, k, type, rest)) (hne : type ≠ .objectEnd) :
  decodeOnce (fuel + 1) b =
    match decodeValue (decode fuel true) (decodeOnce fuel) type name rest with
    | .error e => .error e
    | .ok (ps, n) => .ok (ps, k + 1 + n)
  := by
  rw [decodeOnce, ht]
  exact if_neg hne

/-- With more fuel than there are bytes, a part is decoded to what it spans. -/
theorem decodePart_of_spans {p : Part} {b : List UInt8} {n : Nat} (h : Spans p b n)
    (fuel : Nat) (hb : b.length < fuel) :
  ∃ ps, decodePart fuel p b = .ok (ps, n)
  := by
  induction h generalizing fuel with
  | short h3 =>
      obtain ⟨fuel, rfl⟩ := Nat.exists_eq_add_one_of_ne_zero (Nat.ne_zero_of_lt hb)
      use []
      rw [decodePart, decode, if_pos h3]
  | marker h3 h9 =>
      obtain ⟨fuel, rfl⟩ := Nat.exists_eq_add_one_of_ne_zero (Nat.ne_zero_of_lt hb)
      use []
      rw [decodePart, decode, if_neg (by omega), if_pos h9]
  | objectEnd h3 h9 ht =>
      obtain ⟨fuel, rfl⟩ := Nat.exists_eq_add_one_of_ne_zero (Nat.ne_zero_of_lt hb)
      use []
      rw [decodePart, decode, if_neg (by omega), if_neg h9, ht]
      dsimp only
      rw [if_pos rfl]
  | property h3 h9 ht hne hv hr ihv ihr =>
      obtain ⟨fuel, rfl⟩ := Nat.exists_eq_add_one_of_ne_zero (Nat.ne_zero_of_lt hb)
      have hlen := decodeTag_length ht
      obtain ⟨ps, hps⟩ := ihv fuel (by omega)
      obtain ⟨qs, hqs⟩ := ihr fuel (by rw [List.length_drop]; omega)
      rw [decodePart] at hps
      rw [decodePart] at hqs
      use ps ++ qs
      rw [decodePart, decode_property h3 h9 ht hne, hps]
      dsimp only
      rw [hqs]
  | onceEnd ht =>
      obtain ⟨fuel, rfl⟩ := Nat.exists_eq_add_one_of_ne_zero (Nat.ne_zero_of_lt hb)
      use []
      rw [decodePart, decodeOnce, ht]
      dsimp only
      rw [if_pos rfl]
  | once ht hne hv ihv =>
      obtain ⟨fuel, rfl⟩ := Nat.exists_eq_add_one_of_ne_zero (Nat.ne_zero_of_lt hb)
      have hlen := decodeTag_length ht
      obtain ⟨ps, hps⟩ := ihv fuel (by omega)
      rw [decodePart] at hps
      use ps
      rw [decodePart, decodeOnce_value ht hne, hps]
  | leaf h =>
      apply decodeValue_of_leafSize h
  | @object name _ _ h ih =>
      obtain ⟨ps, hps⟩ := ih fuel hb
      rw [decodePart] at hps
      use [.object name ps]
      rw [decodePart, decodeValue, hps]
  | @ecmaArray name _ _ h4 h ih =>
      obtain ⟨ps, hps⟩ := ih fuel (by rw [List.length_drop]; omega)
      rw [decodePart] at hps
      use [.object name ps]
      rw [decodePart, decodeValue, if_neg (by omega), hps]
  | @strictArray name _ _ h4 h ih =>
      obtain ⟨ps, hps⟩ := ih fuel (by rw [List.length_drop]; omega)
      rw [decodePart, itemCount] at hps
      use [.object name ps]
      rw [decodePart, decodeValue, if_neg (by omega), hps]
  | none =>
      use []
      rw [decodePart, decodeItems]
  | some h hr ih ihr =>
      obtain ⟨ps, hps⟩ := ih fuel hb
      obtain ⟨qs, hqs⟩ := ihr fuel (by rw [List.length_drop]; omega)
      rw [decodePart] at hps
      rw [decodePart] at hqs
      use ps ++ qs
      rw [decodePart, decodeItems, hps]
      dsimp only
      rw [hqs]

/-- At a cut field the body is left. -/
theorem decodePart_of_cut {p : Part} {b : List UInt8} (h : Cut p b) (fuel : Nat)
    (hb : b.length < fuel) :
  decodePart fuel p b = .error .outOfBounds
  := by
  obtain ⟨fuel, rfl⟩ := Nat.exists_eq_add_one_of_ne_zero (Nat.ne_zero_of_lt hb)
  have htag : b.length < 2 ∨ b.length < nameSize b + 1 →
      decodeTag true b = .error .outOfBounds
    := by
    intro hcut
    obtain ⟨-, he⟩ | ⟨_, _, _, hok, hlen⟩ := decodeTag_true b
    · apply he
    · rw [decodeTag, if_pos rfl] at hok
      obtain ⟨-, hname⟩ | ⟨h2, -, -⟩ := decodeName_cases b
      · rw [hname] at hok
        cases hok
      · omega
  cases p with
  | object has =>
      cases has with
      | false => contradiction
      | true =>
          obtain ⟨h3, h9, hcut⟩ := h
          rw [decodePart, decode, if_neg (by omega), if_neg h9, htag (.inr hcut)]
  | once => rw [decodePart, decodeOnce, htag h]
  | value type name =>
      cases type with
      | ecmaArray =>
          rw [Cut] at h
          rw [decodePart, decodeValue, if_pos h]
      | strictArray =>
          rw [Cut] at h
          rw [decodePart, decodeValue, if_pos h]
      | longString =>
          obtain ⟨h4, hsum, hlen⟩ := h
          rw [decodePart, decodeValue, decodeLongString, if_neg (by omega)]
          dsimp only
          rw [if_neg (by omega), if_pos hlen]
      | _ => contradiction
  | values count => contradiction

/-- What leaves the body on the way leaves it in the whole. -/
theorem decodePart_of_walk {p q : Part} {b c : List UInt8} (w : Walk p b q c) (h : Cut q c)
    (fuel : Nat) (hb : b.length < fuel) :
  decodePart fuel p b = .error .outOfBounds
  := by
  induction w generalizing fuel with
  | refl p b => apply decodePart_of_cut h fuel hb
  | value h3 h9 ht hne w ih =>
      obtain ⟨fuel, rfl⟩ := Nat.exists_eq_add_one_of_ne_zero (Nat.ne_zero_of_lt hb)
      have hlen := decodeTag_length ht
      have hv := ih h fuel (by omega)
      rw [decodePart] at hv
      rw [decodePart, decode_property h3 h9 ht hne, hv]
  | next h3 h9 ht hne hs w ih =>
      obtain ⟨fuel, rfl⟩ := Nat.exists_eq_add_one_of_ne_zero (Nat.ne_zero_of_lt hb)
      have hlen := decodeTag_length ht
      obtain ⟨ps, hps⟩ := decodePart_of_spans hs fuel (by omega)
      have hr := ih h fuel (by rw [List.length_drop]; omega)
      rw [decodePart] at hps
      rw [decodePart] at hr
      rw [decodePart, decode_property h3 h9 ht hne, hps]
      dsimp only
      rw [hr]
  | onceValue ht hne w ih =>
      obtain ⟨fuel, rfl⟩ := Nat.exists_eq_add_one_of_ne_zero (Nat.ne_zero_of_lt hb)
      have hlen := decodeTag_length ht
      have hv := ih h fuel (by omega)
      rw [decodePart] at hv
      rw [decodePart, decodeOnce_value ht hne, hv]
  | object w ih =>
      have hv := ih h fuel hb
      rw [decodePart] at hv
      rw [decodePart, decodeValue, hv]
  | ecmaArray h4 w ih =>
      have hv := ih h fuel (by rw [List.length_drop]; omega)
      rw [decodePart] at hv
      rw [decodePart, decodeValue, if_neg (by omega), hv]
  | strictArray h4 w ih =>
      have hv := ih h fuel (by rw [List.length_drop]; omega)
      rw [decodePart, itemCount] at hv
      rw [decodePart, decodeValue, if_neg (by omega), hv]
  | item w ih =>
      have hv := ih h fuel hb
      rw [decodePart] at hv
      rw [decodePart, decodeItems, hv]
  | items hs w ih =>
      obtain ⟨ps, hps⟩ := decodePart_of_spans hs fuel hb
      have hr := ih h fuel (by rw [List.length_drop]; omega)
      rw [decodePart] at hps
      rw [decodePart] at hr
      rw [decodePart, decodeItems, hps]
      dsimp only
      rw [hr]

/-! ### Bounds -/

/-- Nothing outside the body is read, and the result is -1 or a length within the body. -/
def InBounds (b : List UInt8) : Decoded → Prop
  | .ok (_, n) => n ≤ b.length
  | .error .rejected => True
  | .error .outOfBounds => False
  | .error .outOfFuel => False

/-- A decoder that accounts for its result is within the bounds if it gets to no cut field. -/
theorem Accounted.inBounds {p : Part} {b : List UInt8} {r : Decoded} (h : Accounted p b r)
    (hcut : ∀ q c, Walk p b q c → ¬ Cut q c) :
  InBounds b r
  := by
  cases r with
  | ok r => apply h.2
  | error e =>
      cases e with
      | rejected => trivial
      | outOfBounds =>
          obtain ⟨q, c, w, hq⟩ := h
          apply hcut q c w hq
      | outOfFuel => apply h

/-- Decoding a body stays inside it, ends, and returns -1 or a length within it, exactly when
no field that it gets to is cut. -/
theorem decodeBody_inBounds_iff (has : Bool) (b : List UInt8) :
  InBounds b (decodeBody has b) ↔ ∀ p c, Walk (.object has) b p c → ¬ Cut p c
  := by
  have hb := Nat.lt_succ_self b.length
  constructor
  · intro h p c w hcut
    have hout := decodePart_of_walk w hcut _ hb
    rw [decodePart] at hout
    rw [decodeBody, hout] at h
    apply h
  · intro h
    apply ((accounted_decode _).1 has b hb).inBounds h

/-- An ECMA array whose count is cut off. -/
theorem not_decodeBody_inBounds :
  ¬ InBounds [8, 0, 0] (decodeBody false [8, 0, 0])
  := by
  have hcut : decodeBody false [8, 0, 0] = .error .outOfBounds
    := by rfl
  rw [hcut]
  intro h
  apply h

end AMFObject
