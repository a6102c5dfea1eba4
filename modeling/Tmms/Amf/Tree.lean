import Tmms.Amf.Property
import Tmms.Amf.Values
import Tmms.Base.Strings

/-!
# Containers

An object, an ECMA array and a strict array are decoded by the decoder of their members.  A
member is decoded where it is if the decoder gives its property, takes its bytes and goes on
behind them, whatever these are.  The elements of a strict array are decoded as if they had
names, so that the type and the first byte of an element are taken for the length of a name:
only the number 0 survives this.
-/

open BytesReader Endian Amf0 AMFObject

namespace AMFObject

/-- A member is decoded to its property, and decoding goes on behind it. -/
def ReadsMember (m : ShortString × Amf0) : Prop :=
  ∃ p, Same m.1.bytes m.2 p ∧
    ∀ rest, decodeBody true (memberBytes m ++ rest) =
      after [p] (memberBytes m).length (decodeBody true rest)

/-- An element is decoded to its property, which takes its bytes. -/
def ReadsElement (v : Amf0) : Prop :=
  ∃ p, Same [] v p ∧ ∀ rest, decodeOnceBody (v.bytes ++ rest) = .ok ([p], v.bytes.length)

mutual

/-- What is in a value is decoded where it is. -/
def Exact : Amf0 → Prop
  | .object members => MembersExact members
  | .ecmaArray _ members => MembersExact members
  | .strictArray elements => ElementsExact elements
  | _ => True

/-- Members and what is in them are decoded where they are. -/
def MembersExact : List (ShortString × Amf0) → Prop
  | [] => True
  | (name, v) :: members => ReadsMember (name, v) ∧ Exact v ∧ MembersExact members

/-- Elements and what is in them are decoded where they are. -/
def ElementsExact : List Amf0 → Prop
  | [] => True
  | v :: elements => ReadsElement v ∧ Exact v ∧ ElementsExact elements

end

/-- Members are decoded to the same tree, and each value in it takes the bytes it has. -/
def DecodesToTree (members : List (ShortString × Amf0)) : Prop :=
  (∃ ps, SameMembers members ps ∧
    ∀ rest, decodeBody true (membersBytes members ++ (objectEnd ++ rest)) =
      .ok (ps, (membersBytes members).length + 3)) ∧
    MembersExact members

mutual

/-- A value that is decoded: its numbers and dates are whole numbers, nothing in it is null or
undefined, and the elements of its strict arrays are the number 0. No body has room for more
than 2^31 of these. -/
def Plain : Amf0 → Prop
  | .number bits => IsWhole bits
  | .object members => MembersPlain members
  | .null => False
  | .undefined => False
  | .ecmaArray _ members => MembersPlain members
  | .strictArray elements => (∀ v ∈ elements, v = .number 0) ∧ elements.length < 2 ^ 31
  | .date bits _ => IsWhole bits
  | _ => True

/-- Members with names and values that are decoded. -/
def MembersPlain : List (ShortString × Amf0) → Prop
  | [] => True
  | (name, v) :: members => name.bytes ≠ [] ∧ Plain v ∧ MembersPlain members

end

/-! ### Members -/

/-- Members that are decoded where they are are decoded one after the other. -/
theorem decodeBody_membersExact {members : List (ShortString × Amf0)}
    (h : MembersExact members) :
  ∃ ps, SameMembers members ps ∧
    ∀ rest, decodeBody true (membersBytes members ++ rest) =
      after ps (membersBytes members).length (decodeBody true rest)
  := by
  induction members with
  | nil =>
      refine ⟨[], trivial, ?_⟩
      intro rest
      change decodeBody true rest = after [] 0 (decodeBody true rest)
      cases decodeBody true rest with
      | error e => rfl
      | ok r => simp only [after, List.nil_append, Nat.zero_add]
  | cons m members ih =>
      obtain ⟨⟨p, hp, hread⟩, -, hrest⟩ := h
      obtain ⟨ps, hps, hreads⟩ := ih hrest
      refine ⟨p :: ps, ⟨hp, hps⟩, ?_⟩
      intro rest
      rw [membersBytes_cons, List.append_assoc, hread, hreads, after_after, List.length_append]
      rfl

/-- The members of a container, up to their end. -/
theorem decodeBody_membersExact_end {members : List (ShortString × Amf0)}
    (h : MembersExact members) :
  ∃ ps, SameMembers members ps ∧
    ∀ rest, decodeBody true (membersBytes members ++ (objectEnd ++ rest)) =
      .ok (ps, (membersBytes members).length + 3)
  := by
  obtain ⟨ps, hps, hreads⟩ := decodeBody_membersExact h
  refine ⟨ps, hps, ?_⟩
  intro rest
  rw [hreads, decodeBody_objectEnd]
  simp only [after, List.append_nil]

/-- A value that is decoded to its property behind its name is decoded where it is. -/
theorem readsMember_of_value {name : ShortString} {v : Amf0} {p : AMFAny}
    (hname : name.bytes ≠ []) (hsame : Same name.bytes v p)
    (h : ∀ rest, decodeValueBody v.type name.bytes (v.payload ++ rest) =
      .ok ([p], v.payload.length)) :
  ReadsMember (name, v)
  := by
  refine ⟨p, hsame, ?_⟩
  intro rest
  have hlen : (memberBytes (name, v)).length = name.bytes.length + 3 + v.payload.length
    := by
    rw [memberBytes, List.length_append, length_utf8, bytes, List.length_cons]
    dsimp only
    omega
  rw [decodeBody_member hname, h, hlen]
  dsimp only
  rw [List.drop_left' rfl]

/-- A member that is decoded where it is has a name. -/
theorem ne_nil_of_readsMember {name : ShortString} {v : Amf0} (h : ReadsMember (name, v)) :
  name.bytes ≠ []
  := by
  intro hname
  obtain ⟨p, hsame, hread⟩ := h
  have hbytes : memberBytes (name, v) ++ [] = 0 :: 0 :: v.code :: v.payload
    := by
    rw [List.append_nil, memberBytes, ShortString.utf8, hname]
    rfl
  have h := hread []
  rw [hbytes, decodeBody_short (by decide : ([] : List UInt8).length < 3)] at h
  obtain ⟨hnine, -⟩ | ⟨qs, m, hqs, hrest, hn⟩ := decodeBody_zeros h
  · exact absurd hnine (code_ne_nine v)
  · injection hqs with hp _
    rw [hp] at hsame
    have hzero := same_zero hsame
    have hpayload : v.payload = List.replicate 8 0
      := by
      rw [List.append_nil] at hbytes
      rw [hbytes] at hzero
      injection hzero with _ hzero
      injection hzero with _ hzero
      injection hzero with _ hzero
    have hlast : decodeBody true (v.payload.drop 6) = .ok ([], 0)
      := by
      rw [hpayload]
      apply decodeBody_short (by decide)
    rw [hlast] at hrest
    cases hrest
    rw [hzero] at hn
    cases hn

/-- What is decoded of a value without parts is the value exactly if it is plain. -/
theorem same_leaf_iff {name : List UInt8} (hname : name ≠ []) {v : Amf0} {ps : List AMFAny}
    (h : leaf name v = some ps) :
  (∃ p, ps = [p] ∧ Same name v p) ↔ Plain v
  := by
  cases v with
  | number bits =>
      cases h
      rw [Plain, ← doubleOfUint64_truncateDouble_iff]
      constructor
      · rintro ⟨p, hp, hsame⟩
        cases hp
        apply hsame.2
      · intro hwhole
        exact ⟨_, rfl, rfl, hwhole⟩
  | date bits zone =>
      cases h
      rw [Plain, ← doubleOfUint64_truncateDouble_iff]
      constructor
      · rintro ⟨p, hp, hsame⟩
        cases hp
        apply hsame.2.1
      · intro hwhole
        exact ⟨_, rfl, rfl, hwhole, rfl⟩
  | boolean b =>
      cases h
      exact iff_of_true ⟨_, rfl, rfl, rfl⟩ trivial
  | string s =>
      cases h
      exact iff_of_true ⟨_, rfl, rfl, rfl⟩ trivial
  | longString s =>
      cases h
      exact iff_of_true ⟨_, rfl, rfl, rfl⟩ trivial
  | null =>
      cases h
      apply iff_of_false
      · rintro ⟨p, hp, hsame⟩
        cases hp
        apply hname hsame
      · rintro ⟨⟩
  | undefined =>
      cases h
      apply iff_of_false
      · rintro ⟨p, hp, -⟩
        cases hp
      · rintro ⟨⟩
  | object members => cases h
  | ecmaArray count members => cases h
  | strictArray elements => cases h

/-! ### Elements -/

/-- At most one property is decoded, and it has the name that was read or is a null. -/
theorem decodeValue_properties {object once : List UInt8 → AMFAny.Decoded} {type : AMFDataType}
    {name b : List UInt8} {ps : List AMFAny} {n : Nat}
    (h : decodeValue object once type name b = .ok (ps, n)) :
  ps = [] ∨ ∃ p, ps = [p] ∧ (p = .null ∨ p.name = name)
  := by
  have named {p : AMFAny} (hp : p.name = name) :
      [p] = [] ∨ ∃ q, [p] = [q] ∧ (q = .null ∨ q.name = name) := .inr ⟨p, rfl, .inr hp⟩
  cases type with
  | number =>
      rw [decodeValue, AMFAny.decodeNumber] at h
      split at h
      · cases h
        apply named rfl
      · cases h
  | boolean =>
      rw [decodeValue, AMFAny.decodeBoolean] at h
      split at h
      · cases h
        apply named rfl
      · cases h
  | string =>
      rw [decodeValue, AMFAny.decodeString] at h
      split at h
      · cases h
      · dsimp only at h
        split at h
        · cases h
        · cases h
          apply named rfl
  | object =>
      rw [decodeValue] at h
      split at h
      · cases h
      · cases h
        apply named rfl
  | null =>
      cases h
      exact .inr ⟨.null, rfl, .inl rfl⟩
  | ecmaArray =>
      rw [decodeValue] at h
      split at h
      · cases h
      · split at h
        · cases h
        · cases h
          apply named rfl
  | strictArray =>
      rw [decodeValue] at h
      split at h
      · cases h
      · split at h
        · cases h
        · cases h
          apply named rfl
  | date =>
      rw [decodeValue, AMFAny.decodeDate] at h
      split at h
      · cases h
      · cases h
        apply named rfl
  | longString =>
      rw [decodeValue, AMFAny.decodeLongString] at h
      split at h
      · cases h
      · dsimp only at h
        split at h
        · cases h
        · split at h
          · cases h
          · cases h
            apply named rfl
  | _ =>
      cases h
      left
      rfl

/-- At most one property is decoded at once. -/
theorem length_of_decodeOnceBody {b : List UInt8} {ps : List AMFAny} {n : Nat}
    (h : decodeOnceBody b = .ok (ps, n)) :
  ps.length ≤ 1
  := by
  rw [decodeOnceBody, decodeOnce] at h
  split at h
  next => cases h
  next name k type rest ht =>
    split at h
    · cases h
      apply Nat.zero_le
    · split at h
      next => cases h
      next qs m hvalue =>
        cases h
        obtain rfl | ⟨p, rfl, -⟩ := decodeValue_properties hvalue
        · apply Nat.zero_le
        · apply Nat.le_refl

/-- An array does not have more elements than its count. -/
theorem length_of_decodeItems {count : Nat} {b : List UInt8} {ps : List AMFAny} {n : Nat}
    (h : decodeItems decodeOnceBody count b = .ok (ps, n)) :
  ps.length ≤ count
  := by
  induction count generalizing b ps n with
  | zero =>
      cases h
      apply Nat.le_refl
  | succ count ih =>
      rw [decodeItems] at h
      split at h
      next => cases h
      next qs m honce =>
        split at h
        next => cases h
        next rs k hitems =>
          cases h
          have hq := length_of_decodeOnceBody honce
          have hr := ih hitems
          rw [List.length_append]
          omega

theorem name_of_same {name : List UInt8} {v : Amf0} {p : AMFAny} (h : Same name v p) :
  p.name = name
  := by
  cases v with
  | null =>
      cases p with
      | null => exact Eq.symm h
      | _ => cases h
  | undefined => cases h
  | number bits => cases p <;> first | apply h.1 | cases h
  | boolean b => cases p <;> first | apply h.1 | cases h
  | string s => cases p <;> first | apply h.1 | cases h
  | object members => cases p <;> first | apply h.1 | cases h
  | ecmaArray count members => cases p <;> first | apply h.1 | cases h
  | strictArray elements => cases p <;> first | apply h.1 | cases h
  | date bits zone => cases p <;> first | apply h.1 | cases h
  | longString s => cases p <;> first | apply h.1 | cases h

/-- The length of a name is the number of its first two bytes. -/
theorem length_name_of_decodeTag {b name rest : List UInt8} {k : Nat} {type : AMFDataType}
    (ht : decodeTag true b = .ok (name, k, type, rest)) :
  2 ≤ b.length ∧ name.length = (readUint16T b).toNat
  := by
  obtain ⟨-, hcut⟩ | ⟨h2, hlen, hname⟩ := decodeName_cases b
  · rw [decodeTag, if_pos rfl, hcut] at ht
    cases ht
  · rw [decodeTag, if_pos rfl, hname] at ht
    dsimp only at ht
    split at ht
    · cases ht
    · cases ht
      refine ⟨h2, ?_⟩
      rw [List.length_take, List.length_drop]
      omega

/-- The number 0 is an element that is decoded. -/
theorem readsElement_zero :
  ReadsElement (.number 0)
  := by
  refine ⟨.number [] (some 0), ⟨rfl, rfl⟩, ?_⟩
  intro rest
  have htag : decodeTag true ((number 0).bytes ++ rest) =
      .ok ([], 0, .number, (number 0).payload ++ rest) := rfl
  rw [decodeOnceBody_value htag (by rintro ⟨⟩)]
  have hleaf := @decodeValueBody_leaf [] (.number 0) _ rfl rest
  rw [type] at hleaf
  rw [hleaf]
  rfl

theorem readUint16T_cons (x y : UInt8) (rest : List UInt8) :
  (readUint16T (x :: y :: rest)).toNat = x.toNat * 2 ^ 8 + y.toNat
  := by
  have hx := x.toNat_lt
  have hy := y.toNat_lt
  change (UInt16.ofNat (y.toNat + 256 * (x.toNat + 256 * 0))).toNat = _
  rw [UInt16.toNat_ofNat_of_lt']
  · omega
  · change _ < 2 ^ 16
    omega

/-- The type and the first byte of an element are no length only if it is a small number. -/
theorem lt_of_readUint16T_zero {v : Amf0} (h2 : 2 ≤ v.bytes.length)
    (h : (readUint16T v.bytes).toNat = 0) :
  ∃ bits : UInt64, v = .number bits ∧ bits.toNat < 2 ^ 56
  := by
  have hcode : v.code = 0
    := by
    obtain ⟨y, rest, hpayload⟩ : ∃ y rest, v.payload = y :: rest
      := by
      apply List.exists_cons_of_length_pos
      rw [bytes, List.length_cons] at h2
      omega
    rw [bytes, hpayload, readUint16T_cons] at h
    apply UInt8.toNat_inj.mp
    change v.code.toNat = 0
    omega
  cases v with
  | number bits =>
      refine ⟨bits, rfl, ?_⟩
      have hread := readUint16T_cons 0
        (.ofNat (bits.toNat / 256 / 256 / 256 / 256 / 256 / 256 / 256))
        ((beBytes 8 bits.toNat).drop 1)
      have hbytes : (number bits).bytes =
          0 :: .ofNat (bits.toNat / 256 / 256 / 256 / 256 / 256 / 256 / 256) ::
            (beBytes 8 bits.toNat).drop 1 := rfl
      have hlt := bits.toNat_lt
      have hnone : (0 : UInt8).toNat = 0 := rfl
      rw [← hbytes, h, UInt8.toNat_ofNat', hnone] at hread
      omega
  | _ => cases hcode

/-- It is the only one. -/
theorem eq_zero_of_readsElement {v : Amf0} (h : ReadsElement v) :
  v = .number 0
  := by
  obtain ⟨p, hsame, hread⟩ := h
  have h := hread []
  rw [List.append_nil] at h
  cases ht : decodeTag true v.bytes with
  | error e =>
      rw [decodeOnceBody, decodeOnce, ht] at h
      cases h
  | ok tag =>
      obtain ⟨name, k, type, rest⟩ := tag
      by_cases hend : type = .objectEnd
      · rw [decodeOnceBody, decodeOnce, ht] at h
        dsimp only at h
        rw [if_pos hend] at h
        cases h
      · rw [decodeOnceBody_value ht hend] at h
        split at h
        next => cases h
        next ps n hvalue =>
          injection h with h
          injection h with hps _
          rw [hps] at hvalue
          obtain ⟨h2, hname⟩ := length_name_of_decodeTag ht
          obtain hnone | ⟨q, hq, hnull⟩ := decodeValue_properties hvalue
          · cases hnone
          cases hq
          rcases hnull with rfl | hp
          · -- a null is a single byte
            cases v with
            | null => exact absurd h2 (by decide)
            | _ => cases hsame
          · rw [name_of_same hsame] at hp
            rw [← hp, List.length_nil] at hname
            obtain ⟨bits, rfl, hlt⟩ := lt_of_readUint16T_zero h2 hname.symm
            have htag : decodeTag true (number bits).bytes =
                .ok ([], 0, .number, (number bits).payload)
              := by
              have hempty : decodeName (number bits).bytes = .ok ([], 0)
                := by
                rw [decodeName, ← hname, if_neg (by omega)]
                rfl
              rw [decodeTag, if_pos rfl, hempty]
              rfl
            rw [ht] at htag
            cases htag
            have hleaf := @decodeValueBody_leaf [] (number bits) _ rfl []
            rw [List.append_nil, type] at hleaf
            rw [hvalue, truncateDouble_of_lt hlt] at hleaf
            cases hleaf
            obtain ⟨-, hbits⟩ := hsame
            cases hbits
            rfl

/-! ### Trees -/

/-- The elements of a strict array that are the number 0. -/
theorem decodeItems_zeros {elements : List Amf0} (h : ∀ v ∈ elements, v = .number 0) :
  ElementsExact elements ∧
    ∃ ps, SameElements elements ps ∧
      ∀ rest, decodeItems decodeOnceBody elements.length (elementsBytes elements ++ rest) =
        .ok (ps, (elementsBytes elements).length)
  := by
  induction elements with
  | nil =>
      refine ⟨trivial, [], trivial, ?_⟩
      intro rest
      rfl
  | cons v elements ih =>
      obtain ⟨rfl, hrest⟩ := List.forall_mem_cons.mp h
      obtain ⟨hexact, ps, hsame, hread⟩ := ih hrest
      obtain ⟨p, hp, honce⟩ := readsElement_zero
      refine ⟨⟨readsElement_zero, trivial, hexact⟩, p :: ps, ⟨hp, hsame⟩, ?_⟩
      intro rest
      have hbytes : elementsBytes (.number 0 :: elements) =
          (number 0).bytes ++ elementsBytes elements
        := by rw [elementsBytes, bytes]
      rw [List.length_cons, decodeItems, hbytes, List.append_assoc, honce]
      dsimp only
      rw [List.drop_left' rfl, hread, List.length_append]
      rfl

theorem eq_zero_of_elementsExact {elements : List Amf0} (h : ElementsExact elements) :
  ∀ v ∈ elements, v = .number 0
  := by
  induction elements with
  | nil => simp
  | cons v elements ih =>
      obtain ⟨hv, -, hrest⟩ := h
      exact List.forall_mem_cons.mpr ⟨eq_zero_of_readsElement hv, ih hrest⟩

theorem length_of_sameElements {elements : List Amf0} {ps : List AMFAny}
    (h : SameElements elements ps) :
  ps.length = elements.length
  := by
  induction elements generalizing ps with
  | nil =>
      cases ps with
      | nil => rfl
      | cons p ps => cases h
  | cons v elements ih =>
      cases ps with
      | nil => cases h
      | cons p ps => rw [List.length_cons, List.length_cons, ih h.2]

theorem decodeValueBody_object (name c : List UInt8) :
  decodeValueBody .object name c =
    match decodeBody true c with
    | .error e => .error e
    | .ok (ps, m) => .ok ([.object name ps], m)
  := rfl

/-- The object at a name is its members. -/
theorem readsMember_object {name : ShortString} (hname : name.bytes ≠ [])
    {members : List (ShortString × Amf0)} (h : MembersExact members) :
  ReadsMember (name, .object members)
  := by
  obtain ⟨ps, hps, hreads⟩ := decodeBody_membersExact_end h
  apply @readsMember_of_value name (.object members) (.object name.bytes ps) hname ⟨rfl, hps⟩
  intro rest
  rw [type, payload, List.append_assoc, decodeValueBody_object, hreads, List.length_append]
  rfl

theorem decodeValueBody_ecmaArray (name : List UInt8) (n : Nat) (c : List UInt8) :
  decodeValueBody .ecmaArray name (beBytes 4 n ++ c) =
    match decodeBody true c with
    | .error e => .error e
    | .ok (ps, m) => .ok ([.object name ps], 4 + m)
  := by
  have hlen : ¬ (beBytes 4 n ++ c).length < 4
    := by
    rw [List.length_append, length_beBytes]
    omega
  have hdrop : (beBytes 4 n ++ c).drop 4 = c := List.drop_left' (length_beBytes 4 n)
  have hvalue : decodeValueBody .ecmaArray name (beBytes 4 n ++ c) =
      if (beBytes 4 n ++ c).length < 4 then
        .error .outOfBounds
      else
        match decodeBody true ((beBytes 4 n ++ c).drop 4) with
        | .error e => .error e
        | .ok (ps, m) => .ok ([.object name ps], 4 + m) := rfl
  rw [hvalue, if_neg hlen, hdrop]

theorem decodeValueBody_strictArray (name : List UInt8) {n : Nat} (h : n < 2 ^ 31)
    (c : List UInt8) :
  decodeValueBody .strictArray name (beBytes 4 n ++ c) =
    match decodeItems decodeOnceBody n c with
    | .error e => .error e
    | .ok (ps, m) => .ok ([.object name ps], 4 + m)
  := by
  have hlen : ¬ (beBytes 4 n ++ c).length < 4
    := by
    rw [List.length_append, length_beBytes]
    omega
  have hdrop : (beBytes 4 n ++ c).drop 4 = c := List.drop_left' (length_beBytes 4 n)
  have hread := @readUint32T_beBytes n (by omega) c
  have hcount : (int32 (readUint32T (beBytes 4 n ++ c))).toNat = n
    := by
    rw [int32_of_lt (by omega), hread]
    rfl
  have hvalue : decodeValueBody .strictArray name (beBytes 4 n ++ c) =
      if (beBytes 4 n ++ c).length < 4 then
        .error .outOfBounds
      else
        match decodeItems decodeOnceBody (int32 (readUint32T (beBytes 4 n ++ c))).toNat
            ((beBytes 4 n ++ c).drop 4) with
        | .error e => .error e
        | .ok (ps, m) => .ok ([.object name ps], 4 + m) := rfl
  rw [hvalue, if_neg hlen, hdrop, hcount]

/-- So is an ECMA array, behind its count. -/
theorem readsMember_ecmaArray {name : ShortString} (hname : name.bytes ≠ []) (count : UInt32)
    {members : List (ShortString × Amf0)} (h : MembersExact members) :
  ReadsMember (name, .ecmaArray count members)
  := by
  obtain ⟨ps, hps, hreads⟩ := decodeBody_membersExact_end h
  apply @readsMember_of_value name (.ecmaArray count members) (.object name.bytes ps) hname
    ⟨rfl, hps⟩
  intro rest
  rw [type, payload, List.append_assoc, List.append_assoc, decodeValueBody_ecmaArray, hreads,
    List.length_append, List.length_append, length_beBytes]
  rfl

/-- A strict array of zeros is decoded. -/
theorem readsMember_strictArray {name : ShortString} (hname : name.bytes ≠ [])
    {elements : List Amf0} (h : ∀ v ∈ elements, v = .number 0) (hshort : elements.length < 2 ^ 31) :
  ReadsMember (name, .strictArray elements)
  := by
  obtain ⟨-, ps, hsame, hread⟩ := decodeItems_zeros h
  apply @readsMember_of_value name (.strictArray elements) (.object name.bytes ps) hname
    ⟨rfl, hsame⟩
  intro rest
  rw [type, payload, List.append_assoc, decodeValueBody_strictArray _ hshort, hread,
    List.length_append, length_beBytes]

theorem toNat_int32_lt (x : UInt32) :
  (int32 x).toNat < 2 ^ 31
  := by
  have hlt := BitVec.toInt_lt (x := x.toBitVec)
  rw [int32]
  omega

/-- A strict array that is decoded is one that an `int` counts. -/
theorem length_lt_of_readsMember {name : ShortString} {elements : List Amf0}
    (h : ReadsMember (name, .strictArray elements)) :
  elements.length < 2 ^ 31
  := by
  have hname := ne_nil_of_readsMember h
  obtain ⟨p, hsame, hread⟩ := h
  have h := hread []
  rw [decodeBody_member hname, decodeBody_short (by decide : ([] : List UInt8).length < 3)] at h
  split at h
  next => cases h
  next ps n hvalue =>
    obtain ⟨qs, m, -, hps, -⟩ := after_eq_ok h
    change decodeValue (decodeBody true) decodeOnceBody .strictArray name.bytes _ = _ at hvalue
    rw [decodeValue] at hvalue
    split at hvalue
    next => cases hvalue
    next =>
      split at hvalue
      next => cases hvalue
      next items k hitems =>
        cases hvalue
        cases hps
        obtain ⟨-, hitem⟩ := hsame
        have hcount := length_of_decodeItems hitems
        rw [length_of_sameElements hitem] at hcount
        apply Nat.lt_of_le_of_lt hcount
        apply toNat_int32_lt

/-- A value without parts is decoded, if it is plain. -/
theorem readsMember_leaf {name : ShortString} (hname : name.bytes ≠ []) {v : Amf0}
    {ps : List AMFAny} (hleaf : leaf name.bytes v = some ps) (h : Plain v) :
  ReadsMember (name, v)
  := by
  obtain ⟨p, rfl, hsame⟩ := (same_leaf_iff hname hleaf).mpr h
  apply readsMember_of_value hname hsame
  apply decodeValueBody_leaf hleaf

/-- And only if it is plain. -/
theorem plain_of_readsMember_leaf {name : ShortString} {v : Amf0} {ps : List AMFAny}
    (hleaf : leaf name.bytes v = some ps) (h : ReadsMember (name, v)) :
  Plain v
  := by
  have hname := ne_nil_of_readsMember h
  obtain ⟨p, hsame, hread⟩ := h
  apply (same_leaf_iff hname hleaf).mp
  refine ⟨p, ?_, hsame⟩
  have h := hread []
  rw [decodeBody_member hname, decodeValueBody_leaf hleaf] at h
  dsimp only at h
  rw [List.drop_left' rfl, decodeBody_short (by decide : ([] : List UInt8).length < 3)] at h
  injection h with h
  injection h with hps _
  rwa [List.append_nil, List.append_nil] at hps

theorem membersExact_iff (members : List (ShortString × Amf0)) :
  MembersExact members ↔ ∀ m ∈ members, ReadsMember m ∧ Exact m.2
  := by
  induction members with
  | nil => exact iff_of_true trivial nofun
  | cons m members ih => rw [MembersExact, ih, List.forall_mem_cons, and_assoc]

theorem membersPlain_iff (members : List (ShortString × Amf0)) :
  MembersPlain members ↔ ∀ m ∈ members, m.1.bytes ≠ [] ∧ Plain m.2
  := by
  induction members with
  | nil => exact iff_of_true trivial nofun
  | cons m members ih => rw [MembersPlain, ih, List.forall_mem_cons, and_assoc]

/-- The value of a member is smaller than the members. -/
theorem sizeOf_value_lt {m : ShortString × Amf0} {members : List (ShortString × Amf0)}
    (h : m ∈ members) :
  sizeOf m.2 < sizeOf members
  := by
  have hlt := List.sizeOf_lt_of_mem h
  have hpair : sizeOf m = 1 + sizeOf m.1 + sizeOf m.2 := rfl
  omega

/-- A plain value at a name is decoded where it is, and so is what is in it. -/
theorem exact_of_plain (v : Amf0) {name : ShortString} (hname : name.bytes ≠ []) (h : Plain v) :
  ReadsMember (name, v) ∧ Exact v
  := by
  have hmembers : ∀ members : List (ShortString × Amf0), sizeOf members < sizeOf v →
      MembersPlain members → MembersExact members
    := by
    intro members hlt hplain
    rw [membersExact_iff]
    intro m hm
    obtain ⟨hm₁, hm₂⟩ := (membersPlain_iff members).mp hplain m hm
    have := sizeOf_value_lt hm
    exact exact_of_plain m.2 hm₁ hm₂
  cases v with
  | object members =>
      have hexact := hmembers members (by rw [Amf0.object.sizeOf_spec]; omega) h
      exact ⟨readsMember_object hname hexact, hexact⟩
  | ecmaArray count members =>
      have hexact := hmembers members (by rw [Amf0.ecmaArray.sizeOf_spec]; omega) h
      exact ⟨readsMember_ecmaArray hname count hexact, hexact⟩
  | strictArray elements =>
      exact ⟨readsMember_strictArray hname h.1 h.2, (decodeItems_zeros h.1).1⟩
  | number bits => exact ⟨readsMember_leaf hname rfl h, trivial⟩
  | boolean b => exact ⟨readsMember_leaf hname rfl h, trivial⟩
  | string s => exact ⟨readsMember_leaf hname rfl h, trivial⟩
  | date bits zone => exact ⟨readsMember_leaf hname rfl h, trivial⟩
  | longString s => exact ⟨readsMember_leaf hname rfl h, trivial⟩
  | null => exact h.elim
  | undefined => exact h.elim
  termination_by sizeOf v

theorem membersExact_of_plain {members : List (ShortString × Amf0)} (h : MembersPlain members) :
  MembersExact members
  := by
  rw [membersExact_iff]
  intro m hm
  obtain ⟨hname, hplain⟩ := (membersPlain_iff members).mp h m hm
  exact exact_of_plain m.2 hname hplain

/-- A value that is decoded where it is, with what is in it, is plain. -/
theorem plain_of_exact (v : Amf0) {name : ShortString} (hread : ReadsMember (name, v))
    (h : Exact v) :
  Plain v
  := by
  have hmembers : ∀ members : List (ShortString × Amf0), sizeOf members < sizeOf v →
      MembersExact members → MembersPlain members
    := by
    intro members hlt hexact
    rw [membersPlain_iff]
    intro m hm
    obtain ⟨hm₁, hm₂⟩ := (membersExact_iff members).mp hexact m hm
    have := sizeOf_value_lt hm
    exact ⟨ne_nil_of_readsMember hm₁, plain_of_exact m.2 hm₁ hm₂⟩
  cases v with
  | object members => exact hmembers members (by rw [Amf0.object.sizeOf_spec]; omega) h
  | ecmaArray count members =>
      exact hmembers members (by rw [Amf0.ecmaArray.sizeOf_spec]; omega) h
  | strictArray elements => exact ⟨eq_zero_of_elementsExact h, length_lt_of_readsMember hread⟩
  | number bits => exact plain_of_readsMember_leaf rfl hread
  | boolean b => exact plain_of_readsMember_leaf rfl hread
  | string s => exact plain_of_readsMember_leaf rfl hread
  | null => exact plain_of_readsMember_leaf rfl hread
  | undefined => exact plain_of_readsMember_leaf rfl hread
  | date bits zone => exact plain_of_readsMember_leaf rfl hread
  | longString s => exact plain_of_readsMember_leaf rfl hread
  termination_by sizeOf v

theorem membersPlain_of_exact {members : List (ShortString × Amf0)} (h : MembersExact members) :
  MembersPlain members
  := by
  rw [membersPlain_iff]
  intro m hm
  obtain ⟨hread, hexact⟩ := (membersExact_iff members).mp h m hm
  exact ⟨ne_nil_of_readsMember hread, plain_of_exact m.2 hread hexact⟩

/-- Members are decoded to their tree, each value at its place, exactly if they have names and
their values are plain. -/
theorem decodesToTree_iff_membersPlain (members : List (ShortString × Amf0)) :
  DecodesToTree members ↔ MembersPlain members
  := by
  constructor
  · rintro ⟨-, hexact⟩
    exact membersPlain_of_exact hexact
  · intro h
    have hexact := membersExact_of_plain h
    exact ⟨decodeBody_membersExact_end hexact, hexact⟩

/-- A strict array with the number 1.0: its bytes are taken for the length of a name that does
not fit. -/
theorem not_decodesToTree_strictArray :
  ¬ DecodesToTree [(⟨ascii "a", by decide⟩, .strictArray [.number 0x3FF0000000000000])]
  := by
  rintro ⟨⟨ps, -, hread⟩, -⟩
  cases hread []

end AMFObject
