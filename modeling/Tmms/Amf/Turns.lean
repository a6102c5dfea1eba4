import Tmms.Amf.Bounds

/-!
# Decoding turn by turn

With more fuel than there are bytes, decoding does not depend on the fuel.  So decoding a body
is decoding the property at its head and then the body behind it.
-/

open BytesReader

namespace AMFObject

open AMFAny

/-- `DecodeOnce` on all the bytes there are. -/
def decodeOnceBody (b : List UInt8) : Decoded := decodeOnce (b.length + 1) b

/-- Decoding a value of some type in a body. -/
def decodeValueBody (type : AMFDataType) (name b : List UInt8) : Decoded :=
  decodeValue (decodeBody true) decodeOnceBody type name b

/-- What is decoded when some properties, which take some bytes, come first. -/
def after (ps : List AMFAny) (n : Nat) : Decoded → Decoded
  | .error e => .error e
  | .ok (qs, m) => .ok (ps ++ qs, n + m)

theorem after_after (ps qs : List AMFAny) (n m : Nat) (r : Decoded) :
  after ps n (after qs m r) = after (ps ++ qs) (n + m) r
  := by
  cases r with
  | error e => rfl
  | ok r => simp only [after, List.append_assoc, Nat.add_assoc]

/-! ### Fuel -/

/-- Elements are decoded the same by decoders that agree on their bytes. -/
theorem decodeItems_congr {once once' : List UInt8 → Decoded} (count : Nat) {b : List UInt8}
    (h : ∀ c, c.length ≤ b.length → once c = once' c) :
  decodeItems once count b = decodeItems once' count b
  := by
  induction count generalizing b with
  | zero => rfl
  | succ count ih =>
      rw [decodeItems, decodeItems, h b (Nat.le_refl _)]
      cases once' b with
      | error e => rfl
      | ok r =>
          have hrest := @ih (b.drop r.2) (by
            intro c hc
            apply h
            rw [List.length_drop] at hc
            omega)
          dsimp only
          rw [hrest]

theorem decodeValue_congr {object object' once once' : List UInt8 → Decoded} {type : AMFDataType}
    {name b : List UInt8} (ho : ∀ c, c.length ≤ b.length → object c = object' c)
    (h : ∀ c, c.length ≤ b.length → once c = once' c) :
  decodeValue object once type name b = decodeValue object' once' type name b
  := by
  have hdrop : (b.drop 4).length ≤ b.length
    := by
    rw [List.length_drop]
    omega
  have hitems (count : Nat) :
      decodeItems once count (b.drop 4) = decodeItems once' count (b.drop 4)
    := by
    apply decodeItems_congr
    intro c hc
    apply h c (Nat.le_trans hc hdrop)
  cases type with
  | object => rw [decodeValue, decodeValue, ho b (Nat.le_refl _)]
  | ecmaArray => rw [decodeValue, decodeValue, ho _ hdrop]
  | strictArray => rw [decodeValue, decodeValue, hitems]
  | _ => rfl

/-- Fuel that is more than the bytes is as good as any other. -/
theorem decode_fuel {fuel fuel' : Nat} {b : List UInt8} (h : b.length < fuel)
    (h' : b.length < fuel') :
  (∀ has, decode fuel has b = decode fuel' has b) ∧ decodeOnce fuel b = decodeOnce fuel' b
  := by
  induction fuel generalizing fuel' b with
  | zero => cases h
  | succ fuel ih =>
      obtain ⟨fuel', rfl⟩ : ∃ n, fuel' = n + 1 := ⟨fuel' - 1, by omega⟩
      -- behind a type there are fewer bytes
      have hvalue {has : Bool} {name rest : List UInt8} {k : Nat} {type : AMFDataType}
          (ht : decodeTag has b = .ok (name, k, type, rest)) :
          decodeValue (decode fuel true) (decodeOnce fuel) type name rest =
            decodeValue (decode fuel' true) (decodeOnce fuel') type name rest
        := by
        have hrest := decodeTag_length ht
        apply decodeValue_congr
        · intro c hc
          apply (@ih fuel' c (by omega) (by omega)).1
        · intro c hc
          apply (@ih fuel' c (by omega) (by omega)).2
      constructor
      · intro has
        rw [decode, decode]
        split
        · rfl
        · split
          · rfl
          · cases ht : decodeTag has b with
            | error e => rfl
            | ok r =>
                obtain ⟨name, k, type, rest⟩ := r
                have hrest := decodeTag_length ht
                dsimp only
                rw [hvalue ht]
                split
                · rfl
                · cases decodeValue (decode fuel' true) (decodeOnce fuel') type name rest with
                  | error e => rfl
                  | ok r =>
                      have hdrop : (rest.drop r.2).length ≤ rest.length
                        := by
                        rw [List.length_drop]
                        omega
                      dsimp only
                      rw [(@ih fuel' (rest.drop r.2) (by omega) (by omega)).1 has]
      · rw [decodeOnce, decodeOnce]
        cases ht : decodeTag true b with
        | error e => rfl
        | ok r =>
            obtain ⟨name, k, type, rest⟩ := r
            dsimp only
            rw [hvalue ht]

theorem decodeValue_fuel {fuel : Nat} {type : AMFDataType} {name b : List UInt8}
    (h : b.length < fuel) :
  decodeValue (decode fuel true) (decodeOnce fuel) type name b = decodeValueBody type name b
  := by
  apply decodeValue_congr
  · intro c hc
    apply (decode_fuel (Nat.lt_of_le_of_lt hc h) (Nat.lt_succ_self _)).1
  · intro c hc
    apply (decode_fuel (Nat.lt_of_le_of_lt hc h) (Nat.lt_succ_self _)).2

/-! ### Turns -/

theorem decodeBody_short {has : Bool} {b : List UInt8} (h : b.length < 3) :
  decodeBody has b = .ok ([], 0)
  := by
  rw [decodeBody, decode, if_pos h]

theorem decodeBody_marker {has : Bool} {b : List UInt8} (h3 : 3 ≤ b.length)
    (h9 : readUint24T b = 9) :
  decodeBody has b = .ok ([], 3)
  := by
  rw [decodeBody, decode, if_neg (Nat.not_lt_of_le h3), if_pos h9]

/-- The value at the head of a body, and the body behind it. -/
theorem decodeBody_turn {has : Bool} {b name rest : List UInt8} {k : Nat} {type : AMFDataType}
    (h3 : 3 ≤ b.length) (h9 : readUint24T b ≠ 9)
    (ht : decodeTag has b = .ok (name, k, type, rest)) (hne : type ≠ .objectEnd) :
  decodeBody has b =
    match decodeValueBody type name rest with
    | .error e => .error e
    | .ok (ps, n) => after ps (k + 1 + n) (decodeBody has (rest.drop n))
  := by
  have hrest := decodeTag_length ht
  rw [decodeBody, decode_property h3 h9 ht hne, decodeValue_fuel (by omega)]
  cases decodeValueBody type name rest with
  | error e => rfl
  | ok r =>
      have hdrop : (rest.drop r.2).length ≤ rest.length
        := by
        rw [List.length_drop]
        omega
      dsimp only
      rw [decodeBody, (@decode_fuel b.length ((rest.drop r.2).length + 1) (rest.drop r.2) (by omega)
        (by omega)).1 has]
      cases decode ((rest.drop r.2).length + 1) has (rest.drop r.2) with
      | error e => rfl
      | ok s => rfl

/-- A property that is decoded and the body behind it. -/
theorem decodeBody_property {has : Bool} {b name rest : List UInt8} {k n : Nat}
    {type : AMFDataType} {ps : List AMFAny} (h3 : 3 ≤ b.length) (h9 : readUint24T b ≠ 9)
    (ht : decodeTag has b = .ok (name, k, type, rest)) (hne : type ≠ .objectEnd)
    (hv : decodeValueBody type name rest = .ok (ps, n)) :
  decodeBody has b = after ps (k + 1 + n) (decodeBody has (rest.drop n))
  := by
  rw [decodeBody_turn h3 h9 ht hne, hv]

theorem decodeOnceBody_value {b name rest : List UInt8} {k : Nat} {type : AMFDataType}
    (ht : decodeTag true b = .ok (name, k, type, rest)) (hne : type ≠ .objectEnd) :
  decodeOnceBody b =
    match decodeValueBody type name rest with
    | .error e => .error e
    | .ok (ps, n) => .ok (ps, k + 1 + n)
  := by
  have hrest := decodeTag_length ht
  have hvalue : decodeValue (decode b.length true) (decodeOnce b.length) type name rest =
      decodeValueBody type name rest := decodeValue_fuel (by omega)
  rw [← hvalue]
  exact decodeOnce_value ht hne

end AMFObject
