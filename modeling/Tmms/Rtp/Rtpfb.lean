import Tmms.Base.Bytes
import Tmms.Library.SearchTree

/-!
# Transport feedback

A generic NACK is a list of entries, a number and a bitmap of the 16 numbers behind it.  `Rtpfb`
collects them in a `std::set` ordered by the distance of two numbers as a signed one of 16 bits.
That is not an order on all numbers: of two that are 32768 apart neither is in front of the other.

So a number is lost where its search ends behind the one 32768 away (`refuses_iff`), which depends
on the numbers inserted before and on the shape of the tree.
-/

open BytesReader Endian

/-- `Rtcp`, the header of a packet. -/
structure Rtcp where
  version : UInt8 := 2
  padding : UInt8 := 0
  rc : UInt8 := 0
  payloadType : UInt8
  plLen : UInt16 := 0
  deriving DecidableEq, Repr

/-- `Rtcp::DecodeHeader`, which fails on less than four bytes. -/
def Rtcp.decodeHeader (data : List UInt8) : Option Rtcp :=
  if data.length < 4 then
    none
  else
    some {
      version := data.getD 0 0 >>> 6
      padding := (data.getD 0 0 >>> 5) &&& 0x01
      rc := data.getD 0 0 &&& 0x1f
      payloadType := data.getD 1 0
      plLen := readUint16T (data.drop 2) }

/-- `kRtcpPtRtpfb`. -/
def kRtcpPtRtpfb : UInt8 := 205

/-- `SeqCmp`. -/
def seqCmp (prev current : UInt16) : Bool := (current - prev).toBitVec.toInt > 0

structure Rtpfb where
  header : Rtcp := { payloadType := kRtcpPtRtpfb }
  ssrc : UInt32 := 0
  mediaSsrc : UInt32 := 0
  lostSeqs : RbTree UInt16 := .leaf

/-- An entry of a generic NACK. -/
structure NackEntry where
  pid : UInt16
  blp : UInt16
  deriving DecidableEq, Repr

namespace NackEntry

/-- The entry as it is sent. -/
def encode (e : NackEntry) : List UInt8 := beBytes 2 e.pid.toNat ++ beBytes 2 e.blp.toNat

/-- The entry names a number. -/
def Names (e : NackEntry) (n : UInt16) : Prop :=
  n = e.pid ∨ ∃ i < 16, e.blp.toNat.testBit i = true ∧ n.toNat = (e.pid.toNat + i + 1) % 2 ^ 16

end NackEntry

namespace Rtpfb

/-- The turn of `DecodeNack` for an entry. -/
def decodeEntry (lostSeqs : RbTree UInt16) (pid blp : UInt16) : RbTree UInt16 :=
  (List.range 16).foldl
    (fun lostSeqs i =>
      if (blp >>> UInt16.ofNat i) &&& 0x0001 ≠ 0 then
        lostSeqs.insert seqCmp (pid + UInt16.ofNat i + 1)
      else lostSeqs)
    (lostSeqs.insert seqCmp pid)

/-- The loop of `DecodeNack`, with how far it comes. -/
def decodeNackLoop (lostSeqs : RbTree UInt16) : List UInt8 → RbTree UInt16 × Nat
  | a :: b :: c :: d :: data =>
      let lostSeqs := decodeEntry lostSeqs (readUint16T [a, b]) (readUint16T [c, d])
      let (lostSeqs, n) := decodeNackLoop lostSeqs data
      (lostSeqs, n + 4)
  | _ => (lostSeqs, 0)

/-- `DecodeNack`, with what it returns. -/
def decodeNack (fb : Rtpfb) (data : List UInt8) : Rtpfb × Nat :=
  let (lostSeqs, n) := decodeNackLoop .leaf data
  ({ fb with lostSeqs := lostSeqs }, n)

/-- `Decode`, with how many bytes were read as entries. -/
def decode (fb : Rtpfb) (data : List UInt8) : Rtpfb × Nat :=
  match Rtcp.decodeHeader data with
  | none => (fb, 0)
  | some header =>
      let fb := { fb with header := header }
      let data := data.drop 4
      if data.length < 8 then
        (fb, 0)
      else
        let fb := { fb with ssrc := readUint32T data, mediaSsrc := readUint32T (data.drop 4) }
        let data := data.drop 8
        if header.rc = 1 then fb.decodeNack data else (fb, 0)

/-! ### What is named -/

/-- Entries name a number. -/
def Named (entries : List NackEntry) (n : UInt16) : Prop := ∃ e ∈ entries, e.Names n

/-- The numbers that an entry names, in the order in which they are inserted. -/
def numbersOf (pid blp : UInt16) : List UInt16 :=
  pid :: ((List.range 16).filter fun i => (blp >>> UInt16.ofNat i) &&& 0x0001 ≠ 0).map
    fun i => pid + UInt16.ofNat i + 1

/-- The numbers that entries name. -/
def numbers (entries : List NackEntry) : List UInt16 :=
  entries.flatMap fun e => numbersOf e.pid e.blp

/-- `LostSeqs` has the numbers that entries name, and no others. -/
def Exact (lostSeqs : RbTree UInt16) (entries : List NackEntry) : Prop :=
  ∀ n, n ∈ lostSeqs.toList ↔ Named entries n

/-- A number is inserted at least once where its search in the tree of those inserted before does not
end behind the number 32768 away. -/
def Placed (numbers : List UInt16) (n : UInt16) : Prop :=
  ∃ front back, numbers = front ++ n :: back ∧
    (RbTree.leaf.insertAll seqCmp front).position seqCmp n ≠ some (n + 0x8000)

/-! ### Inserting -/

/-- Neither of two numbers is in front of the other exactly if they are the same or 32768 apart. -/
theorem not_seqCmp_iff (a b : UInt16) :
  seqCmp a b = false ∧ seqCmp b a = false ↔ a = b ∨ a = b + 0x8000
  := by
  have hhalf : (0x8000 : UInt16).toNat = 32768 := rfl
  have ha := a.toNat_lt
  have hb := b.toNat_lt
  rw [seqCmp, seqCmp, decide_eq_false_iff_not, decide_eq_false_iff_not,
    BitVec.toInt_eq_toNat_cond, BitVec.toInt_eq_toNat_cond, UInt16.toNat_toBitVec,
    UInt16.toNat_toBitVec, UInt16.toNat_sub, UInt16.toNat_sub, ← UInt16.toNat_inj, ← UInt16.toNat_inj,
    UInt16.toNat_add, hhalf]
  omega

/-- A number is refused exactly where its search ends behind itself or the number 32768 away. -/
theorem refuses_iff (t : RbTree UInt16) (n : UInt16) :
  t.Refuses seqCmp n ↔
    t.position seqCmp n = some n ∨ t.position seqCmp n = some (n + 0x8000)
  := by
  constructor
  · rintro ⟨k, hposition, hlt⟩
    have hpast := (RbTree.position_eq_some hposition).2
    rcases (not_seqCmp_iff k n).mp ⟨hlt, hpast⟩ with rfl | rfl
    · exact .inl hposition
    · exact .inr hposition
  · rintro (hposition | hposition)
    · exact ⟨_, hposition, ((not_seqCmp_iff n n).mpr (.inl rfl)).1⟩
    · exact ⟨_, hposition, ((not_seqCmp_iff _ n).mpr (.inr rfl)).1⟩

/-- What is in the set behind some insertions: the numbers that were placed. -/
theorem mem_insertAll_iff (numbers : List UInt16) (n : UInt16) :
  n ∈ (RbTree.leaf.insertAll seqCmp numbers).toList ↔ Placed numbers n
  := by
  rw [RbTree.mem_insertAll]
  constructor
  · rintro (hnil | ⟨front, back, hnumbers, hplaced⟩)
    · cases hnil
    · exact ⟨front, back, hnumbers, fun h => hplaced ((refuses_iff _ n).mpr (.inr h))⟩
  · rintro ⟨front, back, rfl, hposition⟩
    by_cases hrefuses : (RbTree.leaf.insertAll seqCmp front).Refuses seqCmp n
    · -- it is there already, from an insertion before
      have hfound := ((refuses_iff _ n).mp hrefuses).resolve_right hposition
      have hmem := (RbTree.position_eq_some hfound).1
      rcases RbTree.mem_insertAll.mp hmem with hnil | ⟨front', back', rfl, hplaced⟩
      · cases hnil
      · exact .inr ⟨front', back' ++ n :: back, List.append_assoc _ _ _, hplaced⟩
    · exact .inr ⟨front, back, rfl, hrefuses⟩

/-! ### Decoding -/

theorem decodeEntry_eq (lostSeqs : RbTree UInt16) (pid blp : UInt16) :
  decodeEntry lostSeqs pid blp = lostSeqs.insertAll seqCmp (numbersOf pid blp)
  := by
  rw [decodeEntry, numbersOf, RbTree.insertAll, List.foldl_cons, List.foldl_map, List.foldl_filter]
  simp only [decide_eq_true_eq]

theorem insertAll_append (lostSeqs : RbTree UInt16) (front back : List UInt16) :
  lostSeqs.insertAll seqCmp (front ++ back) = (lostSeqs.insertAll seqCmp front).insertAll seqCmp back
  := List.foldl_append

/-- Entries are read one after the other, and what is behind them goes on from there. -/
theorem decodeNackLoop_encode (lostSeqs : RbTree UInt16) (entries : List NackEntry)
    (data : List UInt8) :
  decodeNackLoop lostSeqs (entries.flatMap NackEntry.encode ++ data) =
    let rest := decodeNackLoop (lostSeqs.insertAll seqCmp (numbers entries)) data
    (rest.1, rest.2 + 4 * entries.length)
  := by
  induction entries generalizing lostSeqs with
  | nil => rfl
  | cons e entries ih =>
      obtain ⟨a, b, hpid⟩ := List.length_eq_two.mp (length_beBytes 2 e.pid.toNat)
      obtain ⟨c, d, hblp⟩ := List.length_eq_two.mp (length_beBytes 2 e.blp.toNat)
      have hreadPid := readUint16T_toNat e.pid []
      have hreadBlp := readUint16T_toNat e.blp []
      rw [List.append_nil, hpid] at hreadPid
      rw [List.append_nil, hblp] at hreadBlp
      rw [List.flatMap_cons, NackEntry.encode, hpid, hblp, List.append_assoc]
      change decodeNackLoop lostSeqs (a :: b :: c :: d :: (entries.flatMap NackEntry.encode ++ data)) = _
      have hnumbers : numbers (e :: entries) = numbersOf e.pid e.blp ++ numbers entries
        := List.flatMap_cons
      rw [decodeNackLoop, hreadPid, hreadBlp, decodeEntry_eq, ih, hnumbers, insertAll_append]
      dsimp only
      rw [List.length_cons, Nat.mul_add_one, Nat.add_assoc]

theorem length_entries (entries : List NackEntry) :
  (entries.flatMap NackEntry.encode).length = 4 * entries.length
  := by
  induction entries with
  | nil => rfl
  | cons e entries ih =>
      rw [List.flatMap_cons, List.length_append, ih, NackEntry.encode, List.length_append,
        length_beBytes, length_beBytes, List.length_cons]
      omega

/-- All bytes are read in fours. -/
theorem snd_decodeNackLoop (lostSeqs : RbTree UInt16) :
    ∀ data : List UInt8, (decodeNackLoop lostSeqs data).2 = 4 * (data.length / 4)
  | [] => by simp [decodeNackLoop]
  | [_] => by simp [decodeNackLoop]
  | [_, _] => by simp [decodeNackLoop]
  | [_, _, _] => by simp [decodeNackLoop]
  | a :: b :: c :: d :: data => by
      have hrest := snd_decodeNackLoop
        (decodeEntry lostSeqs (readUint16T [a, b]) (readUint16T [c, d])) data
      rw [decodeNackLoop]
      dsimp only
      rw [hrest, List.length_cons, List.length_cons, List.length_cons, List.length_cons]
      omega

/-- A bit of a bitmap, as it is looked for. -/
theorem bit_iff (blp : UInt16) {i : Nat} (hi : i < 16) :
  (blp >>> UInt16.ofNat i) &&& 0x0001 ≠ 0 ↔ blp.toNat.testBit i = true
  := by
  have hone : (0x0001 : UInt16).toNat = 1 := rfl
  have hzero : (0 : UInt16).toNat = 0 := rfl
  have hshift : (UInt16.ofNat i).toNat % 16 = i := by
    rw [UInt16.toNat_ofNat']
    omega
  rw [ne_eq, ← UInt16.toNat_inj, UInt16.toNat_and, UInt16.toNat_shiftRight, hshift, hone, hzero,
    Nat.and_one_is_mod, Nat.shiftRight_eq_div_pow, Nat.testBit_eq_decide_div_mod_eq, decide_eq_true_eq]
  omega

theorem mem_numbersOf (e : NackEntry) (n : UInt16) :
  n ∈ numbersOf e.pid e.blp ↔ e.Names n
  := by
  rw [numbersOf, List.mem_cons, List.mem_map, NackEntry.Names]
  apply or_congr_right
  apply exists_congr
  intro i
  rw [List.mem_filter, List.mem_range, decide_eq_true_eq, and_assoc]
  apply and_congr_right
  intro hi
  rw [bit_iff e.blp hi]
  apply and_congr_right
  intro _
  have hone : (1 : UInt16).toNat = 1 := rfl
  rw [← UInt16.toNat_inj, UInt16.toNat_add, UInt16.toNat_add, UInt16.toNat_ofNat', hone, eq_comm]
  omega

theorem mem_numbers (entries : List NackEntry) (n : UInt16) :
  n ∈ numbers entries ↔ Named entries n
  := by
  rw [numbers, List.mem_flatMap]
  apply exists_congr
  exact fun e => and_congr_right fun _ => mem_numbersOf e n

theorem decodeNack_encode (fb : Rtpfb) (entries : List NackEntry) :
  fb.decodeNack (entries.flatMap NackEntry.encode) =
    ({ fb with lostSeqs := RbTree.leaf.insertAll seqCmp (numbers entries) }, 4 * entries.length)
  := by
  have hloop := decodeNackLoop_encode .leaf entries []
  rw [List.append_nil] at hloop
  rw [decodeNack, hloop]
  dsimp only
  rw [decodeNackLoop, Nat.zero_add]
  nofun

theorem named_of_placed {entries : List NackEntry} {n : UInt16} (h : Placed (numbers entries) n) :
  Named entries n
  := by
  obtain ⟨front, back, hnumbers, -⟩ := h
  rw [← mem_numbers, hnumbers]
  exact List.mem_append_right _ List.mem_cons_self

/-- The set has exactly the numbers that are named if every one of them is placed. -/
theorem exact_iff_placed (fb : Rtpfb) (entries : List NackEntry) :
  Exact (fb.decodeNack (entries.flatMap NackEntry.encode)).1.lostSeqs entries ↔
    ∀ n, Named entries n → Placed (numbers entries) n
  := by
  rw [decodeNack_encode, Exact]
  apply forall_congr'
  intro n
  rw [mem_insertAll_iff]
  constructor
  · exact fun h => h.mpr
  · exact fun hplaced => ⟨named_of_placed, hplaced⟩

/-- Of the numbers 0 and 32768 the second one is lost. -/
theorem not_exact_opposite :
  ¬ ∀ (fb : Rtpfb) (entries : List NackEntry),
    Exact (fb.decodeNack (entries.flatMap NackEntry.encode)).1.lostSeqs entries
  := by
  intro h
  have hlost : ¬ (0x8000 : UInt16) ∈
      (decodeNack {} ([⟨0, 0⟩, ⟨0x8000, 0⟩].flatMap NackEntry.encode)).1.lostSeqs.toList
    := by decide
  apply hlost
  apply (h {} [⟨0, 0⟩, ⟨0x8000, 0⟩] 0x8000).mpr
  exact ⟨⟨0x8000, 0⟩, List.mem_cons_of_mem _ List.mem_cons_self, .inl rfl⟩

end Rtpfb
