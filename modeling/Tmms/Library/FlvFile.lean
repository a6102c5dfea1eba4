import Tmms.Library.Endian

/-!
# FLV files

A file is a header of nine bytes and then tags.  In front of each tag, and at the end, stands
the size of the tag before it, which is zero in front of the first one.  A file that goes on
being written may end behind a tag.

A tag has eleven bytes and data.  Its timestamp has 32 bits: the lower 24 come first, and the
upper eight, the extension, stand behind them.
-/

open Endian

namespace FlvFile

/-- A tag. -/
structure Tag where
  type : UInt8
  timestamp : UInt32
  data : List UInt8
  deriving DecidableEq, Repr

/-- The number that stands behind a tag. -/
def Tag.size (t : Tag) : Nat := 11 + t.data.length

/-- The bytes of a tag. -/
def Tag.bytes (t : Tag) : List UInt8 :=
  t.type :: (beBytes 3 t.data.length ++ beBytes 3 t.timestamp.toNat ++
    .ofNat (t.timestamp.toNat / 2 ^ 24) :: [0, 0, 0] ++ t.data)

/-- The header, with a flag for audio and one for video. -/
def header (flags : UInt8) : List UInt8 := [0x46, 0x4C, 0x56, 1, flags, 0, 0, 0, 9]

/-- The bytes of tags behind a tag of some size. -/
def bodyBytes : Nat → List Tag → List UInt8
  | _, [] => []
  | previous, t :: tags => beBytes 4 previous ++ (t.bytes ++ bodyBytes t.size tags)

/-- The number that stands behind the last of some tags. -/
def lastSize (previous : Nat) (tags : List Tag) : Nat := tags.foldl (fun _ t => t.size) previous

/-- A tag at the head of some bytes, and what is behind it. -/
def parseTag : List UInt8 → Option (Tag × List UInt8)
  | type :: s2 :: s1 :: s0 :: t2 :: t1 :: t0 :: extended :: 0 :: 0 :: 0 :: rest =>
    let size := beNat [s2, s1, s0]
    if rest.length < size then
      none
    else
      some
        ({ type := type
           timestamp := .ofNat (beNat [extended, t2, t1, t0])
           data := rest.take size },
          rest.drop size)
  | _ => none

/-- The tags of some bytes behind a tag of some size. -/
def parseBody : Nat → Nat → List UInt8 → Option (List Tag)
  | 0, _, _ => none
  | fuel + 1, previous, bytes =>
    if bytes = [] then
      some []
    else if bytes.length < 4 ∨ beNat (bytes.take 4) ≠ previous then
      none
    else if bytes.length = 4 then
      some []
    else
      match parseTag (bytes.drop 4) with
      | none => none
      | some (t, rest) => (parseBody fuel t.size rest).map (t :: ·)

/-- The tags of a file. -/
def parse (bytes : List UInt8) : Option (List Tag) :=
  if bytes.length < 9 ∨ bytes.take 9 ≠ header (bytes.getD 4 0) ∨
      bytes.getD 4 0 &&& 0xFA ≠ 0 then
    none
  else
    parseBody bytes.length 0 (bytes.drop 9)

/-! ### Round trips -/

theorem beBytes_three (n : Nat) :
  beBytes 3 n = [.ofNat (n / 256 / 256), .ofNat (n / 256), .ofNat n]
  := rfl

theorem parseTag_bytes {t : Tag} (h : t.data.length < 2 ^ 24) (rest : List UInt8) :
  parseTag (t.bytes ++ rest) = some (t, rest)
  := by
  have htime : UInt32.ofNat (beNat (.ofNat (t.timestamp.toNat / 2 ^ 24) ::
      beBytes 3 t.timestamp.toNat)) = t.timestamp
    := by
    have hbytes : .ofNat (t.timestamp.toNat / 2 ^ 24) :: beBytes 3 t.timestamp.toNat =
        beBytes 4 t.timestamp.toNat
      := by
      have hdiv : t.timestamp.toNat / 2 ^ 24 = t.timestamp.toNat / 256 / 256 / 256 := by omega
      rw [hdiv]
      rfl
    rw [hbytes, beNat_beBytes_of_lt t.timestamp.toNat_lt, UInt32.ofNat_toNat]
  have hsize : beNat (beBytes 3 t.data.length) = t.data.length := beNat_beBytes_of_lt h
  rw [beBytes_three] at htime hsize
  rw [Tag.bytes, beBytes_three, beBytes_three]
  simp only [List.cons_append, List.nil_append, parseTag, hsize, htime]
  rw [if_neg (by simp), List.take_left' rfl, List.drop_left' rfl]

theorem length_tagBytes (t : Tag) :
  t.bytes.length = t.size
  := by
  simp only [Tag.bytes, Tag.size, List.length_cons, List.length_append, length_beBytes,
    List.length_nil]
  omega

/-- Tags are found again. -/
theorem parseBody_bodyBytes {tags : List Tag} (h : ∀ t ∈ tags, t.data.length < 2 ^ 24)
    {fuel previous : Nat} (hfuel : tags.length < fuel) (hprevious : previous < 2 ^ 32) :
  parseBody fuel previous (bodyBytes previous tags) = some tags
  := by
  induction tags generalizing fuel previous with
  | nil =>
      obtain ⟨fuel, rfl⟩ : ∃ n, fuel = n + 1 := ⟨fuel - 1, by omega⟩
      rfl
  | cons t tags ih =>
      obtain ⟨ht, hrest⟩ := List.forall_mem_cons.mp h
      rw [List.length_cons] at hfuel
      obtain ⟨fuel, rfl⟩ : ∃ n, fuel = n + 1 := ⟨fuel - 1, by omega⟩
      have hlen : 15 ≤ (bodyBytes previous (t :: tags)).length
        := by
        simp only [bodyBytes, List.length_append, length_beBytes, length_tagBytes, Tag.size]
        omega
      have hne : bodyBytes previous (t :: tags) ≠ []
        := by
        intro hnil
        rw [hnil] at hlen
        cases hlen
      have hread : ¬ ((bodyBytes previous (t :: tags)).length < 4 ∨
          beNat ((bodyBytes previous (t :: tags)).take 4) ≠ previous)
        := by
        rw [bodyBytes, List.take_left' (length_beBytes 4 _), beNat_beBytes_of_lt hprevious,
          ← bodyBytes]
        omega
      have hdrop : (bodyBytes previous (t :: tags)).drop 4 = t.bytes ++ bodyBytes t.size tags
        := by rw [bodyBytes, List.drop_left' (length_beBytes 4 _)]
      have hsize : t.size < 2 ^ 32
        := by
        rw [Tag.size]
        omega
      rw [parseBody, if_neg hne, if_neg hread, if_neg (by omega), hdrop, parseTag_bytes ht]
      dsimp only
      rw [ih hrest (by omega) hsize]
      rfl

theorem length_le_bodyBytes (previous : Nat) (tags : List Tag) :
  tags.length ≤ (bodyBytes previous tags).length
  := by
  induction tags generalizing previous with
  | nil => apply Nat.le_refl
  | cons t tags ih =>
      have htags := ih t.size
      simp only [bodyBytes, List.length_cons, List.length_append, length_beBytes]
      omega

theorem lastSize_append (previous : Nat) (tags tags' : List Tag) :
  lastSize previous (tags ++ tags') = lastSize (lastSize previous tags) tags'
  := List.foldl_append

theorem bodyBytes_singleton (previous : Nat) (t : Tag) :
  bodyBytes previous [t] = beBytes 4 previous ++ t.bytes
  := by rw [bodyBytes, bodyBytes, List.append_nil]

theorem bodyBytes_append (previous : Nat) (tags tags' : List Tag) :
  bodyBytes previous (tags ++ tags') =
    bodyBytes previous tags ++ bodyBytes (lastSize previous tags) tags'
  := by
  induction tags generalizing previous with
  | nil => rfl
  | cons t tags ih =>
      rw [List.cons_append, bodyBytes, bodyBytes, ih, List.append_assoc, List.append_assoc]
      rfl

/-- A file of tags whose sizes fit in 24 bits is parsed. -/
theorem parse_header_append {flags : UInt8} (hflags : flags &&& 0xFA = 0) {tags : List Tag}
    (h : ∀ t ∈ tags, t.data.length < 2 ^ 24) :
  parse (header flags ++ bodyBytes 0 tags) = some tags
  := by
  have hlen := length_le_bodyBytes 0 tags
  have hflag : (header flags ++ bodyBytes 0 tags).getD 4 0 = flags := rfl
  have htake : (header flags ++ bodyBytes 0 tags).take 9 = header flags := rfl
  have hdrop : (header flags ++ bodyBytes 0 tags).drop 9 = bodyBytes 0 tags := rfl
  have hlong : (header flags ++ bodyBytes 0 tags).length = 9 + (bodyBytes 0 tags).length
    := by
    rw [List.length_append]
    rfl
  have hvalid : ¬ ((header flags ++ bodyBytes 0 tags).length < 9 ∨
      (header flags ++ bodyBytes 0 tags).take 9 ≠
        header ((header flags ++ bodyBytes 0 tags).getD 4 0) ∨
      (header flags ++ bodyBytes 0 tags).getD 4 0 &&& 0xFA ≠ 0)
    := by
    rw [hflag, htake, hflags, hlong]
    simp
  rw [parse, if_neg hvalid, hdrop, hlong]
  apply parseBody_bodyBytes h
  · omega
  · decide

end FlvFile
