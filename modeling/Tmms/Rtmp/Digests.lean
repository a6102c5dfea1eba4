import Tmms.Library.ByteBuffer
import Tmms.Rtmp.ClientHandShake

/-!
# The digest of C1 and S1

`CreateC1S1` writes a digest of the block into the block, where the sum of four of its own bytes
says, and `VerifyDigest` finds it there again.  Nothing that is written behind the computation
of the offset touches the four bytes, and the digest is not among the bytes it is made of.
-/

/-! ### Bytes that are replaced -/

section Overwrite

variable {data bytes : List UInt8} {pos n : Nat}

/-- The bytes in front of those that are replaced. -/
theorem take_overwrite (h : n ≤ pos) (hpos : pos ≤ data.length) :
  (overwrite data pos bytes).take n = data.take n
  := ByteBuffer.take_store h hpos

/-- The bytes behind those that are replaced. -/
theorem drop_overwrite (h : pos + bytes.length ≤ n) (hpos : pos ≤ data.length) :
  (overwrite data pos bytes).drop n = data.drop n
  := ByteBuffer.drop_store h hpos

/-- Positions in what is behind some first bytes. -/
theorem drop_overwrite_add {k : Nat} (hpos : k + pos ≤ data.length) :
  (overwrite data (k + pos) bytes).drop k = overwrite (data.drop k) pos bytes
  := ByteBuffer.drop_store_add hpos

/-- The bytes that are written. -/
theorem slice_overwrite (hpos : pos ≤ data.length) :
  ((overwrite data pos bytes).drop pos).take bytes.length = bytes
  := by
  have hwindow := ByteBuffer.window_store bytes hpos
  rw [ByteBuffer.window, Nat.add_sub_cancel_left] at hwindow
  exact hwindow

/-- A part that does not meet the bytes that are replaced. -/
theorem slice_overwrite_of_disjoint {off : Nat} (h : off + n ≤ pos ∨ pos + bytes.length ≤ off)
    (hpos : pos ≤ data.length) :
  ((overwrite data pos bytes).drop off).take n = (data.drop off).take n
  := by
  have hwindow := @ByteBuffer.window_store_of_disjoint _ data bytes off _ _ h hpos
  rw [ByteBuffer.window, ByteBuffer.window, Nat.add_sub_cancel_left] at hwindow
  exact hwindow

end Overwrite

/-! ### Digests -/

/-- `VerifyDigest`. -/
def verifyDigest (crypto : HandShakeCrypto) (buf : List UInt8) (digestPos : Nat)
    (key : List UInt8) : Bool :=
  (buf.drop digestPos).take sha256DigestLength ==
    calculateDigest crypto (buf.take kRtmpHandShakePacketSize) digestPos key

/-- A digest does not depend on the bytes at its own place. -/
theorem calculateDigest_overwrite (crypto : HandShakeCrypto) {src digest : List UInt8} {gap : Nat}
    (key : List UInt8) (hgap : gap ≠ 0) (hdigest : digest.length = 32)
    (hin : gap + 32 ≤ src.length) :
  calculateDigest crypto (overwrite src gap digest) gap key = calculateDigest crypto src gap key
  := by
  rw [calculateDigest, if_neg hgap, take_overwrite (Nat.le_refl gap) (by omega),
    drop_overwrite (by rw [hdigest]; exact Nat.le_refl _) (by omega), calculateDigest,
    if_neg hgap]

/-- A digest that is written at its own place verifies itself. -/
theorem verifyDigest_overwrite (crypto : HandShakeCrypto) {block : List UInt8} {pos : Nat}
    (key : List UInt8) (hblock : block.length = kRtmpHandShakePacketSize) (hpos : pos ≠ 0)
    (hin : pos + 32 ≤ kRtmpHandShakePacketSize) :
  verifyDigest crypto (overwrite block pos (calculateDigest crypto block pos key)) pos key = true
  := by
  have hdigest := length_calculateDigest crypto block pos key
  have hslice := @slice_overwrite block (calculateDigest crypto block pos key) pos (by omega)
  rw [hdigest] at hslice
  have hall : (overwrite block pos (calculateDigest crypto block pos key)).take
      kRtmpHandShakePacketSize = overwrite block pos (calculateDigest crypto block pos key)
    := by
    apply List.take_of_length_le
    exact Nat.le_of_eq ((length_overwrite (by rw [hdigest]; omega)).trans hblock)
  rw [verifyDigest, hall, calculateDigest_overwrite crypto key hpos hdigest (by omega),
    sha256DigestLength, hslice]
  apply beq_self_eq_true

/-- The offset depends on four bytes. -/
theorem getDigestOffset_overwrite {buf bytes : List UInt8} {off pos : Nat} (modVal : Nat)
    (h : off + 4 ≤ pos ∨ pos + bytes.length ≤ off) (hpos : pos ≤ buf.length) :
  getDigestOffset (overwrite buf pos bytes) off modVal = getDigestOffset buf off modVal
  := by
  rw [getDigestOffset, slice_overwrite_of_disjoint h hpos, getDigestOffset]

/-! ### The block -/

namespace RtmpHandShake

variable (crypto : HandShakeCrypto) (draws : HandShakeDraws) (h : RtmpHandShake)

/-- The version that an end puts into its block. -/
def version : List UInt8 := if h.isClient then rtmpClientVer else rtmpServerVer

/-- The key of an end's own digests. -/
def openKey : List UInt8 := if h.isClient then rtmpPlayerKeyOpen else rtmpServerKeyOpen

theorem length_version : h.version.length = 4 := by
  rw [version]
  split <;> rfl

/-- C1 or S1 before the version and the digest are written: what is drawn, behind a time of
zeros. -/
def drawnBlock : List UInt8 :=
  overwrite (((List.range (kRtmpHandShakePacketSize + 1)).map draws.c1s1).drop 1) 0 [0, 0, 0, 0]

theorem length_drawnBlock : (drawnBlock draws).length = kRtmpHandShakePacketSize := by
  have hrandom : (((List.range (kRtmpHandShakePacketSize + 1)).map draws.c1s1).drop 1).length =
      kRtmpHandShakePacketSize
    := by rw [List.length_drop, List.length_map, List.length_range, Nat.add_sub_cancel]
  rw [drawnBlock, length_overwrite, hrandom]
  rw [hrandom]
  decide

/-- C1 or S1 with the version in it. -/
def versionBlock : List UInt8 := overwrite (drawnBlock draws) 4 h.version

theorem length_versionBlock : (h.versionBlock draws).length = kRtmpHandShakePacketSize := by
  rw [versionBlock, length_overwrite, length_drawnBlock]
  rw [length_version, length_drawnBlock]
  decide

/-- Where the digest is. -/
def digestOffset : Nat := getDigestOffset (h.versionBlock draws) 8 728

theorem digestOffset_bounds :
  12 ≤ h.digestOffset draws ∧ h.digestOffset draws + 32 ≤ kRtmpHandShakePacketSize
  := by
  have hlt := getDigestOffset_lt (h.versionBlock draws) 8 (by decide : 0 < 728)
  constructor
  · apply Nat.le_add_left
  · rw [digestOffset, kRtmpHandShakePacketSize]
    omega

/-- C1 or S1 starts with the time, of zeros, and the version. -/
theorem take_versionBlock : (h.versionBlock draws).take 8 = [0, 0, 0, 0] ++ h.version := by
  have hdrawn := length_drawnBlock draws
  have hsize : kRtmpHandShakePacketSize = 1536 := rfl
  have htime : (drawnBlock draws).take 4 = [0, 0, 0, 0]
    := @slice_overwrite _ [0, 0, 0, 0] 0 (Nat.zero_le _)
  have hversion : ((h.versionBlock draws).drop 4).take 4 = h.version
    := by
    have hslice := @slice_overwrite (drawnBlock draws) h.version 4 (by omega)
    rw [length_version] at hslice
    exact hslice
  rw [← List.take_append_drop 4 ((h.versionBlock draws).take 8), List.take_take, List.drop_take,
    hversion, Nat.min_eq_left (by decide), versionBlock,
    take_overwrite (Nat.le_refl 4) (by omega), htime]

/-- The block that `CreateC1S1` makes, behind the version of the protocol, and the digest it
remembers. -/
theorem createC1S1_complex (hcomplex : h.isComplexHandshake = true) :
  let digest := calculateDigest crypto (h.versionBlock draws) (h.digestOffset draws) h.openKey
  (createC1S1 crypto draws h).c1s1.drop 1 =
      overwrite (h.versionBlock draws) (h.digestOffset draws) digest ∧
    (createC1S1 crypto draws h).digest = digest
  := by
  intro digest
  let random := (List.range (kRtmpHandShakePacketSize + 1)).map draws.c1s1
  let opened := overwrite (overwrite random 0 [0x03]) 1 [0, 0, 0, 0]
  have hrandom : random.length = 1537
    := by rw [List.length_map, List.length_range, kRtmpHandShakePacketSize]
  have hopened : opened.drop 1 = drawnBlock draws
    := by
    have hbytes := @drop_overwrite_add (overwrite random 0 [0x03]) [0, 0, 0, 0] 0 1
    rw [drop_overwrite (Nat.le_refl 1) (Nat.zero_le _)] at hbytes
    apply hbytes
    rw [length_overwrite]
    all_goals simp only [hrandom, List.length_cons, List.length_nil]; decide
  have hlength : opened.length = 1537
    := by
    have hfirst := @length_overwrite random [0x03] 0 (by rw [hrandom]; decide)
    rw [length_overwrite (by rw [hfirst, hrandom]; decide), hfirst, hrandom]
  have hversioned : (overwrite opened 5 h.version).drop 1 = h.versionBlock draws
    := by
    rw [versionBlock, ← hopened]
    apply @drop_overwrite_add opened h.version 4 1
    rw [hlength]
    decide
  have hoffset : getDigestOffset (opened.drop 1) 8 728 = h.digestOffset draws
    := by
    have hdrawn := length_drawnBlock draws
    rw [digestOffset, versionBlock, hopened, getDigestOffset_overwrite]
    · right
      have hversion := length_version h
      omega
    · rw [hdrawn]
      decide
  have hmade : createC1S1 crypto draws h =
      { h with
        c1s1 := overwrite (overwrite opened 5 h.version) (1 + h.digestOffset draws) digest
        digest := digest }
    := by
    rw [createC1S1, if_pos hcomplex]
    dsimp only [opened, random] at hoffset hversioned ⊢
    rw [version] at hversioned
    rw [hoffset, hversioned]
    rfl
  rw [hmade]
  constructor
  · dsimp only
    rw [drop_overwrite_add, hversioned]
    rw [length_overwrite, hlength]
    · have hbounds := digestOffset_bounds draws h
      rw [kRtmpHandShakePacketSize] at hbounds
      omega
    · rw [length_version, hlength]
      decide
  · rfl

/-- The block that `CreateC1S1` makes verifies itself: `VerifyDigest` accepts it at the place
that `GetDigestOffset` says, which is behind the time, the version and the four bytes that say
where it is, and `digest_` is what is there. -/
theorem createC1S1_verifies (hcomplex : h.isComplexHandshake = true) :
  let block := (createC1S1 crypto draws h).c1s1.drop 1
  let offset := getDigestOffset block 8 728
  block.length = kRtmpHandShakePacketSize ∧
    verifyDigest crypto block offset (if h.isClient then rtmpPlayerKeyOpen else rtmpServerKeyOpen) =
      true ∧
    (8 + 4 ≤ offset ∧ offset + sha256DigestLength ≤ kRtmpHandShakePacketSize) ∧
    block.take 8 = [0, 0, 0, 0] ++ (if h.isClient then rtmpClientVer else rtmpServerVer) ∧
    (createC1S1 crypto draws h).digest = (block.drop offset).take sha256DigestLength
  := by
  obtain ⟨hblock, hdigest⟩ := createC1S1_complex crypto draws h hcomplex
  have hbounds := digestOffset_bounds draws h
  have hversioned := length_versionBlock draws h
  have hlength := length_calculateDigest crypto (h.versionBlock draws) (h.digestOffset draws)
    h.openKey
  dsimp only
  rw [hblock, hdigest]
  have hoffset : getDigestOffset (overwrite (h.versionBlock draws) (h.digestOffset draws)
      (calculateDigest crypto (h.versionBlock draws) (h.digestOffset draws) h.openKey)) 8 728 =
        h.digestOffset draws
    := getDigestOffset_overwrite 728 (.inl hbounds.1) (by omega)
  rw [hoffset]
  refine ⟨?_, ?_, hbounds, ?_, ?_⟩
  · rw [length_overwrite, hversioned]
    omega
  · apply verifyDigest_overwrite crypto h.openKey hversioned _ hbounds.2
    omega
  · rw [take_overwrite (by omega) (by omega)]
    apply take_versionBlock
  · rw [sha256DigestLength, ← hlength, slice_overwrite (by omega)]

open RtmpServing (zeroCrypto zeroDraws) in
theorem createC1S1_verifies_zero :
  verifyDigest zeroCrypto ((createC1S1 zeroCrypto zeroDraws { isClient := true }).c1s1.drop 1)
      (getDigestOffset ((createC1S1 zeroCrypto zeroDraws { isClient := true }).c1s1.drop 1) 8 728)
      rtmpPlayerKeyOpen = true
  := (createC1S1_verifies zeroCrypto zeroDraws { isClient := true } rfl).2.1

end RtmpHandShake
