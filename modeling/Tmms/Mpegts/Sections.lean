import Tmms.Mpegts.PsiWriter

/-!
# Sections put together again

What `WriteSection` writes, read from the outside: the packets, their counters, the section in
them, its length, and the checksum over all of it, which is 0 (`writeSection_reassembles`).
-/

open Endian BytesWriter TransportStream

namespace TsTool

/-! ### The residue -/

/-- The bits of a byte of a number. -/
theorem msbFirst_ofNat (x : UInt32) {k : Nat} (h : k < 4) :
  msbFirst (UInt8.ofNat (x.toNat / 2 ^ (8 * (3 - k)))) =
    (List.range 8).map fun i => x.toBitVec.getMsbD (8 * k + i)
  := by
  rw [msbFirst]
  apply List.map_congr_left
  intro i hi
  rw [List.mem_range] at hi
  rw [BitVec.getMsbD_eq_getLsbD, BitVec.getMsbD_eq_getLsbD, decide_eq_true hi,
    decide_eq_true (show 8 * k + i < 32 by omega), Bool.true_and, Bool.true_and]
  change (BitVec.ofNat 8 _).getLsbD _ = x.toNat.testBit _
  rw [BitVec.getLsbD_ofNat, decide_eq_true (show 8 - 1 - i < 8 by omega), Bool.true_and,
    Nat.testBit_div_two_pow]
  congr 1
  omega

/-- The bits of the four bytes that are written of a number. -/
theorem flatMap_msbFirst_writeUint32T (x : UInt32) :
  (writeUint32T x).flatMap msbFirst = (List.range 32).map x.toBitVec.getMsbD
  := by
  have hbytes : writeUint32T x =
      (List.range 4).map fun k => UInt8.ofNat (x.toNat / 2 ^ (8 * (3 - k)))
    := by
    have h16 : x.toNat / 256 / 256 = x.toNat / 2 ^ 16 := Nat.div_div_eq_div_mul _ _ _
    have h24 : x.toNat / 2 ^ 16 / 256 = x.toNat / 2 ^ 24 := Nat.div_div_eq_div_mul _ _ _
    change [UInt8.ofNat (x.toNat / 256 / 256 / 256), UInt8.ofNat (x.toNat / 256 / 256),
      UInt8.ofNat (x.toNat / 256), UInt8.ofNat x.toNat] = _
    rw [h16, h24]
    exact congrArg (fun n => [UInt8.ofNat (x.toNat / 2 ^ 24), UInt8.ofNat (x.toNat / 2 ^ 16),
      UInt8.ofNat (x.toNat / 256), UInt8.ofNat n]) (Nat.div_one x.toNat).symm
  have hbits : List.range 32 = (List.range 4).flatMap fun k => (List.range 8).map (8 * k + ·)
    := by decide
  rw [hbytes, hbits, List.flatMap_map, List.map_flatMap]
  apply List.flatMap_congr
  intro k hk
  rw [msbFirst_ofNat x (List.mem_range.mp hk), List.map_map]
  rfl

/-- The checksum of a message with its checksum behind it. -/
theorem crcMpeg2_append_crc (buf : List UInt8) :
  crcMpeg2 (buf ++ writeUint32T (crcMpeg2 buf)) = 0
  := by
  rw [crcMpeg2, List.flatMap_append, Crc.feed_append, flatMap_msbFirst_writeUint32T]
  exact congrArg UInt32.ofBitVec (Crc.feed_self polynomial _)

end TsTool

namespace PSIWriter

/-- The counter goes on by one with each packet. -/
theorem pushLoop_cc (n : Nat) (w : PSIWriter) (first : Bool) (buf : List UInt8) :
  (pushLoop n w first buf).1.cc.toNat % 16 =
    (w.cc.toNat + (pushLoop n w first buf).2.length) % 16
  := by
  induction n generalizing w first buf with
  | zero => rfl
  | succ n ih =>
      rw [pushLoop]
      split
      · dsimp only
        have hcc := PesWriter.toNat_cc w.cc
        rw [ih, List.length_cons]
        dsimp only
        omega
      · rfl

/-- The packets that `WriteSection` writes have the section, with stuffing behind it. The length in
it is right, and the checksum of all of it is 0. The counters go on where the last call ended. -/
theorem writeSection_reassembles (w : PSIWriter) (hpid : w.pid.toNat < 8192) {g : TsTool.Globals}
    (hg : g.Own) (id : UInt16) (secNum lastSecNum : UInt8) {buf : List UInt8}
    (h : buf.length ≤ 1012) :
  ∃ (cc : UInt8) (packets : List (List UInt8)) (ts : List TsPacket) (tableSection : List UInt8)
      (stuffing : Nat),
    w.writeSection g id secNum lastSecNum buf =
      some ({ w with cc := cc }, TsTool.Checksum.crc32.initialized, packets) ∧
    (∀ b ∈ packets, b.length = 188) ∧
    packets.map TsPacket.parse = ts.map some ∧
    (∀ t ∈ ts, t.pid = w.pid.toNat) ∧
    ts.map TsPacket.payloadUnitStart = true :: List.replicate (ts.length - 1) false ∧
    ts.map TsPacket.continuity = (List.range ts.length).map (fun i => (w.cc.toNat + 1 + i) % 16) ∧
    cc.toNat % 16 = (w.cc.toNat + ts.length) % 16 ∧
    ts.flatMap TsPacket.payload = 0x00 :: (tableSection ++ List.replicate stuffing 0xff) ∧
    TableSection.parse TsTool.crcMpeg2 tableSection = some ⟨w.tableId, id.toNat, buf⟩ ∧
    256 * ((tableSection.getD 1 0).toNat % 16) + (tableSection.getD 2 0).toNat =
      (tableSection.drop 3).length ∧
    TsTool.crcMpeg2 tableSection = 0
  := by
  have hfits : buf.length + 3 + 5 + 4 ≤ 1024 := by omega
  have hparse := w.parse_sectionBytes id secNum lastSecNum hfits
  have hcrc := TsTool.crcMpeg2_append_crc (w.sectionBytes id secNum lastSecNum buf)
  generalize hbytes : w.sectionBytes id secNum lastSecNum buf ++
    writeUint32T (TsTool.crcMpeg2 (w.sectionBytes id secNum lastSecNum buf)) = bytes at hparse hcrc
  have hpos : 0 < bytes.length
    := by
    rw [← hbytes, List.length_append, length_writeUint32T]
    omega
  obtain ⟨ts, stuffing, hts, hpids, hstarts, hcounters, hpayload⟩ :=
    pushLoop_parse hpid true (Nat.le_refl bytes.length) hpos
  have hlength : (w.pushSection bytes).2.length = ts.length
    := by
    have hmap := congrArg List.length hts
    rwa [List.length_map, List.length_map] at hmap
  refine ⟨(w.pushSection bytes).1.cc, (w.pushSection bytes).2, ts, bytes, stuffing, ?_, ?_, hts,
    hpids, hstarts, hcounters, ?_, hpayload, hparse, TableSection.length_of_parse hparse, hcrc⟩
  · rw [writeSection, if_pos hfits]
    dsimp only
    rw [hg.crc32]
    dsimp only
    rw [hbytes, pushSection]
    exact congrArg (fun w' => some (w', TsTool.Checksum.crc32.initialized, _))
      (pushLoop_fst bytes.length w true bytes)
  · intro b hb
    have hmem : TsPacket.parse b ∈ ts.map some := hts ▸ List.mem_map_of_mem hb
    obtain ⟨t, -, ht⟩ := List.mem_map.mp hmem
    exact TsPacket.length_of_parse ht.symm
  · rw [← hlength]
    exact pushLoop_cc bytes.length w true bytes

/-- The largest content fills six packets. -/
theorem writeSection_reassembles_largest :
  ∃ (cc : UInt8) (packets : List (List UInt8)) (tableSection : List UInt8),
    PSIWriter.writeSection { pid := 0x1001, tableId := 0x02, cc := 0x0e } {} 0x0001 0 0
        (List.replicate 1012 0x47) =
      some ({ pid := 0x1001, tableId := 0x02, cc := cc }, TsTool.Checksum.crc32.initialized,
        packets) ∧
    TableSection.parse TsTool.crcMpeg2 tableSection =
      some ⟨0x02, 0x0001, List.replicate 1012 0x47⟩ ∧
    TsTool.crcMpeg2 tableSection = 0
  := by
  obtain ⟨cc, packets, -, tableSection, -, hwrite, -, -, -, -, -, -, -, hparse, -, hcrc⟩ :=
    writeSection_reassembles { pid := 0x1001, tableId := 0x02, cc := 0x0e } (by decide)
      (g := {}) rfl 0x0001 0 0 (Nat.le_of_eq (List.length_replicate (a := (0x47 : UInt8))))
  exact ⟨cc, packets, tableSection, hwrite, hparse, hcrc⟩

end PSIWriter
