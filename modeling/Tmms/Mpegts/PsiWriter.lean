import Tmms.Library.ProgramTables
import Tmms.Mpegts.Crc32
import Tmms.Mpegts.Depacketize

/-!
# Writing program tables

`PSIWriter` puts a header in front of the content of a table and the checksum of `CRC32` behind
it, and cuts the section into packets of 188 bytes.  `PatWriter` and `PmtWriter` write the
association table and the map table.

The section is built in a buffer of 1024 bytes, and the content of the map table in one of 1020.
A write beyond the end of one of them is an error of its own here, for the sources do not look
where the end is.
-/

open Endian BytesWriter TransportStream

/-- `kSectionMaxSize`. -/
def kSectionMaxSize : Nat := 1020

/-- `version` and `cc` are bit patterns. -/
structure PSIWriter where
  cc : UInt8 := 0xff
  pid : UInt16 := 0xe000
  tableId : UInt8 := 0x00
  version : UInt8 := 0x00
  deriving DecidableEq, Repr

namespace PSIWriter

/-- The fields that the header of a packet is made of. -/
def fields (w : PSIWriter) : PesWriter := ⟨w.pid, w.cc⟩

/-- The loop of `PushSection`. The first argument bounds the turns: each takes bytes away. -/
def pushLoop : Nat → PSIWriter → Bool → List UInt8 → PSIWriter × List (List UInt8)
  | 0, w, _, _ => (w, [])
  | n + 1, w, first, buf =>
      if buf.length > 0 then
        let w := { w with cc := (w.cc + 1) &&& 0xf }
        let packet := w.fields.tsHeader first ++ if first then [0x00] else []
        let len1 := min (188 - packet.length) buf.length
        let packet := packet ++ buf.take len1
        let packet := packet ++ List.replicate (188 - packet.length) 0xff
        let (w', packets) := pushLoop n w false (buf.drop len1)
        (w', packet :: packets)
      else
        (w, [])

/-- `PushSection`. -/
def pushSection (w : PSIWriter) (buf : List UInt8) : PSIWriter × List (List UInt8) :=
  pushLoop buf.length w true buf

/-- The section up to the checksum. -/
def sectionBytes (w : PSIWriter) (id : UInt16) (secNum lastSecNum : UInt8) (buf : List UInt8) :
    List UInt8 :=
  [w.tableId] ++ writeUint16T (UInt16.ofNat (5 + 4 + buf.length) ||| 0xb000) ++
    writeUint16T id ++ [(0xc1 : UInt8) ||| w.version <<< 1, secNum, lastSecNum] ++ buf

/-- `WriteSection`. The table of the checksum is a static variable. -/
def writeSection (w : PSIWriter) (g : TsTool.Globals) (id : UInt16) (secNum lastSecNum : UInt8)
    (buf : List UInt8) : Option (PSIWriter × TsTool.Globals × List (List UInt8)) :=
  if buf.length + 3 + 5 + 4 ≤ 1024 then
    let bytes := w.sectionBytes id secNum lastSecNum buf
    let (crc, g) := TsTool.crc32 g bytes
    let (w, packets) := w.pushSection (bytes ++ writeUint32T crc)
    some (w, g, packets)
  else
    none

end PSIWriter

structure PatWriter where
  psi : PSIWriter := { pid := 0x0000, tableId := 0x00 }
  programNumber : UInt16 := 0x0001
  pmtPid : UInt16 := 0x1001
  transportStreamId : UInt16 := 0x0001
  deriving DecidableEq, Repr

namespace PatWriter

/-- The content of the association table. -/
def content (w : PatWriter) : List UInt8 :=
  writeUint16T w.programNumber ++ writeUint16T (0xe000 ||| w.pmtPid)

/-- `WritePat`. -/
def writePat (w : PatWriter) (g : TsTool.Globals) :
    Option (PatWriter × TsTool.Globals × List (List UInt8)) :=
  match w.psi.writeSection g w.transportStreamId 0 0 w.content with
  | some (psi, g, packets) => some ({ w with psi := psi }, g, packets)
  | none => none

end PatWriter

/-- `elementaryPid` is the bit pattern of `elementary_pid`. -/
structure ProgramInfo where
  streamType : UInt8
  elementaryPid : UInt16
  deriving DecidableEq, Repr

/-- The bytes of a stream in the map table. -/
def ProgramInfo.entry (p : ProgramInfo) : List UInt8 :=
  [p.streamType] ++ writeUint16T (0xe000 ||| p.elementaryPid) ++ writeUint16T 0xf000

structure PmtWriter where
  psi : PSIWriter := { tableId := 0x02, pid := 0x1001 }
  pcrPid : UInt16 := 0xe000
  programs : List ProgramInfo := []
  deriving DecidableEq, Repr

namespace PmtWriter

/-- The content of the map table. -/
def content (w : PmtWriter) : List UInt8 :=
  writeUint16T (0xe000 ||| w.pcrPid) ++ writeUint16T 0xf000 ++ w.programs.flatMap ProgramInfo.entry

/-- `WritePmt`. -/
def writePmt (w : PmtWriter) (g : TsTool.Globals) :
    Option (PmtWriter × TsTool.Globals × List (List UInt8)) :=
  if w.content.length ≤ kSectionMaxSize then
    match w.psi.writeSection g 0x0001 0 0 w.content with
    | some (psi, g, packets) => some ({ w with psi := psi }, g, packets)
    | none => none
  else
    none

/-- `AddProgramInfo`. -/
def addProgramInfo (w : PmtWriter) (program : ProgramInfo) : PmtWriter :=
  { w with programs := w.programs ++ [program] }

/-- `SetPcrPid`. -/
def setPcrPid (w : PmtWriter) (pid : UInt16) : PmtWriter := { w with pcrPid := pid }

end PmtWriter

/-! ### What is read back -/

namespace PSIWriter

theorem pushLoop_nil (n : Nat) (w : PSIWriter) (first : Bool) :
  pushLoop n w first [] = (w, [])
  := by
  cases n with
  | zero => rfl
  | succ n => rfl

/-- The byte in front of the section. -/
def pointer (first : Bool) : List UInt8 := if first then [0x00] else []

theorem length_pointer_le (first : Bool) :
  (pointer first).length ≤ 1
  := by
  cases first with
  | false => decide
  | true => decide

/-- One turn of the loop. -/
theorem pushLoop_succ (n : Nat) (w : PSIWriter) (first : Bool) (buf part : List UInt8)
    (h : 0 < buf.length)
    (hpart : buf.take (min (184 - (pointer first).length) buf.length) = part) :
  pushLoop (n + 1) w first buf =
    ((pushLoop n { w with cc := (w.cc + 1) &&& 0xf } false (buf.drop part.length)).1,
      ((fields { w with cc := (w.cc + 1) &&& 0xf }).tsHeader first ++
        (pointer first ++ part ++
          List.replicate (184 - (pointer first).length - part.length) 0xff)) ::
      (pushLoop n { w with cc := (w.cc + 1) &&& 0xf } false (buf.drop part.length)).2)
  := by
  have hheader : ∀ w : PSIWriter, (w.fields.tsHeader first ++ pointer first).length =
      4 + (pointer first).length
    := by
    intro w
    rw [List.length_append]
    rfl
  have hroom : ∀ k, 188 - (4 + k) = 184 - k := by omega
  have hlength : part.length = min (184 - (pointer first).length) buf.length
    := by
    rw [← hpart, List.length_take]
    omega
  rw [pushLoop, if_pos h]
  change ((pushLoop n _ false (buf.drop (min (188 - (_ ++ pointer first).length) _))).1,
    (_ ++ pointer first ++ buf.take (min (188 - (_ ++ pointer first).length) _) ++
      List.replicate (188 - (_ ++ pointer first ++
        buf.take (min (188 - (_ ++ pointer first).length) _)).length) 0xff) ::
      (pushLoop n _ false (buf.drop (min (188 - (_ ++ pointer first).length) _))).2) = _
  rw [hheader, hroom, hpart, List.length_append, hheader, hlength, Nat.sub_add_eq, hroom,
    List.append_assoc, List.append_assoc, List.append_assoc]

/-- The loop writes packets whose payloads are the section, with a pointer in front of it in the
first turn and stuffing behind it. -/
theorem pushLoop_parse {n : Nat} {w : PSIWriter} (hpid : w.pid.toNat < 8192) (first : Bool)
    {buf : List UInt8} (hn : buf.length ≤ n) (hpos : 0 < buf.length) :
  ∃ (ts : List TsPacket) (stuffing : Nat),
    (pushLoop n w first buf).2.map TsPacket.parse = ts.map some ∧
    (∀ t ∈ ts, t.pid = w.pid.toNat) ∧
    ts.map TsPacket.payloadUnitStart = first :: List.replicate (ts.length - 1) false ∧
    ts.map TsPacket.continuity =
      (List.range ts.length).map (fun i => (w.cc.toNat + 1 + i) % 16) ∧
    ts.flatMap TsPacket.payload =
      pointer first ++ (buf ++ List.replicate stuffing 0xff)
  := by
  induction n generalizing w first buf with
  | zero => omega
  | succ n ih =>
      have hpointer := length_pointer_le first
      have hcc := PesWriter.toNat_cc w.cc
      have hlow : ((w.cc + 1) &&& 0xf).toNat < 16 := by omega
      generalize hroom : 184 - (pointer first).length = room at *
      have hparse : ∀ part : List UInt8, part.length ≤ room →
          TsPacket.parse ((fields { w with cc := (w.cc + 1) &&& 0xf }).tsHeader first ++
            (pointer first ++ part ++ List.replicate (room - part.length) 0xff)) =
          some ⟨first, w.pid.toNat, (w.cc.toNat + 1) % 16, none,
            pointer first ++ part ++ List.replicate (room - part.length) 0xff⟩
        := by
        intro part hpart
        rw [← hcc]
        refine (PesWriter.carries_plain (w := fields { w with cc := (w.cc + 1) &&& 0xf }) hlow
          first ?_).2 hpid
        simp only [List.length_append, List.length_replicate]
        omega
      rcases Nat.lt_or_ge room buf.length with hlong | hfits
      · -- the packet is full, and the rest of the section is for the other turns
        have htake : (buf.take room).length = room
          := by
          rw [List.length_take]
          omega
        obtain ⟨ts, stuffing, hts, hpids, hstarts, hcounters, hpayload⟩ :=
          ih (w := { w with cc := (w.cc + 1) &&& 0xf }) hpid false
            (show (buf.drop room).length ≤ n by rw [List.length_drop]; omega)
            (by rw [List.length_drop]; omega)
        have hturn := pushLoop_succ n w first buf (buf.take room) (by omega)
          (by rw [hroom, Nat.min_eq_left (Nat.le_of_lt hlong)])
        rw [htake, hroom] at hturn
        have hpacket := hparse (buf.take room) (Nat.le_of_eq htake)
        rw [htake] at hpacket
        refine ⟨⟨first, w.pid.toNat, (w.cc.toNat + 1) % 16, none,
          pointer first ++ buf.take room ++ List.replicate (room - room) 0xff⟩ :: ts, stuffing,
          ?_, ?_, ?_, ?_, ?_⟩
        · rw [hturn, List.map_cons, List.map_cons, hpacket, hts]
        · intro t ht
          rcases List.mem_cons.mp ht with rfl | ht
          · rfl
          · exact hpids t ht
        · rw [List.map_cons, hstarts, List.length_cons, Nat.add_sub_cancel]
          cases ts with
          | nil => cases hstarts
          | cons t ts => rfl
        · rw [List.map_cons, hcounters, List.length_cons, List.range_succ_eq_map, List.map_cons,
            List.map_map, hcc, Nat.add_zero]
          congr 1
          apply List.map_congr_left
          intro i _
          dsimp only [Function.comp]
          omega
        · rw [List.flatMap_cons, hpayload, Nat.sub_self, List.replicate_zero, List.append_nil,
            List.append_assoc]
          congr 1
          change buf.take room ++ (buf.drop room ++ _) = _
          rw [← List.append_assoc, List.take_append_drop]
      · have hturn := pushLoop_succ n w first buf buf hpos
          (by rw [hroom, Nat.min_eq_right hfits, List.take_length])
        rw [hroom, List.drop_length, pushLoop_nil] at hturn
        refine ⟨[⟨first, w.pid.toNat, (w.cc.toNat + 1) % 16, none,
          pointer first ++ buf ++ List.replicate (room - buf.length) 0xff⟩], room - buf.length,
          ?_, ?_, rfl, rfl, ?_⟩
        · rw [hturn, List.map_cons, List.map_nil, hparse buf hfits, List.map_cons, List.map_nil]
        · intro t ht
          rw [List.mem_singleton.mp ht]
        · rw [List.flatMap_cons, List.flatMap_nil, List.append_nil, List.append_assoc]

/-- Only the counter changes. -/
theorem pushLoop_fst (n : Nat) (w : PSIWriter) (first : Bool) (buf : List UInt8) :
  (pushLoop n w first buf).1 = { w with cc := (pushLoop n w first buf).1.cc }
  := by
  induction n generalizing w first buf with
  | zero => rfl
  | succ n ih =>
      rw [pushLoop]
      split
      · apply ih
      · rfl

/-- The packets of a section have it. -/
theorem carries_pushSection {w : PSIWriter} (hpid : w.pid.toNat < 8192) {buf : List UInt8}
    (h : 0 < buf.length) :
  Carries w.pid.toNat buf (w.pushSection buf).2
  := by
  obtain ⟨ts, stuffing, hts, hpids, hstarts, -, hpayload⟩ :=
    pushLoop_parse hpid true (Nat.le_refl _) h
  exact ⟨ts, hts, hpids, hstarts, stuffing, hpayload⟩

end PSIWriter

/-- The table of the checksums is the one that `CRC32` builds, or there is none yet. -/
def TsTool.Globals.Own (g : TsTool.Globals) : Prop :=
  g.initialize 0x04C11DB7 false = TsTool.Checksum.crc32.initialized

theorem TsTool.Globals.Own.crc32 {g : TsTool.Globals} (h : g.Own) (buf : List UInt8) :
  TsTool.crc32 g buf = (TsTool.crcMpeg2 buf, TsTool.Checksum.crc32.initialized)
  := by
  rw [TsTool.crc32, h]
  exact congrArg (·, TsTool.Checksum.crc32.initialized) (TsTool.crc32TableDriven_mpeg2 buf)

theorem TsTool.Globals.own_initialized :
  TsTool.Checksum.crc32.initialized.Own
  := rfl

namespace PSIWriter

/-- The length of a section behind its four bits of marks. -/
theorem toNat_length {n : Nat} (h : n < 4096) :
  (UInt16.ofNat n ||| 0xb000).toNat = 45056 + n
  := by
  have hor : n ||| 45056 = 45056 + n
    := by
    rw [Nat.or_comm]
    exact (Nat.shiftLeft_add_eq_or_of_lt (i := 12) h 11).symm
  rw [UInt16.toNat_or, UInt16.toNat_ofNat', Nat.mod_eq_of_lt (by omega)]
  exact hor

/-- The marks around the version. -/
theorem toNat_version (version : UInt8) :
  ((0xc1 : UInt8) ||| version <<< 1).toNat / 64 = 3 ∧
    ((0xc1 : UInt8) ||| version <<< 1).toNat % 2 = 1
  := forall_uint8
    (P := fun version => ((0xc1 : UInt8) ||| version <<< 1).toNat / 64 = 3 ∧
      ((0xc1 : UInt8) ||| version <<< 1).toNat % 2 = 1) (by decide +kernel) version

/-- A section with its checksum is read back. -/
theorem parse_sectionBytes (w : PSIWriter) (id : UInt16) (secNum lastSecNum : UInt8)
    {buf : List UInt8} (h : buf.length + 3 + 5 + 4 ≤ 1024) :
  TableSection.parse TsTool.crcMpeg2 (w.sectionBytes id secNum lastSecNum buf ++
      writeUint32T (TsTool.crcMpeg2 (w.sectionBytes id secNum lastSecNum buf))) =
    some ⟨w.tableId, id.toNat, buf⟩
  := by
  have hlength := toNat_length (n := 5 + 4 + buf.length) (by omega)
  have hcrc : beNat (writeUint32T (TsTool.crcMpeg2 (w.sectionBytes id secNum lastSecNum buf))) =
      (TsTool.crcMpeg2 (w.sectionBytes id secNum lastSecNum buf)).toNat
    := beNat_beBytes_of_lt (UInt32.toNat_lt _)
  have hid : 256 * (UInt8.ofNat (id.toNat / 256)).toNat + (UInt8.ofNat id.toNat).toNat = id.toNat
    := by
    have hlt := id.toNat_lt
    rw [UInt8.toNat_ofNat', UInt8.toNat_ofNat']
    omega
  have hmarks : (UInt8.ofNat ((UInt16.ofNat (5 + 4 + buf.length) ||| 0xb000).toNat / 256)).toNat /
        16 = 0xb ∧
      256 * ((UInt8.ofNat ((UInt16.ofNat (5 + 4 + buf.length) ||| 0xb000).toNat / 256)).toNat %
          16) + (UInt8.ofNat (UInt16.ofNat (5 + 4 + buf.length) ||| 0xb000).toNat).toNat =
        9 + buf.length
    := by
    rw [hlength, UInt8.toNat_ofNat', UInt8.toNat_ofNat']
    omega
  rw [← hid]
  exact parse_of_section hmarks (toNat_version w.version) (length_writeUint32T _) hcrc

/-- What `WriteSection` writes is a table, when the checksum is the right one. -/
theorem writeSection_eq {w : PSIWriter} (hpid : w.pid.toNat < 8192) {g : TsTool.Globals}
    (hg : g.Own) (id : UInt16) (secNum lastSecNum : UInt8) {buf : List UInt8}
    (h : buf.length + 3 + 5 + 4 ≤ 1024) :
  ∃ cc packets, w.writeSection g id secNum lastSecNum buf =
      some ({ w with cc := cc }, TsTool.Checksum.crc32.initialized, packets) ∧
    CarriesTable TsTool.crcMpeg2 w.pid.toNat w.tableId buf packets
  := by
  have hparse := w.parse_sectionBytes id secNum lastSecNum h
  generalize hbytes : w.sectionBytes id secNum lastSecNum buf ++
    writeUint32T (TsTool.crcMpeg2 (w.sectionBytes id secNum lastSecNum buf)) = bytes at hparse
  have hpos : 0 < bytes.length
    := by
    rw [← hbytes, List.length_append, length_writeUint32T]
    omega
  refine ⟨(w.pushSection bytes).1.cc, (w.pushSection bytes).2, ?_, bytes, id.toNat,
    carries_pushSection hpid hpos, hparse⟩
  rw [writeSection, if_pos h]
  dsimp only
  rw [hg.crc32]
  dsimp only
  rw [hbytes, pushSection]
  exact congrArg (fun w => some (w, _, _)) (pushLoop_fst _ _ _ _)

end PSIWriter

/-- A writer of association tables is as it is made, apart from the counter. -/
def PatWriter.Standard (w : PatWriter) : Prop :=
  ∃ cc, w = { psi := { cc := cc, pid := 0x0000, tableId := 0x00 } }

/-- The association table has the identifier of the map table. -/
theorem PatWriter.writePat_eq {w : PatWriter} (h : w.Standard) {g : TsTool.Globals}
    (hg : g.Own) :
  ∃ w' packets, w.writePat g = some (w', TsTool.Checksum.crc32.initialized, packets) ∧
    w'.Standard ∧ IsAssociation TsTool.crcMpeg2 0x1001 packets
  := by
  obtain ⟨cc, rfl⟩ := h
  have hpid : (0x0000 : UInt16).toNat < 8192 := by decide
  have hfits : ([0x00, 0x01, 0xf0, 0x01] : List UInt8).length + 3 + 5 + 4 ≤ 1024 := by decide
  obtain ⟨cc', packets, hwrite, htable⟩ :=
    PSIWriter.writeSection_eq (w := { cc := cc, pid := 0x0000, tableId := 0x00 }) hpid hg 0x0001
      0 0 hfits
  have hcontent : content { psi := { cc := cc, pid := 0x0000, tableId := 0x00 } } =
      [0x00, 0x01, 0xf0, 0x01]
    := by
    change writeUint16T 0x0001 ++ writeUint16T (0xe000 ||| 0x1001) = _
    decide
  refine ⟨{ psi := { cc := cc', pid := 0x0000, tableId := 0x00 } }, packets, ?_, ⟨cc', rfl⟩,
    [0x00, 0x01, 0xf0, 0x01], [(1, 0x1001)], htable, by decide, by decide⟩
  rw [writePat, hcontent, hwrite]

/-- The thirteen bits of an identifier behind three bits of marks. -/
theorem toNat_marked (pid : UInt16) :
  256 * ((UInt8.ofNat ((0xe000 ||| pid).toNat / 256)).toNat % 32) +
      (UInt8.ofNat (0xe000 ||| pid).toNat).toNat =
    pid.toNat % 8192
  := by
  have hlow : (0xe000 ||| pid).toNat % 2 ^ 13 = pid.toNat % 2 ^ 13
    := by
    rw [UInt16.toNat_or, Nat.or_mod_two_pow]
    exact Nat.zero_or _
  have hlt := (0xe000 ||| pid).toNat_lt
  rw [UInt8.toNat_ofNat', UInt8.toNat_ofNat']
  omega

/-- What is read of a stream. -/
def ProgramInfo.stream (p : ProgramInfo) : UInt8 × Nat := (p.streamType, p.elementaryPid.toNat % 8192)

theorem parseStreams_entries (programs : List ProgramInfo) :
  parseStreams (programs.flatMap ProgramInfo.entry) = some (programs.map ProgramInfo.stream)
  := by
  induction programs with
  | nil => rfl
  | cons p programs ih =>
      have hmarked := toNat_marked p.elementaryPid
      rw [List.flatMap_cons]
      change parseStreams (p.streamType :: UInt8.ofNat ((0xe000 ||| p.elementaryPid).toNat / 256) ::
        UInt8.ofNat (0xe000 ||| p.elementaryPid).toNat :: 0xf0 :: 0x00 ::
        programs.flatMap ProgramInfo.entry) = _
      rw [parseStreams, if_pos (by decide), ih, hmarked]
      rfl

/-- A writer of map tables has the identifier and the table of one. -/
def PmtWriter.Standard (w : PmtWriter) : Prop :=
  ∃ cc, w.psi = { cc := cc, tableId := 0x02, pid := 0x1001 }

/-- What is written as a map table has all the streams, and without an error there are at most
201 of them. -/
theorem PmtWriter.writePmt_eq {w : PmtWriter} (h : w.Standard) {g : TsTool.Globals} (hg : g.Own)
    {w' : PmtWriter} {g' : TsTool.Globals} {packets : List (List UInt8)}
    (hwrite : w.writePmt g = some (w', g', packets)) :
  w'.Standard ∧ w'.programs = w.programs ∧ g' = TsTool.Checksum.crc32.initialized ∧
    ∀ p ∈ w.programs, IsMap TsTool.crcMpeg2 0x1001 p.stream packets
  := by
  obtain ⟨cc, hpsi⟩ := h
  have hpid : w.psi.pid.toNat < 8192
    := by
    have hlt : (0x1001 : UInt16).toNat < 8192 := by decide
    rw [hpsi]
    exact hlt
  have hparse : ∃ pcrPid, parseMap w.content = some (pcrPid, w.programs.map ProgramInfo.stream)
    := by
    refine ⟨256 * ((UInt8.ofNat ((0xe000 ||| w.pcrPid).toNat / 256)).toNat % 32) +
      (UInt8.ofNat (0xe000 ||| w.pcrPid).toNat).toNat, ?_⟩
    change parseMap (UInt8.ofNat ((0xe000 ||| w.pcrPid).toNat / 256) ::
      UInt8.ofNat (0xe000 ||| w.pcrPid).toNat :: 0xf0 :: 0x00 ::
      w.programs.flatMap ProgramInfo.entry) = _
    rw [parseMap, if_pos (by decide), parseStreams_entries]
    rfl
  obtain ⟨pcrPid, hparse⟩ := hparse
  rw [writePmt] at hwrite
  split at hwrite
  · by_cases hfits : w.content.length + 3 + 5 + 4 ≤ 1024
    · obtain ⟨cc', packets', hsection, htable⟩ :=
        PSIWriter.writeSection_eq (w := w.psi) hpid hg 0x0001 0 0 hfits
      rw [hsection] at hwrite
      obtain ⟨rfl, rfl, rfl⟩ : _ = w' ∧ _ = g' ∧ _ = packets := by simpa using hwrite
      rw [hpsi] at htable
      refine ⟨⟨cc', by rw [hpsi]⟩, rfl, rfl, ?_⟩
      intro p hp
      exact ⟨w.content, pcrPid, _, htable, hparse, List.mem_map_of_mem hp⟩
    · rw [PSIWriter.writeSection, if_neg hfits] at hwrite
      cases hwrite
  · cases hwrite
