import Tmms.Library.RtpPayload
import Tmms.Rtp.Packets

/-!
# NAL units in RTP packets

A receiver gets the NAL units back that `Encode` and `EncodeSpsPps` cut into packets
(`recovered_packetize`).  A unit that does not fit in one packet is in at least two fragments, so
that the one with the start is never the one with the end.

The sizes in `EncodeFua` are of type `int32_t`.  The largest sum, of a header of 12 bytes, two bytes
in front of a fragment and all of a unit but its first byte, must not overflow; a unit in a message,
whose size has 24 bits, is far below that.
-/

open Endian RtpPayload

/-- What is read in the header of a packet. -/
def Rtp.header (r : Rtp) (payload : List UInt8) : RtpPacket where
  marker := r.marker
  payloadType := r.payloadType.toNat % 128
  sequenceNumber := r.sequence.toNat % 65536
  timestamp := r.timestamp.toNat
  ssrc := r.ssrc.toNat
  payload := payload

/-- The byte with the marker. -/
theorem marker_or (marker : Bool) (type : UInt8) :
  decide (((if marker then (1 : UInt8) <<< 7 else 0) ||| (type &&& 0x7f)).toNat / 128 = 1) = marker ∧
    ((if marker then (1 : UInt8) <<< 7 else 0) ||| (type &&& 0x7f)).toNat % 128 = type.toNat % 128
  := by
  cases marker with
  | false =>
      exact forall_uint8 (P := fun type =>
        decide (((0 : UInt8) ||| (type &&& 0x7f)).toNat / 128 = 1) = false ∧
          ((0 : UInt8) ||| (type &&& 0x7f)).toNat % 128 = type.toNat % 128) (by decide +kernel) type
  | true =>
      exact forall_uint8 (P := fun type =>
        decide (((1 : UInt8) <<< 7 ||| (type &&& 0x7f)).toNat / 128 = 1) = true ∧
          ((1 : UInt8) <<< 7 ||| (type &&& 0x7f)).toNat % 128 = type.toNat % 128)
        (by decide +kernel) type

theorem parse_encodeHeader (r : Rtp) (payload : List UInt8) :
  RtpPacket.parse (r.encodeHeader ++ payload) = some (r.header payload)
  := by
  obtain ⟨hmarker, htype⟩ := marker_or r.marker r.payloadType
  have hnumber : beNat [(r.sequence >>> 8).toUInt8, r.sequence.toUInt8] = r.sequence.toNat % 65536
    := by
    have hread := congrArg UInt16.toNat (readUint16T_sequence r.sequence [])
    rw [UInt32.toNat_toUInt16] at hread
    have hlt := beNat_lt [(r.sequence >>> 8).toUInt8, r.sequence.toUInt8]
    rw [List.length_cons, List.length_singleton] at hlt
    rw [← hread, BytesReader.readUint16T, UInt16.toNat_ofNat', Nat.mod_eq_of_lt]
    · rfl
    · exact hlt
  have hfields := RtpPacket.parse_fields
    ((if r.marker then (1 : UInt8) <<< 7 else 0) ||| (r.payloadType &&& 0x7f))
    (show [(r.sequence >>> 8).toUInt8, r.sequence.toUInt8].length = 2 from rfl)
    (length_beBytes 4 r.timestamp.toNat) (length_beBytes 4 r.ssrc.toNat) payload
  rw [hmarker, htype, hnumber, beNat_beBytes_of_lt r.timestamp.toNat_lt,
    beNat_beBytes_of_lt r.ssrc.toNat_lt] at hfields
  rw [Rtp.encodeHeader, List.append_assoc, List.append_assoc]
  exact hfields

namespace RtpH264

/-- A NAL unit: its forbidden bit is 0, and its type is one of a unit. -/
def NalUnit : List UInt8 → Prop
  | [] => False
  | header :: _ => header.toNat < 128 ∧ 1 ≤ header.toNat % 32 ∧ header.toNat % 32 ≤ 23

/-- A call of the packetizer. -/
inductive Call
  | encode (ins : List (List UInt8)) (ts : UInt32)
  | encodeSpsPps (sps pps : List UInt8)

/-- What a call is made with: NAL units with sizes that `EncodeFua` can add to, or parameter sets whose
lengths have 16 bits. -/
def Call.Valid : Call → Prop
  | encode ins _ => ∀ nal ∈ ins, NalUnit nal ∧ nal.length + 13 < 2 ^ 31
  | encodeSpsPps sps pps => sps ≠ [] ∧ pps ≠ [] ∧ sps.length < 65536 ∧ pps.length < 65536

/-- The NAL units of a call. -/
def Call.units : Call → List (List UInt8)
  | encode ins _ => ins
  | encodeSpsPps sps pps => [sps, pps]

/-- The packets of a call. -/
def Call.packets (r : Rtp) : Call → Rtp × List (Packet Unit)
  | encode ins ts => RtpH264.encode r ins ts
  | encodeSpsPps sps pps => RtpH264.encodeSpsPps r sps pps

/-- The packets of calls one after another. -/
def packetize (r : Rtp) : List Call → List (List (Packet Unit))
  | [] => []
  | call :: calls => (call.packets r).2 :: packetize (call.packets r).1 calls

/-- The payload that is read in a packet. -/
def payload (p : Packet Unit) : Option (List UInt8) :=
  (RtpPacket.parse p.data).map RtpPacket.payload

/-- Packets have payloads that go on from a unit that is begun, and are read as units. -/
def Carries (pending : Pending) (packets : List (Packet Unit)) (pending' : Pending)
    (units : List (List UInt8)) : Prop :=
  ∃ payloads : List (List UInt8), packets.map payload = payloads.map some ∧
    feedAll pending payloads = some (pending', units)

theorem Carries.append {pending pending' pending'' : Pending} {ps qs : List (Packet Unit)}
    {units later : List (List UInt8)} (h : Carries pending ps pending' units)
    (h' : Carries pending' qs pending'' later) :
  Carries pending (ps ++ qs) pending'' (units ++ later)
  := by
  obtain ⟨payloads, hpayloads, hfeed⟩ := h
  obtain ⟨payloads', hpayloads', hfeed'⟩ := h'
  refine ⟨payloads ++ payloads', ?_, ?_⟩
  · rw [List.map_append, List.map_append, hpayloads, hpayloads']
  · rw [feedAll_append hfeed, hfeed']
    rfl

theorem carries_nil (pending : Pending) : Carries pending [] pending []
  := ⟨[], rfl, rfl⟩

/-- A packet that is made has the payload it is made of. -/
theorem carries_make {pending pending' : Pending} {bytes : List UInt8} {units : List (List UInt8)}
    (h : feed pending bytes = some (pending', units)) (r : Rtp) (type : Int) (marker : Bool) :
  Carries pending [(r.make type marker bytes).2] pending' units
  := by
  refine ⟨[bytes], ?_, ?_⟩
  · change [payload (r.make type marker bytes).2] = [some bytes]
    rw [payload, Rtp.make, rtpPacket]
    dsimp only
    rw [parse_encodeHeader]
    rfl
  · rw [feedAll_cons h]
    change some (pending', units ++ []) = _
    rw [List.append_nil]

/-! ### Fragments -/

/-- The bytes in front of a fragment give the type of the unit back, and the flags. -/
theorem fragment_bits (type : UInt8) (h : type.toNat < 128) :
  (type &&& 0x60 ||| 28).toNat % 32 = 28 ∧
    ∀ flag ∈ [(0 : UInt8), 0x40, 0x80],
      (type &&& 0x60 ||| 28) &&& 0xe0 ||| (type &&& 0x1f ||| flag) &&& 0x1f = type ∧
        (type &&& 0x1f ||| flag).toNat / 64 = flag.toNat / 64
  := forall_uint8 (P := fun type => type.toNat < 128 → (type &&& 0x60 ||| 28).toNat % 32 = 28 ∧
      ∀ flag ∈ [(0 : UInt8), 0x40, 0x80],
        (type &&& 0x60 ||| 28) &&& 0xe0 ||| (type &&& 0x1f ||| flag) &&& 0x1f = type ∧
          (type &&& 0x1f ||| flag).toNat / 64 = flag.toNat / 64) (by decide +kernel) type h

/-- The first fragment of a unit. -/
theorem feed_first {type : UInt8} (h : type.toNat < 128) (data : List UInt8) :
  feed none ((type &&& 0x60 ||| 28) :: (type &&& 0x1f ||| 0x80) :: data) =
    some (some (type :: data), [])
  := by
  obtain ⟨hindicator, hflags⟩ := fragment_bits type h
  obtain ⟨htype, hbits⟩ := hflags 0x80 (by decide)
  have htop : (type &&& 0x1f ||| 0x80).toNat / 64 = 2 := hbits
  rw [feed_fragment hindicator, feedFragment, htype]
  rw [if_pos]
  omega

/-- A fragment in the middle. -/
theorem feed_middle {type : UInt8} (h : type.toNat < 128) {unit : List UInt8}
    (hunit : unit.head? = some type) (data : List UInt8) :
  feed (some unit) ((type &&& 0x60 ||| 28) :: (type &&& 0x1f) :: data) =
    some (some (unit ++ data), [])
  := by
  obtain ⟨hindicator, hflags⟩ := fragment_bits type h
  obtain ⟨htype, hbits⟩ := hflags 0 (by decide)
  rw [UInt8.or_zero] at htype hbits
  have htop : (type &&& 0x1f).toNat / 64 = 0 := hbits
  rw [feed_fragment hindicator, feedFragment, htype]
  rw [if_pos ⟨by omega, hunit⟩, if_neg (by omega)]

/-- The last fragment of a unit. -/
theorem feed_last {type : UInt8} (h : type.toNat < 128) {unit : List UInt8}
    (hunit : unit.head? = some type) (data : List UInt8) :
  feed (some unit) ((type &&& 0x60 ||| 28) :: (type &&& 0x1f ||| 0x40) :: data) =
    some (none, [unit ++ data])
  := by
  obtain ⟨hindicator, hflags⟩ := fragment_bits type h
  obtain ⟨htype, hbits⟩ := hflags 0x40 (by decide)
  have htop : (type &&& 0x1f ||| 0x40).toNat / 64 = 1 := hbits
  rw [feed_fragment hindicator, feedFragment, htype]
  rw [if_pos ⟨by omega, hunit⟩, if_pos (by omega)]

theorem encodeFuaLoop_nil (type : UInt8) (r : Rtp) (start : Bool) :
  encodeFuaLoop type r start [] = (r, [])
  := by
  rw [encodeFuaLoop]
  exact dif_neg (Nat.lt_irrefl 0)

/-- The fragments of a unit: the first one begins it if there is another one, and those behind it
complete it. -/
theorem carries_encodeFuaLoop {type : UInt8} (h : type.toNat < 128) (r : Rtp) (start : Bool)
    (data : List UInt8) :
  (start = true → 1386 < data.length →
      Carries none (encodeFuaLoop type r start data).2 none [type :: data]) ∧
    (start = false → 0 < data.length → ∀ unit : List UInt8, unit.head? = some type →
      Carries (some unit) (encodeFuaLoop type r start data).2 none [unit ++ data])
  := by
  fun_induction encodeFuaLoop type r start data with
  | case1 r start data hdata packetSize payloadSize last fheader r' packet hmake r'' packets hrest ih =>
      rw [hrest] at ih
      have hsize : payloadSize = min data.length 1386
        := by
        change min (12 + 2 + data.length) 1400 - 2 - 12 = _
        omega
      have hfirst : ∀ {pending pending' : Pending} {units : List (List UInt8)},
          feed pending (fheader ++ data.take payloadSize) = some (pending', units) →
          Carries pending [packet] pending' units
        := by
        intro pending pending' units hfeed
        have hcarries := carries_make hfeed r kPacketTypeVideo last
        rwa [hmake] at hcarries
      constructor
      · rintro rfl hlong
        have hmore : 0 < (data.drop payloadSize).length
          := by
          rw [List.length_drop]
          omega
        have hall : Carries none (packet :: packets) none
            [(type :: data.take payloadSize) ++ data.drop payloadSize]
          := (hfirst (feed_first h _)).append (ih.2 rfl hmore _ rfl)
        rwa [List.cons_append, List.take_append_drop] at hall
      · rintro rfl hpos unit hunit
        by_cases hlast : data.length ≤ payloadSize
        · have hheader : fheader = [type &&& 0x60 ||| 28, type &&& 0x1f ||| 0x40]
            := congrArg (fun flags => [type &&& 0x60 ||| 28, flags]) (if_pos hlast)
          have hdone : data.drop payloadSize = [] := List.drop_eq_nil_of_le hlast
          have hnone : packets = []
            := by
            have hloop := congrArg Prod.snd hrest
            rw [hdone, encodeFuaLoop_nil] at hloop
            exact hloop.symm
          rw [hheader, List.take_of_length_le hlast] at hfirst
          rw [hnone]
          exact hfirst (feed_last h hunit data)
        · have hheader : fheader = [type &&& 0x60 ||| 28, type &&& 0x1f]
            := congrArg (fun flags => [type &&& 0x60 ||| 28, flags]) (if_neg hlast)
          have hmore : 0 < (data.drop payloadSize).length
            := by
            rw [List.length_drop]
            omega
          have hhead : (unit ++ data.take payloadSize).head? = some type
            := by rw [List.head?_append, hunit, Option.some_or]
          rw [hheader] at hfirst
          have hall : Carries (some unit) (packet :: packets) none
              [(unit ++ data.take payloadSize) ++ data.drop payloadSize]
            := (hfirst (feed_middle h hunit _)).append (ih.2 rfl hmore _ hhead)
          rwa [List.append_assoc, List.take_append_drop] at hall
  | case2 r start data hdata =>
      exact ⟨fun _ hlong => absurd hdata (by omega), fun _ hpos => absurd hpos hdata⟩

/-! ### The units of a call -/

/-- A unit is not empty. -/
theorem NalUnit.cases {nal : List UInt8} (h : NalUnit nal) :
  ∃ header data, nal = header :: data ∧ header.toNat < 128 ∧ 1 ≤ header.toNat % 32 ∧
    header.toNat % 32 ≤ 23
  := by
  cases nal with
  | nil => cases h
  | cons header data => exact ⟨header, data, rfl, h⟩

theorem carries_encodeFua {nal : List UInt8} (h : NalUnit nal)
    (hsize : kRtpMaxPayloadSize < Rtp.headerSize + nal.length) (r : Rtp) :
  Carries none (encodeFua r nal).2 none [nal]
  := by
  obtain ⟨header, data, rfl, hforbidden, -⟩ := h.cases
  rw [List.length_cons, kRtpMaxPayloadSize, Rtp.headerSize] at hsize
  exact (carries_encodeFuaLoop hforbidden r true data).1 rfl (by omega)

theorem carries_encodeSingle {nal : List UInt8} (h : NalUnit nal) (r : Rtp) (last : Bool) :
  Carries none (encodeSingle r nal last).2 none [nal]
  := by
  obtain ⟨header, data, rfl, -, hunit, hunit'⟩ := h.cases
  exact carries_make (feed_unit data hunit hunit') r kPacketTypeVideo last

theorem carries_encodeLoop (r : Rtp) {ins : List (List UInt8)} (h : ∀ nal ∈ ins, NalUnit nal) :
  Carries none (encodeLoop r ins).2 none ins
  := by
  induction ins generalizing r with
  | nil => exact carries_nil none
  | cons nal ins ih =>
      have hnal := h nal List.mem_cons_self
      have hins := fun r => ih r fun other hother => h other (List.mem_cons_of_mem nal hother)
      by_cases hsize : Rtp.headerSize + nal.length > kRtpMaxPayloadSize
      · simp only [encodeLoop, if_pos hsize]
        exact (carries_encodeFua hnal hsize r).append (hins _)
      · simp only [encodeLoop, if_neg hsize]
        exact (carries_encodeSingle hnal r _).append (hins _)

/-- The aggregate of two parameter sets. -/
theorem feed_parameterSets {sps pps : List UInt8} (h : sps.length < 65536) (h' : pps.length < 65536)
    (type : UInt8) :
  feed none ((type &&& ~~~0x1f ||| 24) ::
      (beBytes 2 sps.length ++ sps ++ beBytes 2 pps.length ++ pps)) =
    some (none, [sps, pps])
  := by
  have htype : (type &&& ~~~0x1f ||| 24).toNat % 32 = 24
    := forall_uint8 (P := fun type => (type &&& ~~~0x1f ||| 24).toNat % 32 = 24)
      (by decide +kernel) type
  have hpps : splitAggregate (beBytes 2 pps.length ++ pps) = some [pps]
    := by
    have hsplit : splitAggregate (beBytes 2 pps.length ++ (pps ++ [])) =
        (splitAggregate []).map (pps :: ·)
      := splitAggregate_cons (length_beBytes 2 pps.length) (beNat_beBytes_of_lt h')
    rwa [List.append_nil, splitAggregate_nil] at hsplit
  have hall : splitAggregate (beBytes 2 sps.length ++ sps ++ beBytes 2 pps.length ++ pps) =
      some [sps, pps]
    := by
    rw [List.append_assoc (beBytes 2 sps.length ++ sps), splitAggregate_cons (length_beBytes 2 _)
      (beNat_beBytes_of_lt h), hpps]
    rfl
  rw [feed_aggregate htype, hall]
  rfl

theorem carries_encodeSpsPps {sps pps : List UInt8} (hnonempty : sps ≠ [])
    (h : sps.length < 65536) (h' : pps.length < 65536) (r : Rtp) :
  Carries none (encodeSpsPps r sps pps).2 none [sps, pps]
  := by
  have hempty : ¬ ((sps.isEmpty && pps.isEmpty) = true)
    := by
    rw [Bool.and_eq_true, List.isEmpty_iff]
    exact fun hboth => hnonempty hboth.1
  rw [encodeSpsPps, if_neg hempty]
  exact carries_make (feed_parameterSets h h' _) r kPacketTypeVideo false

/-! ### Calls -/

/-- A receiver gets the NAL units of a call from its packets, and those of `Encode` are not longer
than a packet may be. -/
structure Recovered (call : Call) (packets : List (Packet Unit)) : Prop where
  units : ∃ payloads : List (List UInt8), packets.map payload = payloads.map some ∧
    depacketize payloads = some call.units
  size : ∀ p ∈ packets, p.size = UInt32.ofNat p.data.length
  small : ∀ ins ts, call = .encode ins ts → ∀ p ∈ packets, p.data.length ≤ kRtpMaxPayloadSize

/-- Packets have numbers that go on from one, modulo `2 ^ 16`. -/
def Consecutive (number : Nat) (packets : List (Packet Unit)) : Prop :=
  ∀ i p, packets[i]? = some p →
    ∃ q, RtpPacket.parse p.data = some q ∧ q.sequenceNumber = (number + i) % 65536

theorem makes_packets (r : Rtp) (call : Call) :
  Makes kPacketTypeVideo r (call.packets r).2 (call.packets r).1
  := by
  cases call with
  | encode ins ts => exact makes_encode r ins ts
  | encodeSpsPps sps pps => exact makes_encodeSpsPps r sps pps

theorem carries_packets (r : Rtp) {call : Call} (h : call.Valid) :
  Carries none (call.packets r).2 none call.units
  := by
  cases call with
  | encode ins ts => exact carries_encodeLoop _ fun nal hnal => (h nal hnal).1
  | encodeSpsPps sps pps => exact carries_encodeSpsPps h.1 h.2.2.1 h.2.2.2 r

theorem recovered_packets (r : Rtp) {call : Call} (h : call.Valid) :
  Recovered call (call.packets r).2
  := by
  obtain ⟨payloads, hpayloads, hfeed⟩ := carries_packets r h
  refine ⟨⟨payloads, hpayloads, depacketize_of_feedAll hfeed⟩, ?_, ?_⟩
  · intro p hp
    exact (makes_packets r call).counted.size_eq hp
  · rintro ins ts rfl
    exact length_le_of_mem_encodeLoop _ ins

/-- The packets of calls carry all their units, and are counted on from the start. -/
theorem packetize_makes (r : Rtp) {calls : List Call} (h : ∀ call ∈ calls, call.Valid) :
  (∃ r', Makes kPacketTypeVideo r (packetize r calls).flatten r') ∧
    Carries none (packetize r calls).flatten none (calls.flatMap Call.units)
  := by
  induction calls generalizing r with
  | nil => exact ⟨⟨r, makes_nil _ rfl rfl⟩, carries_nil none⟩
  | cons call calls ih =>
      obtain ⟨⟨r', hmakes⟩, hcarries⟩ := ih (call.packets r).1
        fun other hother => h other (List.mem_cons_of_mem call hother)
      rw [packetize, List.flatten_cons, List.flatMap_cons]
      exact ⟨⟨r', (makes_packets r call).append hmakes⟩,
        (carries_packets r (h call List.mem_cons_self)).append hcarries⟩

/-- The numbers of the packets of calls go on from the first one. -/
theorem consecutive_packetize (r : Rtp) {calls : List Call} (h : ∀ call ∈ calls, call.Valid) :
  Consecutive (r.sequence.toNat + 1) (packetize r calls).flatten
  := by
  obtain ⟨⟨r', hmakes⟩, payloads, hpayloads, -⟩ := packetize_makes r h
  intro i p hp
  have hnumber := (hmakes.counted.getElem hp).wireSeq_eq
  have hread : (payloads.map some)[i]? = some (payload p)
    := by rw [← hpayloads, List.getElem?_map, hp, Option.map_some]
  cases hparse : RtpPacket.parse p.data with
  | none =>
      obtain ⟨bytes, -, hbytes⟩ := List.mem_map.mp (List.mem_of_getElem? hread)
      rw [payload, hparse] at hbytes
      cases hbytes
  | some q =>
      refine ⟨q, rfl, ?_⟩
      have hlt : beNat ((p.data.drop 2).take 2) < 2 ^ 16
        := by
        apply Nat.lt_of_lt_of_le (beNat_lt _)
        exact Nat.pow_le_pow_right (by decide) (List.length_take_le 2 _)
      have hwire := congrArg UInt16.toNat hnumber
      rw [Packet.wireSeq, BytesReader.readUint16T, UInt16.toNat_ofNat', Nat.mod_eq_of_lt hlt,
        UInt32.toNat_toUInt16, UInt32.toNat_add, UInt32.toNat_ofNat'] at hwire
      rw [RtpPacket.sequenceNumber_of_parse hparse, hwire]
      omega

/-- A receiver gets the NAL units of all calls, and the numbers of the packets go on through all
of them. -/
theorem recovered_packetize (r : Rtp) (calls : List Call) (h : ∀ call ∈ calls, call.Valid) :
  List.Forall₂ Recovered calls (packetize r calls) ∧
    Consecutive (r.sequence.toNat + 1) (packetize r calls).flatten
  := by
  refine ⟨?_, consecutive_packetize r h⟩
  induction calls generalizing r with
  | nil => exact .nil
  | cons call calls ih =>
      exact .cons (recovered_packets r (h call List.mem_cons_self))
        (ih _ fun other hother => h other (List.mem_cons_of_mem call hother))

/-- Parameter sets, and then a delimiter and a picture in two fragments. -/
theorem recovered_packetize_picture :
  List.Forall₂ Recovered
      [.encodeSpsPps [0x67, 0x42] [0x68], .encode [[0x09, 0xf0], 0x65 :: List.replicate 1400 0] 40]
      (packetize { payloadType := 96, sequence := 65534 }
        [.encodeSpsPps [0x67, 0x42] [0x68],
          .encode [[0x09, 0xf0], 0x65 :: List.replicate 1400 0] 40]) ∧
    Consecutive 65535 (packetize { payloadType := 96, sequence := 65534 }
      [.encodeSpsPps [0x67, 0x42] [0x68],
        .encode [[0x09, 0xf0], 0x65 :: List.replicate 1400 0] 40]).flatten
  := by
  apply recovered_packetize
  intro call hcall
  rcases List.mem_cons.mp hcall with rfl | hcall
  · exact ⟨List.cons_ne_nil _ _, List.cons_ne_nil _ _, by decide, by decide⟩
  · obtain rfl := List.mem_singleton.mp hcall
    intro nal hnal
    rcases List.mem_cons.mp hnal with rfl | hnal
    · exact ⟨⟨by decide, by decide, by decide⟩, by decide⟩
    · obtain rfl := List.mem_singleton.mp hnal
      refine ⟨⟨by decide, by decide, by decide⟩, ?_⟩
      rw [List.length_cons, List.length_replicate]
      decide

end RtpH264
