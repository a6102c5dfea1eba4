import Mathlib.Logic.Function.Basic
import Tmms.Library.ProgramTables

/-!
# Multiplexes

Units of several streams in one transport stream.  A unit is in packets of its identifier that
follow each other: the first one is marked, and the packets of an identifier are numbered on
(`IsUnit`, `Multiplex`).  A receiver takes the packets of one identifier and puts their units
together.  It misses none, and gets the units of its stream (`Multiplex.receives`).

A stream may be in several parts, each of which is a multiplex that goes on where the one before
ended (`Along`).  Any parts in a row are a multiplex (`Along.of_row`).
-/

namespace TransportStream

/-! ### Receiving -/

/-- Reads some packets, which are all there is. -/
def readPackets : Nat → List UInt8 → Option (List TsPacket)
  | 0, bytes => if bytes = [] then some [] else none
  | n + 1, bytes =>
      (TsPacket.parse (bytes.take 188)).bind fun t => (readPackets n (bytes.drop 188)).map (t :: ·)

/-- Reads a stream. -/
def readStream (bytes : List UInt8) : Option (List TsPacket) :=
  readPackets (bytes.length / 188) bytes

/-- The packets of an identifier. -/
def ofPid (pid : Nat) (ts : List TsPacket) : List TsPacket := ts.filter fun t => t.pid = pid

/-- What a receiver of one identifier does with a packet: a unit begins, or the last one goes
on. -/
def receive (units : List (List UInt8)) (t : TsPacket) : List (List UInt8) :=
  if t.payloadUnitStart then
    units ++ [t.payload]
  else
    units.dropLast ++ units.getLast?.toList.map (· ++ t.payload)

/-- The units that are received in packets of one identifier. -/
def received (ts : List TsPacket) : List (List UInt8) := ts.foldl receive []

/-- Packets are numbered on from a counter. -/
def NumberedOn (counter : Nat) (ts : List TsPacket) : Prop :=
  ts.map TsPacket.continuity = (List.range ts.length).map fun i => (counter + 1 + i) % 16

instance (counter : Nat) (ts : List TsPacket) : Decidable (NumberedOn counter ts) :=
  inferInstanceAs (Decidable (_ = _))

/-- The section in a unit: a pointer of zero is in front of it, and what is behind it is left
out. -/
def TableSection.ofUnit (check : List UInt8 → UInt32) : List UInt8 → Option TableSection
  | [] => none
  | pointer :: rest =>
      if pointer = 0 then
        TableSection.parse check
          (rest.take (3 + (256 * ((rest.getD 1 0).toNat % 16) + (rest.getD 2 0).toNat)))
      else
        none

/-! ### Multiplexes -/

/-- Packets of an identifier have a unit in their payloads and are numbered on. -/
structure IsUnit (pid counter : Nat) (payload : List UInt8) (ts : List TsPacket) : Prop where
  pids : ∀ t ∈ ts, t.pid = pid
  starts : ts.map TsPacket.payloadUnitStart = true :: List.replicate (ts.length - 1) false
  counters : NumberedOn counter ts
  payloads : ts.flatMap TsPacket.payload = payload

/-- Packets have units with their identifiers, each of which is numbered on. -/
inductive Multiplex :
    (Nat → Nat) → List (Nat × List UInt8) → List TsPacket → (Nat → Nat) → Prop where
  | nil (c : Nat → Nat) : Multiplex c [] [] c
  | cons {c c' : Nat → Nat} {pid : Nat} {payload : List UInt8} {units : List (Nat × List UInt8)}
      {ts ts' : List TsPacket} (h : IsUnit pid (c pid) payload ts)
      (hrest : Multiplex (Function.update c pid (c pid + ts.length)) units ts' c') :
      Multiplex c ((pid, payload) :: units) (ts ++ ts') c'

/-! ### Numbers -/

/-- Counters have four bits. -/
theorem NumberedOn.congr {c c' : Nat} {ts : List TsPacket} (h : NumberedOn c ts)
    (hc : c % 16 = c' % 16) :
  NumberedOn c' ts
  := by
  rw [NumberedOn] at h ⊢
  rw [h]
  apply List.map_congr_left
  intro i _
  omega

theorem NumberedOn.append {c : Nat} {ts ts' : List TsPacket} (h : NumberedOn c ts)
    (h' : NumberedOn (c + ts.length) ts') :
  NumberedOn c (ts ++ ts')
  := by
  rw [NumberedOn] at h h' ⊢
  rw [List.map_append, h, h', List.length_append, List.range_add, List.map_append, List.map_map]
  congr 1
  apply List.map_congr_left
  intro i _
  dsimp only [Function.comp]
  omega

/-! ### Units -/

/-- Packets that are not marked go on with the last unit. -/
theorem foldl_receive_unmarked {ts : List TsPacket} (h : ∀ t ∈ ts, t.payloadUnitStart = false)
    (units : List (List UInt8)) (payload : List UInt8) :
  ts.foldl receive (units ++ [payload]) =
    units ++ [payload ++ ts.flatMap TsPacket.payload]
  := by
  induction ts generalizing payload with
  | nil => rw [List.flatMap_nil, List.append_nil, List.foldl_nil]
  | cons t ts ih =>
      have hunmarked := h t List.mem_cons_self
      have hone : receive (units ++ [payload]) t = units ++ [payload ++ t.payload]
        := by
        rw [receive, hunmarked, if_neg Bool.false_ne_true, List.dropLast_concat,
          List.getLast?_concat]
        rfl
      rw [List.foldl_cons, hone, ih fun t' ht' => h t' (List.mem_cons_of_mem _ ht'),
        List.flatMap_cons, List.append_assoc]

variable {pid counter : Nat} {payload : List UInt8} {ts ts' : List TsPacket}

/-- There is a first packet, which is marked, and the others are not. -/
theorem IsUnit.exists_cons (h : IsUnit pid counter payload ts) :
  ∃ t rest, ts = t :: rest ∧ t.payloadUnitStart = true ∧
    ∀ t' ∈ rest, t'.payloadUnitStart = false
  := by
  have hstarts := h.starts
  cases ts with
  | nil => cases hstarts
  | cons t rest =>
      rw [List.map_cons, List.length_cons, Nat.add_sub_cancel] at hstarts
      obtain ⟨hmarked, hrest⟩ := List.cons.inj hstarts
      refine ⟨t, rest, rfl, hmarked, ?_⟩
      intro t' ht'
      have hmem := List.mem_map_of_mem (f := TsPacket.payloadUnitStart) ht'
      rw [hrest] at hmem
      exact List.eq_of_mem_replicate hmem

/-- The packets of a unit are received as it. -/
theorem IsUnit.foldl_receive (h : IsUnit pid counter payload ts) (units : List (List UInt8)) :
  ts.foldl receive units = units ++ [payload]
  := by
  have hpayload := h.payloads
  obtain ⟨t, rest, rfl, hmarked, hunmarked⟩ := h.exists_cons
  have hone : receive units t = units ++ [t.payload]
    := by rw [receive, hmarked, if_pos rfl]
  rw [List.foldl_cons, hone, foldl_receive_unmarked hunmarked, ← hpayload, List.flatMap_cons]

theorem IsUnit.congr {counter' : Nat} (h : IsUnit pid counter payload ts)
    (hcounter : counter % 16 = counter' % 16) :
  IsUnit pid counter' payload ts
  := ⟨h.pids, h.starts, h.counters.congr hcounter, h.payloads⟩

theorem IsUnit.ofPid_self (h : IsUnit pid counter payload ts) :
  ofPid pid ts = ts
  := by
  apply List.filter_eq_self.mpr
  intro t ht
  exact decide_eq_true (h.pids t ht)

theorem IsUnit.ofPid_other (h : IsUnit pid counter payload ts) {pid' : Nat} (hne : pid ≠ pid') :
  ofPid pid' ts = []
  := by
  apply List.filter_eq_nil_iff.mpr
  intro t ht
  rw [h.pids t ht, decide_eq_true_iff]
  exact hne

theorem ofPid_append (pid : Nat) (ts ts' : List TsPacket) :
  ofPid pid (ts ++ ts') = ofPid pid ts ++ ofPid pid ts'
  := List.filter_append ..

variable {c c' c'' : Nat → Nat} {units units' : List (Nat × List UInt8)}

/-- One unit is a multiplex. -/
theorem IsUnit.multiplex (h : IsUnit pid (c pid) payload ts) :
  Multiplex c [(pid, payload)] ts (Function.update c pid (c pid + ts.length))
  := by
  have hone := Multiplex.cons h (.nil _)
  rwa [List.append_nil] at hone

theorem Multiplex.append (h : Multiplex c units ts c') (h' : Multiplex c' units' ts' c'') :
  Multiplex c (units ++ units') (ts ++ ts') c''
  := by
  induction h with
  | nil c => exact h'
  | cons hunit _ ih =>
      rw [List.cons_append, List.append_assoc]
      exact .cons hunit (ih h')

/-- The packets of an identifier are numbered on, and go on from its units. -/
theorem Multiplex.foldl_receive (h : Multiplex c units ts c') (pid : Nat)
    (before : List (List UInt8)) :
  NumberedOn (c pid) (ofPid pid ts) ∧
    (ofPid pid ts).foldl receive before =
      before ++ (units.filter fun u => u.1 = pid).map Prod.snd
  := by
  induction h generalizing before with
  | nil c => exact ⟨rfl, (List.append_nil _).symm⟩
  | @cons c c' pid' payload units ts ts' hunit _ ih =>
      rw [ofPid_append]
      by_cases hpid : pid' = pid
      · subst hpid
        obtain ⟨hnumbered, hreceived⟩ := ih (before ++ [payload])
        rw [Function.update_self] at hnumbered
        rw [hunit.ofPid_self, List.foldl_append, hunit.foldl_receive, hreceived,
          List.filter_cons_of_pos, List.map_cons, List.append_assoc]
        · exact ⟨hunit.counters.append hnumbered, rfl⟩
        · rw [decide_eq_true_iff]
      · obtain ⟨hnumbered, hreceived⟩ := ih before
        rw [Function.update_of_ne (Ne.symm hpid)] at hnumbered
        rw [hunit.ofPid_other hpid, List.nil_append, hreceived, List.filter_cons_of_neg]
        · exact ⟨hnumbered, rfl⟩
        · rw [decide_eq_true_iff]
          exact hpid

/-- A receiver of an identifier misses no packet, and gets its units. -/
theorem Multiplex.receives (h : Multiplex c units ts c') (pid : Nat) :
  NumberedOn (c pid) (ofPid pid ts) ∧
    received (ofPid pid ts) = (units.filter fun u => u.1 = pid).map Prod.snd
  := h.foldl_receive pid []

/-- A unit is part of what is carried. -/
theorem Multiplex.length_le (h : Multiplex c units ts c') {u : Nat × List UInt8}
    (hu : u ∈ units) :
  u.2.length ≤ (ts.flatMap TsPacket.payload).length
  := by
  induction h with
  | nil c => cases hu
  | cons hunit _ ih =>
      rw [List.flatMap_append, List.length_append, hunit.payloads]
      rcases List.mem_cons.mp hu with rfl | hu
      · exact Nat.le_add_right _ _
      · exact Nat.le_trans (ih hu) (Nat.le_add_left _ _)

/-! ### Bytes -/

/-- Packets that can be read are read one behind the other. -/
theorem readStream_flatten {packets : List (List UInt8)} {ts : List TsPacket}
    (h : packets.map TsPacket.parse = ts.map some) :
  readStream packets.flatten = some ts
  := by
  have hread : packets.flatten.length = 188 * packets.length ∧
      readPackets packets.length packets.flatten = some ts
    := by
    induction packets generalizing ts with
    | nil =>
        cases ts with
        | nil => exact ⟨rfl, rfl⟩
        | cons t ts => cases h
    | cons packet packets ih =>
        cases ts with
        | nil => cases h
        | cons t ts =>
            rw [List.map_cons, List.map_cons] at h
            obtain ⟨hparse, hrest⟩ := List.cons.inj h
            have hlength := TsPacket.length_of_parse hparse
            obtain ⟨hsum, hpackets⟩ := ih hrest
            rw [List.flatten_cons, List.length_append, List.length_cons]
            refine ⟨by omega, ?_⟩
            rw [readPackets, List.take_left' hlength, List.drop_left' hlength, hparse, hpackets]
            rfl
  obtain ⟨hlength, hpackets⟩ := hread
  rw [readStream, hlength, Nat.mul_div_cancel_left _ (by decide)]
  exact hpackets

/-- A payload is part of its packet. -/
theorem TsPacket.length_payload_le {b : List UInt8} {t : TsPacket}
    (h : TsPacket.parse b = some t) :
  t.payload.length ≤ b.length
  := by
  match b, h with
  | sync :: b1 :: b2 :: b3 :: body, h =>
      rw [TsPacket.parse] at h
      split at h
      · obtain ⟨⟨adaptation, payload⟩, hsplit, rfl⟩ := Option.map_eq_some_iff.mp h
        have hpayload : payload.length ≤ body.length
          := by
          rw [splitAdaptation.eq_def] at hsplit
          split at hsplit
          · cases hsplit
            exact Nat.le_refl _
          · split at hsplit
            · cases body with
              | nil => cases hsplit
              | cons length rest =>
                  dsimp only at hsplit
                  split at hsplit
                  · obtain ⟨field, -, hfield⟩ := Option.map_eq_some_iff.mp hsplit
                    cases hfield
                    rw [List.length_drop, List.length_cons]
                    omega
                  · cases hsplit
            · cases hsplit
        dsimp only
        rw [List.length_cons, List.length_cons, List.length_cons, List.length_cons]
        omega
      · cases h

/-- What is carried is part of the packets. -/
theorem length_payloads_le {packets : List (List UInt8)} {ts : List TsPacket}
    (h : packets.map TsPacket.parse = ts.map some) :
  (ts.flatMap TsPacket.payload).length ≤ packets.flatten.length
  := by
  induction packets generalizing ts with
  | nil =>
      cases ts with
      | nil => exact Nat.le_refl _
      | cons t ts => cases h
  | cons packet packets ih =>
      cases ts with
      | nil => cases h
      | cons t ts =>
          rw [List.map_cons, List.map_cons] at h
          obtain ⟨hparse, hrest⟩ := List.cons.inj h
          have hfirst := TsPacket.length_payload_le hparse
          have hothers := ih hrest
          rw [List.flatMap_cons, List.flatten_cons, List.length_append, List.length_append]
          omega

variable {check : List UInt8 → UInt32}

/-- A section is found in its unit. -/
theorem TableSection.ofUnit_eq {bytes : List UInt8} {s : TableSection}
    (h : TableSection.parse check bytes = some s) (behind : List UInt8) :
  TableSection.ofUnit check (0x00 :: (bytes ++ behind)) = some s
  := by
  have hlength := TableSection.length_of_parse h
  match bytes, h with
  | tableId :: l0 :: l1 :: e0 :: e1 :: version :: number :: last :: rest, h =>
      have htake : 3 + (256 * (l0.toNat % 16) + l1.toNat) =
          (tableId :: l0 :: l1 :: e0 :: e1 :: version :: number :: last :: rest).length
        := by
        change 256 * (l0.toNat % 16) + l1.toNat = rest.length + 5 at hlength
        change _ = rest.length + 8
        omega
      change TableSection.parse check (List.take (3 + (256 * (l0.toNat % 16) + l1.toNat)) _) = _
      rw [htake, List.take_left' rfl]
      exact h

/-! ### Parts of a stream -/

/-- A relation leads through the elements of a list, one after the other. -/
inductive Along {α : Type} (R : (Nat → Nat) → α → (Nat → Nat) → Prop) :
    (Nat → Nat) → List α → (Nat → Nat) → Prop where
  | nil (c : Nat → Nat) : Along R c [] c
  | cons {c c' c'' : Nat → Nat} {a : α} {as : List α} (h : R c a c') (hrest : Along R c' as c'') :
      Along R c (a :: as) c''

variable {α : Type} {R R' : (Nat → Nat) → α → (Nat → Nat) → Prop} {as bs : List α}

theorem Along.append (h : Along R c as c') (h' : Along R c' bs c'') :
  Along R c (as ++ bs) c''
  := by
  induction h with
  | nil c => exact h'
  | cons hfirst _ ih => exact .cons hfirst (ih h')

theorem Along.of_append (h : Along R c (as ++ bs) c'') :
  ∃ c', Along R c as c' ∧ Along R c' bs c''
  := by
  induction as generalizing c with
  | nil => exact ⟨c, .nil c, h⟩
  | cons a as ih =>
      cases h with
      | cons hfirst hrest =>
          obtain ⟨c', has, hbs⟩ := ih hrest
          exact ⟨c', .cons hfirst has, hbs⟩

/-- What leads through all elements leads through some in a row. -/
theorem Along.of_row (h : Along R c as c') (hrow : bs <:+: as) :
  ∃ d d', Along R d bs d'
  := by
  obtain ⟨before, behind, rfl⟩ := hrow
  obtain ⟨d', hfront, -⟩ := h.of_append
  obtain ⟨d, -, hbs⟩ := hfront.of_append
  exact ⟨d, d', hbs⟩

/-- What the relation says of the elements may change. -/
theorem Along.mono (h : Along R c as c') (hR : ∀ a ∈ as, ∀ d d', R d a d' → R' d a d') :
  Along R' c as c'
  := by
  induction h with
  | nil c => exact .nil c
  | cons hfirst _ ih =>
      exact .cons (hR _ List.mem_cons_self _ _ hfirst)
        (ih fun a ha => hR a (List.mem_cons_of_mem _ ha))

end TransportStream
