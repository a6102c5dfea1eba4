import Tmms.Hls.Fragment

/-!
# Storage of fragments

What a function of a fragment changes in the memory (`ChangesOnly`), and that a fragment has in
its packet what was written since it was reset (`Stored`).  No two fragments have the same packet
(`Owned`), so what is written to a fragment leaves the content of the others alone.
-/

/-! ### What a function changes -/

namespace HlsMemory

@[simp]
theorem fragments_setFragment (m : HlsMemory) (f : FragmentPtr) (v : Fragment) :
  (m.setFragment f v).fragments f = v
  := Function.update_self _ _ _

/-- Only a fragment, its packet and new packets change. -/
structure ChangesOnly (m m' : HlsMemory) (f : FragmentPtr) : Prop where
  nextFragment : m'.nextFragment = m.nextFragment
  nextPacket : m.nextPacket ≤ m'.nextPacket
  fragments : ∀ g, g ≠ f → m'.fragments g = m.fragments g
  packets : ∀ p, p < m.nextPacket → (m.fragments f).data ≠ some p → m'.packets p = m.packets p
  data : ∀ p, (m'.fragments f).data = some p →
    (m.fragments f).data = some p ∨ m.nextPacket ≤ p ∧ p < m'.nextPacket

variable {m m' m'' : HlsMemory} {f : FragmentPtr}

theorem ChangesOnly.refl (m : HlsMemory) (f : FragmentPtr) :
  m.ChangesOnly m f
  := ⟨rfl, Nat.le_refl _, fun _ _ => rfl, fun _ _ _ => rfl, fun _ h => .inl h⟩

theorem ChangesOnly.trans (h : m.ChangesOnly m' f) (h' : m'.ChangesOnly m'' f) :
  m.ChangesOnly m'' f
  := by
  constructor
  · rw [h'.nextFragment, h.nextFragment]
  · apply Nat.le_trans h.nextPacket h'.nextPacket
  · intro g hg
    rw [h'.fragments g hg, h.fragments g hg]
  · intro p hp hdata
    have hdata' : (m'.fragments f).data ≠ some p
      := by
      intro hnow
      rcases h.data p hnow with hthen | ⟨hge, -⟩
      · exact hdata hthen
      · exact Nat.not_lt.mpr hge hp
    rw [h'.packets p (Nat.lt_of_lt_of_le hp h.nextPacket) hdata', h.packets p hp hdata]
  · intro p hdata
    have hle := h.nextPacket
    have hle' := h'.nextPacket
    rcases h'.data p hdata with hdata' | ⟨hge, hlt⟩
    · rcases h.data p hdata' with hthen | ⟨hge, hlt⟩
      · exact .inl hthen
      · exact .inr ⟨hge, Nat.lt_of_lt_of_le hlt hle'⟩
    · exact .inr ⟨Nat.le_trans hle hge, hlt⟩

/-- A fragment is changed, and keeps its packet. -/
theorem changesOnly_setFragment {v : Fragment} (h : v.data = (m.fragments f).data) :
  m.ChangesOnly (m.setFragment f v) f
  := by
  refine ⟨rfl, Nat.le_refl _, ?_, fun _ _ _ => rfl, ?_⟩
  · intro g hg
    exact Function.update_of_ne hg _ _
  · intro p hp
    rw [fragments_setFragment, h] at hp
    exact .inl hp

/-- The packet of a fragment is changed. -/
theorem changesOnly_setPacket {p : PacketPtr} (h : (m.fragments f).data = some p)
    (packet : Packet Unit) :
  m.ChangesOnly (m.setPacket p packet) f
  := by
  refine ⟨rfl, Nat.le_refl _, fun _ _ => rfl, ?_, fun _ h => .inl h⟩
  intro q _ hq
  apply Function.update_of_ne
  rintro rfl
  exact hq h

/-- A fragment gets a new packet. -/
theorem changesOnly_addPacket {v : Fragment} (h : v.data = some m.nextPacket)
    (packet : Packet Unit) :
  m.ChangesOnly ((m.addPacket packet).setFragment f v) f
  := by
  refine ⟨rfl, Nat.le_succ _, ?_, ?_, ?_⟩
  · intro g hg
    exact Function.update_of_ne hg _ _
  · intro p hp _
    exact Function.update_of_ne (Nat.ne_of_lt hp) _ _
  · intro p hp
    rw [fragments_setFragment, h] at hp
    obtain rfl := Option.some.inj hp
    exact .inr ⟨Nat.le_refl _, Nat.lt_succ_self _⟩

/-! ### Storage -/

/-- A fragment keeps what was written since it was reset. -/
structure Stores (v : Fragment) (packet : Packet Unit) : Prop where
  capacity : (packet.capacity.toNat : Int) = v.bufSize
  size_le : packet.size.toNat ≤ packet.capacity.toNat
  filled : packet.size.toNat ≤ packet.data.length
  dataSize : v.dataSize = packet.size.toNat
  payload : packet.payload = v.written.flatMap TsPiece.bytes

/-- What a fragment has, with or without a packet. -/
structure Stored (m : HlsMemory) (f : FragmentPtr) : Prop where
  bufSize_nonneg : 0 ≤ (m.fragments f).bufSize
  bufSize_lt : (m.fragments f).bufSize < 2 ^ 31
  none : (m.fragments f).data = none →
    (m.fragments f).written = [] ∧ (m.fragments f).dataSize = 0
  some : ∀ p, (m.fragments f).data = some p → Stores (m.fragments f) (m.packets p)

theorem Stored.content (h : m.Stored f) :
  m.content f = (m.fragments f).written.flatMap TsPiece.bytes
  := by
  rw [HlsMemory.content]
  split
  · rename_i p hp
    apply (h.some p hp).payload
  · rename_i hnone
    rw [(h.none hnone).1]
    rfl

/-- The size of a packet is the number of bytes that count. -/
theorem Stores.length {v : Fragment} {packet : Packet Unit} (h : Stores v packet) :
  packet.payload.length = packet.size.toNat
  := by
  rw [Packet.payload, List.length_take]
  exact Nat.min_eq_left h.filled

theorem toNat_ofInt {n : Int} (h : 0 ≤ n) (h' : n < 2 ^ 31) :
  ((UInt32.ofInt n).toNat : Int) = n
  := by
  obtain ⟨k, rfl⟩ := Int.eq_ofNat_of_zero_le h
  rw [uint32_ofInt (by omega), UInt32.toNat_ofNat']
  omega

theorem ensureData_spec (h : m.Stored f) :
  ∃ m' p, m.ensureData f = (m', p) ∧ m.ChangesOnly m' f ∧ m'.Stored f ∧
    (m'.fragments f).data = some p ∧
    (m'.fragments f).written = (m.fragments f).written
  := by
  rw [ensureData]
  split
  · rename_i p hp
    exact ⟨m, p, rfl, .refl m f, h, hp, rfl⟩
  · rename_i hnone
    obtain ⟨hwritten, hsize⟩ := h.none hnone
    have hpacket : ∀ v, ((m.addPacket (.newPacket (UInt32.ofInt (m.fragments f).bufSize)
        ())).setFragment f v).packets m.nextPacket =
        .newPacket (UInt32.ofInt (m.fragments f).bufSize) ()
      := fun v => Function.update_self _ _ _
    refine ⟨_, _, rfl, changesOnly_addPacket rfl _, ⟨?_, ?_, ?_, ?_⟩, ?_, ?_⟩
    · rw [fragments_setFragment]
      exact h.bufSize_nonneg
    · rw [fragments_setFragment]
      exact h.bufSize_lt
    · rw [fragments_setFragment]
      intro hdata
      cases hdata
    · rw [fragments_setFragment]
      intro p hp
      obtain rfl := Option.some.inj hp
      rw [hpacket]
      refine ⟨toNat_ofInt h.bufSize_nonneg h.bufSize_lt, Nat.zero_le _, Nat.zero_le _, hsize, ?_⟩
      change _ = (m.fragments f).written.flatMap _
      rw [hwritten]
      rfl
    · rw [fragments_setFragment]
    · rw [fragments_setFragment]

/-- A larger size is larger, and an `int32_t`. -/
theorem growLoop_eq {need : Int} {n : Nat} {bufSize size : Int}
    (h : Fragment.growLoop need n bufSize = some size) :
  bufSize ≤ size ∧ size < 2 ^ 31
  := by
  induction n generalizing bufSize with
  | zero => cases h
  | succ n ih =>
      have hstep : 0 < kFragmentStepSize := by decide
      rw [Fragment.growLoop] at h
      split at h
      · cases h
      · split at h
        · obtain ⟨hle, hlt⟩ := ih h
          omega
        · obtain rfl := Option.some.inj h
          omega

theorem ensureSpace_spec {p : PacketPtr} (h : m.Stored f) (hp : (m.fragments f).data = some p)
    {size : Nat} {m' : HlsMemory} {p' : PacketPtr} (hspace : m.ensureSpace f p size = some (m', p')) :
  m.ChangesOnly m' f ∧ m'.Stored f ∧ (m'.fragments f).data = some p' ∧
    (m'.fragments f).written = (m.fragments f).written
  := by
  have hstores := h.some p hp
  rw [ensureSpace] at hspace
  dsimp only at hspace
  split at hspace
  · split at hspace
    · rename_i bufSize hgrow
      obtain ⟨rfl, rfl⟩ := Prod.mk.inj (Option.some.inj hspace)
      obtain ⟨hle, hlt⟩ := growLoop_eq hgrow
      have hstep : 0 < kFragmentStepSize := by decide
      have hnonneg := h.bufSize_nonneg
      have hcapacity := toNat_ofInt (n := bufSize) (by omega) hlt
      have hpacket : ∀ packet v,
          ((m.addPacket packet).setFragment f v).packets m.nextPacket = packet
        := fun packet v => Function.update_self _ _ _
      refine ⟨changesOnly_addPacket rfl _, ⟨?_, ?_, ?_, ?_⟩, ?_, ?_⟩
      · rw [fragments_setFragment]
        dsimp only
        omega
      · rw [fragments_setFragment]
        exact hlt
      · rw [fragments_setFragment]
        intro hdata
        cases hdata
      · rw [fragments_setFragment]
        intro q hq
        obtain rfl := Option.some.inj hq
        rw [hpacket]
        refine ⟨hcapacity, ?_, Nat.le_of_eq hstores.length.symm, hstores.dataSize, ?_⟩
        · have hold := hstores.capacity
          have hsize := hstores.size_le
          have hnew : ((Packet.newPacket (UInt32.ofInt bufSize) ()).capacity.toNat : Int) =
              bufSize
            := hcapacity
          dsimp only
          omega
        · rw [Packet.payload]
          dsimp only
          rw [List.take_of_length_le (Nat.le_of_eq hstores.length)]
          exact hstores.payload
      · rw [fragments_setFragment]
      · rw [fragments_setFragment]
    · cases hspace
  · obtain ⟨rfl, rfl⟩ := Prod.mk.inj (Option.some.inj hspace)
    exact ⟨.refl m f, h, hp, rfl⟩

theorem copy_spec {p : PacketPtr} (h : m.Stored f) (hp : (m.fragments f).data = some p)
    {piece : TsPiece} (hcopy : m.copy f p piece = some m') :
  m.ChangesOnly m' f ∧ m'.Stored f ∧
    (m'.fragments f).written = (m.fragments f).written ++ [piece]
  := by
  have hstores := h.some p hp
  have hlt := h.bufSize_lt
  rw [copy] at hcopy
  split at hcopy
  · rename_i hfits
    obtain rfl := Option.some.inj hcopy
    have hpacket : ∀ packet v, ((m.setPacket p packet).setFragment f v).packets p = packet
      := fun packet v => Function.update_self _ _ _
    have hcapacity := hstores.capacity
    have hsize : ((m.packets p).size + UInt32.ofNat piece.bytes.length).toNat =
        (m.packets p).size.toNat + piece.bytes.length
      := by
      rw [UInt32.toNat_add, UInt32.toNat_ofNat']
      omega
    have htaken := hstores.length
    rw [Packet.payload] at htaken
    refine ⟨(changesOnly_setPacket hp _).trans (changesOnly_setFragment rfl), ⟨?_, ?_, ?_, ?_⟩, ?_⟩
    · rw [fragments_setFragment]
      exact h.bufSize_nonneg
    · rw [fragments_setFragment]
      exact hlt
    · rw [fragments_setFragment]
      intro hdata
      rw [hp] at hdata
      cases hdata
    · rw [fragments_setFragment]
      intro q hq
      rw [hp] at hq
      obtain rfl := Option.some.inj hq
      rw [hpacket]
      refine ⟨hcapacity, ?_, ?_, ?_, ?_⟩
      · change (_ + _ : UInt32).toNat ≤ _
        rw [hsize]
        exact hfits
      · change (_ + _ : UInt32).toNat ≤ (_ ++ _ : List UInt8).length
        exact Nat.le_of_eq (by rw [hsize, List.length_append, htaken])
      · change toInt32 _ = ((_ + _ : UInt32).toNat : Int)
        rw [hsize, hstores.dataSize, toInt32_of_fits]
        · omega
        · omega
        · omega
      · change (_ ++ _ : List UInt8).take (_ + _ : UInt32).toNat = _
        rw [hsize, List.flatMap_append, ← hstores.payload, List.take_of_length_le]
        · rw [List.flatMap_cons, List.flatMap_nil, List.append_nil]
          rfl
        · exact Nat.le_of_eq (by rw [List.length_append, htaken])
    · rw [fragments_setFragment]
  · cases hcopy

theorem write_spec (h : m.Stored f) {piece : TsPiece} (hwrite : m.write f piece = some m') :
  m.ChangesOnly m' f ∧ m'.Stored f ∧
    (m'.fragments f).written = (m.fragments f).written ++ [piece]
  := by
  obtain ⟨m₁, p, hdata, hchanges, hstored, hp, hwritten⟩ := ensureData_spec h
  rw [write, hdata] at hwrite
  dsimp only at hwrite
  split at hwrite
  · rename_i m₂ p' hspace
    obtain ⟨hchanges', hstored', hp', hwritten'⟩ := ensureSpace_spec hstored hp hspace
    obtain ⟨hchanges'', hstored'', hwritten''⟩ := copy_spec hstored' hp' hwrite
    refine ⟨hchanges.trans (hchanges'.trans hchanges''), hstored'', ?_⟩
    rw [hwritten'', hwritten', hwritten]
  · cases hwrite

/-- A fragment is changed in fields that storage does not use. -/
theorem Stored.setFragment (h : m.Stored f) {v : Fragment} (hdata : v.data = (m.fragments f).data)
    (hbuf : v.bufSize = (m.fragments f).bufSize) (hsize : v.dataSize = (m.fragments f).dataSize)
    (hwritten : v.written = (m.fragments f).written) :
  (m.setFragment f v).Stored f
  := by
  constructor
  · rw [fragments_setFragment, hbuf]
    exact h.bufSize_nonneg
  · rw [fragments_setFragment, hbuf]
    exact h.bufSize_lt
  · rw [fragments_setFragment, hdata, hwritten, hsize]
    exact h.none
  · rw [fragments_setFragment, hdata]
    intro p hp
    obtain ⟨hcapacity, hle, hfilled, hdataSize, hpayload⟩ := h.some p hp
    exact ⟨hcapacity.trans hbuf.symm, hle, hfilled, hsize.trans hdataSize,
      hpayload.trans (by rw [hwritten])⟩

/-- A fragment that is reset is empty, and so is its packet. -/
theorem reset_spec (h : m.Stored f) :
  m.ChangesOnly (m.reset f) f ∧ (m.reset f).Stored f ∧
    (m.reset f).fragments f = (m.fragments f).reset
  := by
  have hchanges := changesOnly_setFragment (m := m) (f := f) (v := (m.fragments f).reset) rfl
  cases hdata : (m.fragments f).data with
  | none =>
      have hreset : m.reset f = m.setFragment f (m.fragments f).reset
        := by
        rw [reset]
        dsimp only
        rw [hdata]
      rw [hreset]
      refine ⟨hchanges, ⟨?_, ?_, ?_, ?_⟩, fragments_setFragment m f _⟩
      · rw [fragments_setFragment]
        exact h.bufSize_nonneg
      · rw [fragments_setFragment]
        exact h.bufSize_lt
      · rw [fragments_setFragment]
        exact fun _ => ⟨rfl, rfl⟩
      · rw [fragments_setFragment]
        intro p hp
        cases hdata.symm.trans hp
  | some p =>
      have hreset : m.reset f =
          (m.setFragment f (m.fragments f).reset).setPacket p { m.packets p with size := 0 }
        := by
        rw [reset]
        dsimp only
        rw [hdata]
        rfl
      have hstores := h.some p hdata
      have hv : (m.reset f).fragments f = (m.fragments f).reset
        := by
        rw [hreset]
        exact fragments_setFragment m f _
      have hpacket : (m.reset f).packets p = { m.packets p with size := 0 }
        := by
        rw [hreset]
        exact Function.update_self _ _ _
      have hkeeps : ((m.setFragment f (m.fragments f).reset).fragments f).data = some p
        := by
        rw [fragments_setFragment]
        exact hdata
      refine ⟨?_, ⟨?_, ?_, ?_, ?_⟩, hv⟩
      · rw [hreset]
        exact hchanges.trans (changesOnly_setPacket hkeeps _)
      · rw [hv]
        exact h.bufSize_nonneg
      · rw [hv]
        exact h.bufSize_lt
      · rw [hv]
        exact fun _ => ⟨rfl, rfl⟩
      · rw [hv]
        intro q hq
        obtain rfl := Option.some.inj (hdata.symm.trans hq)
        rw [hpacket]
        exact ⟨hstores.capacity, Nat.zero_le _, Nat.zero_le _, rfl, rfl⟩

end HlsMemory

/-- What calls write. -/
def WriterCall.pieces (calls : List WriterCall) : List TsPiece :=
  calls.filterMap fun
    | .appendTimeStamp _ => none
    | .write piece => some piece

theorem WriterCall.pieces_append (calls calls' : List WriterCall) :
  pieces (calls ++ calls') = pieces calls ++ pieces calls'
  := List.filterMap_append

theorem WriterCall.pieces_writes (codec : Option Codec) (packets : List (List UInt8)) :
  pieces (writes codec packets) = packets.map fun bytes => ⟨bytes, codec⟩
  := by
  induction packets with
  | nil => rfl
  | cons bytes packets ih =>
      rw [List.map_cons, ← ih]
      rfl

namespace HlsMemory

variable {m m' : HlsMemory} {f : FragmentPtr}

theorem performAll_spec {calls : List WriterCall} (h : m.Stored f)
    (hperform : m.performAll f calls = some m') :
  m.ChangesOnly m' f ∧ m'.Stored f ∧
    (m'.fragments f).written = (m.fragments f).written ++ WriterCall.pieces calls
  := by
  induction calls generalizing m with
  | nil =>
      obtain rfl := Option.some.inj hperform
      exact ⟨.refl m f, h, (List.append_nil _).symm⟩
  | cons call calls ih =>
      rw [performAll] at hperform
      cases call with
      | appendTimeStamp dts =>
          have hcall := h.setFragment (v := (m.fragments f).appendTimeStamp dts) rfl rfl rfl rfl
          obtain ⟨hchanges, hstored, hwritten⟩ := ih hcall hperform
          have hfirst := changesOnly_setFragment (m := m) (f := f)
            (v := (m.fragments f).appendTimeStamp dts) rfl
          refine ⟨hfirst.trans hchanges, hstored, ?_⟩
          rw [hwritten, fragments_setFragment]
          rfl
      | write piece =>
          dsimp only [perform] at hperform
          split at hperform
          · rename_i m₁ hwrite
            obtain ⟨hchanges, hstored, hwritten⟩ := write_spec h hwrite
            obtain ⟨hchanges', hstored', hwritten'⟩ := ih hstored hperform
            refine ⟨hchanges.trans hchanges', hstored', ?_⟩
            rw [hwritten', hwritten, List.append_assoc]
            rfl
          · cases hperform

/-- What is written changes the data of a fragment, and no other fields. -/
theorem write_fields {piece : TsPiece} (hwrite : m.write f piece = some m') :
  ∃ data bufSize dataSize written, m'.fragments f =
    { m.fragments f with
      data := data
      bufSize := bufSize
      dataSize := dataSize
      written := written }
  := by
  have hdata : ∃ data, (m.ensureData f).1.fragments f = { m.fragments f with data := data }
    := by
    rw [ensureData]
    split
    · exact ⟨_, rfl⟩
    · exact ⟨_, fragments_setFragment _ _ _⟩
  rw [write] at hwrite
  generalize m.ensureData f = ensured at hwrite hdata
  obtain ⟨m₁, p⟩ := ensured
  dsimp only at hwrite hdata
  obtain ⟨data, hdata⟩ := hdata
  split at hwrite
  · rename_i m₂ p' hspace
    have hspaced : ∃ data bufSize, m₂.fragments f =
        { m.fragments f with data := data, bufSize := bufSize }
      := by
      rw [ensureSpace] at hspace
      dsimp only at hspace
      split at hspace
      · split at hspace
        · cases hspace
          rw [hdata]
          exact ⟨_, _, fragments_setFragment _ _ _⟩
        · cases hspace
      · cases hspace
        exact ⟨_, _, hdata⟩
    obtain ⟨data', bufSize, hspaced⟩ := hspaced
    rw [copy] at hwrite
    split at hwrite
    · cases hwrite
      rw [hspaced]
      exact ⟨_, _, _, _, fragments_setFragment _ _ _⟩
    · cases hwrite
  · cases hwrite

/-- Calls leave the parameter sets alone that a fragment remembers. -/
theorem performAll_writer {calls : List WriterCall} (hperform : m.performAll f calls = some m') :
  (m'.fragments f).writer = (m.fragments f).writer
  := by
  induction calls generalizing m with
  | nil =>
      cases hperform
      rfl
  | cons call calls ih =>
      rw [performAll] at hperform
      cases call with
      | appendTimeStamp dts =>
          rw [ih hperform, fragments_setFragment]
          rfl
      | write piece =>
          dsimp only [perform] at hperform
          split at hperform
          · rename_i m₁ hwrite
            obtain ⟨_, _, _, _, hfields⟩ := write_fields hwrite
            rw [ih hperform, hfields]
          · cases hperform

/-! ### Owners -/

/-- No two fragments have the same packet, and all of them store what was written. -/
structure Owned (m : HlsMemory) : Prop where
  data_lt : ∀ f p, (m.fragments f).data = some p → p < m.nextPacket
  data_inj : ∀ f g p, (m.fragments f).data = some p → (m.fragments g).data = some p → f = g
  stored : ∀ f, m.Stored f

/-- A fragment that is new is empty. -/
theorem stored_of_new (h : m.fragments f = {}) :
  m.Stored f
  := by
  constructor
  · rw [h]
    decide
  · rw [h]
    decide
  · rw [h]
    exact fun _ => ⟨rfl, rfl⟩
  · rw [h]
    intro p hp
    cases hp

theorem owned_new : Owned {}
  := ⟨fun _ _ h => (nomatch h), fun _ _ _ h => (nomatch h), fun _ => stored_of_new rfl⟩

theorem Owned.changes (h : m.Owned) (hchanges : m.ChangesOnly m' f) (hstored : m'.Stored f) :
  m'.Owned
  := by
  have hdata : ∀ g p, (m'.fragments g).data = some p →
      (m.fragments g).data = some p ∨ g = f ∧ m.nextPacket ≤ p ∧ p < m'.nextPacket
    := by
    intro g p hp
    rcases eq_or_ne g f with rfl | hne
    · rcases hchanges.data p hp with hthen | hnew
      · exact .inl hthen
      · exact .inr ⟨rfl, hnew⟩
    · rw [hchanges.fragments g hne] at hp
      exact .inl hp
  constructor
  · intro g p hp
    rcases hdata g p hp with hthen | ⟨-, -, hlt⟩
    · exact Nat.lt_of_lt_of_le (h.data_lt g p hthen) hchanges.nextPacket
    · exact hlt
  · intro g g' p hp hp'
    rcases hdata g p hp with hthen | ⟨rfl, hge, -⟩
    · rcases hdata g' p hp' with hthen' | ⟨rfl, hge', -⟩
      · exact h.data_inj g g' p hthen hthen'
      · exact absurd (h.data_lt g p hthen) (Nat.not_lt.mpr hge')
    · rcases hdata g' p hp' with hthen' | ⟨rfl, -, -⟩
      · exact absurd (h.data_lt g' p hthen') (Nat.not_lt.mpr hge)
      · rfl
  · intro g
    rcases eq_or_ne g f with rfl | hne
    · exact hstored
    · have hsame := hchanges.fragments g hne
      have hstored' := h.stored g
      constructor
      · rw [hsame]
        exact hstored'.bufSize_nonneg
      · rw [hsame]
        exact hstored'.bufSize_lt
      · rw [hsame]
        exact hstored'.none
      · rw [hsame]
        intro p hp
        have hother : (m.fragments f).data ≠ some p := fun hf => hne (h.data_inj g f p hp hf)
        rw [hchanges.packets p (h.data_lt g p hp) hother]
        exact hstored'.some p hp

/-- What is in other fragments stays. -/
theorem Owned.content_eq (h : m.Owned) (hchanges : m.ChangesOnly m' f) {g : FragmentPtr}
    (hne : g ≠ f) :
  m'.content g = m.content g
  := by
  rw [content, content, hchanges.fragments g hne]
  cases hdata : (m.fragments g).data with
  | none => rfl
  | some p =>
      have hother : (m.fragments f).data ≠ some p := fun hf => hne (h.data_inj g f p hdata hf)
      dsimp only
      rw [hchanges.packets p (h.data_lt g p hdata) hother]

/-- A new fragment. -/
theorem Owned.addFragment (h : m.Owned) :
  m.addFragment.Owned
  := by
  have hdata : ∀ g p, (m.addFragment.fragments g).data = some p →
      (m.fragments g).data = some p ∧ m.addFragment.fragments g = m.fragments g
    := by
    intro g p hp
    rcases eq_or_ne g m.nextFragment with rfl | hne
    · have hnew : m.addFragment.fragments m.nextFragment = {} := fragments_setFragment m _ _
      rw [hnew] at hp
      cases hp
    · have hsame : m.addFragment.fragments g = m.fragments g := Function.update_of_ne hne _ _
      rw [hsame] at hp
      exact ⟨hp, hsame⟩
  constructor
  · intro g p hp
    exact h.data_lt g p (hdata g p hp).1
  · intro g g' p hp hp'
    exact h.data_inj g g' p (hdata g p hp).1 (hdata g' p hp').1
  · intro g
    rcases eq_or_ne g m.nextFragment with rfl | hne
    · exact stored_of_new (fragments_setFragment m _ _)
    · have hsame : m.addFragment.fragments g = m.fragments g := Function.update_of_ne hne _ _
      have hstored := h.stored g
      constructor
      · rw [hsame]
        exact hstored.bufSize_nonneg
      · rw [hsame]
        exact hstored.bufSize_lt
      · rw [hsame]
        exact hstored.none
      · rw [hsame]
        exact hstored.some

end HlsMemory
