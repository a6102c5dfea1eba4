import Tmms.Hls.Storage
import Tmms.Library.Runs

/-!
# Capacity of fragments

The size of the buffer of a fragment is a multiple of the step, and an `int32_t`.  So a fragment
has room for `2 ^ 31` bytes less one step, and for no more: beyond, the size of the buffer
overflows, or the sum of the sizes wraps around and the bytes are copied behind the buffer.
-/

open Runs

/-- The largest size of a buffer. -/
def maxBufSize : Int := 2 ^ 31 - kFragmentStepSize

namespace Fragment

variable {need bufSize size : Int} {n : Nat}

/-- The size that is found is a multiple of the step with room for what is needed. -/
theorem growLoop_spec (h : growLoop need n bufSize = some size)
    (hdvd : kFragmentStepSize ∣ bufSize) :
  kFragmentStepSize ∣ size ∧ need ≤ size
  := by
  induction n generalizing bufSize with
  | zero => cases h
  | succ n ih =>
      rw [growLoop] at h
      split at h
      · cases h
      · split at h
        · apply ih h (Int.dvd_add hdvd (Int.dvd_refl _))
        · obtain rfl := Option.some.inj h
          exact ⟨hdvd, by omega⟩

/-- A size is found if what is needed is within the largest size. -/
theorem growLoop_isSome (hneed : need ≤ maxBufSize) (hle : bufSize ≤ maxBufSize)
    (hdvd : kFragmentStepSize ∣ bufSize) (hfuel : 2 ^ 31 ≤ bufSize + n * kFragmentStepSize) :
  ∃ size, growLoop need n bufSize = some size
  := by
  have hstep : kFragmentStepSize = 131072 := rfl
  have hmax : maxBufSize = 2147352576 := rfl
  induction n generalizing bufSize with
  | zero => omega
  | succ n ih =>
      rw [growLoop, if_neg (by omega)]
      by_cases hmore : need > bufSize
      · rw [if_pos hmore]
        rw [hstep] at hfuel hdvd ih ⊢
        push_cast at hfuel
        apply ih
        · omega
        · apply Int.dvd_add hdvd (Int.dvd_refl _)
        · omega
      · rw [if_neg hmore]
        exact ⟨bufSize, rfl⟩

end Fragment

namespace HlsMemory

variable {m m' : HlsMemory} {f : FragmentPtr} {p : PacketPtr}

/-- The size of the buffer of a fragment is a multiple of the step. -/
def Stepped (m : HlsMemory) (f : FragmentPtr) : Prop :=
  kFragmentStepSize ∣ (m.fragments f).bufSize

/-- The first test of `Write` leaves the size of the buffer. -/
theorem ensureData_stepped (h : m.Stepped f) :
  (m.ensureData f).1.Stepped f
  := by
  rw [ensureData]
  split
  · exact h
  · rw [Stepped, fragments_setFragment]
    exact h

/-- The largest size of the buffer of a fragment. -/
theorem bufSize_le (h : m.Stored f) (hstepped : m.Stepped f) :
  (m.fragments f).bufSize ≤ maxBufSize
  := by
  have hlt := h.bufSize_lt
  have hstep : kFragmentStepSize = 131072 := rfl
  have hmax : maxBufSize = 2147352576 := rfl
  rw [Stepped, hstep] at hstepped
  omega

/-- The space of a packet within its capacity. -/
theorem toNat_space {packet : Packet Unit} (h : packet.size.toNat ≤ packet.capacity.toNat) :
  (packet.capacity - packet.size).toNat = packet.capacity.toNat - packet.size.toNat
  := UInt32.toNat_sub_of_le _ _ (UInt32.le_iff_toNat_le.mpr h)

/-- The second test of `Write` keeps the size of the packet, and the buffer a multiple of the
step. -/
theorem ensureSpace_frame (hstepped : m.Stepped f) {size : Nat} {p' : PacketPtr}
    (hspace : m.ensureSpace f p size = some (m', p')) :
  m'.Stepped f ∧ (m'.packets p').size = (m.packets p).size
  := by
  rw [ensureSpace] at hspace
  dsimp only at hspace
  split at hspace
  · split at hspace
    · rename_i bufSize hgrow
      obtain ⟨rfl, rfl⟩ := Prod.mk.inj (Option.some.inj hspace)
      have hpacket : ∀ packet v,
          ((m.addPacket packet).setFragment f v).packets m.nextPacket = packet
        := fun packet v => Function.update_self _ _ _
      rw [Stepped, fragments_setFragment, hpacket]
      exact ⟨(Fragment.growLoop_spec hgrow (Int.dvd_add hstepped (Int.dvd_refl _))).1, rfl⟩
    · cases hspace
  · obtain ⟨rfl, rfl⟩ := Prod.mk.inj (Option.some.inj hspace)
    exact ⟨hstepped, rfl⟩

/-- The second test of `Write` makes room for bytes that fit into the largest buffer. -/
theorem ensureSpace_of_fits (h : m.Stored f) (hstepped : m.Stepped f)
    (hp : (m.fragments f).data = some p) {size : Nat}
    (hfits : ((m.packets p).size.toNat + size : Int) ≤ maxBufSize) :
  ∃ m' p', m.ensureSpace f p size = some (m', p') ∧
    (m.packets p).size.toNat + size ≤ (m'.packets p').capacity.toNat
  := by
  have hstores := h.some p hp
  have hstep : kFragmentStepSize = 131072 := rfl
  have hmax : maxBufSize = 2147352576 := rfl
  have hcapacity := hstores.capacity
  have hsize := hstores.size_le
  rw [ensureSpace]
  dsimp only
  by_cases hfew : ((m.packets p).capacity - (m.packets p).size).toNat < size
  · rw [if_pos hfew]
    rw [toNat_space hsize] at hfew
    have hneed : ((m.fragments f).dataSize + size) % 2 ^ 32 =
        (m.packets p).size.toNat + size
      := by
      rw [hstores.dataSize]
      omega
    have hdvd : kFragmentStepSize ∣ (m.fragments f).bufSize + kFragmentStepSize
      := Int.dvd_add hstepped (Int.dvd_refl _)
    rw [Stepped, hstep] at hstepped
    obtain ⟨bufSize, hgrow⟩ : ∃ bufSize, (m.fragments f).grow size = some bufSize
      := by
      rw [Fragment.grow, hneed]
      apply Fragment.growLoop_isSome hfits _ hdvd
      · have hnonneg := h.bufSize_nonneg
        rw [hstep]
        omega
      · rw [hstep]
        omega
    obtain ⟨hle, hlt⟩ := growLoop_eq hgrow
    have hroom := (Fragment.growLoop_spec hgrow hdvd).2
    rw [hneed] at hroom
    have hnonneg := h.bufSize_nonneg
    have hnew : ((UInt32.ofInt bufSize).toNat : Int) = bufSize
      := toNat_ofInt (by omega) hlt
    have hpacket : ∀ packet v,
        ((m.addPacket packet).setFragment f v).packets m.nextPacket = packet
      := fun packet v => Function.update_self _ _ _
    rw [hgrow]
    refine ⟨_, _, rfl, ?_⟩
    rw [hpacket, Packet.newPacket]
    dsimp only
    omega
  · rw [if_neg hfew]
    rw [toNat_space hsize] at hfew
    exact ⟨m, p, rfl, by omega⟩

/-- The size of a packet of a fragment is the length of its content. -/
theorem length_content (h : m.Stored f) (hp : (m.fragments f).data = some p) :
  (m.packets p).size.toNat = (m.content f).length
  := by
  rw [content, hp, ← (h.some p hp).length]

/-- `Write` has a result exactly if the bytes fit behind the content into the largest buffer. -/
theorem write_isSome_iff (h : m.Stored f) (hstepped : m.Stepped f) (piece : TsPiece) :
  (∃ m', m.write f piece = some m') ↔
    ((m.content f).length + piece.bytes.length : Int) ≤ maxBufSize
  := by
  obtain ⟨m₁, p, hdata, -, hstored, hp, hwritten⟩ := ensureData_spec h
  have hstepped' : m₁.Stepped f
    := by
    have hkeeps := ensureData_stepped hstepped
    rwa [hdata] at hkeeps
  have hcontent : (m.content f).length = (m₁.packets p).size.toNat
    := by
    rw [length_content hstored hp, h.content, hstored.content, hwritten]
  rw [write, hdata, hcontent]
  dsimp only
  constructor
  · rintro ⟨m', hwrite⟩
    split at hwrite
    · rename_i m₂ p' hspace
      obtain ⟨-, hstored', hp', -⟩ := ensureSpace_spec hstored hp hspace
      obtain ⟨hstepped'', hsame⟩ := ensureSpace_frame hstepped' hspace
      have hcapacity := (hstored'.some p' hp').capacity
      have hmax := bufSize_le hstored' hstepped''
      rw [copy] at hwrite
      split at hwrite
      · rename_i hroom
        rw [hsame] at hroom
        omega
      · cases hwrite
    · cases hwrite
  · intro hfits
    obtain ⟨m₂, p', hspace, hroom⟩ := ensureSpace_of_fits hstored hstepped' hp hfits
    have hsame := (ensureSpace_frame hstepped' hspace).2
    rw [hspace]
    dsimp only
    rw [copy]
    rw [hsame, if_pos hroom]
    exact ⟨_, rfl⟩

/-- `Write` keeps the size of the buffer a multiple of the step. -/
theorem write_stepped (hstepped : m.Stepped f) {piece : TsPiece}
    (hwrite : m.write f piece = some m') :
  m'.Stepped f
  := by
  have hkeeps := ensureData_stepped hstepped
  rw [write] at hwrite
  dsimp only at hwrite
  split at hwrite
  · rename_i m₂ p' hspace
    have hstepped' := (ensureSpace_frame hkeeps hspace).1
    rw [copy] at hwrite
    split at hwrite
    · cases hwrite
      rw [Stepped, fragments_setFragment]
      exact hstepped'
    · cases hwrite
  · cases hwrite

theorem reset_stepped (h : m.Stored f) (hstepped : m.Stepped f) :
  (m.reset f).Stepped f
  := by
  rw [Stepped, (reset_spec h).2.2]
  exact hstepped

end HlsMemory

/-! ### Runs of a fragment -/

/-- A call on a fragment. -/
inductive StorageCall where
  | write (piece : TsPiece)
  | reset

/-- A memory with a fragment, and the bytes that were written since the last `Reset`. There is
no memory once a call had no result. -/
structure FragmentRun where
  memory : Option HlsMemory
  fragment : FragmentPtr
  bytes : List UInt8 := []

namespace FragmentRun

def step (r : FragmentRun) : StorageCall → FragmentRun
  | .write piece =>
      { r with
        memory := r.memory.bind fun m => m.write r.fragment piece
        bytes := r.bytes ++ piece.bytes }
  | .reset =>
      { r with
        memory := r.memory.map fun m => m.reset r.fragment
        bytes := [] }

/-- A new fragment in a memory. -/
def start (m : HlsMemory) : FragmentRun where
  memory := some m.addFragment
  fragment := m.nextFragment

/-- All calls had results, so no write went beyond the capacity of a packet; the content is what
was written since the last `Reset`, and `data_size_` its length. -/
def Faithful (r : FragmentRun) : Prop :=
  ∃ m, r.memory = some m ∧ m.content r.fragment = r.bytes ∧
    (m.fragments r.fragment).dataSize = r.bytes.length

/-- What is written fits with the content into the largest buffer. -/
def Fits (r : FragmentRun) : StorageCall → Prop
  | .write piece => (r.bytes.length + piece.bytes.length : Int) ≤ maxBufSize
  | .reset => True

instance (r : FragmentRun) (call : StorageCall) : Decidable (r.Fits call) :=
  match call with
  | .write _ => inferInstanceAs (Decidable (_ ≤ _))
  | .reset => isTrue trivial

/-- The fragment stores what was written. -/
structure Inv (r : FragmentRun) (m : HlsMemory) : Prop where
  stored : m.Stored r.fragment
  stepped : m.Stepped r.fragment
  written : (m.fragments r.fragment).written.flatMap TsPiece.bytes = r.bytes

theorem Inv.content {r : FragmentRun} {m : HlsMemory} (h : r.Inv m) :
  m.content r.fragment = r.bytes
  := by
  rw [h.stored.content, h.written]

theorem Inv.dataSize {r : FragmentRun} {m : HlsMemory} (h : r.Inv m) :
  (m.fragments r.fragment).dataSize = r.bytes.length
  := by
  rcases hdata : (m.fragments r.fragment).data with _ | p
  · obtain ⟨hwritten, hsize⟩ := h.stored.none hdata
    rw [hsize, ← h.written, hwritten]
    rfl
  · rw [(h.stored.some p hdata).dataSize, HlsMemory.length_content h.stored hdata, h.content]

/-- A fragment that is new. -/
theorem inv_start (m : HlsMemory) :
  (start m).Inv m.addFragment
  := by
  have hnew : m.addFragment.fragments m.nextFragment = {}
    := HlsMemory.fragments_setFragment m _ _
  constructor
  · apply HlsMemory.stored_of_new hnew
  · change _ ∣ (m.addFragment.fragments m.nextFragment).bufSize
    rw [hnew]
    decide
  · change (m.addFragment.fragments m.nextFragment).written.flatMap _ = _
    rw [hnew]
    rfl

/-- One call: the invariant, and when the content is what was written. -/
theorem faithful_step {r : FragmentRun} (h : ∀ m, r.memory = some m → r.Inv m)
    (hfaithful : r.Faithful) (call : StorageCall) :
  (∀ m, (r.step call).memory = some m → (r.step call).Inv m) ∧
    ((r.step call).Faithful ↔ r.Fits call)
  := by
  obtain ⟨m, hm, -, -⟩ := hfaithful
  have hinv := h m hm
  cases call with
  | write piece =>
      have hiff := HlsMemory.write_isSome_iff hinv.stored hinv.stepped piece
      rw [hinv.content] at hiff
      have hinv' : ∀ m', (r.step (.write piece)).memory = some m' →
          (r.step (.write piece)).Inv m'
        := by
        intro m' hm'
        rw [step, hm] at hm'
        obtain ⟨-, hstored, hwritten⟩ := HlsMemory.write_spec hinv.stored hm'
        refine ⟨hstored, HlsMemory.write_stepped hinv.stepped hm', ?_⟩
        change (m'.fragments r.fragment).written.flatMap _ = r.bytes ++ piece.bytes
        rw [hwritten, List.flatMap_append, hinv.written, List.flatMap_singleton]
      refine ⟨hinv', ?_⟩
      rw [Fits, ← hiff]
      constructor
      · rintro ⟨m', hm', -, -⟩
        rw [step, hm] at hm'
        exact ⟨m', hm'⟩
      · rintro ⟨m', hm'⟩
        have hmemory : (r.step (.write piece)).memory = some m'
          := by
          rw [step, hm]
          exact hm'
        have hnow := hinv' m' hmemory
        exact ⟨m', hmemory, hnow.content, hnow.dataSize⟩
  | reset =>
      have hmemory : (r.step .reset).memory = some (m.reset r.fragment)
        := by
        rw [step, hm]
        rfl
      obtain ⟨-, hstored, hfragment⟩ := HlsMemory.reset_spec hinv.stored
      have hnow : (r.step .reset).Inv (m.reset r.fragment)
        := by
        refine ⟨hstored, HlsMemory.reset_stepped hinv.stored hinv.stepped, ?_⟩
        change ((m.reset r.fragment).fragments r.fragment).written.flatMap _ = []
        rw [hfragment]
        rfl
      constructor
      · intro m' hm'
        cases hmemory.symm.trans hm'
        exact hnow
      · exact iff_of_true ⟨_, hmemory, hnow.content, hnow.dataSize⟩ trivial

/-- In every run a fragment has what was written since its last `Reset`, and no call writes
beyond the capacity, exactly if every write fits with the content into the largest buffer. -/
theorem faithful_iff_fits (m : HlsMemory) (calls : List StorageCall) :
  Throughout step Faithful (start m) calls ↔ Steps step Fits (start m) calls
  := by
  have hall : Steps step (fun _ _ => True) (start m) calls := steps_true
  apply throughout_iff_steps (I := fun r => ∀ m, r.memory = some m → r.Inv m) hall
  · intro m' hm'
    cases hm'
    exact inv_start m
  · exact ⟨_, rfl, (inv_start m).content, (inv_start m).dataSize⟩
  · intro r call h hfaithful _
    exact faithful_step h hfaithful call

/-- A byte, and then so many that the sum of the sizes wraps around. -/
theorem not_faithful_wrap :
  ¬ ∀ (m : HlsMemory) (calls : List StorageCall), Throughout step Faithful (start m) calls
  := by
  intro h
  obtain ⟨hstart, hone, hboth⟩ :=
    h {} [.write ⟨[0], none⟩, .write ⟨List.replicate (2 ^ 32 - 1) 0, none⟩]
  have hinv : ∀ m, (start {}).memory = some m → (start {}).Inv m
    := by
    intro m hm
    cases hm
    exact inv_start {}
  have hinv' := (faithful_step hinv hstart (.write ⟨[0], none⟩)).1
  have hlong := (faithful_step hinv' hone (.write ⟨List.replicate (2 ^ 32 - 1) 0, none⟩)).2.mp
    hboth
  rw [Fits, List.length_replicate] at hlong
  revert hlong
  decide

end FragmentRun
