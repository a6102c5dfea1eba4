import Tmms.Library.ByteBuffer

/-!
# Message buffers

A `MsgBuffer` is a vector of bytes with two indices, and the bytes between them can be read.
Sizes are of type `size_t`, whose sums and differences are taken modulo `2 ^ 64`, and memory is
there for every vector that is not longer than a vector can be.

Of an operation that is undefined, or ends with an exception, there is a fault: a write outside
of the vector, and a vector that is too long.  What an operation does is stated for buffers as they
should be (`Sound`), under the condition that there is room, and that it needs this room is stated
beside it.
-/

/-- `kBufferOffset`. -/
def kBufferOffset : Nat := 8

/-- A number as a `size_t`. -/
def sizeT (n : Nat) : Nat := n % 2 ^ 64

/-- The difference of two numbers of type `size_t`. -/
def sizeSub (a b : Nat) : Nat := sizeT (a + (2 ^ 64 - b))

/-- `max_size` of a `std::vector<char>`. -/
def vectorMaxSize : Nat := 2 ^ 63 - 1

/-- How an operation fails. With `wrapped` a sum of sizes was too large for a `size_t` and gave a
buffer without room for the bytes that were to be moved. -/
inductive MsgBufferFault where
  | outside
  | lengthError
  | wrapped
  deriving DecidableEq, Repr

structure MsgBuffer where
  head : Nat
  initCap : Nat
  buffer : List UInt8
  tail : Nat
  deriving DecidableEq, Repr

namespace MsgBuffer

open ByteBuffer

/-- A new buffer. -/
def fresh (len : Nat) : MsgBuffer :=
  ⟨kBufferOffset, len, List.replicate (len + kBufferOffset) 0, kBufferOffset⟩

/-- The constructor. -/
def create (len : Nat) : Except MsgBufferFault MsgBuffer :=
  let size := sizeT (len + kBufferOffset)
  if vectorMaxSize < size then
    .error .lengthError
  else
    .ok ⟨kBufferOffset, len, List.replicate size 0, kBufferOffset⟩

def readableBytes (b : MsgBuffer) : Nat := sizeSub b.tail b.head

def writableBytes (b : MsgBuffer) : Nat := sizeSub b.buffer.length b.tail

/-- Bytes from `Peek()` on. -/
def peek (b : MsgBuffer) (n : Nat) : List UInt8 := (b.buffer.drop b.head).take n

/-- `memcpy` into the vector. -/
def memcpy (b : MsgBuffer) (pos : Nat) (bytes : List UInt8) : Except MsgBufferFault MsgBuffer :=
  if pos + bytes.length ≤ b.buffer.length then
    .ok { b with buffer := store b.buffer pos bytes }
  else
    .error .outside

/-- `std::copy` in the vector, which is `memmove` for bytes: the destination may be inside of what
is copied. -/
def copy (b : MsgBuffer) (first last dest : Nat) : Except MsgBufferFault MsgBuffer :=
  b.memcpy dest (window b.buffer first last)

/-- What `Append` does when there is room. -/
def push (b : MsgBuffer) (bytes : List UInt8) : Except MsgBufferFault MsgBuffer := do
  let b ← b.memcpy b.tail bytes
  .ok { b with tail := b.tail + bytes.length }

/-- The length of the buffer to which `EnsureWritableBytes` moves the readable bytes. -/
def newLen (b : MsgBuffer) (len : Nat) : Nat :=
  if sizeT (kBufferOffset + b.readableBytes + len) < sizeT (b.buffer.length * 2) then
    sizeT (b.buffer.length * 2)
  else
    sizeT (kBufferOffset + b.readableBytes + len)

/-- `EnsureWritableBytes`. The readable bytes are appended to the new buffer, which has room for
them unless its length was too large for a `size_t`. -/
def ensureWritableBytes (b : MsgBuffer) (len : Nat) : Except MsgBufferFault MsgBuffer :=
  if len ≤ b.writableBytes then
    .ok b
  else if sizeT (len + kBufferOffset) ≤ sizeT (b.head + b.writableBytes) then do
    let b' ← b.copy b.head b.tail kBufferOffset
    .ok { b' with tail := kBufferOffset + (b.tail - b.head), head := kBufferOffset }
  else do
    let newbuffer ← create (b.newLen len)
    if b.readableBytes ≤ newbuffer.writableBytes then
      newbuffer.push (b.peek b.readableBytes)
    else
      .error .wrapped

/-- `Append`, of bytes or of what another buffer has to be read. -/
def append (b : MsgBuffer) (bytes : List UInt8) : Except MsgBufferFault MsgBuffer := do
  let b ← b.ensureWritableBytes bytes.length
  b.push bytes

/-- `RetrieveAll`. -/
def retrieveAll (b : MsgBuffer) : MsgBuffer :=
  { b with
    buffer :=
      if sizeT (b.initCap * 2) < b.buffer.length then
        b.buffer.take b.initCap ++ List.replicate (b.initCap - b.buffer.length) 0
      else
        b.buffer
    tail := kBufferOffset
    head := kBufferOffset }

/-- `Retrieve`. -/
def retrieve (b : MsgBuffer) (len : Nat) : MsgBuffer :=
  if b.readableBytes ≤ len then b.retrieveAll else { b with head := b.head + len }

/-- `Read`. -/
def read (b : MsgBuffer) (len : Nat) : List UInt8 × MsgBuffer :=
  let len := if b.readableBytes < len then b.readableBytes else len
  (b.peek len, b.retrieve len)

/-- `ReadFd`, with the bytes that `readv` gives, unless it fails. -/
def readFd (b : MsgBuffer) : Option (List UInt8) → Except MsgBufferFault MsgBuffer
  | none => .ok b
  | some bytes =>
    if bytes.length ≤ b.writableBytes then do
      let b ← b.memcpy b.tail bytes
      .ok { b with tail := b.tail + bytes.length }
    else do
      let writable := b.writableBytes
      let b ← b.memcpy b.tail (bytes.take writable)
      append { b with tail := b.buffer.length } (bytes.drop writable)

/-- The length of the buffer to which `AddInFront` moves the readable bytes. -/
def frontLen (b : MsgBuffer) (len : Nat) : Nat :=
  if sizeT (len + b.readableBytes) < b.initCap then b.initCap else sizeT (len + b.readableBytes)

/-- `AddInFront`. -/
def addInFront (b : MsgBuffer) (bytes : List UInt8) : Except MsgBufferFault MsgBuffer :=
  let len := bytes.length
  if len ≤ b.head then do
    let b' ← b.memcpy (b.head - len) bytes
    .ok { b' with head := b.head - len }
  else if len ≤ b.writableBytes then do
    let b ← b.copy b.head b.tail (b.head + len)
    let b ← b.memcpy b.head bytes
    .ok { b with tail := b.tail + len }
  else do
    let newBuf ← create (b.frontLen len)
    let newBuf ← newBuf.append bytes
    newBuf.append (b.peek b.readableBytes)

/-- The bytes that can be read. -/
def bytes (b : MsgBuffer) : List UInt8 := window b.buffer b.head b.tail

/-- A buffer as it should be: the indices are in order, and the vector is one that there can be,
with room for the offset however it is cut. -/
structure Sound (b : MsgBuffer) : Prop where
  head_le : b.head ≤ b.tail
  tail_le : b.tail ≤ b.buffer.length
  offset_le : kBufferOffset ≤ b.buffer.length
  length_le : b.buffer.length ≤ vectorMaxSize
  initCap_ge : 8 ≤ b.initCap
  initCap_le : b.initCap + kBufferOffset ≤ vectorMaxSize

/-- There is room for some bytes behind the readable ones, or when these are moved to the front,
or in a buffer that a vector can hold. -/
def HasRoom (b : MsgBuffer) (len : Nat) : Prop :=
  len ≤ b.writableBytes ∨ len + kBufferOffset ≤ b.head + b.writableBytes ∨
    (b.buffer.length * 2 + kBufferOffset ≤ vectorMaxSize ∧
      kBufferOffset + b.readableBytes + len + kBufferOffset ≤ vectorMaxSize)

/-- There is room for some bytes in front of the readable ones, or behind them, or in a buffer that
a vector can hold. -/
def HasFrontRoom (b : MsgBuffer) (len : Nat) : Prop :=
  len ≤ b.head ∨ len ≤ b.writableBytes ∨
    len + b.readableBytes + kBufferOffset ≤ vectorMaxSize

/-- There is room for what `readv` puts into the other buffer, as the vector is full then. -/
def HasSpillRoom (b : MsgBuffer) : Option (List UInt8) → Prop
  | none => True
  | some bytes =>
      bytes.length ≤ b.writableBytes ∨
        HasRoom { b with tail := b.buffer.length } (bytes.length - b.writableBytes)

instance (b : MsgBuffer) (len : Nat) : Decidable (b.HasRoom len)
  := inferInstanceAs (Decidable (_ ∨ _))

instance (b : MsgBuffer) (len : Nat) : Decidable (b.HasFrontRoom len)
  := inferInstanceAs (Decidable (_ ∨ _))

instance (b : MsgBuffer) (outcome : Option (List UInt8)) : Decidable (b.HasSpillRoom outcome)
  := match outcome with
    | none => isTrue trivial
    | some _ => inferInstanceAs (Decidable (_ ∨ _))

/-! ### Sizes -/

theorem sizeT_of_le {n : Nat} (h : n ≤ 2 * vectorMaxSize) :
  sizeT n = n
  := by
  rw [vectorMaxSize] at h
  rw [sizeT]
  omega

theorem sizeSub_of_le {a b : Nat} (h : b ≤ a) (ha : a ≤ vectorMaxSize) :
  sizeSub a b = a - b
  := by
  rw [vectorMaxSize] at ha
  rw [sizeSub, sizeT]
  omega

section Sound

variable {b : MsgBuffer} (h : b.Sound)

include h

theorem Sound.readableBytes_eq : b.readableBytes = b.tail - b.head
  := sizeSub_of_le h.head_le (Nat.le_trans h.tail_le h.length_le)

theorem Sound.writableBytes_eq : b.writableBytes = b.buffer.length - b.tail
  := sizeSub_of_le h.tail_le h.length_le

/-- Bytes may be replaced, and the indices moved in their order. -/
theorem Sound.of_length {b' : MsgBuffer} (hhead : b'.head ≤ b'.tail)
    (htail : b'.tail ≤ b'.buffer.length) (hlength : b'.buffer.length = b.buffer.length)
    (hcap : b'.initCap = b.initCap) :
  b'.Sound
  where
  head_le := hhead
  tail_le := htail
  offset_le := hlength ▸ h.offset_le
  length_le := hlength ▸ h.length_le
  initCap_ge := hcap ▸ h.initCap_ge
  initCap_le := hcap ▸ h.initCap_le

theorem Sound.length_bytes : b.bytes.length = b.readableBytes := by
  rw [bytes, length_window h.tail_le, h.readableBytes_eq]

theorem Sound.peek_readableBytes : b.peek b.readableBytes = b.bytes := by
  rw [peek, h.readableBytes_eq, bytes, window]

end Sound

/-! ### What operations do -/

theorem create_eq_fresh {len : Nat} (h : len + kBufferOffset ≤ vectorMaxSize) :
  create len = .ok (fresh len)
  := by
  rw [create, sizeT_of_le (by omega), if_neg (Nat.not_lt_of_le h), fresh]

theorem sound_fresh {len : Nat} (hge : 8 ≤ len) (hle : len + kBufferOffset ≤ vectorMaxSize) :
  (fresh len).Sound
  where
  head_le := Nat.le_refl _
  tail_le := by
    rw [fresh, List.length_replicate]
    apply Nat.le_add_left
  offset_le := by
    rw [fresh, List.length_replicate]
    apply Nat.le_add_left
  length_le := by
    rw [fresh, List.length_replicate]
    exact hle
  initCap_ge := hge
  initCap_le := hle

theorem bytes_fresh (len : Nat) :
  (fresh len).bytes = []
  := window_self _ _

theorem writableBytes_fresh {len : Nat} (hge : 8 ≤ len)
    (hle : len + kBufferOffset ≤ vectorMaxSize) :
  (fresh len).writableBytes = len
  := by
  rw [(sound_fresh hge hle).writableBytes_eq, fresh, List.length_replicate, Nat.add_sub_cancel]

theorem memcpy_of_le {b : MsgBuffer} {pos : Nat} {xs : List UInt8}
    (h : pos + xs.length ≤ b.buffer.length) :
  b.memcpy pos xs = .ok { b with buffer := store b.buffer pos xs }
  := if_pos h

/-- Bytes for which there is room are appended. -/
theorem Sound.push {b : MsgBuffer} (h : b.Sound) (xs : List UInt8)
    (hroom : xs.length ≤ b.writableBytes) :
  ∃ b', b.push xs = .ok b' ∧ b'.Sound ∧ b'.bytes = b.bytes ++ xs ∧
    b'.writableBytes = b.writableBytes - xs.length
  := by
  have htail := h.tail_le
  rw [h.writableBytes_eq] at hroom
  have hin : b.tail + xs.length ≤ b.buffer.length := by omega
  have hlength : (store b.buffer b.tail xs).length = b.buffer.length := length_store hin
  have hsound : Sound { b with buffer := store b.buffer b.tail xs, tail := b.tail + xs.length }
    := by
    refine h.of_length (Nat.le_add_right_of_le h.head_le) ?_ hlength rfl
    rw [hlength]
    exact hin
  refine ⟨_, ?_, hsound, ?_, ?_⟩
  · rw [MsgBuffer.push, memcpy_of_le hin]
    rfl
  · exact window_store_end h.head_le htail
  · rw [hsound.writableBytes_eq, hlength, h.writableBytes_eq, Nat.sub_sub]

/-- The readable bytes are moved to the front. -/
theorem Sound.moveFront {b : MsgBuffer} (h : b.Sound) (hhead : kBufferOffset < b.head) :
  ∃ b', b.copy b.head b.tail kBufferOffset = .ok b' ∧
    Sound { b' with tail := kBufferOffset + (b.tail - b.head), head := kBufferOffset } ∧
    bytes { b' with tail := kBufferOffset + (b.tail - b.head), head := kBufferOffset } = b.bytes ∧
    b'.buffer.length = b.buffer.length
  := by
  have hle := h.head_le
  have htail := h.tail_le
  have hbytes : (window b.buffer b.head b.tail).length = b.tail - b.head := length_window htail
  have hin : kBufferOffset + (window b.buffer b.head b.tail).length ≤ b.buffer.length
    := by
    rw [hbytes]
    omega
  have hlength := length_store hin
  refine ⟨{ b with buffer := store b.buffer kBufferOffset (window b.buffer b.head b.tail) }, ?_,
    ?_, ?_, hlength⟩
  · exact memcpy_of_le hin
  · refine h.of_length (Nat.le_add_right _ _) ?_ hlength rfl
    rw [hlength, ← hbytes]
    exact hin
  · have hstored := window_store (window b.buffer b.head b.tail) h.offset_le
    rw [hbytes] at hstored
    exact hstored

/-- `EnsureWritableBytes` keeps what can be read and makes room. -/
theorem Sound.ensureWritableBytes {b : MsgBuffer} (h : b.Sound) {len : Nat}
    (hroom : b.HasRoom len) :
  ∃ b', b.ensureWritableBytes len = .ok b' ∧ b'.Sound ∧ b'.bytes = b.bytes ∧
    len ≤ b'.writableBytes
  := by
  have hreadable := h.readableBytes_eq
  have hwritable := h.writableBytes_eq
  have hhead := h.head_le
  have htail := h.tail_le
  have hlength := h.length_le
  have hoffset : kBufferOffset = 8 := rfl
  by_cases hfits : len ≤ b.writableBytes
  · exact ⟨b, if_pos hfits, h, rfl, hfits⟩
  rw [MsgBuffer.ensureWritableBytes, if_neg hfits]
  by_cases hmove : len + kBufferOffset ≤ b.head + b.writableBytes
  · -- the bytes are behind the offset, as there is room in front of them
    obtain ⟨b', hcopy, hsound, hbytes, hsize⟩ := h.moveFront (by omega)
    rw [sizeT_of_le (by omega), sizeT_of_le (by omega), if_pos hmove, hcopy]
    refine ⟨_, rfl, hsound, hbytes, ?_⟩
    rw [hsound.writableBytes_eq]
    dsimp only
    omega
  · obtain ⟨hdouble, hsum⟩ := (hroom.resolve_left hfits).resolve_left hmove
    rw [sizeT_of_le (by omega), sizeT_of_le (by omega), if_neg hmove]
    have hnew : b.newLen len + kBufferOffset ≤ vectorMaxSize ∧
        kBufferOffset + b.readableBytes + len ≤ b.newLen len
      := by
      rw [newLen, sizeT_of_le (by omega), sizeT_of_le (by omega)]
      split <;> omega
    have hge : 8 ≤ b.newLen len := by omega
    have hspace := writableBytes_fresh hge hnew.1
    obtain ⟨b', hpush, hsound, hbytes, hleft⟩ := (sound_fresh hge hnew.1).push
      b.bytes (by rw [h.length_bytes, hspace]; omega)
    refine ⟨b', ?_, hsound, ?_, ?_⟩
    · rw [create_eq_fresh hnew.1]
      change (if _ then _ else _) = _
      rw [if_pos (by rw [hspace]; omega), h.peek_readableBytes]
      exact hpush
    · rw [hbytes, bytes_fresh, List.nil_append]
    · rw [hleft, hspace, h.length_bytes]
      omega

/-- `Append`. -/
theorem Sound.append {b : MsgBuffer} (h : b.Sound) {xs : List UInt8}
    (hroom : b.HasRoom xs.length) :
  ∃ b', b.append xs = .ok b' ∧ b'.Sound ∧ b'.bytes = b.bytes ++ xs
  := by
  obtain ⟨b₁, hensure, hsound₁, hbytes₁, hspace⟩ := h.ensureWritableBytes hroom
  obtain ⟨b₂, hpush, hsound₂, hbytes₂, -⟩ := hsound₁.push xs hspace
  refine ⟨b₂, ?_, hsound₂, ?_⟩
  · rw [MsgBuffer.append, hensure]
    exact hpush
  · rw [hbytes₂, hbytes₁]

/-- When there is room, nothing is moved. -/
theorem append_eq_push {b : MsgBuffer} {xs : List UInt8} (h : xs.length ≤ b.writableBytes) :
  b.append xs = b.push xs
  := by
  rw [MsgBuffer.append, MsgBuffer.ensureWritableBytes, if_pos h]
  rfl

/-- `RetrieveAll`. -/
theorem Sound.retrieveAll {b : MsgBuffer} (h : b.Sound) :
  b.retrieveAll.Sound ∧ b.retrieveAll.bytes = []
  := by
  have hge := h.initCap_ge
  have hle := h.initCap_le
  have hmax := h.length_le
  have hoffset : kBufferOffset = 8 := rfl
  refine ⟨?_, window_self _ _⟩
  have hlength : 8 ≤ b.retrieveAll.buffer.length ∧ b.retrieveAll.buffer.length ≤ vectorMaxSize
    := by
    have hmin := h.offset_le
    rw [MsgBuffer.retrieveAll]
    split
    · rw [List.length_append, List.length_take, List.length_replicate]
      omega
    · exact ⟨hmin, hmax⟩
  constructor
  · exact Nat.le_refl _
  · exact hlength.1
  · exact hlength.1
  · exact hlength.2
  · exact hge
  · exact hle

/-- `Retrieve`. -/
theorem Sound.retrieve {b : MsgBuffer} (h : b.Sound) (len : Nat) :
  (b.retrieve len).Sound ∧ (b.retrieve len).bytes = b.bytes.drop len
  := by
  have hreadable := h.readableBytes_eq
  have hlength := h.length_bytes
  rw [MsgBuffer.retrieve]
  split
  next hall =>
    use h.retrieveAll.1
    rw [h.retrieveAll.2, List.drop_eq_nil_of_le]
    rw [hlength]
    exact hall
  next hsome =>
    constructor
    · refine h.of_length ?_ h.tail_le rfl rfl
      dsimp only
      omega
    · exact (drop_window _ _ _ _).symm

/-- `Read`. -/
theorem Sound.read {b : MsgBuffer} (h : b.Sound) (len : Nat) :
  (b.read len).1 = b.bytes.take len ∧ (b.read len).2.Sound ∧
    (b.read len).2.bytes = b.bytes.drop len
  := by
  have hreadable := h.readableBytes_eq
  have hlength := h.length_bytes
  have htail := h.tail_le
  rw [MsgBuffer.read]
  dsimp only
  split
  next hall =>
    refine ⟨?_, (h.retrieve _).1, ?_⟩
    · rw [h.peek_readableBytes, List.take_of_length_le]
      omega
    · rw [(h.retrieve _).2, List.drop_eq_nil_of_le (by omega), List.drop_eq_nil_of_le (by omega)]
  next hsome =>
    refine ⟨?_, (h.retrieve _).1, (h.retrieve _).2⟩
    rw [peek, bytes, window, List.take_take, Nat.min_eq_left (by omega)]

/-- The room depends on the indices and the length of the vector. -/
theorem HasRoom.congr {b b' : MsgBuffer} {len : Nat} (h : b.HasRoom len) (hhead : b'.head = b.head)
    (htail : b'.tail = b.tail) (hlength : b'.buffer.length = b.buffer.length) :
  b'.HasRoom len
  := by
  have hwritable : b'.writableBytes = b.writableBytes
    := by rw [writableBytes, hlength, htail, writableBytes]
  have hreadable : b'.readableBytes = b.readableBytes
    := by rw [readableBytes, htail, hhead, readableBytes]
  rw [HasRoom, hwritable, hreadable, hhead, hlength]
  exact h

/-- `ReadFd`. -/
theorem Sound.readFd {b : MsgBuffer} (h : b.Sound) {outcome : Option (List UInt8)}
    (hroom : b.HasSpillRoom outcome) :
  ∃ b', b.readFd outcome = .ok b' ∧ b'.Sound ∧ b'.bytes = b.bytes ++ outcome.getD []
  := by
  cases outcome with
  | none => exact ⟨b, rfl, h, (List.append_nil _).symm⟩
  | some xs =>
      have hwritable := h.writableBytes_eq
      have htail := h.tail_le
      rw [MsgBuffer.readFd]
      by_cases hfits : xs.length ≤ b.writableBytes
      · obtain ⟨b', hpush, hsound, hbytes, -⟩ := h.push xs hfits
        rw [if_pos hfits]
        exact ⟨b', hpush, hsound, hbytes⟩
      · rw [if_neg hfits]
        have hfill : (xs.take b.writableBytes).length = b.writableBytes
          := by rw [List.length_take, Nat.min_eq_left (by omega)]
        have hin : b.tail + (xs.take b.writableBytes).length ≤ b.buffer.length := by omega
        have hlength := length_store hin
        obtain ⟨b₁, hpush, hsound₁, hbytes₁, -⟩ := h.push _ (Nat.le_of_eq hfill)
        rw [MsgBuffer.push, memcpy_of_le hin] at hpush
        cases hpush
        -- the vector is full now
        have hfull : b.tail + (xs.take b.writableBytes).length = b.buffer.length := by omega
        rw [hfull] at hsound₁ hbytes₁
        have hspill : HasRoom
            { b with
              buffer := store b.buffer b.tail (xs.take b.writableBytes)
              tail := b.buffer.length }
            (xs.drop b.writableBytes).length
          := by
          rw [List.length_drop]
          exact (hroom.resolve_left hfits).congr rfl rfl hlength
        obtain ⟨b₂, happend, hsound₂, hbytes₂⟩ := hsound₁.append hspill
        refine ⟨b₂, ?_, hsound₂, ?_⟩
        · dsimp only
          rw [memcpy_of_le hin]
          change MsgBuffer.append { b with
            buffer := store b.buffer b.tail (xs.take b.writableBytes)
            tail := (store b.buffer b.tail (xs.take b.writableBytes)).length } _ = _
          rw [hlength]
          exact happend
        · rw [hbytes₂, hbytes₁, List.append_assoc, List.take_append_drop]
          rfl

/-- The readable bytes are moved away from their beginning, which may be onto themselves. -/
theorem Sound.moveBack {b : MsgBuffer} (h : b.Sound) {len : Nat} (hroom : len ≤ b.writableBytes) :
  ∃ buffer, b.copy b.head b.tail (b.head + len) = .ok { b with buffer := buffer } ∧
    buffer.length = b.buffer.length ∧ window buffer (b.head + len) (b.tail + len) = b.bytes
  := by
  have hwritable := h.writableBytes_eq
  have hhead := h.head_le
  have htail := h.tail_le
  have hbytes : (window b.buffer b.head b.tail).length = b.tail - b.head := length_window htail
  have hin : b.head + len + (window b.buffer b.head b.tail).length ≤ b.buffer.length := by omega
  have hend : b.head + len + (b.tail - b.head) = b.tail + len := by omega
  refine ⟨store b.buffer (b.head + len) (window b.buffer b.head b.tail), ?_, length_store hin, ?_⟩
  · exact memcpy_of_le hin
  · have hstored := window_store (window b.buffer b.head b.tail)
      (Nat.le_of_add_right_le hin)
    rw [hbytes, hend] at hstored
    exact hstored

/-- The length of the new buffer is enough. -/
theorem Sound.frontLen {b : MsgBuffer} (h : b.Sound) {len : Nat}
    (hsum : len + b.readableBytes + kBufferOffset ≤ vectorMaxSize) :
  len + b.readableBytes ≤ b.frontLen len ∧ 8 ≤ b.frontLen len ∧
    b.frontLen len + kBufferOffset ≤ vectorMaxSize
  := by
  have hcap := h.initCap_ge
  have hcap' := h.initCap_le
  rw [MsgBuffer.frontLen, sizeT_of_le (by omega)]
  split <;> omega

/-- `AddInFront`. -/
theorem Sound.addInFront {b : MsgBuffer} (h : b.Sound) {xs : List UInt8}
    (hroom : b.HasFrontRoom xs.length) :
  ∃ b', b.addInFront xs = .ok b' ∧ b'.Sound ∧ b'.bytes = xs ++ b.bytes
  := by
  have hreadable := h.readableBytes_eq
  have hwritable := h.writableBytes_eq
  have hhead := h.head_le
  have htail := h.tail_le
  rw [MsgBuffer.addInFront]
  by_cases hfront : xs.length ≤ b.head
  · have hin : b.head - xs.length + xs.length ≤ b.buffer.length := by omega
    have hlength := length_store hin
    rw [if_pos hfront, memcpy_of_le hin]
    refine ⟨_, rfl, h.of_length (Nat.le_trans (Nat.sub_le _ _) hhead) ?_ hlength rfl, ?_⟩
    · rw [hlength]
      exact htail
    · exact window_store_front (Nat.sub_add_cancel hfront) hhead (Nat.le_trans hhead htail)
  rw [if_neg hfront]
  by_cases hbehind : xs.length ≤ b.writableBytes
  · obtain ⟨buffer, hcopy, hsize, hmoved⟩ := h.moveBack hbehind
    have hin : b.head + xs.length ≤ buffer.length := by omega
    have hlength := length_store hin
    rw [if_pos hbehind, hcopy]
    refine ⟨{ b with buffer := store buffer b.head xs, tail := b.tail + xs.length }, ?_,
      h.of_length (Nat.le_add_right_of_le hhead) ?_ (hlength.trans hsize) rfl, ?_⟩
    · change (MsgBuffer.memcpy { b with buffer := buffer } b.head xs >>= _) = _
      rw [memcpy_of_le hin]
      rfl
    · rw [hlength, hsize]
      dsimp only
      omega
    · rw [← hmoved]
      exact window_store_front rfl (Nat.add_le_add_right hhead _) hin
  · have hsum := (hroom.resolve_left hfront).resolve_left hbehind
    obtain ⟨hboth, hge, hsize⟩ := h.frontLen hsum
    have hspace := writableBytes_fresh hge hsize
    obtain ⟨b₁, hpush₁, hsound₁, hbytes₁, hleft⟩ := (sound_fresh hge hsize).push xs
      (by omega)
    have hpeek := h.length_bytes
    obtain ⟨b₂, hpush₂, hsound₂, hbytes₂, -⟩ := hsound₁.push b.bytes (by omega)
    refine ⟨b₂, ?_, hsound₂, ?_⟩
    · rw [if_neg hbehind, create_eq_fresh hsize, h.peek_readableBytes]
      change ((fresh (b.frontLen xs.length)).append xs >>= fun newBuf =>
        MsgBuffer.append newBuf b.bytes) = _
      rw [append_eq_push (by omega), hpush₁]
      change b₁.append b.bytes = _
      rw [append_eq_push (by omega), hpush₂]
    · rw [hbytes₂, hbytes₁, bytes_fresh, List.nil_append]

/-! ### What operations need -/

/-- The indices are in order, in a vector that there can be. -/
structure InOrder (b : MsgBuffer) : Prop where
  head_le : b.head ≤ b.tail
  tail_le : b.tail ≤ b.buffer.length
  length_le : b.buffer.length ≤ vectorMaxSize

theorem Sound.inOrder {b : MsgBuffer} (h : b.Sound) :
  b.InOrder
  := ⟨h.head_le, h.tail_le, h.length_le⟩

theorem memcpy_eq_ok {b b' : MsgBuffer} {pos : Nat} {xs : List UInt8}
    (h : b.memcpy pos xs = .ok b') :
  pos + xs.length ≤ b.buffer.length ∧ b' = { b with buffer := store b.buffer pos xs }
  := by
  rw [memcpy] at h
  split at h
  next hin => exact ⟨hin, (Except.ok.inj h).symm⟩
  next => cases h

/-- A buffer to which bytes were appended had room for them. -/
theorem push_eq_ok {b b' : MsgBuffer} {xs : List UInt8} (h : b.push xs = .ok b') :
  b.tail + xs.length ≤ b.buffer.length ∧ b'.head = b.head ∧ b'.tail = b.tail + xs.length ∧
    b'.buffer.length = b.buffer.length
  := by
  rw [push] at h
  cases hcopy : b.memcpy b.tail xs with
  | error fault =>
      rw [hcopy] at h
      cases h
  | ok b₁ =>
      obtain ⟨hin, rfl⟩ := memcpy_eq_ok hcopy
      rw [hcopy] at h
      cases h
      exact ⟨hin, rfl, rfl, length_store hin⟩

theorem create_eq_ok {len : Nat} {b : MsgBuffer} (h : create len = .ok b) :
  b.head = kBufferOffset ∧ b.tail = kBufferOffset ∧
    b.buffer.length = sizeT (len + kBufferOffset) ∧ b.buffer.length ≤ vectorMaxSize
  := by
  rw [create] at h
  split at h
  next => cases h
  next hle =>
    cases h
    exact ⟨rfl, rfl, List.length_replicate, List.length_replicate ▸ Nat.not_lt.mp hle⟩

/-- What is left when `EnsureWritableBytes` returns. -/
structure Ensured (b b' : MsgBuffer) (len : Nat) : Prop where
  inOrder : b'.InOrder
  size_eq : b'.tail - b'.head = b.tail - b.head
  hasRoom : len ≤ b'.buffer.length - b'.tail → b.HasRoom len

/-- It returns with the room it was asked for only if the buffer, or one that a vector can hold,
had it. -/
theorem InOrder.ensured {b b' : MsgBuffer} {len : Nat} (h : b.InOrder)
    (hok : b.ensureWritableBytes len = .ok b') :
  Ensured b b' len
  := by
  have hhead := h.head_le
  have htail := h.tail_le
  have hlength := h.length_le
  have hreadable : b.readableBytes = b.tail - b.head
    := sizeSub_of_le hhead (Nat.le_trans htail hlength)
  have hwritable : b.writableBytes = b.buffer.length - b.tail := sizeSub_of_le htail hlength
  have hoffset : kBufferOffset = 8 := rfl
  have hmax : vectorMaxSize = 2 ^ 63 - 1 := rfl
  rw [MsgBuffer.ensureWritableBytes] at hok
  split at hok
  next hfits =>
    cases hok
    exact ⟨h, rfl, fun _ => .inl hfits⟩
  next hfull =>
    split at hok
    next =>
      cases hcopy : b.copy b.head b.tail kBufferOffset with
      | error fault =>
          rw [hcopy] at hok
          cases hok
      | ok b₁ =>
          obtain ⟨hin, rfl⟩ := memcpy_eq_ok hcopy
          rw [hcopy] at hok
          cases hok
          have hbytes := length_window (i := b.head) htail
          have hsame := length_store hin
          refine ⟨⟨Nat.le_add_right _ _, ?_, ?_⟩, Nat.add_sub_cancel_left _ _, ?_⟩
          · rw [hsame, ← hbytes]
            exact hin
          · rw [hsame]
            exact hlength
          · rw [hsame]
            dsimp only
            intro hspace
            refine .inr (.inl ?_)
            omega
    next =>
      cases hcreate : create (b.newLen len) with
      | error fault =>
          rw [hcreate] at hok
          cases hok
      | ok newbuffer =>
          obtain ⟨hhead₁, htail₁, hsize₁, hmax₁⟩ := create_eq_ok hcreate
          rw [hcreate] at hok
          change (if _ then _ else _) = _ at hok
          split at hok
          next =>
            have hpeek : (b.peek b.readableBytes).length = b.tail - b.head
              := by
              rw [peek, List.length_take, List.length_drop]
              omega
            obtain ⟨hin, hhead₂, htail₂, hsize₂⟩ := push_eq_ok hok
            rw [hpeek] at hin htail₂
            refine ⟨⟨?_, ?_, ?_⟩, ?_, ?_⟩
            · omega
            · omega
            · omega
            · omega
            · intro hspace
              -- the sum of sizes is not more than the new buffer has, so that it did not wrap
              refine .inr (.inr ?_)
              rw [sizeT] at hsize₁
              rw [newLen, sizeT, sizeT] at hsize₁
              split at hsize₁
              · omega
              · omega
          next => cases hok

end MsgBuffer
