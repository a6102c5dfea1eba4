import Mathlib.Logic.Equiv.Basic
import Mathlib.Logic.Function.Basic
import Tmms.Library.Simulation
import Tmms.Network.MsgBuffer

/-!
# Message buffers as queues

Any number of `MsgBuffer`s, each with its own capacity, and the operations on them in any order.
What can be read of each is a queue of bytes, with bytes coming to its back and its front, and
going from its front.  This is so exactly while the operations have the room they need in vectors
that there can be: sums of sizes are made modulo `2 ^ 64`, and nobody looks whether they wrap.
-/

/-- The operations, on buffers with names. `Read` gives bytes, and `ReadFd` is with what `readv`
gives. -/
inductive MsgBufferOp (ι : Type) where
  | append (i : ι) (bytes : List UInt8)
  | appendBuffer (i j : ι)
  | addInFront (i : ι) (bytes : List UInt8)
  | retrieve (i : ι) (len : Nat)
  | retrieveAll (i : ι)
  | read (i : ι) (len : Nat)
  | ensureWritableBytes (i : ι) (len : Nat)
  | swap (i j : ι)
  | readFd (i : ι) (outcome : Option (List UInt8))
  deriving DecidableEq, Repr

namespace MsgBufferOp

open Simulation

variable {ι : Type} [DecidableEq ι]

/-- One buffer is changed, and nothing is given. -/
def change (s : ι → MsgBuffer) (i : ι) (b : MsgBuffer) : (ι → MsgBuffer) × List UInt8 :=
  (Function.update s i b, [])

/-- An operation on the buffers. -/
def step (s : ι → MsgBuffer) :
    MsgBufferOp ι → Except MsgBufferFault ((ι → MsgBuffer) × List UInt8)
  | .append i bytes => ((s i).append bytes).map (change s i)
  | .appendBuffer i j => do
      let b ← (s i).ensureWritableBytes (s j).readableBytes
      let buf := Function.update s i b j
      (b.push (buf.peek buf.readableBytes)).map (change s i)
  | .addInFront i bytes => ((s i).addInFront bytes).map (change s i)
  | .retrieve i len => .ok (change s i ((s i).retrieve len))
  | .retrieveAll i => .ok (change s i (s i).retrieveAll)
  | .read i len => .ok (Function.update s i ((s i).read len).2, ((s i).read len).1)
  | .ensureWritableBytes i len => ((s i).ensureWritableBytes len).map (change s i)
  | .swap i j => .ok (s ∘ Equiv.swap i j, [])
  | .readFd i outcome => ((s i).readFd outcome).map (change s i)

/-- The same operation on queues of bytes. -/
def queueStep (q : ι → List UInt8) : MsgBufferOp ι → (ι → List UInt8) × List UInt8
  | .append i bytes => (Function.update q i (q i ++ bytes), [])
  | .appendBuffer i j => (Function.update q i (q i ++ q j), [])
  | .addInFront i bytes => (Function.update q i (bytes ++ q i), [])
  | .retrieve i len => (Function.update q i ((q i).drop len), [])
  | .retrieveAll i => (Function.update q i [], [])
  | .read i len => (Function.update q i ((q i).drop len), (q i).take len)
  | .ensureWritableBytes _ _ => (q, [])
  | .swap i j => (q ∘ Equiv.swap i j, [])
  | .readFd i outcome => (Function.update q i (q i ++ outcome.getD []), [])

/-- The operation has the room it needs, in the buffer or in one that a vector can hold. -/
def Roomy (s : ι → MsgBuffer) : MsgBufferOp ι → Prop
  | .append i bytes => (s i).HasRoom bytes.length
  | .appendBuffer i j => (s i).HasRoom (s j).readableBytes
  | .addInFront i bytes => (s i).HasFrontRoom bytes.length
  | .retrieve _ _ => True
  | .retrieveAll _ => True
  | .read _ _ => True
  | .ensureWritableBytes i len => (s i).HasRoom len
  | .swap _ _ => True
  | .readFd i outcome => (s i).HasSpillRoom outcome

instance (s : ι → MsgBuffer) : (op : MsgBufferOp ι) → Decidable (Roomy s op)
  | .append i bytes => inferInstanceAs (Decidable ((s i).HasRoom bytes.length))
  | .appendBuffer i j => inferInstanceAs (Decidable ((s i).HasRoom (s j).readableBytes))
  | .addInFront i bytes => inferInstanceAs (Decidable ((s i).HasFrontRoom bytes.length))
  | .retrieve _ _ => isTrue trivial
  | .retrieveAll _ => isTrue trivial
  | .read _ _ => isTrue trivial
  | .ensureWritableBytes i len => inferInstanceAs (Decidable ((s i).HasRoom len))
  | .swap _ _ => isTrue trivial
  | .readFd i outcome => inferInstanceAs (Decidable ((s i).HasSpillRoom outcome))

/-- The buffers are as they should be, and have the bytes of the queues. -/
def Queues (s : ι → MsgBuffer) (q : ι → List UInt8) : Prop :=
  ∀ i, (s i).Sound ∧ (s i).bytes = q i

/-- What an operation promises of the buffers it leaves. -/
def Promised : MsgBufferOp ι → (ι → MsgBuffer) → Prop
  | .ensureWritableBytes i len, s => len ≤ (s i).writableBytes
  | _, _ => True

variable {s : ι → MsgBuffer} {q : ι → List UInt8}

theorem Queues.update (h : Queues s q) (i : ι) {b : MsgBuffer} {bytes : List UInt8}
    (hsound : b.Sound) (hbytes : b.bytes = bytes) :
  Queues (Function.update s i b) (Function.update q i bytes)
  := by
  intro j
  by_cases hj : j = i
  · subst hj
    rw [Function.update_self, Function.update_self]
    exact ⟨hsound, hbytes⟩
  · rw [Function.update_of_ne hj, Function.update_of_ne hj]
    exact h j

/-- An operation on one buffer changes one queue. -/
theorem Queues.change (h : Queues s q) (i : ι) {r : Except MsgBufferFault MsgBuffer}
    {bytes : List UInt8} (hr : ∃ b, r = .ok b ∧ b.Sound ∧ b.bytes = bytes) :
  ∃ s', r.map (MsgBufferOp.change s i) = .ok (s', []) ∧ Queues s' (Function.update q i bytes)
  := by
  obtain ⟨b, rfl, hsound, hbytes⟩ := hr
  exact ⟨_, rfl, h.update i hsound hbytes⟩

/-- `Append` of a buffer, which may be the same one. -/
theorem Queues.appendBuffer (h : Queues s q) (i j : ι)
    (hroom : (s i).HasRoom (s j).readableBytes) :
  ∃ s', step s (.appendBuffer i j) = .ok (s', []) ∧ Queues s' (Function.update q i (q i ++ q j))
  := by
  obtain ⟨b, hensure, hsound, hbytes, hspace⟩ := (h i).1.ensureWritableBytes hroom
  have hsame := h.update i hsound (hbytes.trans (h i).2)
  rw [Function.update_eq_self] at hsame
  obtain ⟨hsound', hbytes'⟩ := hsame j
  have hlength := hsound'.length_bytes
  rw [hbytes', ← (h j).2, (h j).1.length_bytes] at hlength
  rw [hlength] at hspace
  obtain ⟨b', hpush, hsound₂, hbytes₂, -⟩ :=
    hsound.push (Function.update s i b j).bytes (by rw [hsound'.length_bytes]; exact hspace)
  refine ⟨Function.update s i b', ?_, h.update i hsound₂ ?_⟩
  · rw [step, hensure]
    change (b.push (((Function.update s i b) j).peek _)).map _ = _
    rw [hsound'.peek_readableBytes, hpush]
    rfl
  · rw [hbytes₂, hbytes, hbytes', (h i).2]

/-- Every operation does to the bytes what it does to the queues. -/
theorem Queues.step (h : Queues s q) (op : MsgBufferOp ι) (hroom : Roomy s op) :
  ∃ s', step s op = .ok (s', (queueStep q op).2) ∧ Queues s' (queueStep q op).1 ∧
    Promised op s'
  := by
  cases op with
  | append i bytes =>
      rw [queueStep, ← (h i).2]
      obtain ⟨s', hs', hq⟩ := h.change i ((h i).1.append hroom)
      exact ⟨s', hs', hq, trivial⟩
  | appendBuffer i j =>
      obtain ⟨s', hs', hq⟩ := h.appendBuffer i j hroom
      exact ⟨s', hs', hq, trivial⟩
  | addInFront i bytes =>
      rw [queueStep, ← (h i).2]
      obtain ⟨s', hs', hq⟩ := h.change i ((h i).1.addInFront hroom)
      exact ⟨s', hs', hq, trivial⟩
  | retrieve i len =>
      obtain ⟨hsound, hbytes⟩ := (h i).1.retrieve len
      rw [(h i).2] at hbytes
      exact ⟨_, rfl, h.update i hsound hbytes, trivial⟩
  | retrieveAll i =>
      obtain ⟨hsound, hbytes⟩ := (h i).1.retrieveAll
      exact ⟨_, rfl, h.update i hsound hbytes, trivial⟩
  | read i len =>
      obtain ⟨hread, hsound, hbytes⟩ := (h i).1.read len
      rw [(h i).2] at hread hbytes
      refine ⟨_, ?_, h.update i hsound hbytes, trivial⟩
      rw [MsgBufferOp.step, hread]
      rfl
  | ensureWritableBytes i len =>
      obtain ⟨b, hensure, hsound, hbytes, hspace⟩ := (h i).1.ensureWritableBytes hroom
      have hsame := h.update i hsound (hbytes.trans (h i).2)
      rw [Function.update_eq_self] at hsame
      refine ⟨Function.update s i b, ?_, hsame, ?_⟩
      · rw [MsgBufferOp.step, hensure]
        rfl
      · rw [Promised, Function.update_self]
        exact hspace
  | swap i j => exact ⟨_, rfl, fun k => h (Equiv.swap i j k), trivial⟩
  | readFd i outcome =>
      rw [queueStep, ← (h i).2]
      obtain ⟨s', hs', hq⟩ := h.change i ((h i).1.readFd hroom)
      exact ⟨s', hs', hq, trivial⟩

/-- The bytes that can be read are those of the queues, and the indices are in order. -/
def Agrees (s : ι → MsgBuffer) (q : ι → List UInt8) : Prop :=
  ∀ i, (s i).bytes = q i ∧ (s i).head ≤ (s i).tail ∧ (s i).tail ≤ (s i).buffer.length

omit [DecidableEq ι] in
theorem Queues.agrees (h : Queues s q) :
  Agrees s q
  := by
  intro i
  obtain ⟨hsound, hbytes⟩ := h i
  exact ⟨hbytes, hsound.head_le, hsound.tail_le⟩

end MsgBufferOp
