import Mathlib.Data.List.Basic
import Tmms.Library.Pipe

/-!
# The sending side of a connection

`TcpConnection::Send` and `OnWrite`.  A buffer to be sent is an `iovec`, an address and a
size, and stays where it is until it is accepted, so memory is a function `mem` from
addresses to bytes that does not change.  Addresses and sizes are 64-bit words.

The calls of `write` and `writev` are events from outside: a run lists their outcomes.  What
is seen of the connection is what was given to `Send`, the bytes the socket accepted and the
calls of `write_complete_cb_`.
-/

open Pipe

/-- `struct iovec`. -/
structure IoVec where
  base : UInt64
  len : UInt64
  deriving DecidableEq, Repr

namespace IoVec

/-- The bytes of a buffer. -/
def bytes (mem : UInt64 → UInt8) (v : IoVec) : List UInt8 :=
  (List.range v.len.toNat).map fun i => mem (v.base + UInt64.ofNat i)

/-- The first `ret` bytes of a buffer are accepted. -/
def advance (v : IoVec) (ret : Nat) : IoVec :=
  ⟨v.base + UInt64.ofNat ret, v.len - UInt64.ofNat ret⟩

end IoVec

/-- The bytes of the buffers of a list. -/
def pendingBytes (mem : UInt64 → UInt8) (vs : List IoVec) : List UInt8 :=
  vs.flatMap (IoVec.bytes mem)

/-- The number of bytes in the buffers of a list. -/
def pendingSize (vs : List IoVec) : Nat := (vs.map (·.len.toNat)).sum

/-- What `write` or `writev` does: it accepts a number of bytes, or returns -1 with `errno`
being `EINTR`, `EAGAIN` or `EWOULDBLOCK`, or with another error. -/
inductive WriteOutcome where
  | wrote (n : Nat)
  | again
  | failed
  deriving DecidableEq, Repr

/-- `IOV_MAX`. -/
def iovMax : Nat := 1024

/-- The fields of a `TcpConnection` that sending uses; `writing` is whether write events are
enabled. -/
structure TcpConnection where
  closed : Bool := false
  ioVecList : List IoVec := []
  writing : Bool := false
  deriving DecidableEq, Repr

namespace TcpConnection

/-- `OnClose`. -/
def onClose (c : TcpConnection) : TcpConnection := { c with closed := true }

/-- The loop that takes `ret` accepted bytes off the list. -/
def trim : Nat → List IoVec → List IoVec
  | _, [] => []
  | ret, v :: vs =>
    if ret = 0 then
      v :: vs
    else if ret < v.len.toNat then
      v.advance ret :: vs
    else
      trim (ret - v.len.toNat) vs

/-- The loop of `OnWrite`. Without a further outcome it is still in the call of `writev`. -/
def onWriteLoop (mem : UInt64 → UInt8) :
    TcpConnection → List WriteOutcome → TcpConnection × List (Obs UInt8)
  | c, [] => (c, [])
  | c, .wrote n :: outcomes =>
    let accepted := Obs.passed ((pendingBytes mem c.ioVecList).take n)
    if trim n c.ioVecList = [] then
      ({ c with ioVecList := [], writing := false }, [accepted, .done])
    else
      let r := onWriteLoop mem { c with ioVecList := trim n c.ioVecList } outcomes
      (r.1, accepted :: r.2)
  | c, .again :: _ => (c, [])
  | c, .failed :: _ => (c.onClose, [])

/-- `OnWrite`. -/
def onWrite (mem : UInt64 → UInt8) (c : TcpConnection) (outcomes : List WriteOutcome) :
    TcpConnection × List (Obs UInt8) :=
  if c.closed then
    (c, [])
  else if c.ioVecList = [] then
    ({ c with writing := false }, [.done])
  else
    c.onWriteLoop mem outcomes

/-- The vector is appended and write events are enabled. -/
def push (c : TcpConnection) (vec : IoVec) : TcpConnection :=
  { c with ioVecList := c.ioVecList ++ [vec], writing := true }

/-- What `write` returns, in the `size_t` it is put in. -/
def sendLen : WriteOutcome → UInt64
  | .wrote n => UInt64.ofNat n
  | .again => -1
  | .failed => -1

/-- The bytes a direct `write` accepts. -/
def directBytes (mem : UInt64 → UInt8) (buf : IoVec) : WriteOutcome → List (Obs UInt8)
  | .wrote n => [.passed ((buf.bytes mem).take n)]
  | .again => []
  | .failed => []

/-- `SendInLoop(const char *,size_t)`. The test `send_len<0` is never true of a `size_t`, so
its branch is not here. -/
def sendBuf (mem : UInt64 → UInt8) (c : TcpConnection) (buf : IoVec) (outcome : WriteOutcome) :
    TcpConnection × List (Obs UInt8) :=
  let given := Obs.given (buf.bytes mem)
  if c.closed then
    (c, [given])
  else if c.ioVecList = [] then
    let accepted := directBytes mem buf outcome
    let size := buf.len - sendLen outcome
    if size = 0 then
      (c, given :: accepted ++ [.done])
    else
      (c.push ⟨buf.base + sendLen outcome, size⟩, given :: accepted)
  else if 0 < buf.len then
    (c.push buf, [given])
  else
    (c, [given])

/-- `SendInLoop(std::list<BufferNodePtr> &)`. -/
def sendList (mem : UInt64 → UInt8) (c : TcpConnection) (list : List IoVec) :
    TcpConnection × List (Obs UInt8) :=
  let given := Obs.given (pendingBytes mem list)
  if c.closed then
    (c, [given])
  else
    let vs := c.ioVecList ++ list
    ({ c with ioVecList := vs, writing := c.writing || !vs.isEmpty }, [given])

/-- What happens to a connection: the two forms of `Send`, a write event, and whatever else
closes it. -/
inductive Event where
  | sendList (list : List IoVec)
  | sendBuf (buf : IoVec) (outcome : WriteOutcome)
  | onWrite (outcomes : List WriteOutcome)
  | close
  deriving DecidableEq, Repr

/-- One event. -/
def step (mem : UInt64 → UInt8) (c : TcpConnection) : Event → TcpConnection × List (Obs UInt8)
  | .sendList list => c.sendList mem list
  | .sendBuf buf outcome => c.sendBuf mem buf outcome
  | .onWrite outcomes => c.onWrite mem outcomes
  | .close => (c.onClose, [])

/-! ### What the kernel may do -/

/-- `write` accepts no more than it is given. -/
def WriteAllowed (buf : IoVec) : WriteOutcome → Prop
  | .wrote n => n ≤ buf.len.toNat
  | .again => True
  | .failed => True

/-- `writev` accepts no more than it is given, and nothing of more than `IOV_MAX` vectors. -/
def WritevAllowed : List IoVec → List WriteOutcome → Prop
  | _, [] => True
  | vs, .wrote n :: outcomes =>
    (vs.length ≤ iovMax ∧ n ≤ pendingSize vs ∧ n < 2 ^ 63) ∧ WritevAllowed (trim n vs) outcomes
  | _, .again :: _ => True
  | _, .failed :: _ => True

/-- The outcomes of an event are ones the kernel may give. -/
def Allowed (c : TcpConnection) : Event → Prop
  | .sendBuf buf outcome => WriteAllowed buf outcome
  | .onWrite outcomes => WritevAllowed c.ioVecList outcomes
  | .sendList _ => True
  | .close => True

/-- No direct `write` returns -1. -/
def DirectWrite (c : TcpConnection) : Event → Prop
  | .sendBuf _ outcome => c.closed = false → c.ioVecList = [] → ∃ n, outcome = .wrote n
  | .onWrite _ => True
  | .sendList _ => True
  | .close => True

end TcpConnection

/-! ### Accepted bytes -/

namespace IoVec

theorem length_bytes (mem : UInt64 → UInt8) (v : IoVec) :
  (v.bytes mem).length = v.len.toNat
  := by
  rw [bytes, List.length_map, List.length_range]

/-- What is left of a buffer is what follows the bytes accepted. -/
theorem bytes_advance (mem : UInt64 → UInt8) (v : IoVec) {ret : Nat} (h : ret ≤ v.len.toNat) :
  (v.advance ret).bytes mem = (v.bytes mem).drop ret
  := by
  have hlt := v.len.toNat_lt
  have hret : (UInt64.ofNat ret).toNat = ret :=
    UInt64.toNat_ofNat_of_lt' (show ret < 2 ^ 64 by omega)
  have hsub : (v.len - UInt64.ofNat ret).toNat = v.len.toNat - ret := by
    rw [UInt64.toNat_sub_of_le, hret]
    rw [UInt64.le_iff_toNat_le, hret]
    apply h
  apply List.ext_getElem
  · rw [List.length_drop, length_bytes, length_bytes, advance, hsub]
  · intro i _ _
    simp only [bytes, advance, List.getElem_map, List.getElem_range, List.getElem_drop,
      UInt64.ofNat_add, UInt64.add_assoc]

end IoVec

namespace TcpConnection

/-- The buffers left are what follows the bytes accepted, however these fall on the buffers.
The induction is on the buffers. -/
theorem pendingBytes_trim (mem : UInt64 → UInt8) (ret : Nat) (vs : List IoVec) :
  pendingBytes mem (trim ret vs) = (pendingBytes mem vs).drop ret
  := by
  induction vs generalizing ret with
  | nil => simp [trim, pendingBytes]
  | cons v vs ih =>
      have hcons : ∀ w ws, pendingBytes mem (w :: ws) = w.bytes mem ++ pendingBytes mem ws :=
        fun _ _ => List.flatMap_cons
      rw [trim]
      split
      next h0 => rw [h0, List.drop_zero]
      next h0 =>
        split
        next hlt =>
          rw [hcons, hcons, v.bytes_advance mem (Nat.le_of_lt hlt),
            List.drop_append_of_le_length]
          rw [v.length_bytes]
          apply Nat.le_of_lt hlt
        next hge =>
          have hall : (v.bytes mem).drop ret = [] := by
            apply List.drop_eq_nil_of_le
            rw [v.length_bytes]
            omega
          rw [hcons, ih, List.drop_append, v.length_bytes, hall, List.nil_append]

/-- The symbols pending in a connection as a pipe: the bytes of its buffers, and anything
once it is closed. -/
def Pending (mem : UInt64 → UInt8) (c : TcpConnection) (p : List UInt8) : Prop :=
  c.closed = true ∨ p = pendingBytes mem c.ioVecList

/-- The loop of `OnWrite` passes on pending bytes, and is done when there are none. The
induction is on the outcomes. -/
theorem moves_onWriteLoop (mem : UInt64 → UInt8) (c : TcpConnection)
    (outcomes : List WriteOutcome) :
  ∃ q, Moves (pendingBytes mem c.ioVecList) (c.onWriteLoop mem outcomes).2 q ∧
    Pending mem (c.onWriteLoop mem outcomes).1 q
  := by
  induction outcomes generalizing c with
  | nil => exact ⟨_, .nil _, .inr rfl⟩
  | cons outcome outcomes ih =>
      cases outcome with
      | again => exact ⟨_, .nil _, .inr rfl⟩
      | failed => exact ⟨_, .nil _, .inl rfl⟩
      | wrote n =>
          have htrim := pendingBytes_trim mem n c.ioVecList
          have hpass : ∀ h q, Moves ((pendingBytes mem c.ioVecList).drop n) h q →
              Moves (pendingBytes mem c.ioVecList)
                (.passed ((pendingBytes mem c.ioVecList).take n) :: h) q := by
            intro h q hm
            have hmoves := Moves.passed ((pendingBytes mem c.ioVecList).take n) hm
            rw [List.take_append_drop] at hmoves
            apply hmoves
          rw [onWriteLoop]
          split
          next hempty =>
            rw [hempty] at htrim
            use []
            constructor
            · apply hpass
              rw [← htrim]
              apply Moves.done
              apply Moves.nil
            · right
              rfl
          next hmore =>
            obtain ⟨q, hq, hpending⟩ := ih { c with ioVecList := trim n c.ioVecList }
            use q
            constructor
            · apply hpass
              rw [← htrim]
              apply hq
            · apply hpending

/-- Once closed a connection only sees what it is given. -/
theorem moves_closed (mem : UInt64 → UInt8) {c : TcpConnection} (hc : c.closed = true)
    (e : Event) (p : List UInt8) :
  ∃ q, Moves p (c.step mem e).2 q ∧ Pending mem (c.step mem e).1 q
  := by
  cases e with
  | sendList list =>
      simp only [step, sendList, hc, if_true]
      exact ⟨_, .given _ (.nil _), .inl hc⟩
  | sendBuf buf outcome =>
      simp only [step, sendBuf, hc, if_true]
      exact ⟨_, .given _ (.nil _), .inl hc⟩
  | onWrite outcomes =>
      simp only [step, onWrite, hc, if_true]
      exact ⟨_, .nil _, .inl hc⟩
  | close => exact ⟨_, .nil _, .inl rfl⟩

/-- A direct write passes on the beginning of the buffer and leaves the rest pending. -/
theorem moves_directWrite (mem : UInt64 → UInt8) {c : TcpConnection} (hc : c.closed = false)
    (hempty : c.ioVecList = []) (buf : IoVec) {n : Nat} (hn : n ≤ buf.len.toNat) :
  ∃ q, Moves [] (c.sendBuf mem buf (.wrote n)).2 q ∧
    Pending mem (c.sendBuf mem buf (.wrote n)).1 q
  := by
  have hrest := buf.bytes_advance mem hn
  have hmoves : ∀ h q, Moves ((buf.bytes mem).drop n) h q →
      Moves [] (.given (buf.bytes mem) :: .passed ((buf.bytes mem).take n) :: h) q := by
    intro h q hm
    apply Moves.given
    have hpass := Moves.passed ((buf.bytes mem).take n) hm
    rw [List.take_append_drop] at hpass
    rw [List.nil_append]
    apply hpass
  simp only [sendBuf, hc, hempty, directBytes, if_true, Bool.false_eq_true, if_false]
  by_cases h0 : buf.len - sendLen (.wrote n) = 0
  · rw [if_pos h0]
    have hnil : (buf.bytes mem).drop n = [] := by
      rw [sendLen] at h0
      rw [← hrest, IoVec.bytes, IoVec.advance, h0]
      rfl
    use []
    constructor
    · apply hmoves
      rw [hnil]
      apply Moves.done
      apply Moves.nil
    · right
      rw [hempty]
      rfl
  · rw [if_neg h0]
    use (buf.bytes mem).drop n
    constructor
    · apply hmoves
      apply Moves.nil
    · right
      rw [← hrest]
      simp only [push, hempty, List.nil_append, pendingBytes, List.flatMap_singleton,
        IoVec.advance, sendLen]

/-- Every event moves the pending bytes, when a direct write does not return -1. -/
theorem moves_step (mem : UInt64 → UInt8) (c : TcpConnection) (e : Event) (p : List UInt8)
    (hp : Pending mem c p) (hallowed : Allowed c e) (hdirect : DirectWrite c e) :
  ∃ q, Moves p (c.step mem e).2 q ∧ Pending mem (c.step mem e).1 q
  := by
  obtain hc | rfl := hp
  · apply moves_closed mem hc
  by_cases hclosed : c.closed = true
  · apply moves_closed mem hclosed
  have hc : c.closed = false := Bool.not_eq_true _ ▸ hclosed
  cases e with
  | sendList list =>
      simp only [step, sendList, hc, Bool.false_eq_true, if_false]
      refine ⟨_, .given _ (.nil _), .inr ?_⟩
      rw [pendingBytes, pendingBytes, pendingBytes, List.flatMap_append]
  | sendBuf buf outcome =>
      by_cases hempty : c.ioVecList = []
      · obtain ⟨n, rfl⟩ := hdirect hc hempty
        rw [hempty]
        apply moves_directWrite mem hc hempty buf hallowed
      · simp only [step, sendBuf, hc, hempty, Bool.false_eq_true, if_false]
        refine ⟨_, ?_, .inr rfl⟩
        split
        next hpos =>
          simp only [push, pendingBytes, List.flatMap_append, List.flatMap_singleton]
          apply Moves.given
          apply Moves.nil
        next hzero =>
          have hlen : buf.len = 0 := by
            apply UInt64.toNat_inj.mp
            rw [UInt64.lt_iff_toNat_lt] at hzero
            simp only [UInt64.toNat_zero] at hzero ⊢
            omega
          have hbytes : buf.bytes mem = [] := by
            rw [IoVec.bytes, hlen]
            rfl
          rw [hbytes]
          apply Moves.given
          rw [List.append_nil]
          apply Moves.nil
  | onWrite outcomes =>
      by_cases hempty : c.ioVecList = []
      · simp only [step, onWrite, hc, hempty, Bool.false_eq_true, if_false, if_true]
        exact ⟨[], .done (.nil _), .inr rfl⟩
      · simp only [step, onWrite, hc, hempty, Bool.false_eq_true, if_false]
        apply moves_onWriteLoop
  | close => exact ⟨_, .nil _, .inl rfl⟩

/-- In every run in which no direct write returns -1, at every moment the bytes accepted are
the beginning of the bytes given to `Send`, and are all of them when `write_complete_cb_`
runs. -/
theorem faithful_of_directWrite (mem : UInt64 → UInt8) {events : List Event}
    (hallowed : AllOk (step mem) Allowed {} events)
    (hdirect : AllOk (step mem) DirectWrite {} events) :
  Faithful (history (step mem) {} events)
  := by
  apply faithful_history (Pending mem) _ (Or.inr rfl) (hallowed.and hdirect)
  rintro c e p hp ⟨hallowed, hdirect⟩
  apply moves_step mem c e p hp hallowed hdirect

/-- A direct write that accepts two of three bytes, and the last of them with a second buffer. -/
theorem faithful_of_directWrite_partial :
  Faithful (history (step UInt64.toUInt8) {} [.sendBuf ⟨97, 3⟩ (.wrote 2), .sendList [⟨65, 2⟩],
    .onWrite [.wrote 2, .again], .onWrite [.wrote 1]])
  := by
  apply faithful_of_directWrite
  · simp only [AllOk, Allowed, WriteAllowed, step]
    simp only [WritevAllowed]
    decide +kernel
  · exact ⟨fun _ _ => ⟨2, rfl⟩, trivial, trivial, trivial, trivial⟩

/-- A direct write that returns -1: the byte in front of the buffer is queued with it. -/
theorem not_faithful_again :
  ¬ ∀ events, AllOk (step UInt64.toUInt8) Allowed {} events →
    Faithful (history (step UInt64.toUInt8) {} events)
  := by
  intro h
  have hallowed : AllOk (step UInt64.toUInt8) Allowed {}
      [.sendBuf ⟨97, 2⟩ .again, .onWrite [.wrote 3]] := by
    simp only [AllOk, Allowed, WriteAllowed, WritevAllowed]
    decide +kernel
  have hfaithful := h _ hallowed
  have hprefix := hfaithful.prefix_given _ (List.prefix_refl _)
  revert hprefix
  decide +kernel

end TcpConnection
