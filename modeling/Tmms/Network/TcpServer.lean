import Tmms.Network.EventPoll

/-!
# The connections of a server

`TcpServer`, its `Acceptor` and what they use of `TcpConnection`, on one loop: connections are
accepted until the kernel has no more, are read from until it has no more, and are closed by what
`read` or `write` return, by an error that `epoll` reports, by a timeout, or by `ForceClose` from
a handler or a task.  Events come by their descriptors, and `EventLoop::Loop` looks for the event
that has the descriptor when its turn comes.

`Loop` has only a reference to what stands in `events_`, and `OnClose` calls `Event::Close` behind
the callback that takes the connection out of `events_` and `connections_`.  So a run ends, in
memory that is no longer there, when a connection is to be written to in the same turn in which its
`OnRead` closed it, and when nobody outside has a connection that is closed.  A task or a timer that
closes a connection is taken to find the object.
-/

open Runs

/-- What `accept4` does: it gives a descriptor, for which `OnAccet` makes the connection `e`; it
has no more; or it fails, and the socket that `Open` makes then has the descriptor `socket`. -/
inductive AcceptOutcome where
  | accepted (e : Nat) (fd : Int)
  | again
  | failed (socket : Int)
  deriving DecidableEq, Repr

/-- What `ReadFd` does: it brings bytes, and the message callback closes some connections of the
loop; the peer is at its end; there is no more now; or it fails. -/
inductive ReadOutcome where
  | data (bytes : List UInt8) (closes : List Nat)
  | eof
  | again
  | failed
  deriving DecidableEq, Repr

/-- What a `read` gives leaves its connection open. -/
def ReadOutcome.Keeps (e : Nat) : ReadOutcome → Prop
  | .data _ closes => e ∉ closes
  | .eof => False
  | .again => True
  | .failed => False

/-- The callbacks of a server. -/
inductive ServerCall where
  | newConnection (e : Nat)
  | message (e : Nat) (bytes : List UInt8)
  | destroyed (e : Nat)
  deriving DecidableEq, Repr

/-- The connection a callback is about. -/
def ServerCall.connection : ServerCall → Nat
  | .newConnection e => e
  | .message e _ => e
  | .destroyed e => e

/-- The server: the loop, the address of the acceptor, `connections_`, the `closed_` of the
connections, and the callbacks made so far. -/
structure TcpServer where
  poll : EventPoll
  acceptor : Nat
  connections : List Nat := []
  closed : Nat → Bool := fun _ => false
  calls : List ServerCall := []

namespace TcpServer

/-- A callback is made. -/
def callBack (s : TcpServer) (c : ServerCall) : TcpServer := { s with calls := s.calls ++ [c] }

/-- The callbacks about a connection. -/
def callsOf (s : TcpServer) (e : Nat) : List ServerCall :=
  s.calls.filter fun c => c.connection = e

/-- The connection is there, and is not `closed_`. -/
def isAlive (s : TcpServer) (e : Nat) : Bool := s.connections.contains e && !s.closed e

/-- `OnAccet`, for a new connection and a descriptor that the kernel gives. -/
def onAccet (s : TcpServer) (e : Nat) (fd : Int) : TcpServer :=
  if e ≠ s.acceptor ∧ s.callsOf e = [] ∧ s.poll.Gives fd then
    { s with connections := s.connections ++ [e], poll := s.poll.opened e fd }.callBack
      (.newConnection e)
  else
    s

section

/-! Whether someone outside has a connection when it is closed, and as long as it is called. -/
variable (held : Nat → Bool)

/-- `TcpConnection::OnClose`, which calls `OnConnectionClose`. -/
def onClose (s : TcpServer) (e : Nat) : Option TcpServer :=
  if s.isAlive e then
    if held e then
      some ({ s with
        closed := Function.update s.closed e true
        connections := s.connections.erase e
        poll := s.poll.leave e }.callBack (.destroyed e))
    else
      none
  else
    some s

/-- Connections are closed one after the other. -/
def onCloses (s : TcpServer) : List Nat → Option TcpServer
  | [] => some s
  | e :: es => (s.onClose held e).bind fun s => s.onCloses es

/-- `Acceptor::OnClose`: `Stop`, and `Open` with a new socket. -/
def reopen (s : TcpServer) (fd : Int) : TcpServer :=
  { s with poll := (s.poll.delEvent s.acceptor).reopened s.acceptor fd }

/-- `Acceptor::OnRead`. -/
def onAccept (s : TcpServer) : List AcceptOutcome → TcpServer
  | [] => s
  | .accepted e fd :: outcomes => (s.onAccet e fd).onAccept outcomes
  | .again :: _ => s
  | .failed socket :: _ => s.reopen socket

/-- The loop of `TcpConnection::OnRead`.  A connection that a handler closed has no descriptor
any more, so that its next `read` fails. -/
def onReadLoop (s : TcpServer) (e : Nat) : List ReadOutcome → Option TcpServer
  | [] => some s
  | .data bytes closes :: outcomes =>
      ((s.callBack (.message e bytes)).onCloses held closes).bind fun s =>
        if s.isAlive e then s.onReadLoop e outcomes else some s
  | .eof :: _ => s.onClose held e
  | .again :: _ => some s
  | .failed :: _ => s.onClose held e

/-- `TcpConnection::OnRead`. -/
def onRead (s : TcpServer) (e : Nat) (outcomes : List ReadOutcome) : Option TcpServer :=
  if s.isAlive e then s.onReadLoop held e outcomes else some s

/-- `TcpConnection::OnWrite`, of which a `writev` that fails closes the connection. -/
def onWrite (s : TcpServer) (e : Nat) (fails : Bool) : Option TcpServer :=
  if fails then s.onClose held e else some s

end

end TcpServer

/-- What `epoll_wait` reports of a descriptor, with what the calls of the handlers give then:
`socket` in `Open`, `accept4`, `read` and `writev`. -/
structure Ready where
  fd : Int
  err : Bool := false
  hup : Bool := false
  inPri : Bool := false
  out : Bool := false
  socket : Int := 0
  accepts : List AcceptOutcome := []
  reads : List ReadOutcome := []
  writeFails : Bool := false
  deriving DecidableEq, Repr

/-- What happens on the loop of a server: `epoll_wait` reports a descriptor, a connection is
closed by a timeout or by `ForceClose`, or its write events are set.  An acceptor asks for none. -/
inductive ServerEvent where
  | ready (r : Ready)
  | close (e : Nat)
  | enableWriting (e : Nat) (on : Bool)
  deriving DecidableEq, Repr

namespace TcpServer

section

variable (held : Nat → Bool)

/-- A connection that can be read from, or written to.  `OnWrite` is called through what stands in
`events_`. -/
def readAndWrite (s : TcpServer) (e : Nat) (r : Ready) : Option TcpServer :=
  if r.inPri then
    if r.out then
      (s.onRead held e r.reads).bind fun t =>
        if t.poll.events r.fd = some e then t.onWrite held e r.writeFails else none
    else
      s.onRead held e r.reads
  else
    if r.out then s.onWrite held e r.writeFails else some s

/-- What `Loop` does with a descriptor that was reported. -/
def dispatch (s : TcpServer) (r : Ready) : Option TcpServer :=
  if r.fd ≤ 0 then
    some s
  else
    match s.poll.events r.fd with
    | none => some s
    | some e =>
        if e = s.acceptor then
          if r.err || (r.hup && !r.inPri) then some (s.reopen r.socket)
          else if r.inPri then some (s.onAccept r.accepts)
          else some s
        else if r.err || (r.hup && !r.inPri) then s.onClose held e
        else s.readAndWrite held e r

/-- One of these. -/
def step (s : Option TcpServer) (event : ServerEvent) : Option TcpServer :=
  s.bind fun s =>
    match event with
    | .ready r => s.dispatch held r
    | .close e => s.onClose held e
    | .enableWriting e on =>
        if e = s.acceptor then some s
        else some { s with poll := (s.poll.enableEventWriting e on).1 }

end

/-- A server whose acceptor has opened its socket. -/
def start (acceptor : Nat) (fd : Int) : TcpServer :=
  { poll := EventPoll.opened {} acceptor fd, acceptor }

/-- No connection is reported to be written to in the turn in which its `OnRead` closes it. -/
def Quiet (s : TcpServer) : ServerEvent → Prop
  | .ready r =>
      r.inPri = true → r.out = true → ∀ e ∈ s.poll.events r.fd, ∀ o ∈ r.reads, o.Keeps e
  | .close _ => True
  | .enableWriting _ _ => True

/-! ### The life of a connection -/

/-- Callbacks that are messages. -/
def Messages (cs : List ServerCall) : Prop :=
  ∀ c ∈ cs, ∃ e bytes, c = .message e bytes

/-- A connection before it was accepted, while the loop has it, and behind its end. -/
inductive Lives (s : TcpServer) (e : Nat) : Prop where
  | unborn (calls : s.callsOf e = []) (connections : s.connections.count e = 0)
      (closed : s.closed e = false) (fd : ¬0 < (s.poll.object e).fd)
  | alive (messages : List ServerCall) (calls : s.callsOf e = .newConnection e :: messages)
      (onlyMessages : Messages messages) (connections : s.connections.count e = 1)
      (closed : s.closed e = false) (has : s.poll.Has e)
  | destroyed (messages : List ServerCall)
      (calls : s.callsOf e = .newConnection e :: (messages ++ [.destroyed e]))
      (onlyMessages : Messages messages) (connections : s.connections.count e = 0)
      (closed : s.closed e = true) (fd : ¬0 < (s.poll.object e).fd)

/-- The loop is in step with the kernel, and every connection lives as it should. -/
structure Sound (s : TcpServer) : Prop where
  inStep : s.poll.InStep
  lives : ∀ e, e ≠ s.acceptor → s.Lives e
  acceptor : s.connections.count s.acceptor = 0

/-- Nothing has changed for a connection. -/
structure SameFor (s s' : TcpServer) (e : Nat) : Prop where
  calls : s'.callsOf e = s.callsOf e
  connections : s'.connections.count e = s.connections.count e
  closed : s'.closed e = s.closed e
  poll : s.poll.SameFor s'.poll e

variable {held : Nat → Bool} {s s' : TcpServer} {e e' : Nat}

theorem Lives.of_same (h : s.Lives e) (hsame : SameFor s s' e) :
  s'.Lives e
  := by
  cases h with
  | unborn calls connections closed fd =>
      apply Lives.unborn (hsame.calls.trans calls) (hsame.connections.trans connections)
        (hsame.closed.trans closed)
      rw [hsame.poll.fd]
      exact fd
  | alive messages calls onlyMessages connections closed has =>
      exact .alive messages (hsame.calls.trans calls) onlyMessages
        (hsame.connections.trans connections) (hsame.closed.trans closed) (hsame.poll.has.mpr has)
  | destroyed messages calls onlyMessages connections closed fd =>
      apply Lives.destroyed messages (hsame.calls.trans calls) onlyMessages
        (hsame.connections.trans connections) (hsame.closed.trans closed)
      rw [hsame.poll.fd]
      exact fd

/-- Something happens to one connection only. -/
theorem Sound.of_one (h : s.Sound) (hinStep : s'.poll.InStep) (hacceptor : s'.acceptor = s.acceptor)
    (hcount : s'.connections.count s.acceptor = 0) (he : s'.Lives e)
    (hothers : ∀ e', e' ≠ e → e' ≠ s.acceptor → SameFor s s' e') :
  s'.Sound
  := by
  constructor
  · exact hinStep
  · intro e' hne
    rw [hacceptor] at hne
    by_cases hsame : e' = e
    · subst hsame
      exact he
    · exact (h.lives e' hne).of_same (hothers e' hsame hne)
  · rw [hacceptor]
    exact hcount

theorem callsOf_callBack (c : ServerCall) :
  (s.callBack c).callsOf e = s.callsOf e ++ if c.connection = e then [c] else []
  := by
  rw [callsOf, callBack, List.filter_append, ← callsOf]
  congr 1
  by_cases hc : c.connection = e
  · simp only [List.filter_cons, hc, decide_true, if_true, List.filter_nil]
  · simp only [List.filter_cons, hc, decide_false, Bool.false_eq_true, if_false, List.filter_nil]

/-- A connection that is there and is not closed is alive. -/
theorem Sound.alive (h : s.Sound) (halive : s.isAlive e = true) :
  e ≠ s.acceptor ∧ s.closed e = false ∧ s.poll.Has e ∧ s.connections.count e = 1 ∧
    ∃ messages, s.callsOf e = .newConnection e :: messages ∧ Messages messages
  := by
  rw [isAlive, Bool.and_eq_true, List.contains_iff_mem] at halive
  have hmem := List.count_pos_iff.mpr halive.1
  have hne : e ≠ s.acceptor
    := by
    rintro rfl
    rw [h.acceptor] at hmem
    exact absurd hmem (Nat.lt_irrefl 0)
  refine ⟨hne, ?_⟩
  cases h.lives e hne with
  | unborn calls connections closed fd =>
      rw [connections] at hmem
      exact absurd hmem (Nat.lt_irrefl 0)
  | alive messages calls onlyMessages connections closed has =>
      exact ⟨closed, has, connections, messages, calls, onlyMessages⟩
  | destroyed messages calls onlyMessages connections closed fd =>
      rw [connections] at hmem
      exact absurd hmem (Nat.lt_irrefl 0)

/-- A connection that is closed is behind its end, and the others notice nothing. -/
theorem Sound.onClose (h : s.Sound) (hclose : s.onClose held e = some s') :
  s'.Sound ∧ ∀ e', e' ≠ e → s.poll.SameFor s'.poll e'
  := by
  rw [TcpServer.onClose] at hclose
  split at hclose
  · next halive =>
      split at hclose
      · obtain rfl := Option.some.inj hclose
        obtain ⟨hne, hclosed, hhas, hcount, messages, hcalls, hmessages⟩ := h.alive halive
        refine ⟨h.of_one (e := e) (h.inStep.leave e) rfl ?_ ?_ ?_,
          fun e' he' => h.inStep.leave_sameFor he'⟩
        · change (s.connections.erase e).count s.acceptor = 0
          rw [List.count_erase_of_ne (Ne.symm hne)]
          exact h.acceptor
        · apply Lives.destroyed messages
          · rw [callsOf_callBack]
            simp only [ServerCall.connection, if_true]
            change s.callsOf e ++ _ = _
            rw [hcalls, List.cons_append]
          · exact hmessages
          · change (s.connections.erase e).count e = 0
            rw [List.count_erase_self, hcount]
          · change Function.update s.closed e true e = true
            rw [Function.update_self]
          · exact EventPoll.fd_leave s.poll e
        · intro e' he' _
          constructor
          · rw [callsOf_callBack]
            simp only [ServerCall.connection, Ne.symm he', if_false, List.append_nil]
            rfl
          · change (s.connections.erase e).count e' = _
            rw [List.count_erase_of_ne he']
          · change Function.update s.closed e true e' = _
            rw [Function.update_of_ne he']
          · exact h.inStep.leave_sameFor he'
      · cases hclose
  · obtain rfl := Option.some.inj hclose
    exact ⟨h, fun e' _ => .refl s.poll e'⟩

theorem Sound.onCloses (h : s.Sound) {es : List Nat} (hcloses : s.onCloses held es = some s') :
  s'.Sound ∧ ∀ e', e' ∉ es → s.poll.SameFor s'.poll e'
  := by
  induction es generalizing s with
  | nil =>
      obtain rfl := Option.some.inj hcloses
      exact ⟨h, fun e' _ => .refl s.poll e'⟩
  | cons e es ih =>
      obtain ⟨t, ht, hrest⟩ := Option.bind_eq_some_iff.mp hcloses
      obtain ⟨hsound, hsame⟩ := h.onClose ht
      obtain ⟨hsound', hsame'⟩ := ih hsound hrest
      refine ⟨hsound', fun e' he' => ?_⟩
      rw [List.mem_cons, not_or] at he'
      exact (hsame e' he'.1).trans (hsame' e' he'.2)

theorem Sound.onAccet (h : s.Sound) (e : Nat) (fd : Int) :
  (s.onAccet e fd).Sound
  := by
  rw [TcpServer.onAccet]
  by_cases hallowed : e ≠ s.acceptor ∧ s.callsOf e = [] ∧ s.poll.Gives fd
  · rw [if_pos hallowed]
    obtain ⟨hne, hcalls, hfd⟩ := hallowed
    obtain ⟨hcount, hclosed, hunopened⟩ : s.connections.count e = 0 ∧ s.closed e = false ∧
        ¬0 < (s.poll.object e).fd
      := by
      cases h.lives e hne with
      | unborn calls connections closed fd => exact ⟨connections, closed, fd⟩
      | alive messages calls onlyMessages connections closed has =>
          rw [hcalls] at calls
          cases calls
      | destroyed messages calls onlyMessages connections closed fd =>
          rw [hcalls] at calls
          cases calls
    have hhas : ¬s.poll.Has e := fun hhas => hunopened (h.inStep.fd_pos hhas)
    refine h.of_one (e := e) (h.inStep.opened hhas hfd) rfl ?_ ?_ ?_
    · change (s.connections ++ [e]).count s.acceptor = 0
      rw [List.count_append, h.acceptor, List.count_eq_zero_of_not_mem]
      rw [List.mem_singleton]
      exact Ne.symm hne
    · apply Lives.alive []
      · rw [callsOf_callBack]
        simp only [ServerCall.connection, if_true]
        change s.callsOf e ++ _ = _
        rw [hcalls, List.nil_append]
      · apply List.forall_mem_nil
      · change (s.connections ++ [e]).count e = 1
        rw [List.count_append, hcount, List.count_singleton_self]
      · exact hclosed
      · exact h.inStep.has_opened e hfd
    · intro e' he' _
      constructor
      · rw [callsOf_callBack]
        simp only [ServerCall.connection, Ne.symm he', if_false, List.append_nil]
        rfl
      · change (s.connections ++ [e]).count e' = _
        rw [List.count_append, List.count_eq_zero_of_not_mem (l := [e]), Nat.add_zero]
        rw [List.mem_singleton]
        exact he'
      · rfl
      · exact h.inStep.opened_sameFor hfd he'
  · rw [if_neg hallowed]
    exact h

/-- The acceptor gets a new socket, and no connection notices. -/
theorem Sound.reopen (h : s.Sound) (fd : Int) :
  (s.reopen fd).Sound
  := by
  have hstopped := h.inStep.delEvent s.acceptor
  have hhas := h.inStep.not_has_delEvent s.acceptor
  constructor
  · exact hstopped.reopened hhas fd
  · intro e he
    apply (h.lives e he).of_same
    exact ⟨rfl, rfl, rfl,
      (h.inStep.delEvent_sameFor he).trans (hstopped.reopened_sameFor hhas fd he)⟩
  · exact h.acceptor

theorem Sound.onAccept (h : s.Sound) (outcomes : List AcceptOutcome) :
  (s.onAccept outcomes).Sound
  := by
  induction outcomes generalizing s with
  | nil => exact h
  | cons outcome outcomes ih =>
      cases outcome with
      | accepted e fd => exact ih (h.onAccet e fd)
      | again => exact h
      | failed socket => exact h.reopen socket

theorem Sound.message (h : s.Sound) (halive : s.isAlive e = true) (bytes : List UInt8) :
  (s.callBack (.message e bytes)).Sound
  := by
  obtain ⟨hne, hclosed, hhas, hcount, messages, hcalls, hmessages⟩ := h.alive halive
  refine h.of_one (e := e) h.inStep rfl h.acceptor ?_ ?_
  · apply Lives.alive (messages ++ [.message e bytes])
    · rw [callsOf_callBack, hcalls]
      simp only [ServerCall.connection, if_true, List.cons_append]
    · intro c hc
      rcases List.mem_append.mp hc with hold | hnew
      · exact hmessages c hold
      · exact ⟨e, bytes, List.mem_singleton.mp hnew⟩
    · exact hcount
    · exact hclosed
    · exact hhas
  · intro e' he' _
    refine ⟨?_, rfl, rfl, .refl s.poll e'⟩
    rw [callsOf_callBack]
    simp only [ServerCall.connection, Ne.symm he', if_false, List.append_nil]

/-- `OnRead` only goes on while the connection is alive. -/
theorem Sound.onReadLoop (h : s.Sound) (halive : s.isAlive e = true)
    {outcomes : List ReadOutcome} (hread : s.onReadLoop held e outcomes = some s') :
  s'.Sound ∧ ((∀ o ∈ outcomes, o.Keeps e) → s.poll.SameFor s'.poll e)
  := by
  induction outcomes generalizing s with
  | nil =>
      obtain rfl := Option.some.inj hread
      exact ⟨h, fun _ => .refl s.poll e⟩
  | cons outcome outcomes ih =>
      cases outcome with
      | data bytes closes =>
          obtain ⟨t, ht, hrest⟩ := Option.bind_eq_some_iff.mp hread
          obtain ⟨hsound, hsame⟩ := (h.message halive bytes).onCloses ht
          split at hrest
          · next hstill =>
              obtain ⟨hsound', hsame'⟩ := ih hsound hstill hrest
              refine ⟨hsound', fun hkeeps => ?_⟩
              obtain ⟨hkeep, hkeeps⟩ := List.forall_mem_cons.mp hkeeps
              exact (hsame e hkeep).trans (hsame' hkeeps)
          · obtain rfl := Option.some.inj hrest
            exact ⟨hsound, fun hkeeps => hsame e (hkeeps _ List.mem_cons_self)⟩
      | eof => exact ⟨(h.onClose hread).1, fun hkeeps => (hkeeps _ List.mem_cons_self).elim⟩
      | again =>
          obtain rfl := Option.some.inj hread
          exact ⟨h, fun _ => .refl s.poll e⟩
      | failed => exact ⟨(h.onClose hread).1, fun hkeeps => (hkeeps _ List.mem_cons_self).elim⟩

theorem Sound.onRead (h : s.Sound) {outcomes : List ReadOutcome}
    (hread : s.onRead held e outcomes = some s') :
  s'.Sound ∧ ((∀ o ∈ outcomes, o.Keeps e) → s.poll.SameFor s'.poll e)
  := by
  rw [TcpServer.onRead] at hread
  split at hread
  · next halive => exact h.onReadLoop halive hread
  · obtain rfl := Option.some.inj hread
    exact ⟨h, fun _ => .refl s.poll e⟩

theorem Sound.onWrite (h : s.Sound) {fails : Bool} (hwrite : s.onWrite held e fails = some s') :
  s'.Sound
  := by
  rw [TcpServer.onWrite] at hwrite
  split at hwrite
  · exact (h.onClose hwrite).1
  · obtain rfl := Option.some.inj hwrite
    exact h

theorem Sound.readAndWrite (h : s.Sound) {r : Ready} (hready : s.readAndWrite held e r = some s') :
  s'.Sound
  := by
  rw [TcpServer.readAndWrite] at hready
  split at hready
  · split at hready
    · obtain ⟨t, ht, hwrite⟩ := Option.bind_eq_some_iff.mp hready
      split at hwrite
      · exact (h.onRead ht).1.onWrite hwrite
      · cases hwrite
    · exact (h.onRead hready).1
  · split at hready
    · exact h.onWrite hready
    · obtain rfl := Option.some.inj hready
      exact h

theorem Sound.dispatch (h : s.Sound) {r : Ready} (hready : s.dispatch held r = some s') :
  s'.Sound
  := by
  rw [TcpServer.dispatch] at hready
  split at hready
  · obtain rfl := Option.some.inj hready
    exact h
  · split at hready
    · obtain rfl := Option.some.inj hready
      exact h
    · split at hready
      · split at hready
        · obtain rfl := Option.some.inj hready
          exact h.reopen r.socket
        · split at hready
          · obtain rfl := Option.some.inj hready
            exact h.onAccept r.accepts
          · obtain rfl := Option.some.inj hready
            exact h
      · split at hready
        · exact (h.onClose hready).1
        · exact h.readAndWrite hready

theorem Sound.enableWriting (h : s.Sound) (e : Nat) (on : Bool) :
  TcpServer.Sound { s with poll := (s.poll.enableEventWriting e on).1 }
  := by
  constructor
  · apply h.inStep.enable
  · intro e' he'
    apply (h.lives e' he').of_same
    exact ⟨rfl, rfl, rfl, EventPoll.enable_sameFor kEventWrite e on e'⟩
  · exact h.acceptor

theorem Sound.step (h : s.Sound) {event : ServerEvent}
    (hstep : TcpServer.step held (some s) event = some s') :
  s'.Sound
  := by
  rw [TcpServer.step, Option.bind_some] at hstep
  cases event with
  | ready r => exact h.dispatch hstep
  | close e => exact (h.onClose hstep).1
  | enableWriting e on =>
      dsimp only at hstep
      split at hstep
      · obtain rfl := Option.some.inj hstep
        exact h
      · obtain rfl := Option.some.inj hstep
        exact h.enableWriting e on

/-! ### Runs that go on -/

section

variable (hheld : ∀ e, held e = true)

include hheld

theorem exists_onClose (s : TcpServer) (e : Nat) :
  ∃ t, s.onClose held e = some t
  := by
  rw [TcpServer.onClose, hheld e, if_pos rfl]
  split <;> exact ⟨_, rfl⟩

theorem exists_onCloses (s : TcpServer) (es : List Nat) :
  ∃ t, s.onCloses held es = some t
  := by
  induction es generalizing s with
  | nil => exact ⟨s, rfl⟩
  | cons e es ih =>
      obtain ⟨t, ht⟩ := exists_onClose hheld s e
      obtain ⟨t', ht'⟩ := ih t
      exact ⟨t', by rw [TcpServer.onCloses, ht, Option.bind_some, ht']⟩

theorem exists_onReadLoop (s : TcpServer) (e : Nat) (outcomes : List ReadOutcome) :
  ∃ t, s.onReadLoop held e outcomes = some t
  := by
  induction outcomes generalizing s with
  | nil => exact ⟨s, rfl⟩
  | cons outcome outcomes ih =>
      cases outcome with
      | data bytes closes =>
          obtain ⟨t, ht⟩ := exists_onCloses hheld (s.callBack (.message e bytes)) closes
          rw [TcpServer.onReadLoop, ht, Option.bind_some]
          split
          · apply ih
          · exact ⟨t, rfl⟩
      | eof => exact exists_onClose hheld s e
      | again => exact ⟨s, rfl⟩
      | failed => exact exists_onClose hheld s e

theorem exists_onRead (s : TcpServer) (e : Nat) (outcomes : List ReadOutcome) :
  ∃ t, s.onRead held e outcomes = some t
  := by
  rw [TcpServer.onRead]
  split
  · exact exists_onReadLoop hheld s e outcomes
  · exact ⟨s, rfl⟩

theorem exists_onWrite (s : TcpServer) (e : Nat) (fails : Bool) :
  ∃ t, s.onWrite held e fails = some t
  := by
  rw [TcpServer.onWrite]
  split
  · exact exists_onClose hheld s e
  · exact ⟨s, rfl⟩

/-- A connection that `OnRead` does not close still stands in `events_`. -/
theorem Sound.exists_readAndWrite (h : s.Sound) {r : Ready} (hevents : s.poll.events r.fd = some e)
    (hquiet : r.inPri = true → r.out = true → ∀ o ∈ r.reads, o.Keeps e) :
  ∃ t, s.readAndWrite held e r = some t
  := by
  rw [TcpServer.readAndWrite]
  split
  · next hin =>
      obtain ⟨t, ht⟩ := exists_onRead hheld s e r.reads
      split
      · next hout =>
          have hsame := (h.onRead ht).2 (hquiet hin hout)
          obtain ⟨-, hfd⟩ := h.inStep.owner r.fd e hevents
          have hstill : t.poll.events r.fd = some e
            := by
            rw [← hfd, ← hsame.fd]
            apply hsame.has.mpr
            rw [EventPoll.Has, hfd]
            exact hevents
          rw [ht, Option.bind_some, if_pos hstill]
          exact exists_onWrite hheld t e r.writeFails
      · exact ⟨t, ht⟩
  · split
    · exact exists_onWrite hheld s e r.writeFails
    · exact ⟨s, rfl⟩

theorem Sound.exists_step (h : s.Sound) {event : ServerEvent} (hquiet : s.Quiet event) :
  ∃ t, TcpServer.step held (some s) event = some t
  := by
  rw [TcpServer.step, Option.bind_some]
  cases event with
  | ready r =>
      dsimp only
      rw [TcpServer.dispatch]
      split
      · exact ⟨s, rfl⟩
      · split
        · exact ⟨s, rfl⟩
        · next e hevents =>
            split
            · split
              · exact ⟨_, rfl⟩
              · split <;> exact ⟨_, rfl⟩
            · split
              · exact exists_onClose hheld s e
              · apply h.exists_readAndWrite hheld hevents
                intro hin hout
                exact hquiet hin hout e hevents
  | close e => exact exists_onClose hheld s e
  | enableWriting e on =>
      dsimp only
      split <;> exact ⟨_, rfl⟩

end

theorem sound_start (acceptor : Nat) (fd : Int) :
  (start acceptor fd).Sound
  := by
  have hempty : ∀ e, ¬0 < (({} : EventPoll).object e).fd
    := by
    intro e
    change ¬(0 : Int) < -1
    decide
  have hhas : ∀ e, ¬({} : EventPoll).Has e := fun e h => by cases h
  rw [start, EventPoll.opened]
  split
  · next hfd =>
      have hopened := EventPoll.inStep_empty.opened (hhas acceptor) hfd
      have hsame := fun e (he : e ≠ acceptor) => EventPoll.inStep_empty.opened_sameFor hfd he
      rw [EventPoll.opened, if_pos hfd] at hopened hsame
      refine ⟨hopened, fun e he => ?_, rfl⟩
      apply Lives.unborn rfl rfl rfl
      rw [(hsame e he).fd]
      exact hempty e
  · exact ⟨EventPoll.inStep_empty, fun e _ => .unborn rfl rfl rfl (hempty e), rfl⟩

/-- In every state a server reaches, the loop and the kernel are in step, and every connection
has been announced once, then had its messages, and behind its end was reported destroyed once and
nothing else; it is in `connections_`, and the loop has it, from the one to the other.  And a run
goes on for ever when connections that are closed are held by someone, and none is to be written to
in the turn in which its `OnRead` closes it. -/
theorem connections_live_once (held : Nat → Bool) (acceptor : Nat) (fd : Int)
    (events : List ServerEvent) :
  Throughout (step held) (fun s => ∀ t ∈ s, t.Sound) (some (start acceptor fd)) events ∧
    ((∀ e, held e = true) →
      Steps (step held) (fun s event => ∀ t ∈ s, t.Quiet event) (some (start acceptor fd)) events →
        Throughout (step held) (fun s => ∃ t, s = some t ∧ t.Sound) (some (start acceptor fd))
          events)
  := by
  constructor
  · apply steps_true.throughout
    · rintro t ⟨⟩
      exact sound_start acceptor fd
    · rintro s event h - t ht
      obtain ⟨s', rfl, -⟩ := Option.bind_eq_some_iff.mp ht
      exact (h s' rfl).step ht
  · intro hheld hquiet
    apply hquiet.throughout ⟨_, rfl, sound_start acceptor fd⟩
    rintro _ event ⟨s, rfl, h⟩ hevent
    obtain ⟨t, ht⟩ := h.exists_step hheld (hevent s rfl)
    exact ⟨t, ht, h.step ht⟩

end TcpServer
