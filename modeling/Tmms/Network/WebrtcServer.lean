import Mathlib.Data.List.Basic
import Tmms.Base.Packet
import Tmms.Library.Pipe

/-!
# The sending side of the WebRTC server

`WebrtcServer::SendPacket`, `OnSend` and `WriteComplete`, and of its `UdpSocket` what they
use: `Send`, `SendInLoop` and `OnWrite`.  `SendPacket` is called from any thread, everything
else runs on the thread of the event loop.  The steps of a run are the pieces of these
functions that nothing else comes between: those that hold `lock_`, and on the thread of the
loop a task from its queue, the test at the start of `OnWrite`, and each call of `sendto`.

The task queued by `UdpSocket::Send` captures the list `udp_outs_` by reference, so of the
queue only the number of tasks is kept.  `A` is the type of addresses.
-/

open Pipe

/-- `UdpBufferNode`: the bytes and the address given to `sendto`. -/
structure UdpBufferNode (A : Type) where
  data : List UInt8
  addr : A
  deriving DecidableEq, Repr

/-- What `sendto` does: it accepts the datagram, or returns -1 with `errno` being `EINTR`,
`EAGAIN` or `EWOULDBLOCK`, or with another error. -/
inductive SendtoOutcome where
  | sent
  | again
  | failed
  deriving DecidableEq, Repr

/-- Where the thread of the event loop is: not in `OnWrite`, in its loop, or before the call
of `write_complete_cb_`. -/
inductive LoopThread where
  | idle
  | onWrite
  | writeComplete
  deriving DecidableEq, Repr

/-- The fields of a `WebrtcServer` and of its socket that sending uses; `writing` is whether
write events are enabled, and `functions` the number of queued tasks. -/
structure WebrtcServer (A : Type) where
  sending : List (Packet (Option A)) := []
  outWaiting : List (Packet (Option A)) := []
  udpOuts : List (UdpBufferNode A) := []
  bSending : Bool := false
  bufferList : List (UdpBufferNode A) := []
  writing : Bool := false
  closed : Bool := false
  functions : Nat := 0
  thread : LoopThread := .idle

namespace WebrtcServer

variable {A : Type}

/-- The node of a packet, when it has an address. -/
def node (p : Packet (Option A)) : Option (UdpBufferNode A) :=
  p.ext.map (UdpBufferNode.mk p.payload)

/-- The nodes of the packets that have an address. -/
def nodes (list : List (Packet (Option A))) : List (UdpBufferNode A) := list.filterMap node

/-- `UdpSocket::SendInLoop(std::list<UdpBufferNodePtr> &)` on `udp_outs_`. -/
def sendInLoop (s : WebrtcServer A) : WebrtcServer A :=
  let list := s.bufferList ++ s.udpOuts
  { s with bufferList := list, writing := s.writing || !list.isEmpty }

/-- `UdpSocket::Send(std::list<UdpBufferNodePtr> &)` on `udp_outs_`: on the thread of the loop
the task runs at once. -/
def socketSend (inLoop : Bool) (s : WebrtcServer A) : WebrtcServer A :=
  if inLoop then s.sendInLoop else { s with functions := s.functions + 1 }

/-- What `SendPacket` and `OnSend` do with their packets when nothing is being sent. -/
def sendList (inLoop : Bool) (s : WebrtcServer A) (list : List (Packet (Option A))) :
    WebrtcServer A :=
  let outs := nodes list
  let s' := { s with udpOuts := outs, sending := s.sending ++ list.filter (·.ext.isSome) }
  if outs = [] then s' else socketSend inLoop { s' with bSending := true }

/-- `SendPacket(std::list<PacketPtr> &)`; `SendPacket(const PacketPtr &)` is the same with the
one packet. -/
def sendPacket (inLoop : Bool) (s : WebrtcServer A) (list : List (Packet (Option A))) :
    WebrtcServer A :=
  if s.bSending then
    { s with outWaiting := s.outWaiting ++ list }
  else
    s.sendList inLoop list

/-- `OnSend`, which is called on the thread of the loop. -/
def onSend (s : WebrtcServer A) : WebrtcServer A :=
  if s.bSending ∨ s.outWaiting = [] then
    s
  else
    { s with outWaiting := [] }.sendList true s.outWaiting

/-- `WriteComplete`. -/
def writeComplete (s : WebrtcServer A) : WebrtcServer A :=
  let s' := { s with bSending := false, sending := [], udpOuts := [] }
  if s'.outWaiting = [] then s' else s'.onSend

/-- What `OnWrite` comes to next: its loop ends with the call of `write_complete_cb_` when
the list is empty. -/
def next (list : List (UdpBufferNode A)) : LoopThread :=
  if list = [] then .writeComplete else .onWrite

/-- One turn of the loop of `OnWrite`, with a call of `sendto`. The number of bytes accepted
is what `sendto` returns, so an empty datagram is not taken off the list. -/
def sendto (s : WebrtcServer A) : SendtoOutcome → WebrtcServer A × List (Obs (UdpBufferNode A))
  | .again => ({ s with thread := .idle }, [])
  | .failed => ({ s with closed := true, thread := .idle }, [])
  | .sent =>
    match s.bufferList with
    | [] => (s, [])
    | n :: rest =>
      if n.data = [] then
        (s, [.passed [n]])
      else
        ({ s with bufferList := rest, thread := next rest }, [.passed [n]])

/-- What happens: a call of `SendPacket` on any thread, a task of the loop, a write event, the
next call of `sendto` of an `OnWrite`, and the call of `WriteComplete` that ends it. -/
inductive Event (A : Type) where
  | sendPacket (inLoop : Bool) (list : List (Packet (Option A)))
  | runFunction
  | onWrite
  | sendto (outcome : SendtoOutcome)
  | writeComplete

/-- One event; one that cannot happen changes nothing. The thread of the loop does one thing
at a time, and write events come when they are enabled. -/
def step (s : WebrtcServer A) : Event A → WebrtcServer A × List (Obs (UdpBufferNode A))
  | .sendPacket inLoop list =>
    if inLoop ∧ s.thread ≠ .idle then
      (s, [])
    else
      (s.sendPacket inLoop list, [.given (nodes list)])
  | .runFunction =>
    if s.thread = .idle ∧ s.functions ≠ 0 then
      ({ s with functions := s.functions - 1 }.sendInLoop, [])
    else
      (s, [])
  | .onWrite =>
    if s.thread = .idle ∧ s.writing ∧ ¬s.closed then
      ({ s with thread := next s.bufferList }, [])
    else
      (s, [])
  | .sendto outcome => if s.thread = .onWrite then s.sendto outcome else (s, [])
  | .writeComplete =>
    if s.thread = .writeComplete then
      let s' := { s with thread := .idle }.writeComplete
      (s', if s'.bSending then [] else [.done])
    else
      (s, [])

/-! ### What a run may do -/

/-- No call of `sendto` fails. -/
def NoFailure (_ : WebrtcServer A) (e : Event A) : Prop := e ≠ .sendto .failed

/-- No packet with an address is empty, no write event comes while a task is queued, and
nothing new is sent between the test of an `OnWrite` with nothing pending and its
`WriteComplete`. -/
def Calm (s : WebrtcServer A) : Event A → Prop
  | .sendPacket _ list =>
    (∀ n ∈ nodes list, n.data ≠ []) ∧
      (s.thread = .writeComplete → s.bSending = false → nodes list = [])
  | .onWrite => s.functions = 0
  | .runFunction => True
  | .sendto _ => True
  | .writeComplete => True

/-- The events that are not calls of `SendPacket`. -/
def OfLoop : Event A → Prop
  | .sendPacket _ _ => False
  | .onWrite => True
  | .runFunction => True
  | .sendto _ => True
  | .writeComplete => True

/-! ### What is pending -/

theorem nodes_append (list list' : List (Packet (Option A))) :
  nodes (list ++ list') = nodes list ++ nodes list'
  := List.filterMap_append

/-- The packets kept while they are sent are those that have nodes. -/
theorem nodes_filter (list : List (Packet (Option A))) :
  nodes (list.filter (·.ext.isSome)) = nodes list
  := by
  induction list with
  | nil => rfl
  | cons p list ih =>
      rw [List.filter_cons]
      rcases hext : p.ext with _ | a
      · simp [nodes, node, hext] at ih ⊢
        apply ih
      · simp [nodes, node, hext] at ih ⊢
        apply ih

theorem filter_of_nodes_nil {list : List (Packet (Option A))} (h : nodes list = []) :
  list.filter (·.ext.isSome) = []
  := by
  rw [List.filter_eq_nil_iff]
  intro p hp hext
  rw [nodes, List.filterMap_eq_nil_iff] at h
  have hnone := h p hp
  rw [node, Option.map_eq_none_iff] at hnone
  rw [hnone] at hext
  cases hext

/-- Where the nodes not yet handed to `sendto` are. In `quiet` there are none, in `queued` a
task is to append `udp_outs_` to the list of the socket, in `buffered` they are on that list,
and in `written` that list was sent and `WriteComplete` is to come. The packets of the nodes
sent next are in `sending_`. -/
inductive Phase (s : WebrtcServer A) (p : List (UdpBufferNode A)) : Prop where
  | quiet (hsend : s.bSending = false) (hwait : s.outWaiting = []) (hfun : s.functions = 0)
      (hbuf : s.bufferList = []) (hthread : s.thread ≠ .onWrite) (halive : s.sending = [])
      (hp : p = [])
  | queued (hsend : s.bSending = true) (hfun : s.functions = 1) (hbuf : s.bufferList = [])
      (houts : s.udpOuts ≠ []) (hthread : s.thread = .idle)
      (halive : s.udpOuts = nodes s.sending) (hp : p = s.udpOuts ++ nodes s.outWaiting)
  | buffered (hsend : s.bSending = true) (hfun : s.functions = 0) (hbuf : s.bufferList ≠ [])
      (hwriting : s.writing = true) (hthread : s.thread ≠ .writeComplete)
      (halive : s.bufferList <:+ nodes s.sending) (hp : p = s.bufferList ++ nodes s.outWaiting)
  | written (hsend : s.bSending = true) (hfun : s.functions = 0) (hbuf : s.bufferList = [])
      (hthread : s.thread = .writeComplete) (hp : p = nodes s.outWaiting)

/-- The nodes pending in a server that is open, none of them empty. -/
structure Pending (s : WebrtcServer A) (p : List (UdpBufferNode A)) : Prop where
  phase : Phase s p
  full : ∀ n ∈ p, n.data ≠ []
  isOpen : s.closed = false

/-- Nothing is pending when nothing is being sent. -/
theorem Phase.eq_nil {s : WebrtcServer A} {p : List (UdpBufferNode A)} (h : Phase s p)
    (hsend : s.bSending = false) :
  p = []
  := by
  cases h with
  | quiet _ _ _ _ _ _ hp => apply hp
  | queued hs => simp [hsend] at hs
  | buffered hs => simp [hsend] at hs
  | written hs => simp [hsend] at hs

/-- What is sent when nothing is pending becomes pending. -/
theorem phase_sendList {s : WebrtcServer A} (inLoop : Bool) (list : List (Packet (Option A)))
    (hsend : s.bSending = false) (hwait : s.outWaiting = []) (hfun : s.functions = 0)
    (hbuf : s.bufferList = []) (halive : s.sending = []) (hthread : s.thread ≠ .onWrite)
    (hnew : s.thread = .writeComplete → nodes list = []) :
  Phase (s.sendList inLoop list) (nodes list)
  := by
  have hkept : nodes (s.sending ++ list.filter (·.ext.isSome)) = nodes list := by
    rw [halive, List.nil_append, nodes_filter]
  have hwaiting : nodes list = nodes list ++ nodes s.outWaiting := by
    rw [hwait, nodes, nodes, List.filterMap_nil, List.append_nil]
  rw [sendList]
  split
  next hnil =>
    refine Phase.quiet hsend hwait hfun hbuf hthread ?_ hnil
    dsimp only
    rw [halive, filter_of_nodes_nil hnil, List.nil_append]
  next hsome =>
    have hidle : s.thread = .idle := by
      rcases ht : s.thread with _ | _ | _
      · rfl
      · exact absurd ht hthread
      · exact absurd (hnew ht) hsome
    rw [socketSend]
    split
    next =>
      apply Phase.buffered
      · rfl
      · apply hfun
      · simp [sendInLoop, hsome]
      · simp [sendInLoop, hsome]
      · simp [sendInLoop, hidle]
      · simp [sendInLoop, hbuf, hkept]
      · simpa [sendInLoop, hbuf] using hwaiting
    next =>
      apply Phase.queued
      · rfl
      · dsimp only
        rw [hfun]
      · apply hbuf
      · apply hsome
      · apply hidle
      · apply hkept.symm
      · apply hwaiting

/-- A server that sends keeps what it is given. -/
theorem Phase.wait {s : WebrtcServer A} {p : List (UdpBufferNode A)} (h : Phase s p)
    (hsend : s.bSending = true) (list : List (Packet (Option A))) :
  Phase { s with outWaiting := s.outWaiting ++ list } (p ++ nodes list)
  := by
  cases h with
  | quiet hs => simp [hsend] at hs
  | queued hs hfun hbuf houts hthread halive hp =>
      refine Phase.queued hs hfun hbuf houts hthread halive ?_
      rw [hp, nodes_append, List.append_assoc]
  | buffered hs hfun hbuf hwriting hthread halive hp =>
      refine Phase.buffered hs hfun hbuf hwriting hthread halive ?_
      rw [hp, nodes_append, List.append_assoc]
  | written hs hfun hbuf hthread hp =>
      refine Phase.written hs hfun hbuf hthread ?_
      rw [hp, nodes_append]

/-- `WriteComplete` sends what was kept. -/
theorem phase_writeComplete {s : WebrtcServer A} (hfun : s.functions = 0)
    (hbuf : s.bufferList = []) (hthread : s.thread = .idle) :
  Phase s.writeComplete (nodes s.outWaiting)
  := by
  rw [writeComplete]
  split
  next hwait =>
    refine Phase.quiet rfl hwait hfun hbuf ?_ rfl ?_
    · simp [hthread]
    · dsimp only at hwait
      rw [hwait]
      rfl
  next hwait =>
    rw [onSend, if_neg (by simpa using hwait)]
    refine phase_sendList true s.outWaiting rfl rfl hfun hbuf rfl ?_ ?_
    · simp [hthread]
    · simp [hthread]

/-! ### One event -/

section Step

variable {s : WebrtcServer A} {p : List (UdpBufferNode A)}

/-- `WriteComplete` closes nothing, queues no task, and leaves the thread where it is. -/
theorem writeComplete_frame (s : WebrtcServer A) :
  s.writeComplete.closed = s.closed ∧ s.writeComplete.functions = s.functions ∧
    s.writeComplete.thread = s.thread
  := by
  rw [writeComplete]
  split
  · exact ⟨rfl, rfl, rfl⟩
  rw [onSend]
  split
  · exact ⟨rfl, rfl, rfl⟩
  rw [sendList]
  split
  · exact ⟨rfl, rfl, rfl⟩
  · exact ⟨rfl, rfl, rfl⟩

theorem sendPacket_closed (inLoop : Bool) (list : List (Packet (Option A))) :
  (s.sendPacket inLoop list).closed = s.closed
  := by
  rw [sendPacket]
  split
  · rfl
  rw [sendList]
  split
  · rfl
  rw [socketSend]
  split
  · rfl
  · rfl

/-- A call of `SendPacket` makes its nodes pending. -/
theorem moves_sendPacket (hp : Pending s p) (inLoop : Bool) (list : List (Packet (Option A)))
    (hcalm : s.Calm (.sendPacket inLoop list)) :
  ∃ q, Moves p (s.step (.sendPacket inLoop list)).2 q ∧
    Pending (s.step (.sendPacket inLoop list)).1 q
  := by
  obtain ⟨hfull, hnew⟩ := hcalm
  rw [step]
  split
  next => exact ⟨p, .nil p, hp⟩
  next =>
    use p ++ nodes list, .given _ (.nil _)
    constructor
    · rw [sendPacket]
      split
      next hsend => apply hp.phase.wait hsend
      next hsend =>
        have hs : s.bSending = false := Bool.not_eq_true _ ▸ hsend
        have hnil := hp.phase.eq_nil hs
        rw [hnil, List.nil_append]
        cases hp.phase with
        | quiet _ hwait hfun hbuf hthread halive _ =>
            apply phase_sendList inLoop list hs hwait hfun hbuf halive hthread
            intro ht
            apply hnew ht hs
        | queued h => exact absurd h hsend
        | buffered h => exact absurd h hsend
        | written h => exact absurd h hsend
    · intro n hn
      rcases List.mem_append.mp hn with hn | hn
      · apply hp.full n hn
      · apply hfull n hn
    · rw [sendPacket_closed]
      apply hp.isOpen

/-- A task of the loop puts the nodes on the list of the socket. -/
theorem pending_runFunction (hp : Pending s p) :
  Moves p (s.step .runFunction).2 p ∧ Pending (s.step .runFunction).1 p
  := by
  rw [step]
  split
  next hrun =>
    use .nil p
    refine ⟨?_, hp.full, hp.isOpen⟩
    cases hp.phase with
    | quiet _ _ hfun => exact absurd hfun hrun.2
    | queued hsend hfun hbuf houts hthread halive hp =>
        refine Phase.buffered hsend ?_ ?_ ?_ ?_ ?_ ?_
        · simp [sendInLoop, hfun]
        · simp [sendInLoop, houts]
        · simp [sendInLoop, houts]
        · simp [sendInLoop, hthread]
        · simp [sendInLoop, hbuf, halive]
        · simp [sendInLoop, hbuf, hp]
    | buffered _ hfun => exact absurd hfun hrun.2
    | written _ hfun => exact absurd hfun hrun.2
  next => exact ⟨.nil p, hp⟩

/-- A write event that comes while no task is queued leaves what is pending. -/
theorem pending_onWrite (hp : Pending s p) (hcalm : s.Calm .onWrite) :
  Moves p (s.step .onWrite).2 p ∧ Pending (s.step .onWrite).1 p
  := by
  rw [step]
  split
  next hrun =>
    use .nil p
    refine ⟨?_, hp.full, hp.isOpen⟩
    cases hp.phase with
    | quiet hsend hwait hfun hbuf hthread halive hp =>
        refine Phase.quiet hsend hwait hfun hbuf ?_ halive hp
        simp [next, hbuf]
    | queued _ hfun =>
        rw [Calm, hfun] at hcalm
        cases hcalm
    | buffered hsend hfun hbuf hwriting hthread halive hp =>
        refine Phase.buffered hsend hfun hbuf hwriting ?_ halive hp
        simp [next, hbuf]
    | written _ _ _ hthread =>
        rw [hthread] at hrun
        cases hrun.1
  next => exact ⟨.nil p, hp⟩

/-- `sendto` is handed the first of the pending nodes. -/
theorem moves_sendto (hp : Pending s p) (outcome : SendtoOutcome)
    (hok : NoFailure s (.sendto outcome)) :
  ∃ q, Moves p (s.step (.sendto outcome)).2 q ∧ Pending (s.step (.sendto outcome)).1 q
  := by
  rw [step]
  split
  next hrun =>
    cases hp.phase with
    | quiet _ _ _ _ hthread => exact absurd hrun hthread
    | queued _ _ _ _ hthread => simp [hrun] at hthread
    | written _ _ _ hthread => simp [hrun] at hthread
    | buffered hsend hfun hbuf hwriting hthread halive hpend =>
        cases outcome with
        | failed => exact absurd rfl hok
        | again =>
            use p, .nil p
            refine ⟨?_, hp.full, hp.isOpen⟩
            refine Phase.buffered hsend hfun hbuf hwriting ?_ halive hpend
            simp [sendto]
        | sent =>
            obtain ⟨n, rest, hlist⟩ := List.exists_cons_of_ne_nil hbuf
            rw [hlist, List.cons_append] at hpend
            have hdata : n.data ≠ [] := by
              apply hp.full
              simp [hpend]
            simp only [sendto, hlist, hdata, if_false]
            use rest ++ nodes s.outWaiting
            constructor
            · rw [hpend]
              apply Moves.passed [n]
              apply Moves.nil
            refine ⟨?_, ?_, hp.isOpen⟩
            · by_cases hrest : rest = []
              · refine Phase.written hsend hfun hrest ?_ ?_
                · simp [next, hrest]
                · simp [hrest]
              · refine Phase.buffered hsend hfun hrest hwriting ?_ ?_ ?_
                · simp [next, hrest]
                · apply List.IsSuffix.trans _ halive
                  rw [hlist]
                  apply List.suffix_cons
                · rfl
            · intro m hm
              apply hp.full
              rw [hpend]
              apply List.mem_cons_of_mem _ hm
  next => exact ⟨p, .nil p, hp⟩

/-- `WriteComplete` leaves what is pending, and says so when that is nothing. -/
theorem moves_writeComplete (hp : Pending s p) :
  Moves p (s.step .writeComplete).2 p ∧ Pending (s.step .writeComplete).1 p
  := by
  rw [step]
  split
  next hrun =>
    have hphase : Phase { s with thread := .idle }.writeComplete p := by
      cases hp.phase with
      | quiet _ hwait hfun hbuf _ _ hp =>
          have hnil : p = nodes s.outWaiting := by
            rw [hp, hwait]
            rfl
          rw [hnil]
          exact phase_writeComplete hfun hbuf rfl
      | queued _ _ _ _ hthread => simp [hrun] at hthread
      | buffered _ _ _ _ hthread => exact absurd hrun hthread
      | written _ hfun hbuf _ hp =>
          rw [hp]
          exact phase_writeComplete hfun hbuf rfl
    constructor
    · dsimp only
      split
      next => apply Moves.nil
      next hsend =>
        rw [hphase.eq_nil (Bool.not_eq_true _ ▸ hsend)]
        apply Moves.done
        apply Moves.nil
    · refine ⟨hphase, hp.full, ?_⟩
      dsimp only
      rw [(writeComplete_frame _).1]
      apply hp.isOpen
  next => exact ⟨.nil p, hp⟩

/-- Every event of a calm run moves the pending nodes. -/
theorem moves_step (e : Event A) (hp : Pending s p) (hok : NoFailure s e) (hcalm : s.Calm e) :
  ∃ q, Moves p (s.step e).2 q ∧ Pending (s.step e).1 q
  := by
  cases e with
  | sendPacket inLoop list => apply moves_sendPacket hp inLoop list hcalm
  | runFunction => exact ⟨p, pending_runFunction hp⟩
  | onWrite => exact ⟨p, pending_onWrite hp hcalm⟩
  | sendto outcome => apply moves_sendto hp outcome hok
  | writeComplete => exact ⟨p, moves_writeComplete hp⟩

end Step

/-! ### Runs -/

/-- What the loop still has to do before a node is handed to `sendto`. -/
def work (s : WebrtcServer A) : Nat :=
  if s.functions ≠ 0 then
    2
  else
    match s.thread with
    | .idle => if s.bufferList = [] then 0 else 1
    | .onWrite => 0
    | .writeComplete => 2

theorem work_le (s : WebrtcServer A) :
  s.work ≤ 2
  := by
  fun_cases work s
  all_goals omega

theorem work_idle {s : WebrtcServer A} (hfun : s.functions = 0) (hidle : s.thread = .idle) :
  s.work ≤ 1
  := by
  rw [work, if_neg (not_not_intro hfun), hidle]
  dsimp only
  split
  · omega
  · omega

/-- While nodes are pending the loop has something to do that brings them nearer to
`sendto`. -/
theorem progress {s : WebrtcServer A} {p : List (UdpBufferNode A)} (hp : Pending s p)
    (hne : p ≠ []) :
  ∃ e, OfLoop e ∧ NoFailure s e ∧ s.Calm e ∧
    (s.step e).1.work < s.work + 4 * (passedOf (s.step e).2).length
  := by
  cases hp.phase with
  | quiet _ _ _ _ _ _ hnil => exact absurd hnil hne
  | queued hsend hfun hbuf houts hthread halive hp =>
      refine ⟨.runFunction, trivial, by rintro ⟨⟩, trivial, ?_⟩
      simp [step, sendInLoop, work, hthread, hfun, houts, passedOf]
  | buffered hsend hfun hbuf hwriting hthread halive hpend =>
      rcases ht : s.thread with _ | _ | _
      · refine ⟨.onWrite, trivial, by rintro ⟨⟩, hfun, ?_⟩
        simp [step, next, work, ht, hfun, hbuf, hwriting, hp.isOpen, passedOf]
      · refine ⟨.sendto .sent, trivial, by rintro ⟨⟩, trivial, ?_⟩
        obtain ⟨n, rest, hlist⟩ := List.exists_cons_of_ne_nil hbuf
        have hdata : n.data ≠ [] := by
          apply hp.full
          simp [hpend, hlist]
        have hle := work_le { s with bufferList := rest, thread := next rest }
        simp only [step, sendto, ht, hlist, hdata, if_true, if_false, passedOf, List.append_nil,
          List.length_singleton]
        omega
      · exact absurd ht hthread
  | written hsend hfun hbuf hthread _ =>
      refine ⟨.writeComplete, trivial, by rintro ⟨⟩, trivial, ?_⟩
      obtain ⟨-, hfunctions, hidle⟩ := writeComplete_frame { s with thread := .idle }
      have hle := work_idle (hfunctions.trans hfun) hidle
      have hwork : s.work = 2 := by
        rw [work, if_neg (not_not_intro hfun), hthread]
      simp only [step, hthread, if_true]
      omega

theorem givenOf_step {s : WebrtcServer A} {e : Event A} (hloop : OfLoop e) :
  givenOf (s.step e).2 = []
  := by
  cases e with
  | sendPacket => cases hloop
  | runFunction =>
      rw [step]
      split
      · rfl
      · rfl
  | onWrite =>
      rw [step]
      split
      · rfl
      · rfl
  | sendto outcome =>
      rw [step]
      split
      · fun_cases sendto s outcome
        all_goals rfl
      · rfl
  | writeComplete =>
      rw [step]
      split
      · dsimp only
        split
        · rfl
        · rfl
      · rfl

/-- The loop can hand all pending nodes to `sendto`, one after another. The induction is on
the nodes and the work. -/
theorem drains {s : WebrtcServer A} {p : List (UdpBufferNode A)} (hp : Pending s p) :
  ∃ es, (∀ e ∈ es, OfLoop e) ∧ AllOk step NoFailure s es ∧ Moves p (history step s es) []
  := by
  induction hn : 4 * p.length + s.work using Nat.strong_induction_on generalizing s p with
  | _ n ih =>
      rcases p with _ | ⟨x, p⟩
      · exact ⟨[], nofun, trivial, .nil []⟩
      obtain ⟨e, hloop, hok, hcalm, hless⟩ := progress hp (List.cons_ne_nil x p)
      obtain ⟨q, hmoves, hq⟩ := moves_step e hp hok hcalm
      have hlen := congrArg List.length hmoves.conserved
      rw [List.length_append, List.length_append, givenOf_step hloop, List.length_nil] at hlen
      obtain ⟨es, hloops, hoks, hrest⟩ := ih (4 * q.length + (s.step e).1.work) (by omega) hq rfl
      refine ⟨e :: es, ?_, ⟨hok, hoks⟩, hmoves.append hrest⟩
      rintro e' (_ | ⟨_, he'⟩)
      · apply hloop
      · apply hloops e' he'

theorem pending_init :
  Pending ({} : WebrtcServer A) []
  := by
  refine ⟨?_, nofun, rfl⟩
  exact Phase.quiet rfl rfl rfl rfl nofun rfl rfl

/-- What is pending at the end of a calm run. -/
theorem pending_run {events : List (Event A)} (hok : AllOk step NoFailure {} events)
    (hcalm : AllOk step Calm {} events) :
  ∃ q, Moves [] (history step {} events) q ∧ Pending (after step {} events) q
  := by
  apply moves_run Pending _ pending_init (hok.and hcalm)
  rintro s e p hp ⟨hok, hcalm⟩
  apply moves_step e hp hok hcalm

/-- A run hands the nodes given to `SendPacket` to `sendto` once and in order: at every moment
those handed over are the beginning of those given, they are all of them when the loop has
nothing left to do, and what is left is handed over by what the loop does next. -/
structure Delivers (events : List (Event A)) : Prop where
  faithful : Faithful (history step {} events)
  at_rest : (after step {} events).functions = 0 → (after step {} events).bufferList = [] →
    (after step {} events).thread = .idle →
    passedOf (history step {} events) = givenOf (history step {} events)
  drains : ∃ rest, (∀ e ∈ rest, OfLoop e) ∧ AllOk step NoFailure (after step {} events) rest ∧
    passedOf (history step {} (events ++ rest)) = givenOf (history step {} (events ++ rest))

/-- Every calm run in which no `sendto` fails delivers. -/
theorem delivers_of_calm {events : List (Event A)} (hok : AllOk step NoFailure {} events)
    (hcalm : AllOk step Calm {} events) :
  Delivers events
  := by
  obtain ⟨q, hmoves, hq⟩ := pending_run hok hcalm
  constructor
  · apply hmoves.faithful
  · intro hfun hbuf hidle
    have hall := hmoves.conserved
    cases hq.phase with
    | quiet _ _ _ _ _ _ hnil =>
        rw [hnil, List.nil_append, List.append_nil] at hall
        apply hall.symm
    | queued _ h => simp [hfun] at h
    | buffered _ _ h => exact absurd hbuf h
    | written _ _ _ h => simp [hidle] at h
  · obtain ⟨rest, hloop, hokrest, hdrain⟩ := drains hq
    refine ⟨rest, hloop, hokrest, ?_⟩
    rw [history_append]
    have hall := (hmoves.append hdrain).conserved
    rw [List.nil_append, List.append_nil] at hall
    apply hall.symm

/-- A packet of one byte for the address 7. -/
def onePacket (byte : UInt8) : Packet (Option Nat) :=
  (Packet.newPacket 1 (some 7)).append [byte]

/-- A packet given while another is sent, and a write event with nothing pending. -/
theorem delivers_whileSending :
  Delivers [.sendPacket false [onePacket 1], .runFunction, .onWrite, .sendto .again,
    .sendPacket false [onePacket 2], .onWrite, .sendto .sent, .writeComplete, .onWrite,
    .sendto .sent, .writeComplete, .onWrite, .writeComplete]
  := by
  apply delivers_of_calm
  · simp [AllOk, NoFailure]
  · simp [AllOk, Calm, step, sendPacket, sendList, socketSend, nodes, node, onePacket,
      Packet.append, Packet.newPacket, Packet.payload, sendInLoop, next, sendto, writeComplete,
      onSend]

/-- A write event with nothing pending that comes while a task is queued: its `WriteComplete`
clears the list the task was to append, and the second packet is lost. -/
theorem not_delivers_spuriousWrite :
  AllOk step NoFailure {} [.sendPacket false [onePacket 1], .runFunction, .onWrite,
      .sendto .sent, .writeComplete, .sendPacket false [onePacket 2], .onWrite, .writeComplete,
      .runFunction] ∧
    ¬Delivers [.sendPacket false [onePacket 1], .runFunction, .onWrite, .sendto .sent,
      .writeComplete, .sendPacket false [onePacket 2], .onWrite, .writeComplete, .runFunction]
  := by
  constructor
  · simp [AllOk, NoFailure]
  · intro h
    have hlost := h.at_rest rfl rfl rfl
    revert hlost
    decide

end WebrtcServer
