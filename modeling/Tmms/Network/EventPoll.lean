import Mathlib.Data.List.Basic
import Mathlib.Logic.Function.Basic
import Tmms.Library.Runs

/-!
# The events of a loop and those of the kernel

`EventLoop::AddEvent`, `DelEvent`, `EnableEventWriting` and `EnableEventReading`, with
`Event::Close` and what gives events their descriptors.  The loop keeps its events by their
descriptors in `events_`, and tells `epoll` about every change without a look at what `epoll_ctl`
returns.  Descriptors are used again: the kernel gives out any that is not open, while the object
of a closed connection may still be there and be called.

Most owners of an event call `DelEvent` before it is closed or gets another descriptor.  Some paths
do not: a `UdpServer` is closed by `OnError`, `OnRead`, `OnWrite` and `OnTimeOut` through
`UdpSocket::OnClose` alone, `Acceptor::Open` closes the descriptor it has, and the `Open` of a
`UdpServer` and both `ConnectInLoop` take a new one without a look at the old.

Of the kernel the model has the open descriptors and the interest list of `epoll`, from which a
descriptor goes when it is closed.
-/

open Runs

/-- The bits of `event_`: `EPOLLIN`, `EPOLLPRI`, `EPOLLOUT` and `EPOLLET`. -/
structure EventMask where
  epollIn : Bool := false
  epollPri : Bool := false
  epollOut : Bool := false
  epollEt : Bool := false
  deriving DecidableEq, Repr

/-- `kEventRead`. -/
def kEventRead : EventMask := { epollIn := true, epollPri := true, epollEt := true }

/-- `kEventWrite`. -/
def kEventWrite : EventMask := { epollOut := true, epollEt := true }

namespace EventMask

/-- `a | b`. -/
def or (a b : EventMask) : EventMask :=
  ⟨a.epollIn || b.epollIn, a.epollPri || b.epollPri, a.epollOut || b.epollOut,
    a.epollEt || b.epollEt⟩

/-- `a & ~b`. -/
def andNot (a b : EventMask) : EventMask :=
  ⟨a.epollIn && !b.epollIn, a.epollPri && !b.epollPri, a.epollOut && !b.epollOut,
    a.epollEt && !b.epollEt⟩

end EventMask

/-- The fields of an `Event` that the loop uses. -/
structure EventObject where
  fd : Int := -1
  event : EventMask := {}
  deriving DecidableEq, Repr

/-- The objects, by their addresses, `events_`, and of the kernel the open descriptors and the
interest list. -/
structure EventPoll where
  object : Nat → EventObject := fun _ => {}
  events : Int → Option Nat := fun _ => none
  isOpen : Int → Bool := fun _ => false
  interest : Int → Option EventMask := fun _ => none

namespace EventPoll

/-! ### The kernel -/

/-- `epoll_ctl` with `EPOLL_CTL_ADD`, which fails for a descriptor that is not open or is
listed. -/
def ctlAdd (s : EventPoll) (fd : Int) (m : EventMask) : EventPoll :=
  if s.isOpen fd && (s.interest fd).isNone then
    { s with interest := Function.update s.interest fd (some m) }
  else
    s

/-- `epoll_ctl` with `EPOLL_CTL_MOD`, which fails for a descriptor that is not listed. -/
def ctlMod (s : EventPoll) (fd : Int) (m : EventMask) : EventPoll :=
  if (s.interest fd).isSome then
    { s with interest := Function.update s.interest fd (some m) }
  else
    s

/-- `epoll_ctl` with `EPOLL_CTL_DEL`. -/
def ctlDel (s : EventPoll) (fd : Int) : EventPoll :=
  { s with interest := Function.update s.interest fd none }

/-- `close`. -/
def closeFd (s : EventPoll) (fd : Int) : EventPoll :=
  { s with isOpen := Function.update s.isOpen fd false,
           interest := Function.update s.interest fd none }

/-! ### The loop -/

/-- A field of an object changes. -/
def setObject (s : EventPoll) (e : Nat) (o : EventObject) : EventPoll :=
  { s with object := Function.update s.object e o }

/-- `AddEvent`. -/
def addEvent (s : EventPoll) (e : Nat) : EventPoll :=
  let o := s.object e
  match s.events o.fd with
  | some _ => s
  | none =>
      let event := o.event.or kEventRead
      { s.setObject e { o with event } with
        events := Function.update s.events o.fd (some e) }.ctlAdd o.fd event

/-- `DelEvent`. -/
def delEvent (s : EventPoll) (e : Nat) : EventPoll :=
  let o := s.object e
  match s.events o.fd with
  | none => s
  | some _ => { s with events := Function.update s.events o.fd none }.ctlDel o.fd

/-- `EnableEventWriting` and `EnableEventReading`: bits of the event are set or taken away. -/
def enable (bits : EventMask) (s : EventPoll) (e : Nat) (on : Bool) : EventPoll × Bool :=
  let o := s.object e
  match s.events o.fd with
  | none => (s, false)
  | some _ =>
      let event := if on then o.event.or bits else o.event.andNot bits
      ((s.setObject e { o with event }).ctlMod o.fd event, true)

/-- `EnableEventWriting`. -/
def enableEventWriting : EventPoll → Nat → Bool → EventPoll × Bool := enable kEventWrite

/-- `EnableEventReading`. -/
def enableEventReading : EventPoll → Nat → Bool → EventPoll × Bool := enable kEventRead

/-- `Event::Close`. -/
def close (s : EventPoll) (e : Nat) : EventPoll :=
  let o := s.object e
  if 0 < o.fd then (s.closeFd o.fd).setObject e { o with fd := -1 } else s

/-- The kernel gives a descriptor that is not open.  The smallest ones are those of the standard
streams. -/
def Gives (s : EventPoll) (fd : Int) : Prop := 0 < fd ∧ s.isOpen fd = false

instance (s : EventPoll) (fd : Int) : Decidable (s.Gives fd) :=
  inferInstanceAs (Decidable (_ ∧ _))

/-- What `socket`, `accept4` or `pipe2` gives becomes the descriptor of the event, whatever it was
before, and the loop gets the event: `TcpServer::OnAccet`, `TcpClient::ConnectInLoop`,
`UdpServer::Open`, `UdpClient::ConnectInLoop` and `WakeUp`. -/
def opened (s : EventPoll) (e : Nat) (fd : Int) : EventPoll :=
  if s.Gives fd then
    ({ s with isOpen := Function.update s.isOpen fd true }.setObject e
      { s.object e with fd }).addEvent e
  else
    s

/-- The same when `socket` fails, which leaves the event without a descriptor. -/
def unopened (s : EventPoll) (e : Nat) : EventPoll := s.setObject e { s.object e with fd := -1 }

/-- `Acceptor::Open`, which closes the descriptor that the event has. -/
def reopened (s : EventPoll) (e : Nat) (fd : Int) : EventPoll :=
  if (s.close e).Gives fd then (s.close e).opened e fd else s

/-- `DelEvent` and then `Event::Close`: `TcpConnection::OnClose` with
`TcpServer::OnConnectionClose`, the `OnClose` of both clients, and `UdpServer::Stop`. -/
def leave (s : EventPoll) (e : Nat) : EventPoll := (s.delEvent e).close e

end EventPoll

/-- What the owners of events do with the loop; an event that was closed can be used again, and
can be called in the meantime. -/
inductive PollEvent where
  | opened (e : Nat) (fd : Int)
  | unopened (e : Nat)
  | reopened (e : Nat) (fd : Int)
  | enableWriting (e : Nat) (on : Bool)
  | enableReading (e : Nat) (on : Bool)
  | deleted (e : Nat)
  | closed (e : Nat)
  deriving DecidableEq, Repr

namespace EventPoll

/-- One of these. -/
def step (s : EventPoll) : PollEvent → EventPoll
  | .opened e fd => s.opened e fd
  | .unopened e => s.unopened e
  | .reopened e fd => s.reopened e fd
  | .enableWriting e on => (s.enableEventWriting e on).1
  | .enableReading e on => (s.enableEventReading e on).1
  | .deleted e => s.delEvent e
  | .closed e => s.close e

/-- The loop has the event under its descriptor. -/
def Has (s : EventPoll) (e : Nat) : Prop := s.events (s.object e).fd = some e

instance (s : EventPoll) (e : Nat) : Decidable (s.Has e) :=
  inferInstanceAs (Decidable (_ = _))

/-- An event is closed, or gets another descriptor, only when the loop does not have it. -/
def Orderly (s : EventPoll) : PollEvent → Prop
  | .opened e fd => s.Gives fd → ¬s.Has e
  | .unopened e => ¬s.Has e
  | .reopened e fd => (s.close e).Gives fd → ¬s.Has e
  | .enableWriting _ _ => True
  | .enableReading _ _ => True
  | .deleted _ => True
  | .closed e => ¬s.Has e

/-! ### In step -/

/-- The loop and the kernel agree: `events_` has events under their own descriptors, which are
open, and `epoll` lists the same descriptors with exactly the bits of these events.  No two events
have an open descriptor in common. -/
structure InStep (s : EventPoll) : Prop where
  owner : ∀ fd e, s.events fd = some e → 0 < fd ∧ (s.object e).fd = fd
  unique : ∀ e e', 0 < (s.object e).fd → (s.object e').fd = (s.object e).fd → e' = e
  isOpen : ∀ e, 0 < (s.object e).fd → s.isOpen (s.object e).fd = true
  listed : ∀ fd, s.interest fd = (s.events fd).map fun e => (s.object e).event

variable {s : EventPoll} {e : Nat}

/-- An event of the loop has a descriptor. -/
theorem InStep.fd_pos (h : s.InStep) (hhas : s.Has e) :
  0 < (s.object e).fd
  := (h.owner _ e hhas).1

/-- No other event stands under the descriptor of an event that the loop does not have. -/
theorem InStep.events_eq_none (h : s.InStep) (hhas : ¬s.Has e) :
  s.events (s.object e).fd = none
  := by
  cases hevents : s.events (s.object e).fd with
  | none => rfl
  | some e' =>
      obtain ⟨hpos, hfd⟩ := h.owner _ e' hevents
      obtain rfl := h.unique e e' hpos hfd
      exact absurd hevents hhas

/-- Under a descriptor that is not open stands no event. -/
theorem InStep.events_of_gives (h : s.InStep) {fd : Int} (hfd : s.Gives fd) :
  s.events fd = none
  := by
  cases hevents : s.events fd with
  | none => rfl
  | some e =>
      obtain ⟨hpos, rfl⟩ := h.owner _ e hevents
      exact absurd (h.isOpen e hpos) (by rw [hfd.2]; exact Bool.false_ne_true)

/-- No event has a descriptor that the kernel gives. -/
theorem InStep.fd_ne_of_gives (h : s.InStep) {fd : Int} (hfd : s.Gives fd) (e : Nat) :
  (s.object e).fd ≠ fd
  := by
  rintro rfl
  exact absurd (h.isOpen e hfd.1) (by rw [hfd.2]; exact Bool.false_ne_true)

/-- Events that stand in `events_` are not one that the loop does not have. -/
theorem InStep.ne_of_events (h : s.InStep) (hhas : ¬s.Has e) {fd : Int} {e' : Nat}
    (hevents : s.events fd = some e') :
  e' ≠ e
  := by
  rintro rfl
  obtain ⟨-, rfl⟩ := h.owner _ e' hevents
  exact hhas hevents

/-! ### What the operations do -/

/-- An event that got a descriptor is in `events_` and in the interest list. -/
theorem InStep.opened_eq (h : s.InStep) (e : Nat) {fd : Int} (hfd : s.Gives fd) :
  s.opened e fd =
    { object := Function.update s.object e ⟨fd, (s.object e).event.or kEventRead⟩
      events := Function.update s.events fd (some e)
      isOpen := Function.update s.isOpen fd true
      interest := Function.update s.interest fd (some ((s.object e).event.or kEventRead)) }
  := by
  have hnone := h.events_of_gives hfd
  have hunlisted : s.interest fd = none
    := by
    rw [h.listed, hnone]
    rfl
  rw [opened, if_pos hfd]
  simp only [addEvent, setObject, ctlAdd, Function.update_self, hnone, hunlisted,
    Option.isNone_none, Bool.and_self, if_true, Function.update_idem]

theorem delEvent_of_has (h : s.Has e) :
  s.delEvent e =
    { s with
      events := Function.update s.events (s.object e).fd none
      interest := Function.update s.interest (s.object e).fd none }
  := by
  rw [Has] at h
  simp only [delEvent, h, ctlDel]

theorem close_of_pos (h : 0 < (s.object e).fd) :
  s.close e =
    { s with
      object := Function.update s.object e { s.object e with fd := -1 }
      isOpen := Function.update s.isOpen (s.object e).fd false
      interest := Function.update s.interest (s.object e).fd none }
  := by simp only [close, h, if_true, closeFd, setObject]

theorem close_of_not_pos (h : ¬0 < (s.object e).fd) :
  s.close e = s
  := if_neg h

/-- The bits of an event are no part of its descriptor. -/
theorem fd_update_event (s : EventPoll) (e e' : Nat) (event : EventMask) :
  (Function.update s.object e { s.object e with event } e').fd = (s.object e').fd
  := by
  by_cases he : e' = e
  · rw [he, Function.update_self]
  · rw [Function.update_of_ne he]

theorem enable_of_has (bits : EventMask) (on : Bool) (h : s.Has e)
    (hlisted : (s.interest (s.object e).fd).isSome) :
  let event := if on then (s.object e).event.or bits else (s.object e).event.andNot bits
  s.enable bits e on =
    ({ s with
        object := Function.update s.object e { s.object e with event }
        interest := Function.update s.interest (s.object e).fd (some event) }, true)
  := by
  rw [Has] at h
  simp only [enable, h, setObject, ctlMod, hlisted, if_true]

/-- An event that the loop does not have changes nothing of those it has, also when its descriptor
is that of another one by now. -/
theorem InStep.unchanged (h : s.InStep) (hhas : ¬s.Has e) :
  s.delEvent e = s ∧ ∀ bits on, s.enable bits e on = (s, false)
  := by
  have hnone := h.events_eq_none hhas
  refine ⟨?_, fun bits on => ?_⟩
  · simp only [delEvent, hnone]
  · simp only [enable, hnone]

/-! ### What keeps the loop in step -/

theorem InStep.opened (h : s.InStep) {fd : Int} (hhas : ¬s.Has e) (hfd : s.Gives fd) :
  (s.opened e fd).InStep
  := by
  rw [h.opened_eq e hfd]
  constructor
  · intro fd' e' hevents
    dsimp only at hevents ⊢
    by_cases hsame : fd' = fd
    · subst hsame
      rw [Function.update_self] at hevents
      obtain rfl := Option.some.inj hevents
      rw [Function.update_self]
      exact ⟨hfd.1, rfl⟩
    · rw [Function.update_of_ne hsame] at hevents
      rw [Function.update_of_ne (h.ne_of_events hhas hevents)]
      exact h.owner fd' e' hevents
  · intro e₁ e₂ hpos hfds
    dsimp only at hpos hfds
    by_cases h₁ : e₁ = e
    · subst h₁
      by_cases h₂ : e₂ = e₁
      · exact h₂
      · rw [Function.update_self, Function.update_of_ne h₂] at hfds
        exact absurd hfds (h.fd_ne_of_gives hfd e₂)
    · rw [Function.update_of_ne h₁] at hpos hfds
      by_cases h₂ : e₂ = e
      · subst h₂
        rw [Function.update_self] at hfds
        exact absurd hfds.symm (h.fd_ne_of_gives hfd e₁)
      · rw [Function.update_of_ne h₂] at hfds
        exact h.unique e₁ e₂ hpos hfds
  · intro e' hpos
    dsimp only at hpos ⊢
    by_cases he : e' = e
    · subst he
      rw [Function.update_self, Function.update_self]
    · rw [Function.update_of_ne he] at hpos ⊢
      rw [Function.update_of_ne (h.fd_ne_of_gives hfd e')]
      exact h.isOpen e' hpos
  · intro fd'
    dsimp only
    by_cases hsame : fd' = fd
    · subst hsame
      simp only [Function.update_self, Option.map_some]
    · rw [Function.update_of_ne hsame, Function.update_of_ne hsame, h.listed]
      apply Option.map_congr
      intro e' hevents
      rw [Function.update_of_ne (h.ne_of_events hhas hevents)]

/-- The fields that matter of an event that the loop does not have can change, to no descriptor. -/
theorem InStep.unopened (h : s.InStep) (hhas : ¬s.Has e) :
  (s.unopened e).InStep
  := by
  have hne : ∀ e', 0 < ((s.unopened e).object e').fd → e' ≠ e
    := by
    rintro e' hpos rfl
    rw [EventPoll.unopened, setObject] at hpos
    dsimp only at hpos
    rw [Function.update_self] at hpos
    dsimp only at hpos
    omega
  have hsame : ∀ e', e' ≠ e → (s.unopened e).object e' = s.object e'
    := fun e' he => Function.update_of_ne he _ _
  constructor
  · intro fd e' hevents
    rw [hsame e' (h.ne_of_events hhas hevents)]
    exact h.owner fd e' hevents
  · intro e₁ e₂ hpos hfds
    have h₁ := hne e₁ hpos
    have h₂ := hne e₂ (hfds ▸ hpos)
    rw [hsame e₁ h₁] at hpos hfds
    rw [hsame e₂ h₂] at hfds
    exact h.unique e₁ e₂ hpos hfds
  · intro e' hpos
    have he := hne e' hpos
    rw [hsame e' he] at hpos ⊢
    exact h.isOpen e' hpos
  · intro fd
    apply (h.listed fd).trans
    apply Option.map_congr
    intro e' hevents
    rw [hsame e' (h.ne_of_events hhas hevents)]

/-- Closing an event that the loop does not have. -/
theorem InStep.close (h : s.InStep) (hhas : ¬s.Has e) :
  (s.close e).InStep
  := by
  by_cases hpos : 0 < (s.object e).fd
  · have hlost := h.unopened hhas
    rw [close_of_pos hpos]
    constructor
    · exact hlost.owner
    · exact hlost.unique
    · intro e' hpos'
      have hne : (({ s with object := Function.update s.object e { s.object e with fd := -1 }
          } : EventPoll).object e').fd ≠ (s.object e).fd
        := by
        intro hfd
        dsimp only at hpos' hfd
        by_cases he : e' = e
        · subst he
          rw [Function.update_self] at hpos'
          dsimp only at hpos'
          omega
        · rw [Function.update_of_ne he] at hfd
          exact he (h.unique e e' hpos hfd)
      dsimp only at hpos' hne ⊢
      rw [Function.update_of_ne hne]
      exact hlost.isOpen e' hpos'
    · intro fd
      dsimp only
      by_cases hsame : fd = (s.object e).fd
      · subst hsame
        rw [Function.update_self, h.events_eq_none hhas]
        rfl
      · rw [Function.update_of_ne hsame]
        exact hlost.listed fd
  · rw [close_of_not_pos hpos]
    exact h

theorem InStep.delEvent (h : s.InStep) (e : Nat) :
  (s.delEvent e).InStep
  := by
  by_cases hhas : s.Has e
  · rw [delEvent_of_has hhas]
    refine { h with owner := ?_, listed := ?_ }
    · intro fd e' hevents
      dsimp only at hevents
      by_cases hsame : fd = (s.object e).fd
      · rw [hsame, Function.update_self] at hevents
        cases hevents
      · rw [Function.update_of_ne hsame] at hevents
        exact h.owner fd e' hevents
    · intro fd
      dsimp only
      by_cases hsame : fd = (s.object e).fd
      · rw [hsame, Function.update_self, Function.update_self]
        rfl
      · rw [Function.update_of_ne hsame, Function.update_of_ne hsame, h.listed]
  · rw [(h.unchanged hhas).1]
    exact h

theorem InStep.enable (h : s.InStep) (bits : EventMask) (e : Nat) (on : Bool) :
  (s.enable bits e on).1.InStep
  := by
  by_cases hhas : s.Has e
  · have hlisted : (s.interest (s.object e).fd).isSome
      := by
      rw [h.listed, hhas]
      rfl
    rw [enable_of_has bits on hhas hlisted]
    constructor
    · intro fd e' hevents
      rw [fd_update_event]
      exact h.owner fd e' hevents
    · intro e₁ e₂ hpos hfds
      rw [fd_update_event] at hpos hfds
      rw [fd_update_event] at hfds
      exact h.unique e₁ e₂ hpos hfds
    · intro e' hpos
      rw [fd_update_event] at hpos ⊢
      exact h.isOpen e' hpos
    · intro fd
      dsimp only
      by_cases hsame : fd = (s.object e).fd
      · rw [hsame, Function.update_self, hhas]
        simp only [Option.map_some, Function.update_self]
      · rw [Function.update_of_ne hsame, h.listed]
        apply Option.map_congr
        rintro e' hevents
        have he : e' ≠ e
          := by
          rintro rfl
          exact hsame (h.owner fd e' hevents).2.symm
        rw [Function.update_of_ne he]
  · rw [(h.unchanged hhas).2]
    exact h

/-- The event has left the loop. -/
theorem InStep.not_has_delEvent (h : s.InStep) (e : Nat) :
  ¬(s.delEvent e).Has e
  := by
  by_cases hhas : s.Has e
  · rw [delEvent_of_has hhas, Has]
    dsimp only
    rw [Function.update_self]
    rintro ⟨⟩
  · rw [(h.unchanged hhas).1]
    exact hhas

/-- `DelEvent` before `Close` keeps the loop in step. -/
theorem InStep.leave (h : s.InStep) (e : Nat) :
  (s.leave e).InStep
  := (h.delEvent e).close (h.not_has_delEvent e)

/-- An event that was closed has no descriptor. -/
theorem fd_leave (s : EventPoll) (e : Nat) :
  ¬0 < ((s.leave e).object e).fd
  := by
  rw [EventPoll.leave]
  by_cases hpos : 0 < ((s.delEvent e).object e).fd
  · rw [close_of_pos hpos]
    dsimp only
    rw [Function.update_self]
    dsimp only
    omega
  · rw [close_of_not_pos hpos]
    exact hpos

theorem InStep.not_has_close (h : s.InStep) (hhas : ¬s.Has e) :
  ¬(s.close e).Has e
  := by
  by_cases hpos : 0 < (s.object e).fd
  · intro hagain
    have hfdpos := (h.close hhas).fd_pos hagain
    rw [close_of_pos hpos] at hfdpos
    dsimp only at hfdpos
    rw [Function.update_self] at hfdpos
    dsimp only at hfdpos
    omega
  · rw [close_of_not_pos hpos]
    exact hhas

theorem InStep.reopened (h : s.InStep) (hhas : ¬s.Has e) (fd : Int) :
  (s.reopened e fd).InStep
  := by
  rw [EventPoll.reopened]
  split
  · next hfd => exact (h.close hhas).opened (h.not_has_close hhas) hfd
  · exact h

/-! ### Other events -/

/-- Nothing has changed for an event. -/
structure SameFor (s s' : EventPoll) (e : Nat) : Prop where
  fd : (s'.object e).fd = (s.object e).fd
  has : s'.Has e ↔ s.Has e

theorem SameFor.refl (s : EventPoll) (e : Nat) :
  SameFor s s e
  := ⟨rfl, Iff.rfl⟩

theorem SameFor.trans {s' s'' : EventPoll} (h : SameFor s s' e) (h' : SameFor s' s'' e) :
  SameFor s s'' e
  := ⟨h'.fd.trans h.fd, h'.has.trans h.has⟩

theorem close_sameFor {e' : Nat} (hne : e' ≠ e) :
  SameFor s (s.close e) e'
  := by
  by_cases hpos : 0 < (s.object e).fd
  · rw [close_of_pos hpos]
    have hobject : Function.update s.object e { s.object e with fd := -1 } e' = s.object e'
      := Function.update_of_ne hne _ _
    constructor
    · exact congrArg EventObject.fd hobject
    · rw [Has, Has]
      dsimp only
      rw [hobject]
  · rw [close_of_not_pos hpos]
    exact .refl s e'

theorem InStep.delEvent_sameFor (h : s.InStep) {e' : Nat} (hne : e' ≠ e) :
  SameFor s (s.delEvent e) e'
  := by
  by_cases hhas : s.Has e
  · have hfd : (s.object e').fd ≠ (s.object e).fd
      := fun hsame => hne (h.unique e e' (h.fd_pos hhas) hsame)
    rw [delEvent_of_has hhas]
    refine ⟨rfl, ?_⟩
    rw [Has, Has]
    dsimp only
    rw [Function.update_of_ne hfd]
  · rw [(h.unchanged hhas).1]
    exact .refl s e'

theorem InStep.leave_sameFor (h : s.InStep) {e' : Nat} (hne : e' ≠ e) :
  SameFor s (s.leave e) e'
  := (h.delEvent_sameFor hne).trans (close_sameFor hne)

/-- The loop has an event that was opened. -/
theorem InStep.has_opened (h : s.InStep) (e : Nat) {fd : Int} (hfd : s.Gives fd) :
  (s.opened e fd).Has e
  := by
  rw [h.opened_eq e hfd, Has]
  dsimp only
  rw [Function.update_self]
  exact Function.update_self fd (some e) s.events

theorem InStep.opened_sameFor (h : s.InStep) {fd : Int} (hfd : s.Gives fd) {e' : Nat}
    (hne : e' ≠ e) :
  SameFor s (s.opened e fd) e'
  := by
  rw [h.opened_eq e hfd]
  have hobject : Function.update s.object e ⟨fd, (s.object e).event.or kEventRead⟩ e' = s.object e'
    := Function.update_of_ne hne _ _
  constructor
  · exact congrArg EventObject.fd hobject
  · rw [Has, Has]
    dsimp only
    rw [hobject, Function.update_of_ne (h.fd_ne_of_gives hfd e')]

theorem InStep.reopened_sameFor (h : s.InStep) (hhas : ¬s.Has e) (fd : Int) {e' : Nat}
    (hne : e' ≠ e) :
  SameFor s (s.reopened e fd) e'
  := by
  rw [EventPoll.reopened]
  split
  · next hfd => exact (close_sameFor hne).trans ((h.close hhas).opened_sameFor hfd hne)
  · exact .refl s e'

/-- The bits of an event change, and neither what the loop has nor a descriptor. -/
theorem enable_sameFor (bits : EventMask) (e : Nat) (on : Bool) (e' : Nat) :
  SameFor s (s.enable bits e on).1 e'
  := by
  have hmod : ∀ event, SameFor s
      ((s.setObject e { s.object e with event }).ctlMod (s.object e).fd event) e'
    := by
    intro event
    have hfd := fd_update_event s e e' event
    have hframe : ∀ interest, SameFor s
        { s with object := Function.update s.object e { s.object e with event }, interest } e'
      := by
      intro interest
      refine ⟨hfd, ?_⟩
      rw [Has, Has]
      dsimp only
      rw [hfd]
    rw [setObject, ctlMod]
    split
    · apply hframe
    · apply hframe
  rw [EventPoll.enable]
  dsimp only
  split
  · exact .refl s e'
  · exact hmod _

/-! ### What does not

An event that is closed, or gets another descriptor, while the loop has it still stands under its
old descriptor then. -/

theorem not_inStep_of_events {fd : Int} (hevents : s.events fd = some e)
    (hne : (s.object e).fd ≠ fd) :
  ¬s.InStep
  := fun h => hne (h.owner fd e hevents).2

theorem InStep.not_close (h : s.InStep) (hhas : s.Has e) :
  ¬(s.close e).InStep
  := by
  have hpos := h.fd_pos hhas
  rw [close_of_pos hpos]
  apply not_inStep_of_events
  · exact hhas
  · dsimp only
    rw [Function.update_self]
    dsimp only
    omega

theorem InStep.not_unopened (h : s.InStep) (hhas : s.Has e) :
  ¬(s.unopened e).InStep
  := by
  have hpos := h.fd_pos hhas
  rw [EventPoll.unopened, setObject]
  apply not_inStep_of_events
  · exact hhas
  · dsimp only
    rw [Function.update_self]
    dsimp only
    omega

/-- `AddEvent` leaves what stands in `events_`, and descriptors as they are. -/
theorem addEvent_frame (s : EventPoll) (e : Nat) :
  (∀ fd e', s.events fd = some e' → (s.addEvent e).events fd = some e') ∧
    ∀ e', ((s.addEvent e).object e').fd = (s.object e').fd
  := by
  rw [addEvent]
  dsimp only
  split
  · exact ⟨fun _ _ h => h, fun _ => rfl⟩
  · next hnone =>
      have hctl : ∀ (t : EventPoll) fd m, (t.ctlAdd fd m).events = t.events ∧
          (t.ctlAdd fd m).object = t.object
        := by
        intro t fd m
        rw [ctlAdd]
        split <;> exact ⟨rfl, rfl⟩
      rw [(hctl _ _ _).1, (hctl _ _ _).2]
      constructor
      · intro fd e' hevents
        have hne : fd ≠ (s.object e).fd
          := by
          rintro rfl
          rw [hnone] at hevents
          cases hevents
        dsimp only
        rw [Function.update_of_ne hne]
        exact hevents
      · intro e'
        dsimp only [setObject]
        by_cases he : e' = e
        · rw [he, Function.update_self]
        · rw [Function.update_of_ne he]

/-- An event that stands under another descriptor than the one it gets. -/
theorem not_inStep_opened {old fd : Int} (hevents : s.events old = some e) (hfd : s.Gives fd)
    (hne : old ≠ fd) :
  ¬(s.opened e fd).InStep
  := by
  obtain ⟨hkept, hfds⟩ := addEvent_frame
    ({ s with isOpen := Function.update s.isOpen fd true }.setObject e { s.object e with fd }) e
  rw [EventPoll.opened, if_pos hfd]
  apply not_inStep_of_events (hkept old e hevents)
  rw [hfds, setObject]
  dsimp only
  rw [Function.update_self]
  exact Ne.symm hne

theorem InStep.not_opened (h : s.InStep) {fd : Int} (hhas : s.Has e) (hfd : s.Gives fd) :
  ¬(s.opened e fd).InStep
  := not_inStep_opened hhas hfd (h.fd_ne_of_gives hfd e)

/-- The descriptor that was closed may be given again.  Then `AddEvent` finds the event, and `epoll`
does not hear of the new descriptor. -/
theorem InStep.not_reopened (h : s.InStep) {fd : Int} (hhas : s.Has e)
    (hfd : (s.close e).Gives fd) :
  ¬(s.reopened e fd).InStep
  := by
  have hpos := h.fd_pos hhas
  have hstale : (s.close e).events (s.object e).fd = some e
    := by
    rw [close_of_pos hpos]
    exact hhas
  rw [EventPoll.reopened, if_pos hfd]
  by_cases hsame : (s.object e).fd = fd
  · subst hsame
    rw [EventPoll.opened, if_pos hfd, addEvent, setObject]
    dsimp only
    rw [Function.update_self]
    dsimp only
    rw [hstale]
    intro hstep
    have hlisted := hstep.listed (s.object e).fd
    dsimp only at hlisted
    rw [hstale, close_of_pos hpos] at hlisted
    dsimp only at hlisted
    rw [Function.update_self] at hlisted
    cases hlisted
  · exact not_inStep_opened hstale hfd hsame

/-! ### Runs -/

/-- A step keeps the loop in step exactly if it is orderly. -/
theorem InStep.step_iff (h : s.InStep) (event : PollEvent) :
  (s.step event).InStep ↔ s.Orderly event
  := by
  cases event with
  | opened e fd =>
      rw [step, Orderly]
      constructor
      · intro hstep hfd hhas
        exact h.not_opened hhas hfd hstep
      · intro horderly
        by_cases hfd : s.Gives fd
        · exact h.opened (horderly hfd) hfd
        · rw [EventPoll.opened, if_neg hfd]
          exact h
  | unopened e => exact ⟨fun hstep hhas => h.not_unopened hhas hstep, h.unopened⟩
  | reopened e fd =>
      rw [step, Orderly]
      constructor
      · intro hstep hfd hhas
        exact h.not_reopened hhas hfd hstep
      · intro horderly
        by_cases hfd : (s.close e).Gives fd
        · exact h.reopened (horderly hfd) fd
        · rw [EventPoll.reopened, if_neg hfd]
          exact h
  | enableWriting e on => exact iff_of_true (h.enable kEventWrite e on) trivial
  | enableReading e on => exact iff_of_true (h.enable kEventRead e on) trivial
  | deleted e => exact iff_of_true (h.delEvent e) trivial
  | closed e => exact ⟨fun hstep hhas => h.not_close hhas hstep, h.close⟩

theorem inStep_empty : ({} : EventPoll).InStep
  where
  owner _ _ h := by cases h
  unique e e' h := absurd h (show ¬(0 : Int) < -1 by decide)
  isOpen e h := absurd h (show ¬(0 : Int) < -1 by decide)
  listed _ := rfl

/-- However events are opened, deleted, closed and called, and whichever descriptors the kernel
gives out again: `events_` and the interest list of `epoll` stay in step exactly if an event is
closed, or gets another descriptor, only when the loop does not have it; and then an event that the
loop does not have changes nothing of the one that has its descriptor now. -/
theorem poll_in_step (events : List PollEvent) :
  (Throughout step InStep {} events ↔ Steps step Orderly {} events) ∧
    (Steps step Orderly {} events →
      Throughout step (fun s => ∀ e, ¬s.Has e → s.delEvent e = s ∧
        ∀ on, s.enableEventWriting e on = (s, false) ∧ s.enableEventReading e on = (s, false))
        {} events)
  := by
  have hiff : Throughout step InStep {} events ↔ Steps step Orderly {} events
    := by
    apply throughout_iff_steps (I := fun _ => True) steps_true trivial inStep_empty
    intro s event _ h _
    exact ⟨trivial, h.step_iff event⟩
  refine ⟨hiff, fun horderly => ?_⟩
  apply (hiff.mpr horderly).mono
  intro s h e hhas
  obtain ⟨hdel, henable⟩ := h.unchanged hhas
  exact ⟨hdel, fun on => ⟨henable kEventWrite on, henable kEventRead on⟩⟩

end EventPoll
