import Mathlib.Data.List.Basic
import Mathlib.Logic.Function.Basic

/-!
# Sessions

The publisher and the players of a `Session`: `CreatePublishUser`, `CreatePlayerUser`,
`SetPublisher`, `AddPlayer`, `CloseUser` and `Clear`, with the callbacks of `LiveService` and
`RtmpPuller` that call them.

Connections are handled on threads of their own.  The steps of a run are what nothing comes
between: what is done under the lock of the session, and the test of `destroyed_` that
`CloseUser` makes before it takes the lock.  `ForceClose` queues a task on the loop of the
connection; where that is the loop it is called on, the task runs next.  `κ` is the type of
connections.
-/

inductive UserType where
  | publishRtmp
  | publishMpegts
  | publishPav
  | publishWebRtc
  | playerPav
  | playerFlv
  | playerHls
  | playerRtmp
  | playerWebRtc
  | unknowed
  deriving DecidableEq, Repr

/-- The number of a type. -/
def UserType.value : UserType → Nat
  | .publishRtmp => 0
  | .publishMpegts => 1
  | .publishPav => 2
  | .publishWebRtc => 3
  | .playerPav => 4
  | .playerFlv => 5
  | .playerHls => 6
  | .playerRtmp => 7
  | .playerWebRtc => 8
  | .unknowed => 255

/-- A `User`, which is an object, so it has a number. -/
structure User (κ : Type) where
  id : Nat
  connection : κ
  type : UserType
  deriving DecidableEq, Repr

/-- The test of the type by which `CloseUser` tells a publisher from a player. -/
def User.publishes {κ : Type} (u : User κ) : Bool :=
  u.type.value ≤ UserType.publishWebRtc.value

/-- What gets the callbacks of a connection: `LiveService` for those of the RTMP and HTTP
servers, `WebrtcService`, and `RtmpPuller` for a pull connection. -/
inductive Handler where
  | live
  | webrtc
  | puller
  deriving DecidableEq, Repr

/-- What is at `kUserContext` of a connection: a user of this session or of another. -/
inductive UserContext (κ : Type) where
  | here (u : User κ)
  | elsewhere
  deriving DecidableEq, Repr

/-- How far the closing of a connection is: not begun, its callback called, the callback in
`CloseUser` of a user before the lock, or the callback returned. -/
inductive CloseStage (κ : Type) where
  | opened
  | begun
  | exchanged (u : User κ)
  | finished
  deriving DecidableEq, Repr

/-- A publisher is in `CloseUser`, before the lock. -/
def CloseStage.releases {κ : Type} : CloseStage κ → Bool
  | .opened => false
  | .begun => false
  | .exchanged u => u.publishes
  | .finished => false

/-- The types of players `CreatePlayerUser` makes. -/
inductive PlayerKind where
  | rtmp
  | flv
  | webrtc
  deriving DecidableEq, Repr

def PlayerKind.type : PlayerKind → UserType
  | .rtmp => .playerRtmp
  | .flv => .playerFlv
  | .webrtc => .playerWebRtc

/-- A session with the connections. `count` numbers users, `closing` are the queued tasks of
`ForceClose`. `current` is not in the source: it is the user last given to `SetPublisher`. -/
structure LiveSession (κ : Type) where
  publisher : Option (User κ) := none
  players : List (User κ) := []
  destroyed : User κ → Bool := fun _ => false
  count : Nat := 0
  context : κ → Option (UserContext κ) := fun _ => none
  stage : κ → CloseStage κ := fun _ => .opened
  closing : List κ := []
  current : Option (User κ) := none

namespace LiveSession

variable {κ : Type} [DecidableEq κ]

/-- `IsPublishing`. -/
def isPublishing (s : LiveSession κ) : Bool := s.publisher.isSome

/-- A new user of a connection. -/
def createUser (s : LiveSession κ) (c : κ) (type : UserType) : LiveSession κ × User κ :=
  let u := ⟨s.count, c, type⟩
  ({ s with count := s.count + 1, context := Function.update s.context c (some (.here u)) }, u)

/-- `destroyed_.exchange(true)`. -/
def destroy (s : LiveSession κ) (u : User κ) : LiveSession κ :=
  { s with destroyed := Function.update s.destroyed u true }

@[simp] theorem destroy_self (s : LiveSession κ) (u : User κ) :
  (s.destroy u).destroyed u = true
  := Function.update_self ..

theorem destroy_of_ne {s : LiveSession κ} {u v : User κ} (h : v ≠ u) :
  (s.destroy u).destroyed v = s.destroyed v
  := Function.update_of_ne h ..

/-- `User::Close`, that is `ForceClose` of its connection. -/
def closeConnection (s : LiveSession κ) (u : User κ) : LiveSession κ :=
  { s with closing := s.closing ++ [u.connection] }

/-- What `SetPublisher` does with the publisher there is. -/
def closePublisher (s : LiveSession κ) : LiveSession κ :=
  match s.publisher with
  | some old => if s.destroyed old then s else (s.destroy old).closeConnection old
  | none => s

/-- `SetPublisher`. -/
def setPublisher (s : LiveSession κ) (u : User κ) : LiveSession κ :=
  if s.publisher = some u then
    { s with current := some u }
  else
    { s.closePublisher with publisher := some u, current := some u }

/-- `AddPlayer`; the second component is whether it calls `StartPullStream`. -/
def addPlayer (s : LiveSession κ) (u : User κ) : LiveSession κ × Bool :=
  ({ s with players := s.players ++ [u] }, !s.isPublishing)

/-- What `CloseUser` does with a user that was not destroyed before. -/
def removeUser (s : LiveSession κ) (u : User κ) : LiveSession κ :=
  let s :=
    if u.publishes then
      { s with publisher := none }
    else
      { s with players := s.players.erase u }
  s.closeConnection u

/-- `CloseUserNoLock`. -/
def closeUserNoLock (s : LiveSession κ) (u : User κ) : LiveSession κ :=
  if s.destroyed u then
    s
  else
    let s := s.destroy u
    if u.publishes then
      if s.isPublishing then { s.closeConnection u with publisher := none } else s
    else
      s.closeConnection u

/-- `Clear`. -/
def clear (s : LiveSession κ) : LiveSession κ :=
  let s := match s.publisher with
    | some u => s.closeUserNoLock u
    | none => s
  { s.players.foldl closeUserNoLock s with players := [] }

/-- `OnClose` of a connection, up to the call of its callback. -/
def onClose (s : LiveSession κ) (c : κ) : LiveSession κ :=
  if s.stage c = .opened then { s with stage := Function.update s.stage c .begun } else s

/-- The end of the callback of `LiveService`. -/
def finish (s : LiveSession κ) (c : κ) : LiveSession κ :=
  { s with
    context := Function.update s.context c none
    stage := Function.update s.stage c .finished }

/-- `OnConnectionDestroy` of `LiveService`, up to the lock of `CloseUser`. -/
def onConnectionDestroy (s : LiveSession κ) (c : κ) : LiveSession κ :=
  match s.context c with
  | none => s.finish c
  | some .elsewhere => s.finish c
  | some (.here u) =>
    if s.destroyed u then
      s.finish c
    else
      { s.destroy u with stage := Function.update s.stage c (.exchanged u) }

/-- What happens: `publish` and `play` on a connection of a server, with the name of this
session or (`playElsewhere`) of another; `OnPlay` of the puller, which may find that the
session is called otherwise; a connection is closed, by its peer or by a task of `ForceClose`;
the next step of its close callback; and `Clear`, by an idle timer or `CloseSession`. -/
inductive Event (κ : Type) where
  | publish (c : κ)
  | play (c : κ) (kind : PlayerKind)
  | playElsewhere (c : κ)
  | pullPlay (c : κ) (named : Bool)
  | close (c : κ)
  | runClose (c : κ)
  | callback (c : κ)
  | clear
  deriving DecidableEq, Repr

/-- What is seen of the relay: `StartPullStream`, and `Pull` when a pull connection closes while
nothing is published. -/
inductive PullCall where
  | startPullStream
  | pull
  deriving DecidableEq, Repr

/-- `OnPullClose`: `Pull` returns at once while the session is publishing. -/
def onPullClose (s : LiveSession κ) : List PullCall := if s.isPublishing then [] else [.pull]

/-- One event; one that cannot happen changes nothing. `RtmpClient` gives a pull connection the
close callback of the puller and no other, so its user is not closed. -/
def step (handler : κ → Handler) (s : LiveSession κ) : Event κ → LiveSession κ × List PullCall
  | .publish c =>
    if handler c = .live then
      let (s, u) := s.createUser c .publishRtmp
      (s.setPublisher u, [])
    else
      (s, [])
  | .play c kind =>
    if handler c = .puller then
      (s, [])
    else
      let (s, u) := s.createUser c kind.type
      let (s, start) := s.addPlayer u
      (s, if start then [.startPullStream] else [])
  | .playElsewhere c =>
    if handler c = .puller then
      (s, [])
    else
      ({ s with context := Function.update s.context c (some .elsewhere) }, [])
  | .pullPlay c named =>
    if handler c = .puller then
      match s.context c with
      | some (.here u) => (s.setPublisher u, [])
      | some .elsewhere => (s, [])
      | none =>
        if named then
          let (s, u) := s.createUser c .playerRtmp
          (s.setPublisher u, [])
        else
          (s, s.onPullClose)
    else
      (s, [])
  | .close c => (s.onClose c, [])
  | .runClose c =>
    if c ∈ s.closing then ({ s with closing := s.closing.erase c }.onClose c, []) else (s, [])
  | .callback c =>
    match s.stage c with
    | .opened => (s, [])
    | .finished => (s, [])
    | .exchanged u => ((s.removeUser u).finish c, [])
    | .begun =>
      match handler c with
      | .live => (s.onConnectionDestroy c, [])
      | .webrtc => ({ s with stage := Function.update s.stage c .finished }, [])
      | .puller => ({ s with stage := Function.update s.stage c .finished }, s.onPullClose)
  | .clear => (s.clear, [])

/-- The state a run ends in. -/
def run (handler : κ → Handler) (s : LiveSession κ) : List (Event κ) → LiveSession κ
  | [] => s
  | e :: es => run handler (s.step handler e).1 es

end LiveSession
