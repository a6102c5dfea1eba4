import Tmms.Base.Strings
import Tmms.Live.LiveSession

/-!
# The live service

`LiveService` maps names to sessions.  A user is let in by `OnPublish`, `OnPlay` or `OnRequest` in
two steps: the session is looked up or created under the lock of the service, and the user is added
under the lock of the session.  Between them other threads run: `CloseSession` takes a session out
of the map under the lock of the service and clears it afterwards, and `OnTimer` does both under
the lock of the service.

The steps of a run are what nothing comes between.  A connection is handled on a thread of its own,
one callback after the other.  The streams of the sessions, the relays, the HTTP responses and the
tasks that `ForceClose` queues are left out: a session has the one stream that its constructor
makes, and connections are destroyed and sessions closed by name at any time here.  `κ` is the type
of connections, and `hasApp` says whether the configuration has an application.
-/

/-- A `Session`, which is an object, so it has a number. Its name stays. -/
structure SessionPtr where
  id : Nat
  name : List UInt8
  deriving DecidableEq, Repr

/-- A user with its session. -/
structure SessionUser (κ : Type) where
  session : SessionPtr
  user : User κ
  deriving DecidableEq, Repr

/-- How far the handling of a connection is: nothing is handled, a session was found for a user, or
`CloseUser` is before the lock. -/
inductive HandlerStage (κ : Type) where
  | idle
  | found (name : List UInt8) (session : SessionPtr) (type : UserType)
  | exchanged (x : SessionUser κ)
  deriving DecidableEq, Repr

/-- How far `OnTimer` is: it does not have the lock, it is in its loop, `IsTimeout` of a session was
true, or the session was cleared. -/
inductive TimerStage where
  | idle
  | locked
  | timedOut (session : SessionPtr)
  | cleared (session : SessionPtr)
  deriving DecidableEq, Repr

/-- The service with its sessions and connections. `count` numbers sessions, `closing` are the
sessions that `CloseSession` has taken out of the map and not cleared yet. `accepted` is not in the
source: it has the users that were let in. -/
structure LiveService (κ : Type) where
  sessions : List UInt8 → Option SessionPtr := fun _ => none
  objects : SessionPtr → LiveSession κ := fun _ => {}
  count : Nat := 0
  context : κ → Option (SessionUser κ) := fun _ => none
  stage : κ → HandlerStage κ := fun _ => .idle
  closing : List SessionPtr := []
  timer : TimerStage := .idle
  accepted : List (SessionUser κ) := []

namespace LiveService

variable {κ : Type} [DecidableEq κ]

/-- A session is changed. -/
def setObject (s : LiveService κ) (p : SessionPtr) (session : LiveSession κ) : LiveService κ :=
  { s with objects := Function.update s.objects p session }

/-- The handling of a connection goes on. -/
def setStage (s : LiveService κ) (c : κ) (stage : HandlerStage κ) : LiveService κ :=
  { s with stage := Function.update s.stage c stage }

/-- `destroyed_` of a user. -/
def destroyed (s : LiveService κ) (x : SessionUser κ) : Bool :=
  (s.objects x.session).destroyed x.user

/-- `CreateSession`. -/
def createSession (hasApp : List UInt8 → List UInt8 → Bool) (s : LiveService κ)
    (sessionName : List UInt8) : LiveService κ × Option SessionPtr :=
  match s.sessions sessionName with
  | some p => (s, some p)
  | none =>
      match StringUtils.splitString sessionName (ascii "/") with
      | [domain, app, _] =>
          if hasApp domain app then
            let p := ⟨s.count, sessionName⟩
            ({ s with
                sessions := Function.update s.sessions sessionName (some p)
                count := s.count + 1 }, some p)
          else
            (s, none)
      | _ => (s, none)

/-- The first part of `OnPublish`, `OnPlay` and `OnRequest` for a user of some type. -/
def findSession (hasApp : List UInt8 → List UInt8 → Bool) (s : LiveService κ) (c : κ)
    (sessionName : List UInt8) (type : UserType) : LiveService κ :=
  match s.createSession hasApp sessionName with
  | (s, some p) => s.setStage c (.found sessionName p type)
  | (s, none) => s

/-- The name of the session and the extension of the file in the path of a request. -/
def requestTarget (path : List UInt8) : Option (List UInt8 × List UInt8) :=
  match StringUtils.splitString path (ascii "/") with
  | _ :: domain :: app :: filename :: rest =>
      let (filename, streamName) :=
        match rest with
        | file :: _ => (file, filename)
        | [] => (filename, StringUtils.fileName filename)
      some (domain ++ ascii "/" ++ app ++ ascii "/" ++ streamName, StringUtils.extension filename)
  | _ => none

/-- The first part of `OnRequest` for a request. -/
def onRequest (hasApp : List UInt8 → List UInt8 → Bool) (s : LiveService κ) (c : κ)
    (path : List UInt8) : LiveService κ :=
  match requestTarget path with
  | some (sessionName, ext) =>
      if ext = ascii "flv" then
        s.findSession hasApp c sessionName .playerFlv
      else
        (s.createSession hasApp sessionName).1
  | none => s

/-- `CreatePublishUser` and `CreatePlayerUser`. -/
def createUser (s : LiveService κ) (c : κ) (sessionName : List UInt8) (p : SessionPtr)
    (type : UserType) : Option (LiveService κ × User κ) :=
  if sessionName ≠ p.name then none
  else if (StringUtils.splitString sessionName (ascii "/")).length ≠ 3 then none
  else
    let (session, u) := (s.objects p).createUser c type
    some ({ s.setObject p session with
      context := Function.update s.context c (some ⟨p, u⟩) }, u)

/-- `SetPublisher` or `AddPlayer`. -/
def letIn (s : LiveService κ) (p : SessionPtr) (u : User κ) : LiveService κ :=
  let session :=
    if u.publishes then (s.objects p).setPublisher u else ((s.objects p).addPlayer u).1
  { s.setObject p session with accepted := s.accepted ++ [⟨p, u⟩] }

/-- The rest of `OnPublish`, `OnPlay` and `OnRequest`. -/
def addUser (s : LiveService κ) (c : κ) : LiveService κ :=
  match s.stage c with
  | .found sessionName p type =>
      let s := s.setStage c .idle
      match s.createUser c sessionName p type with
      | some (s, u) => s.letIn p u
      | none => s
  | _ => s

/-- `OnConnectionDestroy`, up to the lock of `CloseUser`. -/
def onConnectionDestroy (s : LiveService κ) (c : κ) : LiveService κ :=
  match s.context c with
  | none => s
  | some x =>
      if s.destroyed x then
        { s with context := Function.update s.context c none }
      else
        (s.setObject x.session ((s.objects x.session).destroy x.user)).setStage c (.exchanged x)

/-- The rest of `OnConnectionDestroy`. -/
def closeUser (s : LiveService κ) (c : κ) : LiveService κ :=
  match s.stage c with
  | .exchanged x =>
      let s := s.setObject x.session ((s.objects x.session).removeUser x.user)
      { s.setStage c .idle with context := Function.update s.context c none }
  | _ => s

/-- `CloseSession`, up to the end of the lock. -/
def closeSession (s : LiveService κ) (sessionName : List UInt8) : LiveService κ :=
  match s.sessions sessionName with
  | some p =>
      { s with
        sessions := Function.update s.sessions sessionName none
        closing := p :: s.closing }
  | none => s

/-- The rest of `CloseSession`. -/
def clearSession (s : LiveService κ) (p : SessionPtr) : LiveService κ :=
  if p ∈ s.closing then
    { s.setObject p (s.objects p).clear with closing := s.closing.erase p }
  else
    s

/-- `IsTimeout` of a session, when `Timeout` of its stream is as it is and the time without players
is over or not. -/
def isTimeout (session : LiveSession κ) (streamTimeout idle : Bool) : Bool :=
  streamTimeout || session.players.isEmpty && idle

/-- The test in the loop of `OnTimer`, at the session of a name. -/
def timerVisit (s : LiveService κ) (sessionName : List UInt8) (streamTimeout idle : Bool) :
    LiveService κ :=
  match s.timer, s.sessions sessionName with
  | .locked, some p =>
      if isTimeout (s.objects p) streamTimeout idle then { s with timer := .timedOut p } else s
  | _, _ => s

/-- The other steps of `OnTimer`: the lock, `Clear`, the erasing and the end of the lock. -/
def timerNext (s : LiveService κ) : LiveService κ :=
  match s.timer with
  | .idle => { s with timer := .locked }
  | .locked => { s with timer := .idle }
  | .timedOut p => { s.setObject p (s.objects p).clear with timer := .cleared p }
  | .cleared p =>
      { s with sessions := Function.update s.sessions p.name none, timer := .locked }

/-- What happens: the two parts of `OnPublish`, `OnPlay` and `OnRequest`, of `OnConnectionDestroy`
and of `CloseSession`, and the steps of `OnTimer`. -/
inductive Event (κ : Type) where
  | publish (c : κ) (sessionName : List UInt8)
  | play (c : κ) (sessionName : List UInt8)
  | request (c : κ) (path : List UInt8)
  | addUser (c : κ)
  | destroy (c : κ)
  | closeUser (c : κ)
  | closeSession (sessionName : List UInt8)
  | clearSession (p : SessionPtr)
  | timerVisit (sessionName : List UInt8) (streamTimeout idle : Bool)
  | timerNext
  deriving DecidableEq, Repr

/-- One event; one that cannot happen changes nothing. -/
def step (hasApp : List UInt8 → List UInt8 → Bool) (s : LiveService κ) : Event κ → LiveService κ
  | .publish c sessionName =>
      if s.stage c = .idle ∧ s.timer = .idle then
        s.findSession hasApp c sessionName .publishRtmp
      else
        s
  | .play c sessionName =>
      if s.stage c = .idle ∧ s.timer = .idle then
        s.findSession hasApp c sessionName .playerRtmp
      else
        s
  | .request c path =>
      if s.stage c = .idle ∧ s.timer = .idle then s.onRequest hasApp c path else s
  | .addUser c => s.addUser c
  | .destroy c => if s.stage c = .idle then s.onConnectionDestroy c else s
  | .closeUser c => s.closeUser c
  | .closeSession sessionName => if s.timer = .idle then s.closeSession sessionName else s
  | .clearSession p => s.clearSession p
  | .timerVisit sessionName streamTimeout idle => s.timerVisit sessionName streamTimeout idle
  | .timerNext => s.timerNext

end LiveService
