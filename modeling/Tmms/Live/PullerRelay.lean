import Mathlib.Logic.Function.Basic
import Tmms.Base.Bytes
import Tmms.Base.Strings

/-!
# Relays

The pull targets of an application are made by `AppInfo::ParseAppInfo` and shared by its
sessions: `PullerRelay::GetTargets` copies the pointers.  So targets are on a heap, a function
from numbers, and `AppInfo::pulls` is a list of numbers.  A `PullerRelay` selects one target
after another, and its puller asks the target for a stream.
-/

/-! ### Targets -/

/-- A `Target`; `session_name` is only logged and is not here. -/
structure Target where
  remoteHost : List UInt8 := []
  remotePort : UInt16
  domainName : List UInt8 := []
  appName : List UInt8 := []
  streamName : List UInt8 := []
  protocol : List UInt8 := []
  url : List UInt8 := []
  interval : Int := 1000
  maxRetry : Int := 0
  retry : Int := 0
  param : List UInt8 := []
  deriving DecidableEq, Repr

/-- The JSON object of a target. -/
structure TargetConfig where
  protocol : Option (List UInt8) := none
  url : Option (List UInt8) := none
  param : Option (List UInt8) := none
  host : Option (List UInt8) := none
  port : Option UInt32 := none
  interval : Option UInt32 := none
  maxRetry : Option UInt32 := none
  deriving DecidableEq, Repr

namespace Target

/-- The port of a host that names none. -/
def defaultPort (t : Target) : UInt16 :=
  if t.protocol = ascii "rtmp" then
    1935
  else if t.protocol = ascii "http" then
    80
  else if t.protocol = ascii "pav" then
    22000
  else
    t.remotePort

/-- The host, and behind a colon the port. -/
def parseHost (t : Target) (host : List UInt8) : Target :=
  match StringUtils.find (ascii ":") host with
  | some pos =>
    { t with
      remotePort := .ofInt (atoi (host.drop (pos + 1)))
      remoteHost := host.take pos }
  | none => { t with remotePort := t.defaultPort, remoteHost := host }

/-- `ParseTargetUrl`. A URL of less than seven bytes makes `substr` throw. -/
def parseTargetUrl (t : Target) (url : List UInt8) : Option Target :=
  if t.protocol = ascii "http" then
    match StringUtils.find (ascii "/") (url.drop 7) with
    | some pos =>
      match StringUtils.find (ascii ":") t.remoteHost with
      | some pos1 =>
        some { t with
          remotePort := .ofInt (atoi (t.remoteHost.drop (pos1 + 1)))
          remoteHost := t.remoteHost.take pos1 }
      | none => some { t with remoteHost := (url.drop 7).take (pos + 7), remotePort := 80 }
    | none =>
      if url.length < 7 then
        none
      else
        some { t with remoteHost := url.drop 7, remotePort := 80 }
  else
    some t

/-- `ParseTarget`. -/
def parseTarget (t : Target) (root : TargetConfig) : Option Target := do
  let t := { t with
    protocol := root.protocol.getD t.protocol
    url := root.url.getD t.url
    param := root.param.getD t.param }
  let t ← match root.host with
    | some host => some (t.parseHost host)
    | none => t.parseTargetUrl t.url
  return { t with
    remotePort := (root.port.map (·.toUInt16)).getD t.remotePort
    interval := (root.interval.map int32).getD t.interval
    maxRetry := (root.maxRetry.map int32).getD t.maxRetry }

/-- Two targets have the same names and the same counter. -/
def SameNames (t t' : Target) : Prop :=
  t'.domainName = t.domainName ∧ t'.appName = t.appName ∧ t'.streamName = t.streamName ∧
    t'.retry = t.retry

theorem parseHost_names (t : Target) (host : List UInt8) :
  SameNames t (t.parseHost host)
  := by
  rw [parseHost]
  split
  · exact ⟨rfl, rfl, rfl, rfl⟩
  · exact ⟨rfl, rfl, rfl, rfl⟩

theorem parseTargetUrl_names {t t' : Target} {url : List UInt8}
    (h : t.parseTargetUrl url = some t') :
  SameNames t t'
  := by
  fun_cases parseTargetUrl t url
  case case3 => simp_all [parseTargetUrl]
  all_goals
    simp_all [parseTargetUrl]
    rw [← h]
    exact ⟨rfl, rfl, rfl, rfl⟩

/-- Parsing leaves the names and the counter of a target as they are. -/
theorem parseTarget_names {t t' : Target} {root : TargetConfig}
    (h : t.parseTarget root = some t') :
  SameNames t t'
  := by
  rw [parseTarget] at h
  rcases hhost : root.host with _ | host
  · rw [hhost] at h
    obtain ⟨u, hu, h⟩ := Option.bind_eq_some_iff.mp h
    obtain ⟨hdomain, happ, hstream, hretry⟩ := parseTargetUrl_names hu
    cases h
    exact ⟨hdomain, happ, hstream, hretry⟩
  · rw [hhost] at h
    cases h
    exact parseHost_names { t with
      protocol := root.protocol.getD t.protocol
      url := root.url.getD t.url
      param := root.param.getD t.param } host

end Target

/-- The targets of `ParseAppInfo`. What `remote_port` holds before is not initialised, and is
given with each object. -/
def parsePulls (domainName appName : List UInt8) (pulls : List (UInt16 × TargetConfig)) :
    Option (List Target) :=
  pulls.mapM fun a =>
    Target.parseTarget { remotePort := a.1, domainName := domainName, appName := appName } a.2

/-- The URL a target is asked for. -/
def Target.pullUrl (t : Target) : List UInt8 :=
  ascii "rtmp://" ++ t.remoteHost ++ ascii ":" ++ ascii (toString t.remotePort) ++ ascii "/" ++
    t.domainName ++ ascii "/" ++ t.appName ++ ascii "/" ++ t.streamName

/-! ### A relay -/

/-- A `PullerRelay`. `targets` and `currentTarget` are pointers; of the puller only whether
there is one is kept, as it holds no state that a request depends on. -/
structure PullerRelay where
  targets : List Nat := []
  currentTarget : Option Nat := none
  curTargetIndex : Int := -1
  puller : Bool := false
  deriving DecidableEq, Repr

/-- What a relay does outside: `RtmpClient::Play` and `LiveService::CloseSession`. -/
inductive RelayOutput where
  | play (url : List UInt8)
  | closeSession (sessionName : List UInt8)
  deriving DecidableEq, Repr

namespace PullerRelay

/-- The current target is tried again. -/
def retries (targets : Nat → Target) (r : PullerRelay) : Option Nat :=
  r.currentTarget.filter fun t => (targets t).retry < (targets t).maxRetry

/-- The stream name a selected target gets when it has none. -/
def fillStreamName (sessionName : List UInt8) (t : Target) : Target :=
  if t.streamName = [] then
    match StringUtils.splitString sessionName (ascii "/") with
    | [_, _, stream] => { t with streamName := stream }
    | _ => t
  else
    t

/-- `GetPuller`: there are only RTMP pullers. -/
def getPuller (t : Target) : Bool := t.protocol = ascii "RTMP" ∨ t.protocol = ascii "rtmp"

/-- `SelectTarget`. -/
def selectTarget (sessionName : List UInt8) (targets : Nat → Target) (r : PullerRelay) :
    (Nat → Target) × PullerRelay × List RelayOutput :=
  match r.retries targets with
  | some t =>
    (Function.update targets t { targets t with retry := (targets t).retry + 1 }, r, [])
  | none =>
    let index := r.curTargetIndex + 1
    match r.targets[index.toNat]? with
    | some t =>
      (Function.update targets t (fillStreamName sessionName (targets t)),
        { r with
          curTargetIndex := index
          currentTarget := some t
          puller := getPuller (targets t) }, [])
    | none =>
      (targets, { r with curTargetIndex := index, puller := false }, [.closeSession sessionName])

/-- `RtmpPuller::Pull`. -/
def request (t : Target) : List RelayOutput :=
  if getPuller t then [.play t.pullUrl] else []

/-- `GetTargets`. -/
def getTargets (pulls : List Nat) (r : PullerRelay) : PullerRelay := { r with targets := pulls }

end PullerRelay

/-! ### The relays of an application -/

/-- A task of `RunAfter`: the session of the puller and whether there was one, and the
target. -/
structure PullTimer (ι : Type) where
  session : ι
  puller : Bool
  target : Nat
  deriving DecidableEq, Repr

/-- The heap of targets, the relays of the sessions that have one, and the tasks that wait.
`ι` is the type of the session objects. -/
structure Relays (ι : Type) where
  targets : Nat → Target
  pull : ι → Option PullerRelay := fun _ => none
  timers : List (PullTimer ι) := []

namespace Relays

variable {ι : Type} [DecidableEq ι] (name : ι → List UInt8) (pulls : List Nat)

/-- `PullerRelay::Pull`, for the relay `r` of a session. -/
def pullTarget (w : Relays ι) (i : ι) (r : PullerRelay) (publishing : Bool) :
    Relays ι × List RelayOutput :=
  if publishing then
    ({ w with pull := Function.update w.pull i (some r) }, [])
  else
    let (targets, r, outputs) := r.selectTarget (name i) w.targets
    let w := { w with targets := targets, pull := Function.update w.pull i (some r) }
    match r.currentTarget with
    | none => (w, outputs)
    | some t =>
      if (targets t).retry = 0 ∨ (targets t).interval = 0 then
        (w, outputs ++ if r.puller then PullerRelay.request (targets t) else [])
      else
        ({ w with timers := w.timers ++ [⟨i, r.puller, t⟩] }, outputs)

/-- `StartPullStream`, on a relay made by `AddPlayer` if there is none. -/
def startPullStream (w : Relays ι) (i : ι) (publishing : Bool) : Relays ι × List RelayOutput :=
  let r := ((w.pull i).getD {}).getTargets pulls
  if r.targets = [] then
    ({ w with pull := Function.update w.pull i (some r) }, [.closeSession (name i)])
  else
    w.pullTarget name i r publishing

/-- `OnPullClose`. -/
def onPullClose (w : Relays ι) (i : ι) (publishing : Bool) : Relays ι × List RelayOutput :=
  match w.pull i with
  | none => (w, [])
  | some r => w.pullTarget name i r publishing

/-- A task of `RunAfter` runs, with the session the output is of. The task does not keep its
puller alive; what it does with a deleted one is undefined, and here it asks all the same. -/
def runTimer (w : Relays ι) (k : Nat) : Relays ι × List (ι × RelayOutput) :=
  match w.timers[k]? with
  | none => (w, [])
  | some task =>
    ({ w with timers := w.timers.eraseIdx k },
      if task.puller then
        (PullerRelay.request (w.targets task.target)).map (task.session, ·)
      else
        [])

/-- What happens: a player starts the relay of a session, a pull fails or its connection
closes, a task runs, a session object is destroyed with its relay. `publishing` is what
`IsPublishing` says. -/
inductive Event (ι : Type) where
  | startPullStream (i : ι) (publishing : Bool)
  | onPullClose (i : ι) (publishing : Bool)
  | runTimer (k : Nat)
  | destroy (i : ι)
  deriving DecidableEq, Repr

/-- The session whose relay an event is about, where that is said by the event. -/
def Event.session : Event ι → Option ι
  | .startPullStream i _ => some i
  | .onPullClose i _ => some i
  | .runTimer _ => none
  | .destroy i => some i

/-- One event, with the session the output is of. -/
def step (w : Relays ι) : Event ι → Relays ι × List (ι × RelayOutput)
  | .startPullStream i publishing =>
    let r := w.startPullStream name pulls i publishing
    (r.1, r.2.map (i, ·))
  | .onPullClose i publishing =>
    let r := w.onPullClose name i publishing
    (r.1, r.2.map (i, ·))
  | .runTimer k => w.runTimer k
  | .destroy i => ({ w with pull := Function.update w.pull i none }, [])

/-- A run from a state: where it ends, and the outputs. -/
def run (w : Relays ι) : List (Event ι) → Relays ι × List (ι × RelayOutput)
  | [] => (w, [])
  | e :: es =>
    let r := (w.step name pulls e).1.run es
    (r.1, (w.step name pulls e).2 ++ r.2)

end Relays
