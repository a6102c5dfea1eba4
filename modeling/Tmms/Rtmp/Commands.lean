import Mathlib.Data.List.Basic
import Tmms.Base.Strings
import Tmms.Amf.Bounds
import Tmms.Amf.Property

/-!
# Commands

`RtmpContext::HandleAmfCommand` and the handlers it dispatches to.  They look properties up
and use what they get without asking whether it is there, so a handler either runs to its end
or stops at a null pointer.  `Complete` says which properties a command needs: with them no
property is missing, and without one of them one is.
-/

open AMFObject StringUtils

/-- The pointers that are used unchecked: a property, the object that a property should be,
and the handler of the application. Decoding may fail before that. -/
inductive Fault where
  | missingProperty
  | nullObject
  | nullHandler
  | decode (e : DecodeError)
  deriving DecidableEq, Repr

/-- The fields of a context that commands read and write. -/
structure Session where
  /-- `app_` -/
  app : List UInt8
  /-- `tc_url_` -/
  tcUrl : List UInt8
  /-- `name_` -/
  name : List UInt8
  /-- `session_name_` -/
  sessionName : List UInt8
  /-- `param_` -/
  param : List UInt8
  /-- `is_player_` -/
  isPlayer : Bool
  /-- `rtmp_handler_` is set. -/
  hasHandler : Bool
  deriving DecidableEq, Repr

/-- What a handler sends, and what it calls of the application's handler. -/
inductive Effect where
  | sendAckWindowSize
  | sendSetPeerBandwidth
  | sendSetChunkSize
  | sendConnectResult (amf3 : Bool)
  | sendCreateStreamResult (tranId : Option UInt64)
  | sendStreamBegin
  | sendStatus (level code description : List UInt8)
  | sendCreateStream
  | sendPlay (name : List UInt8)
  | sendPublish (name : List UInt8)
  | onPlay (sessionName param : List UInt8)
  | onPublish (sessionName param : List UInt8)
  | onPublishPrepare
  | forceClose
  deriving DecidableEq, Repr

/-- The commands that have a handler. -/
inductive Command where
  | connect
  | createStream
  | result
  | error
  | onStatus
  | play
  | publish
  deriving DecidableEq, Repr

namespace RtmpContext

/-- `commands_`. -/
def commands (method : List UInt8) : Option Command :=
  if method = ascii "connect" then some .connect
  else if method = ascii "createStream" then some .createStream
  else if method = ascii "_result" then some .result
  else if method = ascii "_error" then some .error
  else if method = ascii "onStatus" then some .onStatus
  else if method = ascii "play" then some .play
  else if method = ascii "publish" then some .publish
  else none

/-- The property that a lookup answered with. -/
def property (p : Option AMFAny) : Except Fault AMFAny :=
  match p with
  | some p => .ok p
  | none => .error .missingProperty

/-- The object that a property answered with. -/
def object (properties : Option (List AMFAny)) : Except Fault (List AMFAny) :=
  match properties with
  | some properties => .ok properties
  | none => .error .nullObject

/-- What a handler leaves and does. -/
abbrev Handled := Except Fault (Session × List Effect)

/-- The part of `ParseNameAndTcUrl` that reads the url. The domain is given first. -/
def parseTcUrl (s : Session) : List UInt8 × Session :=
  match splitString s.tcUrl (ascii "/") with
  | [_, _, _, domain, app, name] => (domain, { s with app, name })
  | [_, _, _, domain, app] => (domain, { s with app })
  | [_, _, domain, app] => (domain, { s with app })
  | _ => ([], s)

/-- `ParseNameAndTcUrl`. -/
def parseNameAndTcUrl (s : Session) : Session :=
  let s :=
    match find (ascii "/") s.app with
    | some pos => { s with app := s.app.drop (pos + 1) }
    | none => s
  let s := { s with param := [] }
  let s :=
    match find (ascii "?") s.name with
    | some pos => { s with param := s.name.drop (pos + 1), name := s.name.take pos }
    | none => s
  let (domain, s) := parseTcUrl s
  let domain :=
    match find (ascii ":") domain with
    | some pos => domain.take pos
    | none => domain
  { s with sessionName := domain ++ ascii "/" ++ s.app ++ ascii "/" ++ s.name }

/-- The part of `HandleConnect` that reads the object of the command, if there is one. It
tells whether the client asks for AMF3. -/
def readConnectObject (s : Session) : Option (List AMFAny) → Except Fault (Session × Bool)
  | none => .ok (s, false)
  | some sub => do
    let app ← property (propertyNamed (ascii "app") sub)
    let amf3 :=
      match propertyNamed (ascii "objectEncoding") sub with
      | some encoding => encoding.asNumber = some 3
      | none => false
    .ok ({ s with app := app.asString }, amf3)

/-- `HandleConnect`. -/
def handleConnect (s : Session) (obj : List AMFAny) : Handled := do
  let tcUrl ← property (propertyNamed (ascii "tcUrl") obj)
  let sub ← property (propertyAt 2 obj)
  let (s, amf3) ← readConnectObject { s with tcUrl := tcUrl.asString } sub.asObject
  .ok (s, [.sendAckWindowSize, .sendSetPeerBandwidth, .sendSetChunkSize,
    .sendConnectResult amf3])

/-- `HandleCreateStream`. -/
def handleCreateStream (s : Session) (obj : List AMFAny) : Handled := do
  let tranId ← property (propertyAt 1 obj)
  .ok (s, [.sendCreateStreamResult tranId.asNumber])

/-- `HandlePlay`. -/
def handlePlay (s : Session) (obj : List AMFAny) : Handled := do
  let _ ← property (propertyAt 1 obj)
  let name ← property (propertyAt 3 obj)
  let s := parseNameAndTcUrl { s with name := name.asString }
  .ok ({ s with isPlayer := true },
    [.sendStreamBegin,
      .sendStatus (ascii "status") (ascii "NetStream.Play.Start") (ascii "Start Playing")] ++
    if s.hasHandler then [.onPlay s.sessionName s.param] else [])

/-- `HandlePublish`. -/
def handlePublish (s : Session) (obj : List AMFAny) : Handled := do
  let _ ← property (propertyAt 1 obj)
  let name ← property (propertyAt 3 obj)
  let s := parseNameAndTcUrl { s with name := name.asString }
  .ok ({ s with isPlayer := false },
    [.sendStatus (ascii "status") (ascii "NetStream.Publish.Start")
        (ascii "Start Publishing")] ++
    if s.hasHandler then [.onPublish s.sessionName s.param] else [])

/-- `HandleResult`. -/
def handleResult (s : Session) (obj : List AMFAny) : Handled := do
  let id ← property (propertyAt 1 obj)
  .ok (s,
    if id.asNumber = some 1 then [.sendCreateStream]
    else if id.asNumber = some 4 then
      if s.isPlayer then [.sendPlay s.name] else [.sendPublish s.name]
    else if id.asNumber = some 5 then
      if s.hasHandler then [.onPublishPrepare] else []
    else [])

/-- A property of the object that is the fourth property, as `HandleError` and `HandleStatus`
look it up. -/
def information (key : List UInt8) (obj : List AMFAny) : Except Fault AMFAny := do
  let info ← property (propertyAt 3 obj)
  let properties ← object info.asObject
  property (propertyNamed key properties)

/-- `HandleError`. -/
def handleError (s : Session) (obj : List AMFAny) : Handled := do
  let _ ← information (ascii "description") obj
  .ok (s, [.forceClose])

/-- `HandleStatus`, which does not ask whether there is a handler. -/
def handleStatus (s : Session) (obj : List AMFAny) : Handled := do
  let code ← information (ascii "code") obj
  let _ ← information (ascii "level") obj
  if code.asString = ascii "NetStream.Publish.Start" then
    if s.hasHandler then .ok (s, [.onPublish s.sessionName s.param]) else .error .nullHandler
  else if code.asString = ascii "NetStream.Play.Start" then
    if s.hasHandler then .ok (s, [.onPlay s.sessionName s.param]) else .error .nullHandler
  else
    .ok (s, [])

/-- The handler of a command. -/
def handle : Command → Session → List AMFAny → Handled
  | .connect => handleConnect
  | .createStream => handleCreateStream
  | .result => handleResult
  | .error => handleError
  | .onStatus => handleStatus
  | .play => handlePlay
  | .publish => handlePublish

/-- `HandleAmfCommand` behind the decoding. -/
def dispatch (s : Session) (obj : List AMFAny) : Handled := do
  let method ← property (propertyAt 0 obj)
  match commands method.asString with
  | none => .ok (s, [])
  | some command => handle command s obj

/-- The body that is decoded. -/
def commandBody (amf3 : Bool) (body : List UInt8) : List UInt8 :=
  if amf3 then body.drop 1 else body

/-- `HandleAmfCommand`. -/
def handleAmfCommand (s : Session) (amf3 : Bool) (body : List UInt8) : Handled :=
  match decodeBody false (commandBody amf3 body) with
  | .error .rejected => .ok (s, [])
  | .error e => .error (.decode e)
  | .ok (obj, _) => dispatch s obj

/-! ### Missing properties -/

/-- No property or object that is used is a null pointer. -/
def PropertiesExist {α : Type} (r : Except Fault α) : Prop :=
  r ≠ .error .missingProperty ∧ r ≠ .error .nullObject

/-- The properties that a command needs: those at the positions its handler uses, and those
named inside an object. A url without `app` is no object. -/
def Needs : Command → List AMFAny → Prop
  | .connect, obj =>
    Named (ascii "tcUrl") obj ∧
      ∃ p, obj[2]? = some p ∧ ∀ name qs, p = .object name qs → Named (ascii "app") qs
  | .createStream, obj => 1 < obj.length
  | .result, obj => 1 < obj.length
  | .error, obj => ∃ name qs, obj[3]? = some (.object name qs) ∧ Named (ascii "description") qs
  | .onStatus, obj =>
    ∃ name qs, obj[3]? = some (.object name qs) ∧ Named (ascii "code") qs ∧
      Named (ascii "level") qs
  | .play, obj => 3 < obj.length
  | .publish, obj => 3 < obj.length

/-- There is a method, and if it has a handler, what that needs is there. -/
def Complete (obj : List AMFAny) : Prop :=
  ∃ p, obj[0]? = some p ∧ ∀ command, commands p.asString = some command → Needs command obj

section Exist

variable {α : Type}

/-- Going on from a property. -/
theorem exist_property_bind {p : Option AMFAny} {f : AMFAny → Except Fault α} :
  PropertiesExist (property p >>= f) ↔ ∃ q, p = some q ∧ PropertiesExist (f q)
  := by
  cases p with
  | none =>
      constructor
      · intro h
        cases h.1 rfl
      · rintro ⟨q, ⟨⟩, -⟩
  | some p =>
      constructor
      · intro h
        exact ⟨p, rfl, h⟩
      · rintro ⟨q, ⟨⟩, h⟩
        apply h

/-- Going on from an object. -/
theorem exist_object_bind {o : Option (List AMFAny)} {f : List AMFAny → Except Fault α} :
  PropertiesExist (object o >>= f) ↔ ∃ qs, o = some qs ∧ PropertiesExist (f qs)
  := by
  cases o with
  | none =>
      constructor
      · intro h
        cases h.2 rfl
      · rintro ⟨q, ⟨⟩, -⟩
  | some qs =>
      constructor
      · intro h
        exact ⟨qs, rfl, h⟩
      · rintro ⟨q, ⟨⟩, h⟩
        apply h

theorem exist_ok (a : α) :
  PropertiesExist (.ok a)
  := by
  constructor
  · rintro ⟨⟩
  · rintro ⟨⟩

/-- Another fault is not a missing property. -/
theorem exist_error {fault : Fault} (hproperty : fault ≠ .missingProperty)
    (hobject : fault ≠ .nullObject) :
  PropertiesExist (.error fault : Except Fault α)
  := by
  constructor
  · rintro ⟨⟩
    contradiction
  · rintro ⟨⟩
    contradiction

/-- Ending without a fault behind a part adds nothing to what the part needs. -/
theorem exist_bind_ok {β : Type} (r : Except Fault α) (f : α → β) :
  PropertiesExist (r >>= fun a => .ok (f a)) ↔ PropertiesExist r
  := by
  cases r with
  | ok a =>
      constructor
      · intro
        apply exist_ok
      · intro
        apply exist_ok
  | error fault => simp only [PropertiesExist, bind, Except.bind, ne_eq, Except.error.injEq]

/-- Going on from a property of the fourth property. -/
theorem exist_information_bind {key : List UInt8} {obj : List AMFAny}
    {f : AMFAny → Except Fault α} :
  PropertiesExist (information key obj >>= f) ↔
    ∃ name qs q, obj[3]? = some (.object name qs) ∧ propertyNamed key qs = some q ∧
      PropertiesExist (f q)
  := by
  simp only [information, bind_assoc, exist_property_bind, exist_object_bind]
  constructor
  · rintro ⟨p, hp, qs, hqs, q, hq, h⟩
    cases p with
    | object name qs' =>
        cases hqs
        use name, qs, q, hp, hq
    | _ => cases hqs
  · rintro ⟨name, qs, q, hp, hq, h⟩
    exact ⟨_, hp, qs, rfl, q, hq, h⟩

end Exist

/-- Using a property at a position and going on without faults. -/
theorem exist_propertyAt_bind {α : Type} {index : Nat} {obj : List AMFAny}
    {f : AMFAny → Except Fault α} (hf : ∀ p, PropertiesExist (f p)) :
  PropertiesExist (property (propertyAt index obj) >>= f) ↔ index < obj.length
  := by
  rw [exist_property_bind]
  constructor
  · rintro ⟨p, hp, -⟩
    apply (List.getElem?_eq_some_iff.mp hp).1
  · intro h
    exact ⟨obj[index], List.getElem?_eq_getElem h, hf _⟩

/-- A name is found where there is a property of that name. -/
theorem exists_propertyNamed {key : List UInt8} {obj : List AMFAny} :
  (∃ p, propertyNamed key obj = some p) ↔ Named key obj
  := by
  rw [← propertyNamed_isSome_iff, Option.isSome_iff_exists]

/-- Reading the object of a connect command needs `app` in it, if it is one. -/
theorem exist_readConnectObject (s : Session) (p : AMFAny) :
  PropertiesExist (readConnectObject s p.asObject) ↔
    ∀ name qs, p = .object name qs → Named (ascii "app") qs
  := by
  cases p with
  | object name qs =>
      rw [AMFAny.asObject, readConnectObject, exist_property_bind]
      constructor
      · rintro ⟨app, happ, -⟩ _ _ ⟨⟩
        apply exists_propertyNamed.mp ⟨app, happ⟩
      · intro h
        obtain ⟨app, happ⟩ := exists_propertyNamed.mpr (h name qs rfl)
        exact ⟨app, happ, exist_ok _⟩
  | _ =>
      constructor
      · rintro - name qs ⟨⟩
      · intro
        apply exist_ok

theorem exist_handleConnect (s : Session) (obj : List AMFAny) :
  PropertiesExist (handleConnect s obj) ↔ Needs .connect obj
  := by
  rw [handleConnect, Needs, exist_property_bind, ← exists_propertyNamed]
  constructor
  · rintro ⟨tcUrl, htcUrl, h⟩
    obtain ⟨p, hp, h⟩ := exist_property_bind.mp h
    use ⟨tcUrl, htcUrl⟩, p, hp
    apply (exist_readConnectObject _ p).mp ((exist_bind_ok _ _).mp h)
  · rintro ⟨⟨tcUrl, htcUrl⟩, p, hp, h⟩
    use tcUrl, htcUrl
    apply exist_property_bind.mpr
    use p, hp
    apply (exist_bind_ok _ _).mpr ((exist_readConnectObject _ p).mpr h)

/-- `HandlePlay` and `HandlePublish` use the second and the fourth property. -/
theorem exist_play_bind {α : Type} {obj : List AMFAny} {f : AMFAny → Except Fault α}
    (hf : ∀ p, PropertiesExist (f p)) :
  PropertiesExist
      (do
        let _ ← property (propertyAt 1 obj)
        let name ← property (propertyAt 3 obj)
        f name) ↔ 3 < obj.length
  := by
  rw [exist_property_bind]
  constructor
  · rintro ⟨_, -, h⟩
    apply (exist_propertyAt_bind hf).mp h
  · intro h
    exact ⟨obj[1], List.getElem?_eq_getElem _, (exist_propertyAt_bind hf).mpr h⟩

theorem exist_handleError (s : Session) (obj : List AMFAny) :
  PropertiesExist (handleError s obj) ↔ Needs .error obj
  := by
  rw [handleError, Needs, exist_information_bind]
  constructor
  · rintro ⟨name, qs, q, hobj, hq, -⟩
    use name, qs, hobj
    apply exists_propertyNamed.mp ⟨q, hq⟩
  · rintro ⟨name, qs, hobj, hnamed⟩
    obtain ⟨q, hq⟩ := exists_propertyNamed.mpr hnamed
    exact ⟨name, qs, q, hobj, hq, exist_ok _⟩

theorem exist_handleStatus (s : Session) (obj : List AMFAny) :
  PropertiesExist (handleStatus s obj) ↔ Needs .onStatus obj
  := by
  have hend : ∀ code : AMFAny, PropertiesExist
      (if code.asString = ascii "NetStream.Publish.Start" then
        if s.hasHandler then .ok (s, [.onPublish s.sessionName s.param]) else .error .nullHandler
      else if code.asString = ascii "NetStream.Play.Start" then
        if s.hasHandler then .ok (s, [.onPlay s.sessionName s.param]) else .error .nullHandler
      else .ok (s, []) : Handled)
    := by
    intro code
    split_ifs
    · apply exist_ok
    · apply exist_error <;> rintro ⟨⟩
    · apply exist_ok
    · apply exist_error <;> rintro ⟨⟩
    · apply exist_ok
  rw [handleStatus, Needs, exist_information_bind]
  constructor
  · rintro ⟨name, qs, code, hobj, hcode, h⟩
    obtain ⟨name', qs', level, hobj', hlevel, -⟩ := exist_information_bind.mp h
    cases hobj.symm.trans hobj'
    use name, qs, hobj, exists_propertyNamed.mp ⟨code, hcode⟩
    apply exists_propertyNamed.mp ⟨level, hlevel⟩
  · rintro ⟨name, qs, hobj, hcode, hlevel⟩
    obtain ⟨code, hcode⟩ := exists_propertyNamed.mpr hcode
    obtain ⟨level, hlevel⟩ := exists_propertyNamed.mpr hlevel
    use name, qs, code, hobj, hcode
    apply exist_information_bind.mpr
    exact ⟨name, qs, level, hobj, hlevel, hend code⟩

/-- A handler finds its properties exactly when the ones it needs are there. -/
theorem exist_handle (command : Command) (s : Session) (obj : List AMFAny) :
  PropertiesExist (handle command s obj) ↔ Needs command obj
  := by
  cases command with
  | connect => apply exist_handleConnect
  | createStream => apply exist_propertyAt_bind (fun _ => exist_ok _)
  | result => apply exist_propertyAt_bind (fun _ => exist_ok _)
  | error => apply exist_handleError
  | onStatus => apply exist_handleStatus
  | play => apply exist_play_bind (fun _ => exist_ok _)
  | publish => apply exist_play_bind (fun _ => exist_ok _)

/-- The same for what is dispatched. -/
theorem exist_dispatch (s : Session) (obj : List AMFAny) :
  PropertiesExist (dispatch s obj) ↔ Complete obj
  := by
  rw [dispatch, exist_property_bind, Complete]
  apply exists_congr
  intro p
  apply and_congr_right
  intro hp
  cases hc : commands p.asString with
  | none =>
      constructor
      · rintro - command ⟨⟩
      · intro
        apply exist_ok
  | some command =>
      constructor
      · rintro h command' ⟨⟩
        apply (exist_handle command s obj).mp h
      · intro h
        apply (exist_handle command s obj).mpr (h command rfl)

/-- A command from the network meets no missing property and no null object exactly when what
is decoded of its body is complete. -/
theorem exist_handleAmfCommand_iff (s : Session) (amf3 : Bool) (body : List UInt8) :
  PropertiesExist (handleAmfCommand s amf3 body) ↔
    ∀ obj n, decodeBody false (commandBody amf3 body) = .ok (obj, n) → Complete obj
  := by
  rw [handleAmfCommand]
  cases hd : decodeBody false (commandBody amf3 body) with
  | ok r =>
      constructor
      · rintro h obj n ⟨⟩
        apply (exist_dispatch s obj).mp h
      · intro h
        apply (exist_dispatch s r.1).mpr (h r.1 r.2 rfl)
  | error e =>
      constructor
      · rintro - obj n ⟨⟩
      · intro
        cases e with
        | rejected => apply exist_ok
        | outOfBounds => apply exist_error <;> rintro ⟨⟩
        | outOfFuel => apply exist_error <;> rintro ⟨⟩

/-- The session of a context that has just been made. -/
def newSession : Session where
  app := []
  tcUrl := []
  name := []
  sessionName := []
  param := []
  isPlayer := false
  hasHandler := true

/-- A body of one string, the name of a command, is decoded, and its handler uses a property
that is missing. -/
theorem not_exist_handleAmfCommand_play :
  ∃ obj n, decodeBody false ([2, 0, 4] ++ ascii "play") = .ok (obj, n) ∧
    ¬ PropertiesExist (handleAmfCommand newSession false ([2, 0, 4] ++ ascii "play"))
  := by
  have hfault : handleAmfCommand newSession false ([2, 0, 4] ++ ascii "play") =
      .error .missingProperty
    := by rfl
  use [.string [] (ascii "play")], 7
  constructor
  · rfl
  · rw [hfault]
    rintro ⟨hproperty, -⟩
    apply hproperty rfl

end RtmpContext
