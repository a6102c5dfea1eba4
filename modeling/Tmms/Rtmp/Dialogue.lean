import Tmms.Base.Doubles
import Tmms.Library.Stages
import Tmms.Rtmp.ClientCommands

/-!
# The dialogue of a client and a server

A client connects, creates a stream and asks to play or to publish it, each command when it has
read the answer to the one before, and a server answers.  Both are contexts of this program, and
what they send arrives in order.  `Dialogue` has the bodies of the commands on the way, in both
directions, and what the handlers of both have been called for.

The messages of the protocol control that go along with the commands change nothing that commands
read, and are left out.

The dialogue begins when the handshake of both sides is over.  A server of this program gets there,
but a client does not (`ClientHandShake`), so what is proved here is about the commands as they are
written, and holds of a client once its handshake is mended.
-/

open AMFAny AMFObject StringUtils Runs

namespace RtmpContext

/-! ### What is sent -/

/-- The body of the result that `HandleConnect` writes. -/
def connectResultBody (amf3 : Bool) : List UInt8 :=
  encodeString (ascii "_result") ++ encodeNumber 0x3FF0000000000000 ++ [3] ++
    encodeNamedString (ascii "fmsVer") (ascii "FMS/3,0,1,123") ++
    encodeNamedNumber (ascii "capabilities") 0x403F000000000000 ++ [0x00, 0x00, 0x09] ++ [3] ++
    encodeNamedString (ascii "level") (ascii "status") ++
    encodeNamedString (ascii "code") (ascii "NetConnection.Connect.Success") ++
    encodeNamedString (ascii "description") (ascii "Connection succeeded.") ++
    encodeNamedNumber (ascii "objectEncoding") (if amf3 then 0x4008000000000000 else 0) ++
    [0x00, 0x00, 0x09]

/-- The body that `SendCreateStream` writes. -/
def createStreamBody : List UInt8 :=
  encodeString (ascii "createStream") ++ encodeNumber 0x4010000000000000 ++ [5]

/-- The body of the result that `HandleCreateStream` writes. -/
def createStreamResultBody (tranId : UInt64) : List UInt8 :=
  encodeString (ascii "_result") ++ encodeNumber (doubleOfUint64 tranId) ++ [5] ++
    encodeNumber 0x3FF0000000000000

/-- The body that `SendStatus` writes. -/
def statusBody (level code description : List UInt8) : List UInt8 :=
  encodeString (ascii "onStatus") ++ encodeNumber 0 ++ [5] ++ [3] ++
    encodeNamedString (ascii "level") level ++ encodeNamedString (ascii "code") code ++
    encodeNamedString (ascii "description") description ++ [0x00, 0x00, 0x09]

/-- The body of the command that an effect sends.  The number of a transaction that is not defined
is a fault. -/
def commandOf (s : Session) : Effect → Option (List (List UInt8))
  | .sendConnectResult amf3 => (commandPacket (connectResultBody amf3)).map ([·])
  | .sendCreateStreamResult none => none
  | .sendCreateStreamResult (some tranId) =>
      (commandPacket (createStreamResultBody tranId)).map ([·])
  | .sendStatus level code description =>
      (commandPacket (statusBody level code description)).map ([·])
  | .sendCreateStream => (commandPacket createStreamBody).map ([·])
  | .sendPlay name => (sendPlay { s with name := name }).map ([·])
  | .sendPublish name => (sendPublish { s with name := name }).map ([·])
  | _ => some []

/-- The bodies of the commands that some effects send, one after the other. -/
def commandsOf (s : Session) : List Effect → Option (List (List UInt8))
  | [] => some []
  | e :: es => do
      let command ← commandOf s e
      let commands ← commandsOf s es
      some (command ++ commands)

end RtmpContext

/-- Whether an effect is a call of the handler of the application. -/
def Effect.isCall : Effect → Bool
  | .onPlay _ _ => true
  | .onPublish _ _ => true
  | .onPublishPrepare => true
  | .forceClose => true
  | _ => false

/-- The party that reads. -/
inductive Party where
  | client
  | server
  deriving DecidableEq, Repr

/-- Both contexts, the commands on the way, and the calls of both handlers. -/
structure Dialogue where
  client : Session
  server : Session
  toServer : List (List UInt8) := []
  toClient : List (List UInt8) := []
  clientCalls : List Effect := []
  serverCalls : List Effect := []
  deriving DecidableEq, Repr

namespace Dialogue

open RtmpContext

/-- What a context does with a body: itself, what it sends and what it calls. -/
def read (s : Session) (body : List UInt8) :
    Option (Session × List (List UInt8) × List Effect) := do
  let (s, effects) ← (handleAmfCommand s false body).toOption
  let commands ← commandsOf s effects
  some (s, commands, effects.filter Effect.isCall)

/-- A party reads the first command that has arrived, if there is one. -/
def step : Option Dialogue → Party → Option Dialogue
  | none, _ => none
  | some d, .server =>
      match d.toServer with
      | [] => some d
      | body :: bodies =>
          (read d.server body).map fun r =>
            { d with
              server := r.1
              toServer := bodies
              toClient := d.toClient ++ r.2.1
              serverCalls := d.serverCalls ++ r.2.2 }
  | some d, .client =>
      match d.toClient with
      | [] => some d
      | body :: bodies =>
          (read d.client body).map fun r =>
            { d with
              client := r.1
              toClient := bodies
              toServer := d.toServer ++ r.2.1
              clientCalls := d.clientCalls ++ r.2.2 }

/-- A client with a handler that was given a url, and a server, both behind their handshake, which no
client of this program finishes.  The client has called `SendConnect`, as it does then. -/
def start (server : Session) (url : List UInt8) (role : Role) : Option Dialogue :=
  let client := RtmpContext.client true url role
  (sendConnect client).map fun connect => { client, server, toServer := [connect] }

end Dialogue

namespace RtmpContext

/-! ### What is read -/

theorem length_capabilities : (ascii "capabilities").length < 2 ^ 16
  := by decide

/-- The result of a connect command. -/
def connectResultCommand : List CommandValue :=
  [.string ⟨ascii "_result", by decide⟩, .number 0x3FF0000000000000,
    .object [
      (⟨ascii "fmsVer", by decide⟩, .string ⟨ascii "FMS/3,0,1,123", by decide⟩),
      (⟨ascii "capabilities", length_capabilities⟩, .number 0x403F000000000000)],
    .object [
      (⟨ascii "level", by decide⟩, .string ⟨ascii "status", by decide⟩),
      (⟨ascii "code", by decide⟩, .string ⟨ascii "NetConnection.Connect.Success", by decide⟩),
      (⟨ascii "description", by decide⟩, .string ⟨ascii "Connection succeeded.", by decide⟩),
      (⟨ascii "objectEncoding", by decide⟩, .number 0)]]

theorem connectResultBody_eq :
  connectResultBody false = CommandValue.encodeAll connectResultCommand
  := by
  simp only [connectResultBody, connectResultCommand, CommandValue.encodeAll,
    CommandValue.encode, CommandField.encodeNamed, List.flatMap_cons, List.flatMap_nil,
    List.append_assoc, List.append_nil, List.cons_append, List.nil_append, if_neg Bool.false_ne_true]

theorem decodeBody_connectResult :
  decodeBody false (connectResultBody false) =
    .ok (connectResultCommand.map CommandValue.property, (connectResultBody false).length)
  := by
  rw [connectResultBody_eq]
  apply CommandValue.decodeBody_encodeAll
  · simp only [connectResultCommand, List.forall_mem_cons, CommandValue.Readable,
      List.not_mem_nil, false_implies, implies_true, and_true, true_and]
    decide
  · simp [connectResultCommand, CommandValue.Long]

/-- What a server is that has read the connect command of a client. -/
def connected (server client : Session) : Session :=
  { server with
    app := client.app
    tcUrl := client.tcUrl }

/-- What it is when it has read the command to play or to publish. -/
def opened (server client : Session) : Session :=
  { parseNameAndTcUrl { connected server client with name := client.name } with
    isPlayer := client.isPlayer }

/-- The body that is sent once the stream is created. -/
def streamBody (s : Session) : List UInt8 := if s.isPlayer then playBody s else publishBody s

/-- The body a server answers it with. -/
def startBody (s : Session) : List UInt8 :=
  if s.isPlayer then
    statusBody (ascii "status") (ascii "NetStream.Play.Start") (ascii "Start Playing")
  else
    statusBody (ascii "status") (ascii "NetStream.Publish.Start") (ascii "Start Publishing")

/-- The call of the handler for a session. -/
def callOf (s : Session) : Effect :=
  if s.isPlayer then .onPlay s.sessionName s.param else .onPublish s.sessionName s.param

/-- The calls of a server, which need not have a handler. -/
def callsOf (s : Session) : List Effect := if s.hasHandler then [callOf s] else []

theorem parseNameAndTcUrl_frame (s : Session) :
  (parseNameAndTcUrl s).isPlayer = s.isPlayer ∧ (parseNameAndTcUrl s).hasHandler = s.hasHandler
  := by
  have hurl : ∀ s : Session, (parseTcUrl s).2.isPlayer = s.isPlayer ∧
      (parseTcUrl s).2.hasHandler = s.hasHandler
    := by
    intro s
    rw [parseTcUrl]
    split <;> exact ⟨rfl, rfl⟩
  rw [parseNameAndTcUrl]
  rw [(hurl _).1, (hurl _).2]
  split <;> split <;> exact ⟨rfl, rfl⟩

end RtmpContext

namespace Dialogue

open RtmpContext

variable {client server : Session}

theorem read_of_handled {s s' : Session} {body : List UInt8} {effects : List Effect}
    {commands : List (List UInt8)} (h : handleAmfCommand s false body = .ok (s', effects))
    (hcommands : commandsOf s' effects = some commands) :
  read s body = some (s', commands, effects.filter Effect.isCall)
  := by
  rw [read, h]
  change (commandsOf s' effects >>= fun commands =>
    some (s', commands, effects.filter Effect.isCall)) = _
  rw [hcommands]
  rfl

theorem commandOf_of_fits {s : Session} {e : Effect} {body : List UInt8}
    (h : commandOf s e = (commandPacket body).map ([·])) (hfits : body.length ≤ 1024) :
  commandOf s e = some [body]
  := by
  rw [h, commandPacket, if_pos hfits]
  rfl

theorem commandsOf_cons {s : Session} {e : Effect} {es : List Effect}
    {command commands : List (List UInt8)} (h : commandOf s e = some command)
    (hs : commandsOf s es = some commands) :
  commandsOf s (e :: es) = some (command ++ commands)
  := by
  rw [commandsOf, h, hs]
  rfl

theorem commandsOf_control {s : Session} {e : Effect} {es : List Effect}
    (h : commandOf s e = some []) :
  commandsOf s (e :: es) = commandsOf s es
  := by
  rw [commandsOf, h]
  cases commandsOf s es <;> rfl

/-- A server answers a connect command. -/
theorem read_connect (hfits : (connectBody client).length ≤ 1024) :
  read server (connectBody client) =
    some (connected server client, [connectResultBody false], [])
  := by
  have hlen := length_connectBody client
  have happ : client.app.length < 2 ^ 16 := by omega
  have hurl : client.tcUrl.length < 2 ^ 16 := by omega
  have hdecode := decodeBody_connect ⟨client.app, happ⟩ ⟨client.tcUrl, hurl⟩
  rw [← connectBody_eq] at hdecode
  have hhandled : handleAmfCommand server false (connectBody client) =
      .ok (connected server client, [.sendAckWindowSize, .sendSetPeerBandwidth,
        .sendSetChunkSize, .sendConnectResult false])
    := by
    rw [handleAmfCommand_of_decode server hdecode]
    simp only [connectCommand, List.map_cons, List.map_nil, CommandValue.property,
      CommandField.property]
    rw [dispatch_of_command server (show commands (ascii "connect") = some .connect from rfl)]
    rfl
  have hresult : commandOf (connected server client) (.sendConnectResult false) =
      some [connectResultBody false]
    := by
    apply commandOf_of_fits rfl
    decide +kernel
  apply read_of_handled hhandled
  rw [commandsOf_control rfl, commandsOf_control rfl, commandsOf_control rfl]
  exact commandsOf_cons hresult rfl

/-- A client asks for a stream when it is connected. -/
theorem read_connectResult :
  read client (connectResultBody false) = some (client, [createStreamBody], [])
  := by
  have hhandled : handleAmfCommand client false (connectResultBody false) =
      .ok (client, [.sendCreateStream])
    := by
    rw [handleAmfCommand_of_decode client decodeBody_connectResult]
    simp only [connectResultCommand, List.map_cons, List.map_nil, CommandValue.property,
      CommandField.property]
    rw [dispatch_of_command client (show commands (ascii "_result") = some .result from rfl)]
    rfl
  apply read_of_handled hhandled
  rfl

theorem read_createStream :
  read server createStreamBody = some (server, [createStreamResultBody 4], [])
  := rfl

/-- A client asks for what it was made for when it has a stream. -/
theorem read_createStreamResult (hname : client.name.length ≤ 994) :
  read client (createStreamResultBody 4) = some (client, [streamBody client], [])
  := by
  have hhandled : handleAmfCommand client false (createStreamResultBody 4) =
      .ok (client,
        if client.isPlayer then [.sendPlay client.name] else [.sendPublish client.name])
    := rfl
  rw [read_of_handled hhandled (show commandsOf client _ = some [streamBody client] from ?_)]
  · cases client.isPlayer <;> rfl
  · have hplayBody := length_playBody client
    have hpublishBody := length_publishBody client
    rw [streamBody]
    cases client.isPlayer with
    | true =>
        have hplay : commandOf client (.sendPlay client.name) = some [playBody client]
          := by
          apply commandOf_of_fits rfl
          omega
        exact commandsOf_cons hplay rfl
    | false =>
        have hpublish : commandOf client (.sendPublish client.name) = some [publishBody client]
          := by
          apply commandOf_of_fits rfl
          omega
        exact commandsOf_cons hpublish rfl

/-- A server starts what it is asked for, and says so. -/
theorem read_stream (hname : client.name.length ≤ 994) :
  read (connected server client) (streamBody client) =
    some (opened server client, [startBody client], callsOf (opened server client))
  := by
  have hshort : client.name.length < 2 ^ 16 := by omega
  rw [callsOf, callOf, streamBody, startBody]
  cases hplayer : client.isPlayer with
  | true =>
      have hopened : opened server client =
          { parseNameAndTcUrl { connected server client with name := client.name } with
            isPlayer := true }
        := by rw [opened, hplayer]
      have hdecode := decodeBody_play ⟨client.name, hshort⟩
      rw [← playBody_eq] at hdecode
      have hhandled : handleAmfCommand (connected server client) false (playBody client) =
          .ok (opened server client, [.sendStreamBegin,
            .sendStatus (ascii "status") (ascii "NetStream.Play.Start") (ascii "Start Playing")] ++
            if (opened server client).hasHandler then
              [.onPlay (opened server client).sessionName (opened server client).param]
            else
              [])
        := by
        rw [handleAmfCommand_of_decode _ hdecode]
        simp only [playCommand, List.map_cons, List.map_nil, CommandValue.property]
        rw [dispatch_of_command _ (show commands (ascii "play") = some .play from rfl), hopened]
        rfl
      have hplays : (opened server client).isPlayer = true := by rw [hopened]
      rw [hplays]
      cases hhandler : (opened server client).hasHandler with
      | true =>
          rw [hhandler] at hhandled
          apply read_of_handled hhandled
          rfl
      | false =>
          rw [hhandler] at hhandled
          apply read_of_handled hhandled
          rfl
  | false =>
      have hopened : opened server client =
          { parseNameAndTcUrl { connected server client with name := client.name } with
            isPlayer := false }
        := by rw [opened, hplayer]
      have hdecode := decodeBody_publish ⟨client.name, hshort⟩
      rw [← publishBody_eq] at hdecode
      have hhandled : handleAmfCommand (connected server client) false (publishBody client) =
          .ok (opened server client,
            [.sendStatus (ascii "status") (ascii "NetStream.Publish.Start")
              (ascii "Start Publishing")] ++
            if (opened server client).hasHandler then
              [.onPublish (opened server client).sessionName (opened server client).param]
            else
              [])
        := by
        rw [handleAmfCommand_of_decode _ hdecode]
        simp only [publishCommand, List.map_cons, List.map_nil, CommandValue.property]
        rw [dispatch_of_command _ (show commands (ascii "publish") = some .publish from rfl),
          hopened]
        rfl
      have hplays : (opened server client).isPlayer = false := by rw [hopened]
      rw [hplays]
      cases hhandler : (opened server client).hasHandler with
      | true =>
          rw [hhandler] at hhandled
          apply read_of_handled hhandled
          rfl
      | false =>
          rw [hhandler] at hhandled
          apply read_of_handled hhandled
          rfl

/-- A client calls its handler when it is told of the start. -/
theorem read_start (hhandler : client.hasHandler = true) :
  read client (startBody client) = some (client, [], [callOf client])
  := by
  rw [startBody, callOf]
  cases client.isPlayer with
  | true =>
      have hhandled : handleAmfCommand client false
          (statusBody (ascii "status") (ascii "NetStream.Play.Start") (ascii "Start Playing")) =
            if client.hasHandler then
              .ok (client, [.onPlay client.sessionName client.param])
            else
              .error .nullHandler
        := rfl
      rw [hhandler] at hhandled
      apply read_of_handled hhandled
      rfl
  | false =>
      have hhandled : handleAmfCommand client false
          (statusBody (ascii "status") (ascii "NetStream.Publish.Start")
            (ascii "Start Publishing")) =
            if client.hasHandler then
              .ok (client, [.onPublish client.sessionName client.param])
            else
              .error .nullHandler
        := rfl
      rw [hhandler] at hhandled
      apply read_of_handled hhandled
      rfl

/-! ### Stages -/

/-- Who reads next. -/
def due : Nat → Option Party
  | 0 => some .server
  | 1 => some .client
  | 2 => some .server
  | 3 => some .client
  | 4 => some .server
  | 5 => some .client
  | _ => none

/-- The states of a dialogue, one after the other. -/
def stage (client server : Session) : Nat → Option Dialogue
  | 0 => some { client, server, toServer := [connectBody client] }
  | 1 => some
      { client
        server := connected server client
        toClient := [connectResultBody false] }
  | 2 => some
      { client
        server := connected server client
        toServer := [createStreamBody] }
  | 3 => some
      { client
        server := connected server client
        toClient := [createStreamResultBody 4] }
  | 4 => some
      { client
        server := connected server client
        toServer := [streamBody client] }
  | 5 => some
      { client
        server := opened server client
        toClient := [startBody client]
        serverCalls := callsOf (opened server client) }
  | _ => some
      { client
        server := opened server client
        clientCalls := [callOf client]
        serverCalls := callsOf (opened server client) }

theorem step_server {d : Dialogue} {body : List UInt8} {bodies : List (List UInt8)} {s : Session}
    {commands : List (List UInt8)} {calls : List Effect} (hbody : d.toServer = body :: bodies)
    (h : read d.server body = some (s, commands, calls)) :
  step (some d) .server =
    some { d with
      server := s
      toServer := bodies
      toClient := d.toClient ++ commands
      serverCalls := d.serverCalls ++ calls }
  := by
  rw [step, hbody]
  dsimp only
  rw [h]
  rfl

theorem step_client {d : Dialogue} {body : List UInt8} {bodies : List (List UInt8)} {s : Session}
    {commands : List (List UInt8)} {calls : List Effect} (hbody : d.toClient = body :: bodies)
    (h : read d.client body = some (s, commands, calls)) :
  step (some d) .client =
    some { d with
      client := s
      toClient := bodies
      toServer := d.toServer ++ commands
      clientCalls := d.clientCalls ++ calls }
  := by
  rw [step, hbody]
  dsimp only
  rw [h]
  rfl

/-- A dialogue goes through its stages, whoever reads when. -/
theorem advances (hhandler : client.hasHandler = true) (hname : client.name.length ≤ 994)
    (hfits : (connectBody client).length ≤ 1024) :
  Stages.Advances due step (stage client server)
  := by
  intro n p
  rcases n with _ | _ | _ | _ | _ | _ | n
  · cases p with
    | client => rfl
    | server => exact step_server rfl (read_connect hfits)
  · cases p with
    | server => rfl
    | client => exact step_client rfl read_connectResult
  · cases p with
    | client => rfl
    | server => exact step_server rfl read_createStream
  · cases p with
    | server => rfl
    | client => exact step_client rfl (read_createStreamResult hname)
  · cases p with
    | client => rfl
    | server => exact step_server rfl (read_stream hname)
  · cases p with
    | server => rfl
    | client => exact step_client rfl (read_start hhandler)
  · cases p <;> rfl

/-! ### Runs -/

/-- At most one command is on the way.  A handler is called once, the client's not before the
server's, each for its own name of the session, and when nothing is on the way any more, both have
been. -/
structure Sound (client server : Session) (d : Dialogue) : Prop where
  onTheWay : d.toServer.length + d.toClient.length ≤ 1
  client_eq : d.client = client
  serverCalls : d.serverCalls = [] ∨
    d.server = opened server client ∧ d.serverCalls = callsOf (opened server client)
  clientCalls : d.clientCalls = [] ∨
    d.clientCalls = [callOf client] ∧ d.serverCalls = callsOf (opened server client)
  ended : d.toServer = [] → d.toClient = [] → d.clientCalls = [callOf client]

theorem sound_stage (client server : Session) (n : Nat) :
  ∃ d, stage client server n = some d ∧ d.Sound client server
  := by
  rcases n with _ | _ | _ | _ | _ | _ | n
  · exact ⟨_, rfl, Nat.le_refl 1, rfl, .inl rfl, .inl rfl, by rintro ⟨⟩⟩
  · exact ⟨_, rfl, Nat.le_refl 1, rfl, .inl rfl, .inl rfl, by rintro - ⟨⟩⟩
  · exact ⟨_, rfl, Nat.le_refl 1, rfl, .inl rfl, .inl rfl, by rintro ⟨⟩⟩
  · exact ⟨_, rfl, Nat.le_refl 1, rfl, .inl rfl, .inl rfl, by rintro - ⟨⟩⟩
  · exact ⟨_, rfl, Nat.le_refl 1, rfl, .inl rfl, .inl rfl, by rintro ⟨⟩⟩
  · exact ⟨_, rfl, Nat.le_refl 1, rfl, .inr ⟨rfl, rfl⟩, .inl rfl, by rintro - ⟨⟩⟩
  · exact ⟨_, rfl, Nat.zero_le 1, rfl, .inr ⟨rfl, rfl⟩, .inr ⟨rfl, rfl⟩, fun _ _ => rfl⟩

theorem hasHandler_client (url : List UInt8) (role : Role) :
  (RtmpContext.client true url role).hasHandler = true
  := by
  cases role with
  | play => exact (parseNameAndTcUrl_frame _).2
  | publish => exact (parseNameAndTcUrl_frame _).2

/-- Behind the handshake, a client of a url that fits into its packets and a server never
misunderstand or overtake each other, whoever reads when, and when each has read three times, one
after the other, the client has been told to start. -/
theorem sound_dialogue (server : Session) {url : List UInt8} {role : Role}
    (hname : (RtmpContext.client true url role).name.length ≤ 994)
    (hfits : (connectBody (RtmpContext.client true url role)).length ≤ 1024)
    (events : List Party) :
  Throughout step
      (fun s => ∃ d, s = some d ∧ d.Sound (RtmpContext.client true url role) server)
      (start server url role) events ∧
    ([.server, .client, .server, .client, .server, .client].Sublist events →
      ∃ d, run step (start server url role) events = some d ∧
        d.clientCalls = [callOf (RtmpContext.client true url role)] ∧
        d.serverCalls = callsOf (opened server (RtmpContext.client true url role)))
  := by
  have hstart : start server url role = stage (RtmpContext.client true url role) server 0
    := by
    rw [start, sendConnect, commandPacket, if_pos hfits]
    rfl
  have hadvances : Stages.Advances due step (stage (RtmpContext.client true url role) server)
    := advances (hasHandler_client url role) hname hfits
  rw [hstart]
  constructor
  · apply hadvances.throughout
    apply sound_stage
  · intro hsub
    have hdue : Stages.Due due 0 [.server, .client, .server, .client, .server, .client]
      := ⟨rfl, rfl, rfl, rfl, rfl, rfl, trivial⟩
    have hreached := Stages.add_length_le_reached hdue hsub
    rw [hadvances.run_eq]
    revert hreached
    generalize Stages.reached due 0 events = n
    intro hreached
    obtain ⟨n, rfl⟩ : ∃ m, n = m + 6 := ⟨n - 6, by
      have hsix : 0 + 6 ≤ n := hreached
      omega⟩
    exact ⟨_, rfl, rfl, rfl⟩

/-- A player of a room, and a server without a handler. -/
theorem sound_dialogue_room :
  (RtmpContext.client true (ascii "rtmp://host/live/room") .play).name.length ≤ 994 ∧
    (connectBody (RtmpContext.client true (ascii "rtmp://host/live/room") .play)).length ≤ 1024 ∧
    ∃ d, run step (start (.new false) (ascii "rtmp://host/live/room") .play)
        [.client, .server, .server, .client, .server, .client, .server, .client] = some d ∧
      d.clientCalls =
        [callOf (RtmpContext.client true (ascii "rtmp://host/live/room") .play)] ∧
      d.serverCalls =
        callsOf (opened (.new false)
          (RtmpContext.client true (ascii "rtmp://host/live/room") .play))
  := by
  have hname : (RtmpContext.client true (ascii "rtmp://host/live/room") .play).name.length ≤ 994
    := by decide +kernel
  have hfits :
      (connectBody (RtmpContext.client true (ascii "rtmp://host/live/room") .play)).length ≤ 1024
    := by decide +kernel
  exact ⟨hname, hfits, (sound_dialogue (.new false) hname hfits _).2 (by decide)⟩

end Dialogue
