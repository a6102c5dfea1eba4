import Tmms.Amf.Encode
import Tmms.Rtmp.Commands

/-!
# The commands of a client

What a client sends to play or to publish a url: a connect command with the url and the application
that `ParseNameAndTcUrl` found in it, and, once its stream is created, a command with the name.
-/

open AMFAny AMFObject StringUtils

/-- A context that has just been made. -/
def Session.new (hasHandler : Bool) : Session where
  app := []
  tcUrl := []
  name := []
  sessionName := []
  param := []
  isPlayer := false
  hasHandler := hasHandler

namespace RtmpContext

/-- What a client is made for. -/
inductive Role where
  | play
  | publish
  deriving DecidableEq, Repr

/-- `Play`. -/
def play (s : Session) (url : List UInt8) : Session :=
  parseNameAndTcUrl { s with isPlayer := true, tcUrl := url }

/-- `Publish`. -/
def publish (s : Session) (url : List UInt8) : Session :=
  parseNameAndTcUrl { s with isPlayer := false, tcUrl := url }

/-- A client that has just been given a url. -/
def client (hasHandler : Bool) (url : List UInt8) : Role → Session
  | .play => play (.new hasHandler) url
  | .publish => publish (.new hasHandler) url

/-- The packet of a command has room for 1024 bytes.  More of them are written behind it. -/
def commandPacket (body : List UInt8) : Option (List UInt8) :=
  if body.length ≤ 1024 then some body else none

/-- The body that `SendConnect` writes. -/
def connectBody (s : Session) : List UInt8 :=
  encodeString (ascii "connect") ++ encodeNumber 0x3FF0000000000000 ++ [3] ++
    encodeNamedString (ascii "app") s.app ++
    encodeNamedString (ascii "tcUrl") s.tcUrl ++
    encodeNamedBoolean (ascii "fpad") false ++
    encodeNamedNumber (ascii "capabilities") 0x403F000000000000 ++
    encodeNamedNumber (ascii "audioCodecs") 0x40999C0000000000 ++
    encodeNamedNumber (ascii "videoCodecs") 0x406F800000000000 ++
    encodeNamedNumber (ascii "videoFunction") 0x3FF0000000000000 ++ [0x00, 0x00, 0x09]

/-- The body that `SendPlay` writes. -/
def playBody (s : Session) : List UInt8 :=
  encodeString (ascii "play") ++ encodeNumber 0 ++ [5] ++ encodeString s.name ++
    encodeNumber 0xC08F400000000000

/-- The body that `SendPublish` writes. -/
def publishBody (s : Session) : List UInt8 :=
  encodeString (ascii "publish") ++ encodeNumber 0x4014000000000000 ++ [5] ++
    encodeString s.name ++ encodeString (ascii "live")

/-- `SendConnect`, without the Set Chunk Size message in front. -/
def sendConnect (s : Session) : Option (List UInt8) := commandPacket (connectBody s)

/-- `SendPlay`. -/
def sendPlay (s : Session) : Option (List UInt8) := commandPacket (playBody s)

/-- `SendPublish`. -/
def sendPublish (s : Session) : Option (List UInt8) := commandPacket (publishBody s)

/-- What `HandleResult` sends once the stream is created. -/
def sendStreamCommand (s : Session) : Option (List UInt8) :=
  if s.isPlayer then sendPlay s else sendPublish s

/-- A server that receives the commands of a client. -/
def receive (server client : Session) : Option Session := do
  let connect ← sendConnect client
  let command ← sendStreamCommand client
  let (server, _) ← (handleAmfCommand server false connect).toOption
  let (server, _) ← (handleAmfCommand server false command).toOption
  some server

/-! ### Bodies as commands -/

theorem length_connectBody (s : Session) :
  (connectBody s).length = 140 + s.app.length + s.tcUrl.length
  := by
  simp [connectBody, encodeString, encodeNumber, writeNumber, encodeNamedString, encodeName,
    encodeNamedBoolean, encodeBoolean, encodeNamedNumber, ascii]
  omega

/-- The connect command. -/
def connectCommand (app tcUrl : ShortString) : List CommandValue :=
  [.string ⟨ascii "connect", by decide⟩, .number 0x3FF0000000000000,
    .object [
      (⟨ascii "app", by decide⟩, .string app),
      (⟨ascii "tcUrl", by decide⟩, .string tcUrl),
      (⟨ascii "fpad", by decide⟩, .boolean false),
      (⟨ascii "capabilities", by decide⟩, .number 0x403F000000000000),
      (⟨ascii "audioCodecs", by decide⟩, .number 0x40999C0000000000),
      (⟨ascii "videoCodecs", by decide⟩, .number 0x406F800000000000),
      (⟨ascii "videoFunction", by decide⟩, .number 0x3FF0000000000000)]]

/-- The play command. -/
def playCommand (name : ShortString) : List CommandValue :=
  [.string ⟨ascii "play", by decide⟩, .number 0, .null, .string name, .number 0xC08F400000000000]

/-- The publish command. -/
def publishCommand (name : ShortString) : List CommandValue :=
  [.string ⟨ascii "publish", by decide⟩, .number 0x4014000000000000, .null, .string name,
    .string ⟨ascii "live", by decide⟩]

theorem connectBody_eq {s : Session} (happ : s.app.length < 2 ^ 16) (hurl : s.tcUrl.length < 2 ^ 16) :
  connectBody s = CommandValue.encodeAll (connectCommand ⟨s.app, happ⟩ ⟨s.tcUrl, hurl⟩)
  := by
  simp only [connectBody, connectCommand, CommandValue.encodeAll, CommandValue.encode,
    CommandField.encodeNamed, List.flatMap_cons, List.flatMap_nil, List.append_assoc,
    List.append_nil, List.cons_append, List.nil_append]

theorem playBody_eq {s : Session} (hname : s.name.length < 2 ^ 16) :
  playBody s = CommandValue.encodeAll (playCommand ⟨s.name, hname⟩)
  := by
  simp only [playBody, playCommand, CommandValue.encodeAll, CommandValue.encode,
    List.flatMap_cons, List.flatMap_nil, List.append_assoc, List.append_nil]

theorem publishBody_eq {s : Session} (hname : s.name.length < 2 ^ 16) :
  publishBody s = CommandValue.encodeAll (publishCommand ⟨s.name, hname⟩)
  := by
  simp only [publishBody, publishCommand, CommandValue.encodeAll, CommandValue.encode,
    List.flatMap_cons, List.flatMap_nil, List.append_assoc, List.append_nil]

/-! ### What the server makes of them -/

theorem decodeBody_connect (app tcUrl : ShortString) :
  decodeBody false (CommandValue.encodeAll (connectCommand app tcUrl)) =
    .ok ((connectCommand app tcUrl).map CommandValue.property,
      (CommandValue.encodeAll (connectCommand app tcUrl)).length)
  := by
  apply CommandValue.decodeBody_encodeAll
  · simp only [connectCommand, List.forall_mem_cons, CommandValue.Readable, List.not_mem_nil,
      false_implies, implies_true, and_true, true_and]
    decide
  · simp [connectCommand, CommandValue.Long]

theorem decodeBody_play (name : ShortString) :
  decodeBody false (CommandValue.encodeAll (playCommand name)) =
    .ok ((playCommand name).map CommandValue.property,
      (CommandValue.encodeAll (playCommand name)).length)
  := by
  apply CommandValue.decodeBody_encodeAll
  · simp only [playCommand, List.forall_mem_cons, CommandValue.Readable, List.not_mem_nil,
      false_implies, implies_true, and_true, true_and]
    decide
  · simp [playCommand, CommandValue.Long]

theorem decodeBody_publish (name : ShortString) :
  decodeBody false (CommandValue.encodeAll (publishCommand name)) =
    .ok ((publishCommand name).map CommandValue.property,
      (CommandValue.encodeAll (publishCommand name)).length)
  := by
  apply CommandValue.decodeBody_encodeAll
  · simp only [publishCommand, List.forall_mem_cons, CommandValue.Readable, List.not_mem_nil,
      false_implies, implies_true, and_true, true_and]
    decide
  · simp [publishCommand, CommandValue.Long]

/-- A command with a handler is handled. -/
theorem dispatch_of_command (server : Session) {method : List UInt8} {command : Command}
    (h : commands method = some command) (obj : List AMFAny) :
  dispatch server (.string [] method :: obj) = handle command server (.string [] method :: obj)
  := by
  have hmethod : property (propertyAt 0 (.string [] method :: obj)) = .ok (.string [] method)
    := rfl
  have hstring : (AMFAny.string [] method).asString = method := rfl
  rw [dispatch, hmethod]
  dsimp only [bind, Except.bind]
  rw [hstring, h]

theorem handleAmfCommand_of_decode (server : Session) {body : List UInt8} {obj : List AMFAny}
    {n : Nat} (h : decodeBody false body = .ok (obj, n)) :
  handleAmfCommand server false body = dispatch server obj
  := by
  rw [handleAmfCommand, commandBody, if_neg Bool.false_ne_true, h]

/-- The server takes the application and the url of a connect command. -/
theorem handleAmfCommand_connect (server : Session) {s : Session} (happ : s.app.length < 2 ^ 16)
    (hurl : s.tcUrl.length < 2 ^ 16) :
  ∃ effects, handleAmfCommand server false (connectBody s) =
    .ok ({ server with app := s.app, tcUrl := s.tcUrl }, effects)
  := by
  have hcommand : commands (ascii "connect") = some .connect := rfl
  have hdecode := decodeBody_connect ⟨s.app, happ⟩ ⟨s.tcUrl, hurl⟩
  rw [← connectBody_eq] at hdecode
  rw [handleAmfCommand_of_decode server hdecode]
  simp only [connectCommand, List.map_cons, List.map_nil, CommandValue.property,
    CommandField.property]
  rw [dispatch_of_command server hcommand]
  exact ⟨_, rfl⟩

/-- The server takes the name of a play command, and looks for the name of the session. -/
theorem handleAmfCommand_play (server : Session) {s : Session} (hname : s.name.length < 2 ^ 16) :
  ∃ effects, handleAmfCommand server false (playBody s) =
    .ok ({ parseNameAndTcUrl { server with name := s.name } with isPlayer := true }, effects)
  := by
  have hcommand : commands (ascii "play") = some .play := rfl
  have hdecode := decodeBody_play ⟨s.name, hname⟩
  rw [← playBody_eq] at hdecode
  rw [handleAmfCommand_of_decode server hdecode]
  simp only [playCommand, List.map_cons, List.map_nil, CommandValue.property]
  rw [dispatch_of_command server hcommand]
  exact ⟨_, rfl⟩

/-- So it does with a publish command. -/
theorem handleAmfCommand_publish (server : Session) {s : Session}
    (hname : s.name.length < 2 ^ 16) :
  ∃ effects, handleAmfCommand server false (publishBody s) =
    .ok ({ parseNameAndTcUrl { server with name := s.name } with isPlayer := false }, effects)
  := by
  have hcommand : commands (ascii "publish") = some .publish := rfl
  have hdecode := decodeBody_publish ⟨s.name, hname⟩
  rw [← publishBody_eq] at hdecode
  rw [handleAmfCommand_of_decode server hdecode]
  simp only [publishCommand, List.map_cons, List.map_nil, CommandValue.property]
  rw [dispatch_of_command server hcommand]
  exact ⟨_, rfl⟩

theorem length_playBody (s : Session) :
  (playBody s).length = 29 + s.name.length
  := by
  simp [playBody, encodeString, encodeNumber, writeNumber, ascii]
  omega

theorem length_publishBody (s : Session) :
  (publishBody s).length = 30 + s.name.length
  := by
  simp [publishBody, encodeString, encodeNumber, writeNumber, ascii]
  omega

/-- A connect command that does not fit into its packet is not received. -/
theorem receive_of_long (server : Session) {s : Session}
    (hlong : 1024 < (connectBody s).length) :
  receive server s = none
  := by
  rw [receive, sendConnect, commandPacket, if_neg (by omega)]
  rfl

/-- A server that handles both commands. -/
theorem receive_of_handled {server client server' server'' : Session} {connect command : List UInt8}
    {effects effects' : List Effect} (hconnect : sendConnect client = some connect)
    (hcommand : sendStreamCommand client = some command)
    (hserver : handleAmfCommand server false connect = .ok (server', effects))
    (hserver' : handleAmfCommand server' false command = .ok (server'', effects')) :
  receive server client = some server''
  := by
  simp only [receive, hconnect, hcommand, hserver, hserver', Except.toOption,
    Option.bind_eq_bind, Option.bind_some]

/-- Commands that fit are received, and the server looks for the name of the session in what the
client sent. -/
theorem receive_of_short (server : Session) {s : Session}
    (hconnect : (connectBody s).length ≤ 1024) (hname : s.name.length ≤ 994) :
  (receive server s).map Session.sessionName =
    some (parseNameAndTcUrl { server with app := s.app, tcUrl := s.tcUrl, name := s.name }).sessionName
  := by
  have hlen := length_connectBody s
  obtain ⟨effects, hserver⟩ := handleAmfCommand_connect server
    (show s.app.length < 2 ^ 16 by omega) (show s.tcUrl.length < 2 ^ 16 by omega)
  have hshort : s.name.length < 2 ^ 16 := by omega
  have hsend : sendConnect s = some (connectBody s) := if_pos hconnect
  cases hplayer : s.isPlayer with
  | true =>
      obtain ⟨effects', hplay⟩ := handleAmfCommand_play
        { server with app := s.app, tcUrl := s.tcUrl } hshort
      have hfits := length_playBody s
      have hcommand : sendStreamCommand s = some (playBody s) := by
        rw [sendStreamCommand, if_pos hplayer]
        exact if_pos (by omega)
      rw [receive_of_handled hsend hcommand hserver hplay, Option.map_some]
  | false =>
      obtain ⟨effects', hpublish⟩ := handleAmfCommand_publish
        { server with app := s.app, tcUrl := s.tcUrl } hshort
      have hfits := length_publishBody s
      have hcommand : sendStreamCommand s = some (publishBody s) := by
        rw [sendStreamCommand, if_neg (by rw [hplayer]; exact Bool.false_ne_true)]
        exact if_pos (by omega)
      rw [receive_of_handled hsend hcommand hserver hpublish, Option.map_some]

end RtmpContext
