import Tmms.Base.Packet
import Tmms.Http.Request

/-!
# The HTTP parser

`HttpParser::Parse` makes one step at the head of the bytes that were received: it reads a
header block, the size of a chunk, or the part of a body that is there.  It returns a state
that is not always the one it keeps.  Where the sources use something that is not there, or
fill a packet of a negative size, what they do is not said, and the step is a fault here.
-/

open StringUtils

inductive HttpParserState where
  | expectHeaders
  | expectNormalBody
  | expectStreamBody
  | expectHttpComplete
  | expectChunkLen
  | expectChunkBody
  | expectChunkComplete
  | expectLastEmptyChunk
  | expectContinue
  | expectError
  deriving DecidableEq, Repr

/-- What the sources do not say the outcome of: a part of the first line is used that is not
there, the sum of a chunk's size and 2 is no `int32_t`, or `memcpy` gets a negative size. -/
inductive HttpFault where
  | missingToken
  | overflow
  | negativeSize
  deriving DecidableEq, Repr

/-- `kHttpMaxBodySize`. -/
def kHttpMaxBodySize : Nat := 64 * 1024

/-- `k400BadRequest`. -/
def k400BadRequest : Nat := 400

def CRLF : List UInt8 := [13, 10]

def CRLFCRLF : List UInt8 := [13, 10, 13, 10]

structure HttpParser where
  state : HttpParserState := .expectHeaders
  currentChunkLength : Int := 0
  currentContentLength : Int := 0
  isStream : Bool := false
  isChunked : Bool := false
  isRequest : Bool := true
  reason : Nat := 0
  header : List UInt8 := []
  chunk : Option (Packet Unit) := none
  req : Option HttpRequest := none
  deriving DecidableEq, Repr

namespace HttpParser

/-- A parser, how many bytes it consumed, and the state it returned. -/
abbrev Parsed := Except HttpFault (HttpParser × Nat × HttpParserState)

/-! ### Headers -/

/-- The request of a first line in `ProcessMethodLine`. -/
def requestLine : List (List UInt8) → Except HttpFault HttpRequest
  | method :: path :: version :: _ =>
    let r : HttpRequest := { isRequest := true }
    .ok (((r.setMethod method).setTarget path).setVersion version)
  | _ => .error .missingToken

/-- The response of a first line in `ProcessMethodLine`. -/
def statusLine : List (List UInt8) → Except HttpFault HttpRequest
  | version :: code :: _ =>
    let r : HttpRequest := { isRequest := false }
    .ok ((r.setVersion version).setStatusCode (atoi code))
  | _ => .error .missingToken

/-- `ProcessMethodLine`. A first line that begins like a version is that of a response. -/
def processMethodLine (line : List UInt8) : Except HttpFault HttpRequest :=
  match splitString line (ascii " ") with
  | [] => .error .missingToken
  | str :: rest =>
    if (str.map toLower).take 4 = ascii "http" then
      statusLine (str :: rest)
    else
      requestLine (str :: rest)

/-- One line in the loop over the header lines, the first line among them. -/
def addLine (req : HttpRequest) (l : List UInt8) : HttpRequest :=
  match find (ascii ":") l with
  | some pos => req.addHeader (trim (l.take pos)) (trim (l.drop (pos + 1)))
  | none => req

/-- What `ParseHeaders` makes of a content length. -/
def frameLength (p : HttpParser) (len : List UInt8) : HttpParser :=
  match stoull len with
  | none => { p with reason := k400BadRequest, state := .expectError }
  | some n =>
    if truncate32 n = 0 then
      { p with currentContentLength := 0, state := .expectHttpComplete }
    else
      { p with currentContentLength := truncate32 n, state := .expectNormalBody }

/-- What `ParseHeaders` makes of the headers: whether there is a body, and how it ends. -/
def frame (p : HttpParser) (req : HttpRequest) : HttpParser :=
  if req.getHeader (ascii "content-length") ≠ [] then
    frameLength { p with req := some req } (req.getHeader (ascii "content-length"))
  else if req.getHeader (ascii "transfer-encoding") = ascii "chunked" then
    { p with
      req := some { req with isChunked := true }
      isChunked := true
      state := .expectChunkLen }
  else if (!p.isRequest && req.code ≠ 200) ||
      (p.isRequest && (req.method = .get || req.method = .head || req.method = .options)) then
    { p with req := some req, currentChunkLength := 0, state := .expectHttpComplete }
  else
    { p with
      req := some { req with isStream := true }
      currentContentLength := -1
      isStream := true
      state := .expectStreamBody }

/-- `ParseHeaders`. -/
def parseHeaders (p : HttpParser) : Except HttpFault HttpParser :=
  match splitString p.header CRLF with
  | [] => .ok { p with reason := k400BadRequest, state := .expectError }
  | line :: rest =>
    match processMethodLine line with
    | .error e => .error e
    | .ok req =>
      .ok (frame { p with isRequest := req.isRequest } ((line :: rest).foldl addLine req))

/-! ### Bodies -/

/-- The packet of a body, made of the size when there is none yet. -/
def packetFor (p : HttpParser) (size : Int) : Packet Unit :=
  p.chunk.getD (Packet.newPacket (UInt32.ofInt size) ())

/-- Filling a packet with what was received, as all the bodies do, and how much that is. -/
def fill (packet : Packet Unit) (b : List UInt8) : Except HttpFault (Packet Unit × Nat) :=
  let size := min (truncate32 b.length) packet.space
  if size < 0 then
    .error .negativeSize
  else
    .ok (packet.append (b.take size.toNat), size.toNat)

/-- `ParseStream`. -/
def parseStream (p : HttpParser) (b : List UInt8) : Except HttpFault (HttpParser × Nat) :=
  match fill (p.packetFor kHttpMaxBodySize) b with
  | .error e => .error e
  | .ok (chunk, size) =>
    .ok ({ p with
      chunk := some chunk
      state := if chunk.space = 0 then .expectChunkComplete else p.state }, size)

/-- `ParseNormalBody`. -/
def parseNormalBody (p : HttpParser) (b : List UInt8) : Except HttpFault (HttpParser × Nat) :=
  match fill (p.packetFor p.currentContentLength) b with
  | .error e => .error e
  | .ok (chunk, size) =>
    let left := p.currentContentLength - size
    .ok ({ p with
      chunk := some chunk
      currentContentLength := left
      state := if left = 0 then .expectHttpComplete else p.state }, size)

/-- `ParseChunk`. The line end behind a chunk is read with it and then left out. -/
def parseChunk (p : HttpParser) (b : List UInt8) : Except HttpFault (HttpParser × Nat) :=
  match fill (p.packetFor p.currentChunkLength) b with
  | .error e => .error e
  | .ok (chunk, size) =>
    let left := p.currentChunkLength - size
    if left = 0 ∨ chunk.space = 0 then
      .ok ({ p with
        chunk := some { chunk with size := chunk.size - 2 }
        currentChunkLength := left
        state := .expectChunkComplete }, size)
    else
      .ok ({ p with chunk := some chunk, currentChunkLength := left }, size)

/-! ### Steps -/

/-- `ClearForNextHttp`. -/
def clearForNextHttp (p : HttpParser) : HttpParser :=
  { p with
    state := .expectHeaders
    header := []
    req := none
    currentContentLength := -1
    chunk := none }

/-- `ClearForNextChunk`. -/
def clearForNextChunk (p : HttpParser) : HttpParser :=
  if p.isChunked then
    { p with state := .expectChunkLen, currentChunkLength := -1, chunk := none }
  else if p.isStream then
    { p with state := .expectStreamBody, chunk := none }
  else
    { p with state := .expectHeaders, currentChunkLength := -1, chunk := none }

/-- What `Parse` does first: what is complete is cleared. -/
def cleared (p : HttpParser) : HttpParser :=
  match p.state with
  | .expectHttpComplete => p.clearForNextHttp
  | .expectChunkComplete => p.clearForNextChunk
  | _ => p

/-- The result of a step that returns the state it keeps. -/
def returned : Except HttpFault (HttpParser × Nat) → Parsed
  | .error e => .error e
  | .ok (p, n) => .ok (p, n, p.state)

/-- `kExpectHeaders`. -/
def readHeaders (p : HttpParser) (b : List UInt8) : Parsed :=
  if b.length ≤ CRLFCRLF.length then
    .ok (p, 0, .expectContinue)
  else
    match find CRLFCRLF b with
    | some size =>
      match parseHeaders { p with header := b.take size } with
      | .error e => .error e
      | .ok p => .ok (p, size + 4, p.state)
    | none =>
      if kHttpMaxBodySize < b.length then
        .ok ({ p with reason := k400BadRequest, state := .expectError }, 0, .expectError)
      else
        .ok (p, 0, .expectContinue)

/-- The line of a chunk's size. A size that is too large is noted as an error, but the state
is set again. -/
def chunkLenLine (p : HttpParser) (line : List UInt8) : Except HttpFault HttpParser :=
  let length := truncate32 (strtol line 16)
  let p := if 1024 * 1024 < length then { p with reason := k400BadRequest } else p
  if length = 0 then
    .ok { p with currentChunkLength := length, state := .expectLastEmptyChunk }
  else if 2 ^ 31 ≤ length + 2 then
    .error .overflow
  else
    .ok { p with currentChunkLength := length + 2, state := .expectChunkBody }

/-- `kExpectChunkLen`. -/
def readChunkLen (p : HttpParser) (b : List UInt8) : Parsed :=
  match find CRLF b with
  | some crlf => returned ((p.chunkLenLine (b.take crlf)).map fun p => (p, crlf + 2))
  | none =>
    if 32 < b.length then
      .ok ({ p with reason := k400BadRequest, state := .expectError }, b.length, .expectError)
    else
      .ok (p, 0, p.state)

/-- `kExpectLastEmptyChunk`. -/
def readLastEmptyChunk (p : HttpParser) (b : List UInt8) : Parsed :=
  match find CRLF b with
  | some crlf =>
    .ok ({ p with chunk := none, state := .expectChunkComplete }, crlf + 2, .expectChunkComplete)
  | none => .ok (p, 0, p.state)

/-- The switch in `Parse`. -/
def step (p : HttpParser) (b : List UInt8) : Parsed :=
  match p.state with
  | .expectHeaders => p.readHeaders b
  | .expectNormalBody => returned (p.parseNormalBody b)
  | .expectStreamBody => returned (p.parseStream b)
  | .expectChunkLen => p.readChunkLen b
  | .expectChunkBody => returned (p.parseChunk b)
  | .expectLastEmptyChunk => p.readLastEmptyChunk b
  | _ => .ok (p, 0, p.state)

/-- `Parse`. -/
def parse (p : HttpParser) (b : List UInt8) : Parsed :=
  if b.isEmpty then .ok (p, 0, p.state) else p.cleared.step b

end HttpParser
