import Tmms.Library.Loop
import Tmms.Http.Parser

/-!
# The HTTP context

`HttpContext::Parse` is a loop of parser steps while more than one byte is unread.  What is
complete is handed to the handler of the context, and an error closes the connection, which
does not leave the loop.
-/

/-- What the loop calls. -/
inductive HttpEvent where
  | onRequest (req : Option HttpRequest) (packet : Option (Packet Unit))
  | forceClose
  deriving DecidableEq, Repr

namespace HttpContext

/-- The parser of a context and the bytes unread. -/
abbrev Config := HttpParser × List UInt8

/-- What the loop calls for a state that was returned. -/
def react (handler : Bool) (p : HttpParser) : HttpParserState → List HttpEvent
  | .expectHttpComplete => if handler then [.onRequest p.req p.chunk] else []
  | .expectChunkComplete => if handler then [.onRequest p.req p.chunk] else []
  | .expectError => [.forceClose]
  | _ => []

/-- One turn of the loop in `HttpContext::Parse`. -/
def turn (handler : Bool) (c : Config) : Turn Config HttpEvent HttpFault :=
  if 1 < c.2.length then
    match c.1.parse c.2 with
    | .error e => .fault e
    | .ok (p, n, state) => .next (p, c.2.drop n) (react handler p state)
  else
    .leave

/-- A parser that some steps lead to, each on whatever was received. -/
inductive Reachable : HttpParser → Prop where
  | new : Reachable {}
  | step {p p' : HttpParser} {b : List UInt8} {n : Nat} {state : HttpParserState}
      (hp : Reachable p) (h : p.parse b = .ok (p', n, state)) : Reachable p'

end HttpContext
