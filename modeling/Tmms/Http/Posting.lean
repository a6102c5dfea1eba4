/-!
# Posting responses

`HttpContext` sends one response at a time.  What comes next when the connection has written what
it was given, is told by `post_state_`.  A packet is not copied: the context holds it, and reads it
when its turn has come.

Headers and packets are of any types here.  Chunks and streams are left out.
-/

inductive HttpContextPostState where
  | init
  | http
  | httpHeader
  | httpBody
  deriving DecidableEq, Repr

/-- What a context asks of the connection and of the handler. -/
inductive HttpPost (η π : Type) where
  | sendHeader (header : η)
  | sendPacket (packet : π)
  | onSent
  deriving DecidableEq, Repr

/-- The fields of `HttpContext` for sending. -/
structure HttpPosting (η π : Type) where
  header : Option η := none
  outPacket : Option π := none
  postState : HttpContextPostState := .init
  deriving DecidableEq, Repr

namespace HttpPosting

variable {η π : Type}

/-- `PostRequest(const std::string &)`. -/
def postRequest (c : HttpPosting η π) (headerAndBody : η) : HttpPosting η π × List (HttpPost η π) :=
  if c.postState ≠ .init then
    (c, [])
  else
    ({ c with header := some headerAndBody, postState := .http }, [.sendHeader headerAndBody])

/-- `PostRequest(const std::string &, PacketPtr &)`. -/
def postRequestPacket (c : HttpPosting η π) (header : η) (packet : π) :
    HttpPosting η π × List (HttpPost η π) :=
  if c.postState ≠ .init then
    (c, [])
  else
    ({ header := some header, outPacket := some packet, postState := .httpHeader },
      [.sendHeader header])

/-- `WriteComplete`. -/
def writeComplete (c : HttpPosting η π) : HttpPosting η π × List (HttpPost η π) :=
  match c.postState with
  | .init => (c, [])
  | .http => ({ c with postState := .init }, [.onSent])
  | .httpHeader =>
      ({ c with postState := .httpBody }, c.outPacket.toList.map fun packet => .sendPacket packet)
  | .httpBody => ({ c with postState := .init }, [.onSent])

end HttpPosting
