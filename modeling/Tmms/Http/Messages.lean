import Mathlib.Data.FinEnum
import Tmms.Library.Framing
import Tmms.Http.Context

/-!
# HTTP messages

What a peer sends: a start line and header fields, and behind them nothing, a body of an
announced length, or a body in chunks.  This is stated without reference to the parser; what
the handler of a context should get for a message is stated by `deliveries`.

`WellFormed` is the syntax of messages, `Supported` what the parser makes of them as they
are.
-/

open StringUtils HttpParser

/-- A header field. There may be spaces around the value. -/
structure HeaderField where
  name : List UInt8
  value : List UInt8
  before : List UInt8 := []
  after : List UInt8 := []
  deriving Repr

/-- The first line of a request or of a response. -/
inductive StartLine where
  | request (method target version : List UInt8)
  | status (version code reason : List UInt8)
  deriving Repr

/-- A chunk with its size in digits and what may follow that. -/
structure HttpChunk where
  size : List UInt8
  extension : List UInt8 := []
  data : List UInt8
  deriving Repr

/-- What is behind the header block. -/
inductive HttpContent where
  | none
  | length (body : List UInt8)
  | chunked (chunks : List HttpChunk) (last : HttpChunk) (trailer : List HeaderField)
  deriving Repr

structure HttpMessage where
  start : StartLine
  fields : List HeaderField
  content : HttpContent
  deriving Repr

/-! ### Bytes -/

def HeaderField.line (f : HeaderField) : List UInt8 :=
  f.name ++ ascii ":" ++ (f.before ++ f.value ++ f.after)

def StartLine.line : StartLine → List UInt8
  | .request method target version => method ++ ascii " " ++ target ++ ascii " " ++ version
  | .status version code reason => version ++ ascii " " ++ code ++ ascii " " ++ reason

/-- Lines, each with its end. -/
def linesBytes (ls : List (List UInt8)) : List UInt8 := ls.flatMap fun l => l ++ CRLF

def HttpChunk.line (c : HttpChunk) : List UInt8 := c.size ++ c.extension ++ CRLF

def HttpChunk.bytes (c : HttpChunk) : List UInt8 := c.line ++ (c.data ++ CRLF)

def HttpContent.bytes : HttpContent → List UInt8
  | .none => []
  | .length body => body
  | .chunked chunks last trailer =>
    chunks.flatMap HttpChunk.bytes ++ (last.line ++
      (linesBytes (trailer.map HeaderField.line) ++ CRLF))

namespace HttpMessage

/-- The lines of the header block. -/
def lines (m : HttpMessage) : List (List UInt8) :=
  m.start.line :: m.fields.map HeaderField.line

/-- The header block with the empty line behind it. -/
def head (m : HttpMessage) : List UInt8 := linesBytes m.lines ++ CRLF

def bytes (m : HttpMessage) : List UInt8 := m.head ++ m.content.bytes

end HttpMessage

/-! ### Deliveries -/

/-- What a handler gets: a request or a response with the bytes of a packet, or that the
connection is closed. -/
inductive Delivery where
  | message (req : Option HttpRequest) (payload : Option (List UInt8))
  | closed
  deriving DecidableEq, Repr

/-- What a handler gets by an event. -/
def HttpEvent.delivery : HttpEvent → Delivery
  | .onRequest req packet => .message req (packet.map Packet.payload)
  | .forceClose => .closed

/-- The request or response of a start line, as the setters set it, without fields. -/
def StartLine.withoutFields : StartLine → HttpRequest
  | .request method target version =>
    let r : HttpRequest := { isRequest := true }
    ((r.setMethod method).setTarget target).setVersion version
  | .status version code _ =>
    let r : HttpRequest := { isRequest := false }
    (r.setVersion version).setStatusCode (numeral 10 code)

/-- The name of a field without regard to case. -/
def HeaderField.key (f : HeaderField) : List UInt8 := f.name.map toLower

def HttpContent.isChunked : HttpContent → Bool
  | .chunked _ _ _ => true
  | _ => false

namespace HttpMessage

/-- The request or response of a message, with all its fields. -/
def request (m : HttpMessage) : HttpRequest :=
  { m.start.withoutFields with
    headers := m.fields.map fun f => (f.key, f.value)
    isChunked := m.content.isChunked }

/-- What the handler should get for a message: one delivery with the whole body if there is
one, or one for each chunk and one without a packet at the end. -/
def deliveries (m : HttpMessage) : List Delivery :=
  match m.content with
  | .none => [.message (some m.request) none]
  | .length body => [.message (some m.request) (if body.isEmpty then none else some body)]
  | .chunked chunks _ _ =>
    chunks.map (fun c => .message (some m.request) (some c.data)) ++
      [.message (some m.request) none]

end HttpMessage

/-! ### Syntax -/

/-- A byte of a token. -/
def IsTokenByte (c : UInt8) : Prop :=
  isDigit 36 c ∨ c ∈ ascii "!#$%&*+-.^_" ∨ c = 39 ∨ c = 96 ∨ c = 124 ∨ c = 126

/-- A byte of a text without spaces, and one of any text. -/
def IsVisibleByte (c : UInt8) : Prop := 33 ≤ c.toNat ∧ c ≠ 127

def IsTextByte (c : UInt8) : Prop := IsVisibleByte c ∨ c = 32 ∨ c = 9

def IsToken (s : List UInt8) : Prop := s ≠ [] ∧ ∀ c ∈ s, IsTokenByte c

instance : DecidablePred IsTokenByte := fun _ => inferInstanceAs (Decidable (_ ∨ _))

instance : DecidablePred IsVisibleByte := fun _ => inferInstanceAs (Decidable (_ ∧ _))

instance : DecidablePred IsTextByte := fun _ => inferInstanceAs (Decidable (_ ∨ _))

instance : DecidablePred IsToken := fun _ => inferInstanceAs (Decidable (_ ∧ _))

/-- Digits that stand for a number. -/
structure IsNumeral (base : Nat) (s : List UInt8) (n : Nat) : Prop where
  ne_nil : s ≠ []
  digits : ∀ c ∈ s, isDigit base c
  value : numeral base s = n

def IsVersion (s : List UInt8) : Prop := ∃ d, isDigit 10 d ∧ s = ascii "HTTP/1." ++ [d]

structure HeaderField.WellFormed (f : HeaderField) : Prop where
  name : IsToken f.name
  value : ∀ c ∈ f.value, IsTextByte c
  head : ∀ c, f.value.head? = some c → IsVisibleByte c
  last : ∀ c, f.value.getLast? = some c → IsVisibleByte c
  before : ∀ c ∈ f.before, c = 32 ∨ c = 9
  after : ∀ c ∈ f.after, c = 32 ∨ c = 9

instance (f : HeaderField) : Decidable f.WellFormed :=
  decidable_of_iff
    (IsToken f.name ∧ (∀ c ∈ f.value, IsTextByte c) ∧ (∀ c ∈ f.value.head?, IsVisibleByte c) ∧
      (∀ c ∈ f.value.getLast?, IsVisibleByte c) ∧ (∀ c ∈ f.before, c = 32 ∨ c = 9) ∧
      ∀ c ∈ f.after, c = 32 ∨ c = 9)
    ⟨fun ⟨hname, hvalue, hhead, hlast, hbefore, hafter⟩ =>
        ⟨hname, hvalue, hhead, hlast, hbefore, hafter⟩,
      fun h => ⟨h.name, h.value, h.head, h.last, h.before, h.after⟩⟩

def StartLine.WellFormed : StartLine → Prop
  | .request method target version =>
    IsToken method ∧ target ≠ [] ∧ (∀ c ∈ target, IsVisibleByte c) ∧ IsVersion version
  | .status version code reason =>
    IsVersion version ∧ code.length = 3 ∧ (∀ c ∈ code, isDigit 10 c) ∧ ∀ c ∈ reason, IsTextByte c

/-- What follows the size of a chunk begins with a semicolon. -/
structure HttpChunk.WellFormed (c : HttpChunk) : Prop where
  size : IsNumeral 16 c.size c.data.length
  extension : ∀ x ∈ c.extension, IsTextByte x
  head : ∀ x, c.extension.head? = some x → x = 59

/-- The header fields say what is behind the header block. -/
def HttpContent.Announced (fields : List HeaderField) : HttpContent → Prop
  | .none =>
    ∀ f ∈ fields, f.key ≠ ascii "content-length" ∧ f.key ≠ ascii "transfer-encoding"
  | .length body =>
    (∃ f ∈ fields, f.key = ascii "content-length") ∧
      ∀ f ∈ fields, f.key ≠ ascii "transfer-encoding" ∧
        (f.key = ascii "content-length" → IsNumeral 10 f.value body.length)
  | .chunked _ _ _ =>
    (∃ f ∈ fields, f.key = ascii "transfer-encoding") ∧
      ∀ f ∈ fields, f.key ≠ ascii "content-length" ∧
        (f.key = ascii "transfer-encoding" → f.value.map toLower = ascii "chunked")

/-- Chunks are not empty and have at most 1 MiB, and the last one is empty. -/
def HttpContent.WellFormed : HttpContent → Prop
  | .none => True
  | .length _ => True
  | .chunked chunks last trailer =>
    (∀ c ∈ chunks, c.WellFormed ∧ c.data ≠ [] ∧ c.data.length ≤ 1024 * 1024) ∧
      last.WellFormed ∧ last.data = [] ∧ ∀ f ∈ trailer, f.WellFormed

structure HttpMessage.WellFormed (m : HttpMessage) : Prop where
  start : m.start.WellFormed
  fields : ∀ f ∈ m.fields, f.WellFormed
  announced : m.content.Announced m.fields
  content : m.content.WellFormed

/-! ### What the parser supports -/

/-- The method does not look like a version. -/
def StartLine.Supported : StartLine → Prop
  | .request method _ _ => (method.map toLower).take 4 ≠ ascii "http"
  | .status _ _ _ => True

instance : DecidablePred StartLine.Supported
  | .request _ _ _ => inferInstanceAs (Decidable (_ ≠ _))
  | .status _ _ _ => inferInstanceAs (Decidable True)

/-- A message that the parser takes to have no body if no body is announced. -/
def StartLine.Bodiless : StartLine → Prop
  | .request method _ _ => method = ascii "GET" ∨ method = ascii "HEAD" ∨ method = ascii "OPTIONS"
  | .status _ code _ => numeral 10 code ≠ 200

/-- Without an announced body the start line says that there is none, an announced length is an
`int32_t`, and a body in chunks is announced in lower case and has no trailer. -/
def HttpMessage.ContentSupported (m : HttpMessage) : Prop :=
  match m.content with
  | .none => m.start.Bodiless
  | .length body => body.length < 2 ^ 31
  | .chunked _ _ trailer =>
    trailer = [] ∧ ∀ f ∈ m.fields, f.key = ascii "transfer-encoding" → f.value = ascii "chunked"

/-- A message that the parser reads as it is: the start line has no colon, which would make it
a header field, and the fields have different names. -/
structure HttpMessage.Supported (m : HttpMessage) : Prop where
  colon : 58 ∉ m.start.line
  start : m.start.Supported
  names : (m.fields.map HeaderField.key).Nodup
  content : m.ContentSupported

/-! ### Elements -/

/-- A chunk is the line of its size and its data with a line end. -/
def HttpChunk.elements (r : HttpRequest) (c : HttpChunk) : List (Element UInt8 Delivery) :=
  [⟨true, c.line, []⟩, ⟨false, c.data ++ CRLF, [.message (some r) (some c.data)]⟩]

/-- What is behind the chunks of a body. -/
def lastElements (r : HttpRequest) (last : HttpChunk) (trailer : List HeaderField) :
    List (Element UInt8 Delivery) :=
  [⟨true, last.line, []⟩,
    ⟨true, linesBytes (trailer.map HeaderField.line) ++ CRLF, [.message (some r) none]⟩]

def HttpContent.elements (r : HttpRequest) : HttpContent → List (Element UInt8 Delivery)
  | .none => []
  | .length body => if body.isEmpty then [] else [⟨false, body, [.message (some r) (some body)]⟩]
  | .chunked chunks last trailer =>
    chunks.flatMap (HttpChunk.elements r) ++ lastElements r last trailer

/-- There is nothing behind the header block. -/
def HttpContent.isEmpty : HttpContent → Bool
  | .none => true
  | .length body => body.isEmpty
  | .chunked _ _ _ => false

/-- The elements of a message: the header block, and those of its content. -/
def HttpMessage.elements (m : HttpMessage) : List (Element UInt8 Delivery) :=
  ⟨true, m.head, if m.content.isEmpty then [.message (some m.request) none] else []⟩ ::
    m.content.elements m.request

/-- The elements of successive messages. -/
def streamOf (ms : List HttpMessage) : List (Element UInt8 Delivery) :=
  ms.flatMap HttpMessage.elements

open Framing

theorem symbolsOf_append (es es' : List (Element UInt8 Delivery)) :
  symbolsOf (es ++ es') = symbolsOf es ++ symbolsOf es'
  := List.flatMap_append

theorem outOf_append (es es' : List (Element UInt8 Delivery)) :
  outOf (es ++ es') = outOf es ++ outOf es'
  := List.flatMap_append

theorem symbolsOf_chunks (r : HttpRequest) (chunks : List HttpChunk) :
  symbolsOf (chunks.flatMap (HttpChunk.elements r)) = chunks.flatMap HttpChunk.bytes
  := by
  induction chunks with
  | nil => rfl
  | cons c chunks ih =>
      rw [List.flatMap_cons, symbolsOf_append, ih, List.flatMap_cons, HttpChunk.elements,
        symbolsOf_cons, symbolsOf_cons, HttpChunk.bytes, symbolsOf, List.flatMap_nil,
        List.append_nil]

theorem outOf_chunks (r : HttpRequest) (chunks : List HttpChunk) :
  outOf (chunks.flatMap (HttpChunk.elements r)) =
    chunks.map fun c => .message (some r) (some c.data)
  := by
  induction chunks with
  | nil => rfl
  | cons c chunks ih =>
      rw [List.flatMap_cons, outOf_append, ih, List.map_cons]
      rfl

/-- The elements of a message are its bytes. -/
theorem symbolsOf_elements (m : HttpMessage) :
  symbolsOf m.elements = m.bytes
  := by
  rw [HttpMessage.elements, symbolsOf_cons, HttpMessage.bytes]
  congr 1
  cases m.content with
  | none => rfl
  | length body =>
      rw [HttpContent.elements, HttpContent.bytes]
      split
      next h =>
        rw [List.isEmpty_iff.mp h]
        rfl
      next => apply List.append_nil
  | chunked chunks last trailer =>
      rw [HttpContent.elements, symbolsOf_append, symbolsOf_chunks, HttpContent.bytes,
        lastElements, symbolsOf_cons, symbolsOf_cons, symbolsOf, List.flatMap_nil,
        List.append_nil]

/-- The outputs of the elements of a message are its deliveries. -/
theorem outOf_elements (m : HttpMessage) :
  outOf m.elements = m.deliveries
  := by
  rw [HttpMessage.elements, outOf_cons, HttpMessage.deliveries]
  cases m.content with
  | none => rfl
  | length body =>
      by_cases h : body.isEmpty
      · simp only [HttpContent.elements, HttpContent.isEmpty, h, if_true]
        rfl
      · simp only [HttpContent.elements, HttpContent.isEmpty, h]
        rfl
  | chunked chunks last trailer =>
      rw [HttpContent.elements, outOf_append, outOf_chunks]
      rfl

theorem symbolsOf_streamOf (ms : List HttpMessage) :
  symbolsOf (streamOf ms) = ms.flatMap HttpMessage.bytes
  := by
  induction ms with
  | nil => rfl
  | cons m ms ih =>
      rw [streamOf, List.flatMap_cons, symbolsOf_append, ← streamOf, ih, symbolsOf_elements,
        List.flatMap_cons]

theorem outOf_streamOf (ms : List HttpMessage) :
  outOf (streamOf ms) = ms.flatMap HttpMessage.deliveries
  := by
  induction ms with
  | nil => rfl
  | cons m ms ih =>
      rw [streamOf, List.flatMap_cons, outOf_append, ← streamOf, ih, outOf_elements,
        List.flatMap_cons]
