import Mathlib.Data.Bool.AllAny
import Tmms.Http.HeaderBlock
import Tmms.Http.Termination

/-!
# Delivery of HTTP messages

What the handler of a context gets for successive messages that are received in pieces.
`Expects` relates the elements of messages to the parser that is to read them, and each step
of the parser takes one element, or the part of it that is there.  So the loops for all pieces
end and deliver the messages, as long as no piece ends inside a part that is read as a whole.
-/

open StringUtils HttpParser

/-! ### Bodies -/

/-- A packet that is to have `total` bytes has got some. -/
structure Packet.Holds (packet : Packet Unit) (total : Nat) (got : List UInt8) : Prop where
  filled : packet.Filled
  capacity : packet.capacity.toNat = total
  data : packet.data = got

/-- A new packet has nothing yet. -/
theorem Packet.holds_newPacket {total : Nat} (h : total < 2 ^ 31) :
  (Packet.newPacket (UInt32.ofInt total) ()).Holds total []
  := by
  constructor
  · apply Packet.filled_newPacket
  · change (UInt32.ofInt total).toNat = total
    rw [UInt32.ofInt, UInt32.toNat_ofNat']
    omega
  · rfl

/-- What is in a packet that has got all its bytes. -/
theorem Packet.Holds.payload {packet : Packet Unit} {total : Nat} {got : List UInt8}
    (h : packet.Holds total got) :
  packet.payload = got
  := by rw [Packet.payload, h.filled.size_eq, List.take_length, h.data]

/-- A packet is filled with what is there of a body, `left` being missing, or with the body,
`behind` being left. -/
theorem fill_part {packet : Packet Unit} {got part left behind : List UInt8}
    (h : packet.Holds (got.length + (part ++ left).length) got)
    (hlt : got.length + (part ++ left).length < 2 ^ 31)
    (hlength : (part ++ behind).length < 2 ^ 31) (hnil : left = [] ∨ behind = []) :
  ∃ packet', fill packet (part ++ behind) = .ok (packet', part.length) ∧
    packet'.Holds (got.length + (part ++ left).length) (got ++ part) ∧
    packet'.space = left.length
  := by
  obtain ⟨hfilled, hcapacity, rfl⟩ := h
  have hspace := hfilled.space_eq (by omega)
  have htruncate := truncate32_of_lt hlength
  rw [List.length_append] at hcapacity
  rw [List.length_append] at htruncate hlength
  obtain ⟨hneg, -⟩ | ⟨-, size, -, hsize, hfill, hspace'⟩ := fill_cases packet (part ++ behind)
  · rw [List.length_append] at hneg
    omega
  · rw [List.length_append] at hsize
    obtain rfl : size = part.length
      := by
      obtain rfl | rfl := hnil
      · rw [List.length_nil] at hcapacity
        omega
      · rw [List.length_nil] at htruncate hsize
        omega
    rw [List.take_left] at hfill hspace'
    refine ⟨_, hfill, ⟨?_, ?_, ?_⟩, ?_⟩
    · apply hfilled.append
      omega
    · change packet.capacity.toNat = _
      rw [List.length_append]
      apply hcapacity
    · apply hfilled.data_append
    · rw [hspace']
      omega

/-- `p` is to read `rest` behind what it got of a body. -/
def HttpParser.Holds (p : HttpParser) (rest got : List UInt8) : Prop :=
  (p.packetFor rest.length).Holds (got.length + rest.length) got

/-- A body of which nothing is there yet. -/
theorem holds_nil {p : HttpParser} {rest : List UInt8} (hchunk : p.chunk = none)
    (hlt : rest.length < 2 ^ 31) :
  p.Holds rest []
  := by
  rw [HttpParser.Holds, packetFor, hchunk, List.length_nil, Nat.zero_add]
  apply Packet.holds_newPacket hlt

/-- A part of a body is read. -/
theorem parseNormalBody_part {p : HttpParser} {got rest part left behind : List UInt8}
    (h : p.Holds rest got) (hleft : p.currentContentLength = rest.length)
    (hlt : got.length + rest.length < 2 ^ 31) (hrest : part ++ left = rest)
    (hlength : (part ++ behind).length < 2 ^ 31) (hnil : left = [] ∨ behind = []) :
  ∃ packet : Packet Unit, packet.Holds (got.length + rest.length) (got ++ part) ∧
    p.parseNormalBody (part ++ behind) = .ok ({ p with
      chunk := some packet
      currentContentLength := left.length
      state := if left = [] then .expectHttpComplete else p.state }, part.length)
  := by
  subst hrest
  obtain ⟨packet, hfill, hholds, -⟩ := fill_part h hlt hlength hnil
  use packet, hholds
  have hsub : ((part ++ left).length : Int) - part.length = left.length
    := by
    rw [List.length_append]
    omega
  rw [parseNormalBody, hleft, hfill]
  dsimp only
  rw [hsub]
  simp only [Int.natCast_eq_zero, List.length_eq_zero_iff]

/-- A part of a chunk is read. -/
theorem parseChunk_part {p : HttpParser} {got rest part left behind : List UInt8}
    (h : p.Holds rest got) (hleft : p.currentChunkLength = rest.length)
    (hlt : got.length + rest.length < 2 ^ 31) (hrest : part ++ left = rest)
    (hlength : (part ++ behind).length < 2 ^ 31) (hnil : left = [] ∨ behind = []) :
  ∃ packet : Packet Unit, packet.Holds (got.length + rest.length) (got ++ part) ∧
    p.parseChunk (part ++ behind) = .ok (
      if left = [] then
        { p with
          chunk := some { packet with size := packet.size - 2 }
          currentChunkLength := 0
          state := .expectChunkComplete }
      else
        { p with chunk := some packet, currentChunkLength := left.length }, part.length)
  := by
  subst hrest
  obtain ⟨packet, hfill, hholds, hspace⟩ := fill_part h hlt hlength hnil
  use packet, hholds
  have hsub : ((part ++ left).length : Int) - part.length = left.length
    := by
    rw [List.length_append]
    omega
  rw [parseChunk, hleft, hfill]
  dsimp only
  rw [hsub, hspace]
  by_cases hnil : left = []
  · subst hnil
    rfl
  · rw [if_neg hnil, if_neg]
    rw [or_self, Int.natCast_eq_zero, List.length_eq_zero_iff]
    apply hnil

/-! ### Lines -/

/-- A parser behind the line of a chunk's size. -/
def HttpChunk.framed (p : HttpParser) (c : HttpChunk) : HttpParser :=
  if c.data = [] then
    { p with currentChunkLength := 0, state := .expectLastEmptyChunk }
  else
    { p with currentChunkLength := (c.data ++ CRLF).length, state := .expectChunkBody }

/-- The line of a chunk's size has one line end, behind all else. -/
theorem HttpChunk.WellFormed.find_line {c : HttpChunk} (hc : c.WellFormed)
    (behind : List UInt8) :
  find CRLF (c.line ++ behind) = some (c.size ++ c.extension).length
  := by
  have hreturn : 13 ∉ c.size ++ c.extension
    := by
    intro hmem
    obtain hmem | hmem := List.mem_append.mp hmem
    · have hle := le_of_isDigit (hc.size.digits 13 hmem)
      contradiction
    · apply (hc.extension 13 hmem).ne_return rfl
  rw [HttpChunk.line, List.append_assoc]
  apply find_append_self hreturn

/-- The line end has two bytes. -/
theorem HttpChunk.length_line (c : HttpChunk) :
  c.line.length = (c.size ++ c.extension).length + 2
  := by
  rw [HttpChunk.line, List.length_append]
  rfl

/-- The line of a chunk's size is read, and what is behind it is left. -/
theorem readChunkLen_line {c : HttpChunk} (hc : c.WellFormed)
    (hmax : c.data.length ≤ 1024 * 1024) (p : HttpParser) (behind : List UInt8) :
  p.readChunkLen (c.line ++ behind) = .ok (c.framed p, c.line.length, (c.framed p).state)
  := by
  have hsize := hc.size
  have hnumber : truncate32 (strtol (c.size ++ c.extension) 16) = c.data.length
    := by
    have hvalue := hsize.value
    rw [strtol_digits hsize.ne_nil hsize.digits (Nat.le_refl _), hvalue, truncate32_of_lt]
    · omega
    · intro x hx
      obtain rfl := hc.head x hx
      rfl
    · omega
  have hline : p.chunkLenLine (c.size ++ c.extension) = .ok (c.framed p)
    := by
    have hmax' : ¬ (1024 * 1024 : Int) < c.data.length := by omega
    rw [chunkLenLine, hnumber, if_neg hmax', HttpChunk.framed]
    by_cases hnil : c.data = []
    · rw [if_pos hnil, hnil]
      rfl
    · have hpos := List.length_pos_of_ne_nil hnil
      rw [if_neg hnil, if_neg (by omega), if_neg (by omega), List.length_append]
      rfl
  rw [readChunkLen, hc.find_line, c.length_line]
  dsimp only
  rw [HttpChunk.line, List.append_assoc, List.take_left, hline]
  rfl

/-- The line end behind the last chunk is read, and what is behind it is left. -/
theorem readLastEmptyChunk_lineEnd (p : HttpParser) (behind : List UInt8) :
  p.readLastEmptyChunk (CRLF ++ behind) =
    .ok ({ p with chunk := none, state := .expectChunkComplete }, CRLF.length,
      .expectChunkComplete)
  := by
  have hfind : find CRLF (CRLF ++ behind) = some 0
    := by apply find_append_self (a := []) List.not_mem_nil
  rw [readLastEmptyChunk, hfind]
  rfl

/-! ### What is expected -/

/-- Messages on one connection that the parser reads as they are: it does not get out of a body
in chunks, so there is nothing behind one. -/
structure Deliverable (ms : List HttpMessage) : Prop where
  wellFormed : ∀ m ∈ ms, m.WellFormed
  supported : ∀ m ∈ ms, m.Supported
  chunkedLast : ms.Pairwise fun m _ => m.content.isChunked = false

/-- The parser is in front of a message. -/
structure AtHeaders (p : HttpParser) : Prop where
  state : p.state = .expectHeaders
  chunk : p.chunk = none
  isChunked : p.isChunked = false

/-- The parser is in front of a chunk in a message with a request. -/
structure AtChunk (p : HttpParser) (r : HttpRequest) : Prop where
  state : p.state = .expectChunkLen
  chunk : p.chunk = none
  isChunked : p.isChunked = true
  req : p.req = some r

/-- The elements that are to come, and the parser that is to read them. -/
inductive Expects : List (Element UInt8 Delivery) → HttpParser → Prop where
  | done (p : HttpParser) : Expects [] p
  | message {m : HttpMessage} {ms : List HttpMessage} {p : HttpParser} (hp : AtHeaders p)
      (h : Deliverable (m :: ms)) :
      Expects (⟨true, m.head, if m.content.isEmpty then [.message (some m.request) none] else []⟩ ::
        (m.content.elements m.request ++ streamOf ms)) p
  | body {p : HttpParser} {r : HttpRequest} {ms : List HttpMessage} {got rest body : List UInt8}
      (hstate : p.state = .expectNormalBody) (hchunked : p.isChunked = false)
      (hreq : p.req = some r) (hleft : p.currentContentLength = rest.length) (hne : rest ≠ [])
      (hholds : p.Holds rest got) (hbody : got ++ rest = body) (hlt : body.length < 2 ^ 31)
      (h : Deliverable ms) :
      Expects (⟨false, rest, [.message (some r) (some body)]⟩ :: streamOf ms) p
  | size {p : HttpParser} {r : HttpRequest} {c last : HttpChunk} {chunks : List HttpChunk}
      (hp : AtChunk p r) (h : (HttpContent.chunked (c :: chunks) last []).WellFormed) :
      Expects (⟨true, c.line, []⟩ ::
        ⟨false, c.data ++ CRLF, [.message (some r) (some c.data)]⟩ ::
        (chunks.flatMap (HttpChunk.elements r) ++ lastElements r last [])) p
  | chunk {p : HttpParser} {r : HttpRequest} {last : HttpChunk} {chunks : List HttpChunk}
      {got rest data : List UInt8} (hstate : p.state = .expectChunkBody)
      (hchunked : p.isChunked = true) (hreq : p.req = some r)
      (hleft : p.currentChunkLength = rest.length) (hne : rest ≠ []) (hholds : p.Holds rest got)
      (hdata : got ++ rest = data ++ CRLF) (hmax : data.length ≤ 1024 * 1024)
      (h : (HttpContent.chunked chunks last []).WellFormed) :
      Expects (⟨false, rest, [.message (some r) (some data)]⟩ ::
        (chunks.flatMap (HttpChunk.elements r) ++ lastElements r last [])) p
  | last {p : HttpParser} {r : HttpRequest} {last : HttpChunk} (hp : AtChunk p r)
      (h : (HttpContent.chunked [] last []).WellFormed) :
      Expects [⟨true, last.line, []⟩, ⟨true, CRLF, [.message (some r) none]⟩] p
  | lineEnd {p : HttpParser} {r : HttpRequest} (hstate : p.state = .expectLastEmptyChunk)
      (hreq : p.req = some r) : Expects [⟨true, CRLF, [.message (some r) none]⟩] p

/-- In front of a message, messages are expected. -/
theorem expects_streamOf {p : HttpParser} {ms : List HttpMessage} (hp : AtHeaders p)
    (h : Deliverable ms) :
  Expects (streamOf ms) p
  := by
  cases ms with
  | nil => apply Expects.done
  | cons m ms => apply Expects.message hp h

/-- In front of a chunk, the rest of the chunks is expected. -/
theorem expects_chunks {p : HttpParser} {r : HttpRequest} {chunks : List HttpChunk}
    {last : HttpChunk} (hp : AtChunk p r)
    (h : (HttpContent.chunked chunks last []).WellFormed) :
  Expects (chunks.flatMap (HttpChunk.elements r) ++ lastElements r last []) p
  := by
  cases chunks with
  | nil => apply Expects.last hp h
  | cons c chunks => apply Expects.size hp h

/-- The messages behind the first one. -/
theorem Deliverable.tail {m : HttpMessage} {ms : List HttpMessage} (h : Deliverable (m :: ms)) :
  Deliverable ms
  := by
  constructor
  · intro m' h'
    apply h.wellFormed m' (List.mem_cons_of_mem _ h')
  · intro m' h'
    apply h.supported m' (List.mem_cons_of_mem _ h')
  · apply h.chunkedLast.of_cons

/-- There is nothing behind a body in chunks. -/
theorem Deliverable.eq_nil {m : HttpMessage} {ms : List HttpMessage} (h : Deliverable (m :: ms))
    (hm : m.content.isChunked = true) :
  ms = []
  := by
  rw [List.eq_nil_iff_forall_not_mem]
  intro m' h'
  have hchunked := List.rel_of_pairwise_cons h.chunkedLast h'
  rw [hm] at hchunked
  contradiction

/-! ### Completed parts -/

/-- Only what is complete is cleared. -/
theorem HttpParser.cleared_of_state {p : HttpParser} {state : HttpParserState}
    (hp : p.state = state) (hhttp : state ≠ .expectHttpComplete)
    (hchunk : state ≠ .expectChunkComplete) :
  p.cleared = p
  := by
  subst hp
  rw [cleared]
  split
  · contradiction
  · contradiction
  · rfl

/-- Behind a complete message the next one is expected. -/
theorem atHeaders_cleared {p : HttpParser} (hp : p.state = .expectHttpComplete)
    (hchunked : p.isChunked = false) :
  AtHeaders p.cleared
  := by
  rw [cleared, hp]
  use rfl, rfl, hchunked

/-- Behind a complete chunk the next one is expected. -/
theorem atChunk_cleared {p : HttpParser} {r : HttpRequest} (hp : p.state = .expectChunkComplete)
    (hchunked : p.isChunked = true) (hreq : p.req = some r) :
  AtChunk p.cleared r
  := by
  rw [cleared, hp]
  dsimp only
  rw [clearForNextChunk, if_pos hchunked]
  use rfl, rfl, hchunked, hreq

/-! ### Elements taken -/

/-- A step takes an element, whatever is behind it, and returns what is to be delivered. -/
def Takes (p : HttpParser) (e : Element UInt8 Delivery) (es : List (Element UInt8 Delivery)) :
    Prop :=
  ∀ behind, (e.symbols ++ behind).length < 2 ^ 31 → ∃ q state,
    p.step (e.symbols ++ behind) = .ok (q, e.symbols.length, state) ∧
    (HttpContext.react true q state).map HttpEvent.delivery = e.out ∧ Expects es q.cleared

/-- What is delivered of a complete message, and what comes next. -/
theorem completes {q : HttpParser} {r : HttpRequest} {payload : Option (List UInt8)}
    {ms : List HttpMessage} (hstate : q.state = .expectHttpComplete) (hreq : q.req = some r)
    (hpayload : q.chunk.map Packet.payload = payload) (hchunked : q.isChunked = false)
    (h : Deliverable ms) :
  (HttpContext.react true q q.state).map HttpEvent.delivery = [.message (some r) payload] ∧
    Expects (streamOf ms) q.cleared
  := by
  constructor
  · rw [hstate, ← hreq, ← hpayload]
    rfl
  · apply expects_streamOf (atHeaders_cleared hstate hchunked) h

/-- What is delivered of a complete chunk, and what comes next. -/
theorem completesChunk {q : HttpParser} {r : HttpRequest} {payload : Option (List UInt8)}
    {chunks : List HttpChunk} {last : HttpChunk} (hstate : q.state = .expectChunkComplete)
    (hreq : q.req = some r) (hpayload : q.chunk.map Packet.payload = payload)
    (hchunked : q.isChunked = true) (h : (HttpContent.chunked chunks last []).WellFormed) :
  (HttpContext.react true q q.state).map HttpEvent.delivery = [.message (some r) payload] ∧
    Expects (chunks.flatMap (HttpChunk.elements r) ++ lastElements r last []) q.cleared
  := by
  constructor
  · rw [hstate, ← hreq, ← hpayload]
    rfl
  · apply expects_chunks (atChunk_cleared hstate hchunked hreq) h

/-- What is delivered behind a header block, and what comes next. -/
theorem expects_framed {m : HttpMessage} {ms : List HttpMessage} {p : HttpParser}
    (hp : AtHeaders p) (h : Deliverable (m :: ms)) :
  (HttpContext.react true (m.framed p) (m.framed p).state).map HttpEvent.delivery =
      (if m.content.isEmpty then [.message (some m.request) none] else []) ∧
    Expects (m.content.elements m.request ++ streamOf ms) (m.framed p).cleared
  := by
  obtain ⟨-, hchunk, hchunked⟩ := hp
  have hcontent := (h.wellFormed m (List.mem_cons_self ..)).content
  have hsup := (h.supported m (List.mem_cons_self ..)).content
  have hlast := h.eq_nil
  obtain ⟨start, fields, content⟩ := m
  have hpayload : p.chunk.map Packet.payload = none
    := by rw [hchunk, Option.map_none]
  cases content with
  | none =>
      refine completes ?_ ?_ ?_ ?_ h.tail
      · rfl
      · rfl
      · apply hpayload
      · apply hchunked
  | length body =>
      cases body with
      | nil =>
          refine completes ?_ ?_ ?_ ?_ h.tail
          · rfl
          · rfl
          · apply hpayload
          · apply hchunked
      | cons c body =>
          use rfl
          have hholds : (HttpMessage.framed p ⟨start, fields, .length (c :: body)⟩).Holds
              (c :: body) []
            := holds_nil hchunk hsup
          apply Expects.body rfl _ rfl rfl (List.cons_ne_nil _ _) hholds rfl hsup h.tail
          apply hchunked
  | chunked chunks last trailer =>
      obtain ⟨rfl, -⟩ := hsup
      obtain rfl := hlast rfl
      use rfl
      rw [streamOf, List.flatMap_nil, List.append_nil]
      apply expects_chunks _ hcontent
      exact ⟨rfl, hchunk, rfl, rfl⟩

/-- A header block is taken. -/
theorem takes_message {m : HttpMessage} {ms : List HttpMessage} {p : HttpParser}
    (hp : AtHeaders p) (h : Deliverable (m :: ms)) :
  Takes p ⟨true, m.head, if m.content.isEmpty then [.message (some m.request) none] else []⟩
    (m.content.elements m.request ++ streamOf ms)
  := by
  intro behind _
  refine ⟨_, _, ?_, expects_framed hp h⟩
  rw [step, hp.state]
  apply readHeaders_head (h.wellFormed m (List.mem_cons_self ..))
    (h.supported m (List.mem_cons_self ..))

/-- What is left of a body is taken, and the body delivered. -/
theorem takes_body {p : HttpParser} {r : HttpRequest} {ms : List HttpMessage}
    {got rest body : List UInt8} (hstate : p.state = .expectNormalBody)
    (hchunked : p.isChunked = false) (hreq : p.req = some r)
    (hleft : p.currentContentLength = rest.length) (hholds : p.Holds rest got)
    (hbody : got ++ rest = body) (hlt : body.length < 2 ^ 31) (h : Deliverable ms) :
  Takes p ⟨false, rest, [.message (some r) (some body)]⟩ (streamOf ms)
  := by
  subst hbody
  rw [List.length_append] at hlt
  intro behind hlength
  obtain ⟨packet, hpacket, hparse⟩ := parseNormalBody_part hholds hleft hlt (List.append_nil _)
    hlength (.inl rfl)
  let q : HttpParser := { p with
    chunk := some packet
    currentContentLength := 0
    state := .expectHttpComplete }
  have hpayload : q.chunk.map Packet.payload = some (got ++ rest)
    := by rw [Option.map_some, hpacket.payload]
  have hcompletes := completes (q := q) rfl hreq hpayload hchunked h
  refine ⟨q, _, ?_, hcompletes⟩
  rw [step, hstate]
  dsimp only
  rw [hparse]
  rfl

/-- The line of a chunk's size is taken. -/
theorem takes_size {p : HttpParser} {r : HttpRequest} {c last : HttpChunk}
    {chunks : List HttpChunk} (hp : AtChunk p r)
    (h : (HttpContent.chunked (c :: chunks) last []).WellFormed) :
  Takes p ⟨true, c.line, []⟩ (⟨false, c.data ++ CRLF, [.message (some r) (some c.data)]⟩ ::
    (chunks.flatMap (HttpChunk.elements r) ++ lastElements r last []))
  := by
  intro behind _
  obtain ⟨hchunks, hlast⟩ := h
  obtain ⟨hc, hne, hmax⟩ := hchunks c (List.mem_cons_self ..)
  have hrest : (HttpContent.chunked chunks last []).WellFormed
    := ⟨fun c' h' => hchunks c' (List.mem_cons_of_mem _ h'), hlast⟩
  have hframed : c.framed p = { p with
      currentChunkLength := (c.data ++ CRLF).length
      state := .expectChunkBody }
    := by rw [HttpChunk.framed, if_neg hne]
  have hlt : (c.data ++ CRLF).length < 2 ^ 31
    := by
    rw [List.length_append, CRLF, List.length_cons, List.length_cons, List.length_nil]
    omega
  refine ⟨c.framed p, (c.framed p).state, ?_, ?_⟩
  · rw [step, hp.state]
    apply readChunkLen_line hc hmax
  · rw [hframed]
    use rfl
    refine Expects.chunk rfl ?_ ?_ rfl ?_ (holds_nil ?_ hlt) rfl hmax hrest
    · apply hp.isChunked
    · apply hp.req
    · apply List.append_ne_nil_of_left_ne_nil hne
    · apply hp.chunk

/-- What is left of a chunk is taken, and the chunk delivered without the line end. -/
theorem takes_chunk {p : HttpParser} {r : HttpRequest} {last : HttpChunk}
    {chunks : List HttpChunk} {got rest data : List UInt8} (hstate : p.state = .expectChunkBody)
    (hchunked : p.isChunked = true) (hreq : p.req = some r)
    (hleft : p.currentChunkLength = rest.length) (hholds : p.Holds rest got)
    (hdata : got ++ rest = data ++ CRLF) (hmax : data.length ≤ 1024 * 1024)
    (h : (HttpContent.chunked chunks last []).WellFormed) :
  Takes p ⟨false, rest, [.message (some r) (some data)]⟩
    (chunks.flatMap (HttpChunk.elements r) ++ lastElements r last [])
  := by
  intro behind hlength
  have hsum : got.length + rest.length = data.length + 2
    := by
    rw [← List.length_append, hdata, List.length_append]
    rfl
  obtain ⟨packet, hpacket, hparse⟩ := parseChunk_part hholds hleft (by omega) (List.append_nil _)
    hlength (.inl rfl)
  let q : HttpParser := { p with
    chunk := some { packet with size := packet.size - 2 }
    currentChunkLength := 0
    state := .expectChunkComplete }
  have hpayload : q.chunk.map Packet.payload = some data
    := by
    have hsize : (packet.size - 2).toNat = data.length
      := by
      have hfull : packet.size.toNat = data.length + 2
        := by rw [hpacket.filled.size_eq, hpacket.data, hdata, List.length_append]; rfl
      rw [UInt32.toNat_sub_of_le, hfull]
      · rfl
      · rw [UInt32.le_iff_toNat_le, hfull]
        apply Nat.le_add_left
    change some (packet.data.take (packet.size - 2).toNat) = some data
    rw [hsize, hpacket.data, hdata, List.take_left]
  have hcompletes := completesChunk (q := q) rfl hreq hpayload hchunked h
  refine ⟨q, _, ?_, hcompletes⟩
  rw [step, hstate]
  dsimp only
  rw [hparse]
  rfl

/-- The line of the last chunk is taken. -/
theorem takes_last {p : HttpParser} {r : HttpRequest} {last : HttpChunk} (hp : AtChunk p r)
    (h : (HttpContent.chunked [] last []).WellFormed) :
  Takes p ⟨true, last.line, []⟩ [⟨true, CRLF, [.message (some r) none]⟩]
  := by
  intro behind _
  obtain ⟨-, hlast, hnil, -⟩ := h
  have hmax : last.data.length ≤ 1024 * 1024
    := by
    rw [hnil]
    apply Nat.zero_le
  have hframed : last.framed p = { p with
      currentChunkLength := 0
      state := .expectLastEmptyChunk }
    := by rw [HttpChunk.framed, if_pos hnil]
  refine ⟨last.framed p, (last.framed p).state, ?_, ?_⟩
  · rw [step, hp.state]
    apply readChunkLen_line hlast hmax
  · rw [hframed]
    use rfl
    refine Expects.lineEnd rfl ?_
    apply hp.req

/-- The line end behind the last chunk is taken. -/
theorem takes_lineEnd {p : HttpParser} {r : HttpRequest}
    (hstate : p.state = .expectLastEmptyChunk) (hreq : p.req = some r) :
  Takes p ⟨true, CRLF, [.message (some r) none]⟩ []
  := by
  intro behind _
  refine ⟨{ p with chunk := none, state := .expectChunkComplete }, .expectChunkComplete,
    ?_, ?_, .done _⟩
  · rw [step, hstate]
    apply readLastEmptyChunk_lineEnd
  · rw [← hreq]
    rfl

/-- The parser takes what is expected, element by element. -/
theorem Expects.takes {e : Element UInt8 Delivery} {es : List (Element UInt8 Delivery)}
    {p : HttpParser} (h : Expects (e :: es) p) :
  Takes p e es
  := by
  cases h with
  | message hp h => apply takes_message hp h
  | body hstate hchunked hreq hleft _ hholds hbody hlt h =>
      apply takes_body hstate hchunked hreq hleft hholds hbody hlt h
  | size hp h => apply takes_size hp h
  | chunk hstate hchunked hreq hleft _ hholds hdata hmax h =>
      apply takes_chunk hstate hchunked hreq hleft hholds hdata hmax h
  | last hp h => apply takes_last hp h
  | lineEnd hstate hreq => apply takes_lineEnd hstate hreq

/-! ### Parts taken -/

/-- A step takes the part of a body that is there, and the rest is expected. -/
def TakesPart (p : HttpParser) (e : Element UInt8 Delivery) (es : List (Element UInt8 Delivery)) :
    Prop :=
  ∀ b c, b ++ c = e.symbols → b.length < 2 ^ 31 → c ≠ [] → ∃ q state,
    p.step b = .ok (q, b.length, state) ∧ HttpContext.react true q state = [] ∧
    Expects ({ e with symbols := c } :: es) q.cleared

/-- What was got of a body and what is left of it when a part was read. -/
theorem holds_part {q : HttpParser} {packet : Packet Unit} {got rest b c : List UInt8}
    (hchunk : q.chunk = some packet)
    (hpacket : packet.Holds (got.length + rest.length) (got ++ b)) (hrest : b ++ c = rest) :
  q.Holds c (got ++ b)
  := by
  rw [HttpParser.Holds, packetFor, hchunk, Option.getD_some]
  rw [← hrest, List.length_append, ← Nat.add_assoc, ← List.length_append] at hpacket
  apply hpacket

/-- A part of what is left of a body is taken. -/
theorem takesPart_body {p : HttpParser} {r : HttpRequest} {ms : List HttpMessage}
    {got rest body : List UInt8} (hstate : p.state = .expectNormalBody)
    (hchunked : p.isChunked = false) (hreq : p.req = some r)
    (hleft : p.currentContentLength = rest.length) (hholds : p.Holds rest got)
    (hbody : got ++ rest = body) (hlt : body.length < 2 ^ 31) (h : Deliverable ms) :
  TakesPart p ⟨false, rest, [.message (some r) (some body)]⟩ (streamOf ms)
  := by
  intro b c hsymbols hlength hne
  have hsum : got.length + rest.length < 2 ^ 31
    := by
    rw [← List.length_append, hbody]
    apply hlt
  obtain ⟨packet, hpacket, hparse⟩ := parseNormalBody_part hholds hleft hsum
    hsymbols (by rwa [List.append_nil]) (.inr rfl)
  rw [List.append_nil, if_neg hne] at hparse
  let q : HttpParser := { p with chunk := some packet, currentContentLength := c.length }
  have hq : q.state = .expectNormalBody := hstate
  have hcleared : q.cleared = q
    := cleared_of_state hq HttpParserState.noConfusion HttpParserState.noConfusion
  refine ⟨q, .expectNormalBody, ?_, rfl, ?_⟩
  · rw [step, hstate]
    dsimp only
    rw [hparse, ← hstate]
    rfl
  · rw [hcleared]
    have hrest : (got ++ b) ++ c = body
      := by
      rw [List.append_assoc, hsymbols]
      apply hbody
    apply Expects.body hq hchunked hreq rfl hne (holds_part rfl hpacket hsymbols) hrest hlt h

/-- A part of what is left of a chunk is taken. -/
theorem takesPart_chunk {p : HttpParser} {r : HttpRequest} {last : HttpChunk}
    {chunks : List HttpChunk} {got rest data : List UInt8} (hstate : p.state = .expectChunkBody)
    (hchunked : p.isChunked = true) (hreq : p.req = some r)
    (hleft : p.currentChunkLength = rest.length) (hholds : p.Holds rest got)
    (hdata : got ++ rest = data ++ CRLF) (hmax : data.length ≤ 1024 * 1024)
    (h : (HttpContent.chunked chunks last []).WellFormed) :
  TakesPart p ⟨false, rest, [.message (some r) (some data)]⟩
    (chunks.flatMap (HttpChunk.elements r) ++ lastElements r last [])
  := by
  intro b c hsymbols hlength hne
  have hsum : got.length + rest.length = data.length + 2
    := by
    rw [← List.length_append, hdata, List.length_append]
    rfl
  obtain ⟨packet, hpacket, hparse⟩ := parseChunk_part hholds hleft (by omega)
    hsymbols (by rwa [List.append_nil]) (.inr rfl)
  rw [List.append_nil, if_neg hne] at hparse
  let q : HttpParser := { p with chunk := some packet, currentChunkLength := c.length }
  have hq : q.state = .expectChunkBody := hstate
  have hcleared : q.cleared = q
    := cleared_of_state hq HttpParserState.noConfusion HttpParserState.noConfusion
  refine ⟨q, .expectChunkBody, ?_, rfl, ?_⟩
  · rw [step, hstate]
    dsimp only
    rw [hparse, ← hstate]
    rfl
  · rw [hcleared]
    have hrest : (got ++ b) ++ c = data ++ CRLF
      := by
      rw [List.append_assoc, hsymbols]
      apply hdata
    apply Expects.chunk hq hchunked hreq rfl hne (holds_part rfl hpacket hsymbols) hrest hmax h

/-- The parser takes the parts of bodies. -/
theorem Expects.takesPart {e : Element UInt8 Delivery} {es : List (Element UInt8 Delivery)}
    {p : HttpParser} (h : Expects (e :: es) p) (hwhole : e.whole = false) :
  TakesPart p e es
  := by
  cases h with
  | message => contradiction
  | size => contradiction
  | last => contradiction
  | lineEnd => contradiction
  | body hstate hchunked hreq hleft _ hholds hbody hlt h =>
      apply takesPart_body hstate hchunked hreq hleft hholds hbody hlt h
  | chunk hstate hchunked hreq hleft _ hholds hdata hmax h =>
      apply takesPart_chunk hstate hchunked hreq hleft hholds hdata hmax h

/-! ### The loop -/

namespace HttpContext

/-- The parser of a context and the elements that it is to read next. -/
def Awaits (es : List (Element UInt8 Delivery)) (p : HttpParser) : Prop :=
  Consistent p ∧ Expects es p.cleared

/-- With bytes, what is complete is cleared and a step is made. -/
theorem parse_of_one_lt {b : List UInt8} (hb : 1 < b.length) (p : HttpParser) :
  p.parse b = p.cleared.step b
  := by
  rw [parse, if_neg]
  rw [List.isEmpty_iff]
  rintro rfl
  contradiction

/-- A turn makes one step of the parser. -/
theorem turn_of_step {p q : HttpParser} {b : List UInt8} {n : Nat} {state : HttpParserState}
    (hb : 1 < b.length) (h : p.cleared.step b = .ok (q, n, state)) :
  turn true (p, b) = .next (q, b.drop n) (react true q state)
  := by rw [turn, if_pos hb, parse_of_one_lt hb, h]

/-- The turns of the loop take the elements that are awaited. -/
theorem follows :
  Framing.Follows (turn true) HttpEvent.delivery (2 ^ 31 - 1) Awaits
  := by
  constructor
  · intro p b hb
    rw [turn, if_neg (Nat.not_lt_of_le hb)]
  · rintro e es p c ⟨hp, hes⟩ hlength hbound
    obtain ⟨q, state, hstep, hout, hq⟩ := hes.takes c (by omega)
    have hturn := turn_of_step hlength hstep
    rw [List.drop_left] at hturn
    rw [← parse_of_one_lt hlength] at hstep
    use q, react true q state, hturn, hout, consistent_parse hp hstep
  · rintro e es p b c ⟨hp, hes⟩ hwhole hsymbols hlength hbound hne
    obtain ⟨q, state, hstep, hout, hq⟩ := hes.takesPart hwhole b c hsymbols.symm (by omega) hne
    have hturn := turn_of_step hlength hstep
    rw [List.drop_length, hout] at hturn
    rw [← parse_of_one_lt hlength] at hstep
    use q, hturn, consistent_parse hp hstep

/-! ### Parts of what is read as a whole -/

/-- A loop whose parser has nothing to do does not end. -/
theorem ready_of_ends {p : HttpParser} {b : List UInt8} {t : Config} {outs : List HttpEvent}
    (hp : Consistent p) (hb : 1 < b.length) (h : Loop.Ends (turn true) (p, b) t outs) :
  Ready p.cleared b
  := by
  by_contra hready
  apply (progress true).not_bad h hp
  use hb, hready

/-- The end of a header block is not found in a part of it. -/
theorem find_partOfHead {m : HttpMessage} (hm : m.WellFormed) {b c : List UInt8}
    (hb : m.head = b ++ c) (hne : c ≠ []) :
  find CRLFCRLF b = none
  := by
  have hfind := find_emptyLine m.lines_ne_nil hm.lines []
  rw [List.append_nil, ← m.head_eq, hb] at hfind
  apply find_eq_none_of_append hfind _ hne
  rw [← hb, m.head_eq, List.length_append]

/-- The line end is not found in a part of the line of a chunk's size. -/
theorem find_partOfLine {k : HttpChunk} (hk : k.WellFormed) {b c : List UInt8}
    (hb : k.line = b ++ c) (hne : c ≠ []) :
  find CRLF b = none
  := by
  have hfind := hk.find_line []
  rw [List.append_nil, hb] at hfind
  apply find_eq_none_of_append hfind _ hne
  rw [← hb, k.length_line]
  rfl

/-- A part of the line of a chunk's size closes the connection if the loop ends. -/
theorem closed_of_partOfLine {p : HttpParser} {r : HttpRequest} {k : HttpChunk}
    {b c : List UInt8} {t : Config} {outs : List HttpEvent} (hp : Consistent p)
    (hchunk : AtChunk p.cleared r) (hk : k.WellFormed) (hb : k.line = b ++ c) (hne : c ≠ [])
    (hlength : 1 < b.length) (h : Loop.Ends (turn true) (p, b) t outs) :
  .closed ∈ outs.map HttpEvent.delivery
  := by
  have hfind := find_partOfLine hk hb hne
  have hready := ready_of_ends hp hlength h
  rw [Ready, hchunk.state] at hready
  obtain ⟨crlf, hcrlf, -⟩ | ⟨-, hlong⟩ := hready
  · cases hcrlf.symm.trans hfind
  · have hstep : p.cleared.step b = .ok ({ p.cleared with
        reason := k400BadRequest
        state := .expectError }, b.length, .expectError)
      := by
      rw [step, hchunk.state]
      dsimp only
      rw [readChunkLen, hfind]
      dsimp only
      rw [if_pos hlong]
    have hturn := turn_of_step hlength hstep
    cases h with
    | leave hleave => cases hleave.symm.trans hturn
    | next hnext _ =>
        cases hnext.symm.trans hturn
        apply List.mem_cons_self ..

/-- A part of what is read as a whole leaves the loop running, or closes the connection. -/
theorem alarms :
  Framing.Alarms (turn true) HttpEvent.delivery (2 ^ 31 - 1) .closed Awaits
  := by
  constructor
  · rintro e es p ⟨-, hes⟩
    cases hes with
    | message =>
        rw [HttpMessage.head_eq]
        apply List.append_ne_nil_of_right_ne_nil _ (List.cons_ne_nil _ _)
    | body _ _ _ _ hne => apply hne
    | size => apply List.append_ne_nil_of_right_ne_nil _ (List.cons_ne_nil _ _)
    | chunk _ _ _ _ hne => apply hne
    | last => apply List.append_ne_nil_of_right_ne_nil _ (List.cons_ne_nil _ _)
    | lineEnd => apply List.cons_ne_nil
  · rintro e es p b c t outs ⟨hp, hes⟩ hwhole hsymbols hlength - hne h
    cases hes with
    | body => contradiction
    | chunk => contradiction
    | @message m ms _ hheaders hms =>
        have hfind := find_partOfHead (hms.wellFormed m (List.mem_cons_self ..)) hsymbols hne
        have hready := ready_of_ends hp hlength h
        rw [Ready, hheaders.state] at hready
        obtain ⟨-, size, hsize, -⟩ := hready
        cases hsize.symm.trans hfind
    | @size _ r k last chunks hchunk hcontent =>
        obtain ⟨hk, -⟩ := hcontent.1 k (List.mem_cons_self ..)
        apply closed_of_partOfLine hp hchunk hk hsymbols hne hlength h
    | last hchunk hcontent =>
        apply closed_of_partOfLine hp hchunk hcontent.2.1 hsymbols hne hlength h
    | lineEnd =>
        have hlen := congrArg List.length hsymbols
        have hpos := List.length_pos_of_ne_nil hne
        rw [List.length_append, CRLF, List.length_cons, List.length_cons, List.length_nil] at hlen
        omega

/-! ### Delivery -/

/-- The pieces in which messages are received are read by loops that end, all bytes are consumed,
and the messages are delivered. -/
def Delivered (ms : List HttpMessage) (reads : List (List UInt8)) : Prop :=
  ∃ p outs, Framing.Reads (turn true) ({}, []) reads (p, []) outs ∧
    outs.map HttpEvent.delivery = ms.flatMap HttpMessage.deliveries

/-- A reader that takes header blocks, sizes of chunks and line ends as a whole gets to the end
of the messages when they are cut into pieces of some lengths. -/
def CutsSuit (ms : List HttpMessage) (lengths : List Nat) : Prop :=
  ∃ out, Framing.consumeAll (streamOf ms) 0 lengths = some ([], 0, out)

/-- A message is not delivered as a closed connection. -/
theorem closed_notMem_deliveries (ms : List HttpMessage) :
  .closed ∉ ms.flatMap HttpMessage.deliveries
  := by
  intro hmem
  obtain ⟨m, -, hmem⟩ := List.mem_flatMap.mp hmem
  rw [HttpMessage.deliveries] at hmem
  split at hmem
  · cases List.mem_singleton.mp hmem
  · cases List.mem_singleton.mp hmem
  · obtain hmem | hmem := List.mem_append.mp hmem
    · obtain ⟨c, -, hc⟩ := List.mem_map.mp hmem
      cases hc
    · cases List.mem_singleton.mp hmem

/-- Messages that the parser supports, with none behind a body in chunks, are delivered exactly
when the pieces suit it. -/
theorem delivered_iff {ms : List HttpMessage} {reads : List (List UInt8)}
    (hms : Deliverable ms) (hbytes : reads.flatten = ms.flatMap HttpMessage.bytes)
    (hlength : ∀ b ∈ reads, b.length < 2 ^ 31 - 1) :
  Delivered ms reads ↔ CutsSuit ms (reads.map List.length)
  := by
  have hexpects : Awaits (streamOf ms) {}
    := by
    use Reachable.new.consistent
    apply expects_streamOf _ hms
    use rfl, rfl
    rfl
  have hclosed := closed_notMem_deliveries ms
  rw [← outOf_streamOf] at hclosed
  rw [← symbolsOf_streamOf] at hbytes
  rw [Delivered, ← outOf_streamOf]
  apply follows.reads_iff alarms hexpects hlength hbytes hclosed

theorem isToken_of_all {s : List UInt8} (hne : s ≠ [])
    (h : s.all (fun c => decide (IsTokenByte c)) = true) :
  IsToken s
  := ⟨hne, List.all_iff_forall_prop.mp h⟩

/-- Whether a header field without spaces around its value is as it should be can be computed. -/
theorem HeaderField.wellFormed_of_all {f : HeaderField} (hname : IsToken f.name)
    (hvalue : f.value.all (fun c => decide (IsVisibleByte c)) = true)
    (hbefore : f.before.all (fun c => decide (c = 32 ∨ c = 9)) = true)
    (hafter : f.after.all (fun c => decide (c = 32 ∨ c = 9)) = true) :
  f.WellFormed
  where
  name := hname
  value := fun c hc => .inl (List.all_iff_forall_prop.mp hvalue c hc)
  head := fun c hc => List.all_iff_forall_prop.mp hvalue c (List.mem_of_mem_head? hc)
  last := fun c hc => List.all_iff_forall_prop.mp hvalue c (List.mem_of_getLast? hc)
  before := List.all_iff_forall_prop.mp hbefore
  after := List.all_iff_forall_prop.mp hafter

/-- A request with nothing behind the header block. -/
def getRequest : HttpMessage where
  start := .request (ascii "GET") (ascii "/live") (ascii "HTTP/1.1")
  fields := [⟨ascii "Host", ascii "tmms", [32], []⟩]
  content := .none

/-- A request with a body. -/
def postRequest : HttpMessage where
  start := .request (ascii "POST") (ascii "/live") (ascii "HTTP/1.1")
  fields := [⟨ascii "Content-Length", ascii "3", [32], []⟩]
  content := .length (ascii "abc")

theorem getRequest_wellFormed :
  getRequest.WellFormed
  := by
  constructor
  · use isToken_of_all (by decide) (by decide), (by decide),
      List.all_iff_forall_prop.mp (by decide), 49, (by decide)
    rfl
  · intro f hf
    obtain rfl := List.mem_singleton.mp hf
    exact HeaderField.wellFormed_of_all (isToken_of_all (by decide) (by decide)) (by decide)
      (by decide) (by decide)
  · change ∀ f ∈ getRequest.fields, _
    decide +kernel
  · trivial

theorem postRequest_wellFormed :
  postRequest.WellFormed
  := by
  constructor
  · use isToken_of_all (by decide) (by decide), (by decide),
      List.all_iff_forall_prop.mp (by decide), 49, (by decide)
    rfl
  · intro f hf
    obtain rfl := List.mem_singleton.mp hf
    exact HeaderField.wellFormed_of_all (isToken_of_all (by decide) (by decide)) (by decide)
      (by decide) (by decide)
  · constructor
    · decide +kernel
    · intro f hf
      obtain rfl := List.mem_singleton.mp hf
      use by decide +kernel
      intro _
      constructor
      · decide +kernel
      · decide +kernel
      · rfl
  · trivial

/-- One instance: a request with a body, which is cut, and another request. -/
theorem delivered_iff_post_get :
  Delivered [postRequest, getRequest]
    [postRequest.head ++ ascii "ab", ascii "c" ++ getRequest.bytes]
  := by
  have hms : Deliverable [postRequest, getRequest]
    := by
    constructor
    · intro m hm
      obtain rfl | hm := List.mem_cons.mp hm
      · apply postRequest_wellFormed
      · obtain rfl := List.mem_singleton.mp hm
        apply getRequest_wellFormed
    · intro m hm
      obtain rfl | hm := List.mem_cons.mp hm
      · use (by decide +kernel), (by decide +kernel), (by decide +kernel)
        change 3 < 2 ^ 31
        decide +kernel
      · obtain rfl := List.mem_singleton.mp hm
        use (by decide +kernel), (by decide +kernel), (by decide +kernel)
        apply Or.inl rfl
    · decide +kernel
  have hbytes : [postRequest.head ++ ascii "ab", ascii "c" ++ getRequest.bytes].flatten =
      [postRequest, getRequest].flatMap HttpMessage.bytes
    := by rfl
  apply (delivered_iff hms hbytes (by decide +kernel)).mpr
  exact ⟨_, rfl⟩

/-- A request of which two bytes are received first is not delivered. -/
theorem not_delivered_cut :
  getRequest.WellFormed ∧
    [getRequest.bytes.take 2, getRequest.bytes.drop 2].flatten =
      [getRequest].flatMap HttpMessage.bytes ∧
    ¬ Delivered [getRequest] [getRequest.bytes.take 2, getRequest.bytes.drop 2]
  := by
  use getRequest_wellFormed, rfl
  rintro ⟨p, outs, hreads, -⟩
  cases hreads with
  | cons hends _ =>
      have hturn : turn true ({}, ascii "GE") = .next ({}, ascii "GE") []
        := by rfl
      apply Loop.not_terminates_of_fixed hturn
      exact ⟨_, _, hends⟩

end HttpContext
