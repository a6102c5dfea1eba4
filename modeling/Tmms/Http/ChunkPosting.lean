import Mathlib.Data.Nat.Digits.Lemmas
import Tmms.Http.Delivery
import Tmms.Library.Runs

/-!
# Posting chunks

`HttpContext` sends a body in chunks: the header, then for each chunk the line of its size and its
data, and the last line.  It posts one thing at a time, and what comes next is told by
`post_state_` when the connection has written what it was given.

What a connection is given and what it has written are in a `ChunkSender`.  Who posts waits until
everything has been written.  The bytes that are sent then are known (`sent_posts`), and they are
too few: a reader takes a line end behind the data of every chunk, and there is none.  So a body is
read as it was posted if it has no chunks, and no other (`readBack_iff_nil`).
-/

open StringUtils HttpParser

/-- `%X`. -/
def hexText (n : Nat) : List UInt8 :=
  if n = 0 then [48] else ((Nat.digits 16 n).map hexChar).reverse

/-- The values of `HttpContextPostState` that belong to chunks. -/
inductive ChunkPostState where
  | init
  | chunkHeader
  | chunkLen
  | chunkBody
  | chunkEOF
  deriving DecidableEq, Repr

/-- The fields of `HttpContext` for sending chunks. -/
structure ChunkPosting where
  header : List UInt8 := []
  outPacket : Option (Packet Unit) := none
  postState : ChunkPostState := .init
  headerSent : Bool
  deriving DecidableEq, Repr

/-- What a context asks of the connection and of the handler. -/
inductive ChunkCall where
  | send (bytes : List UInt8)
  | onSent
  | onSentNextChunk
  deriving DecidableEq, Repr

/-- `CHUNK_EOF`. -/
def chunkEof : List UInt8 := ascii "0" ++ CRLFCRLF

namespace ChunkPosting

/-- `PostChunkHeader`. -/
def postChunkHeader (c : ChunkPosting) (header : List UInt8) : ChunkPosting × List ChunkCall :=
  if c.postState ≠ .init then
    (c, [])
  else
    ({ c with header := header, postState := .init, headerSent := true }, [.send header])

/-- `PostChunk`. -/
def postChunk (c : ChunkPosting) (chunk : Packet Unit) : ChunkPosting × List ChunkCall :=
  let c := { c with outPacket := some chunk }
  if !c.headerSent then
    ({ c with postState := .chunkHeader, headerSent := true }, [.send c.header])
  else
    let header := hexText chunk.size.toNat ++ CRLF
    ({ c with postState := .chunkLen, header := header }, [.send header])

/-- `PostEofChunk`. -/
def postEofChunk (c : ChunkPosting) : ChunkPosting × List ChunkCall :=
  ({ c with postState := .chunkEOF }, [.send chunkEof])

/-- `WriteComplete`. -/
def writeComplete (c : ChunkPosting) : ChunkPosting × List ChunkCall :=
  match c.postState with
  | .init => (c, [])
  | .chunkHeader => ({ c with postState := .chunkLen }, [.onSentNextChunk])
  | .chunkLen =>
      ({ c with postState := .chunkBody },
        c.outPacket.toList.map fun packet => .send packet.payload)
  | .chunkBody => ({ c with postState := .init }, [.onSentNextChunk])
  | .chunkEOF => ({ c with postState := .init }, [.onSent])

end ChunkPosting

/-- What is posted. -/
inductive ChunkPost where
  | header (header : List UInt8)
  | chunk (chunk : Packet Unit)
  | eof
  deriving DecidableEq, Repr

/-- A context, how many sends have not been written, and all the bytes that were sent. -/
structure ChunkSender where
  posting : ChunkPosting
  unwritten : Nat := 0
  sent : List UInt8 := []
  deriving DecidableEq, Repr

inductive ChunkEvent where
  | post (post : ChunkPost)
  | writeComplete
  deriving DecidableEq, Repr

/-- The bytes of a call that sends. -/
def ChunkCall.bytes? : ChunkCall → Option (List UInt8)
  | .send bytes => some bytes
  | _ => none

/-- What is posted in a run. -/
def ChunkEvent.posts : List ChunkEvent → List ChunkPost
  | [] => []
  | .post p :: es => p :: posts es
  | .writeComplete :: es => posts es

namespace ChunkSender

/-- What the connection is given is sent. -/
def give (s : ChunkSender) (r : ChunkPosting × List ChunkCall) : ChunkSender where
  posting := r.1
  unwritten := s.unwritten + (r.2.filterMap ChunkCall.bytes?).length
  sent := s.sent ++ (r.2.filterMap ChunkCall.bytes?).flatten

def step (s : ChunkSender) : ChunkEvent → ChunkSender
  | .post (.header header) => s.give (s.posting.postChunkHeader header)
  | .post (.chunk chunk) => s.give (s.posting.postChunk chunk)
  | .post .eof => s.give s.posting.postEofChunk
  | .writeComplete => { s with unwritten := s.unwritten - 1 }.give s.posting.writeComplete

/-- A post waits until everything is written, and only what was sent is written. -/
def Waits (s : ChunkSender) : ChunkEvent → Prop
  | .post _ => s.unwritten = 0
  | .writeComplete => s.unwritten ≠ 0

instance (s : ChunkSender) (e : ChunkEvent) : Decidable (s.Waits e) :=
  match e with
  | .post _ => inferInstanceAs (Decidable (_ = _))
  | .writeComplete => inferInstanceAs (Decidable (_ ≠ _))

end ChunkSender

/-- Chunks between a header, if it is posted beforehand, and the end. -/
def postsOf (header : Option (List UInt8)) (chunks : List (Packet Unit)) : List ChunkPost :=
  (header.toList.map ChunkPost.header) ++ (chunks.map ChunkPost.chunk ++ [.eof])

/-- A packet that can be a chunk: it is filled and not empty, and its size is an `int32_t`. -/
structure IsChunk (chunk : Packet Unit) : Prop where
  filled : chunk.Filled
  pos : 0 < chunk.size.toNat
  lt : chunk.size.toNat < 2 ^ 31

instance (chunk : Packet Unit) : Decidable (IsChunk chunk) :=
  decidable_of_iff ((chunk.size.toNat = chunk.data.length ∧
      chunk.size.toNat ≤ chunk.capacity.toNat) ∧ 0 < chunk.size.toNat ∧
      chunk.size.toNat < 2 ^ 31)
    ⟨fun ⟨⟨hsize, hle⟩, hpos, hlt⟩ => ⟨⟨hsize, hle⟩, hpos, hlt⟩,
      fun h => ⟨⟨h.filled.size_eq, h.filled.size_le⟩, h.pos, h.lt⟩⟩

/-- The handler gets a chunk. -/
def HttpEvent.Brings (r : HttpRequest) (e : HttpEvent) (chunk : Packet Unit) : Prop :=
  ∃ packet, e = .onRequest (some r) (some packet) ∧ packet.size = chunk.size ∧
    packet.payload = chunk.payload

/-- Bytes, received in some pieces by a parser that has read the header, are all consumed, and
bring chunks and then the end of the body. -/
def ReadBack (p : HttpParser) (r : HttpRequest) (bytes : List UInt8)
    (chunks : List (Packet Unit)) : Prop :=
  ∃ reads p' events, reads.flatten = bytes ∧
    Framing.Reads (HttpContext.turn true) (p, []) reads (p', [])
      (events ++ [.onRequest (some r) none]) ∧
    List.Forall₂ (HttpEvent.Brings r) events chunks

/-! ### What is sent -/

/-- What is sent for a chunk. There is no line end behind the data. -/
def chunkBytes (chunk : Packet Unit) : List UInt8 :=
  hexText chunk.size.toNat ++ CRLF ++ chunk.payload

/-- What is sent for chunks and the end. -/
def bodyBytes (chunks : List (Packet Unit)) : List UInt8 := chunks.flatMap chunkBytes ++ chunkEof

namespace ChunkSender

open Runs

variable {s : ChunkSender} {es : List ChunkEvent} {post : ChunkPost} {posts : List ChunkPost}

/-- When everything is written, what happens next is a post. -/
theorem post_next (hwritten : s.unwritten = 0) (h : Steps step Waits s es)
    (hposts : ChunkEvent.posts es = post :: posts) :
  ∃ es', es = .post post :: es' ∧ Steps step Waits (s.step (.post post)) es' ∧
    ChunkEvent.posts es' = posts
  := by
  cases es with
  | nil => cases hposts
  | cons e es =>
      cases e with
      | post post' =>
          cases hposts
          exact ⟨es, rfl, h.2, rfl⟩
      | writeComplete => exact absurd hwritten h.1

/-- When something is not written, what happens next is that it is. -/
theorem writeComplete_next (hunwritten : s.unwritten ≠ 0) (h : Steps step Waits s es)
    (hposts : ChunkEvent.posts es = post :: posts) :
  ∃ es', es = .writeComplete :: es' ∧ Steps step Waits (s.step .writeComplete) es' ∧
    ChunkEvent.posts es' = post :: posts
  := by
  cases es with
  | nil => cases hposts
  | cons e es =>
      cases e with
      | post post' => exact absurd h.1 hunwritten
      | writeComplete => exact ⟨es, rfl, h.2, hposts⟩

/-- Behind the end nothing is sent. -/
theorem sent_end (hposts : ChunkEvent.posts es = [])
    (hstate : s.posting.postState = .chunkEOF ∨ s.posting.postState = .init) :
  (run step s es).sent = s.sent
  := by
  induction es generalizing s with
  | nil => rfl
  | cons e es ih =>
      cases e with
      | post post => cases hposts
      | writeComplete =>
          have hnext : (s.step .writeComplete).posting.postState = .init ∧
              (s.step .writeComplete).sent = s.sent
            := by
            rcases hstate with hstate | hstate
            · simp [step, give, ChunkPosting.writeComplete, hstate, ChunkCall.bytes?]
            · simp [step, give, ChunkPosting.writeComplete, hstate]
          rw [run, List.foldl_cons, ← run, ih hposts (.inr hnext.1), hnext.2]

/-- There is always a post to come before the end. -/
theorem exists_next (chunks : List (Packet Unit)) :
  ∃ post posts, chunks.map ChunkPost.chunk ++ [.eof] = post :: posts
  := by
  cases chunks with
  | nil => exact ⟨_, _, rfl⟩
  | cons chunk chunks => exact ⟨_, _, rfl⟩

/-- Behind the header, the chunks and the end are sent. -/
theorem sent_chunks {chunks : List (Packet Unit)} (hsent : s.posting.headerSent = true)
    (hwritten : s.unwritten = 0) (h : Steps step Waits s es)
    (hposts : ChunkEvent.posts es = chunks.map ChunkPost.chunk ++ [.eof]) :
  (run step s es).sent = s.sent ++ bodyBytes chunks
  := by
  induction chunks generalizing s es with
  | nil =>
      obtain ⟨es, rfl, h, hposts⟩ := post_next hwritten h hposts
      rw [run, List.foldl_cons, ← run, sent_end hposts (.inl rfl)]
      simp [step, give, ChunkPosting.postEofChunk, ChunkCall.bytes?, bodyBytes]
  | cons chunk chunks ih =>
      obtain ⟨es, rfl, h, hposts⟩ := post_next hwritten h hposts
      have hpost : s.step (.post (.chunk chunk)) = {
          posting := { s.posting with
            outPacket := some chunk
            postState := .chunkLen
            header := hexText chunk.size.toNat ++ CRLF }
          unwritten := 1
          sent := s.sent ++ (hexText chunk.size.toNat ++ CRLF) }
        := by
        simp [step, give, ChunkPosting.postChunk, hsent, hwritten, ChunkCall.bytes?]
      rw [hpost] at h
      obtain ⟨post, posts, hrest⟩ := exists_next chunks
      change _ = chunks.map ChunkPost.chunk ++ [.eof] at hposts
      rw [hrest] at hposts
      obtain ⟨es, rfl, h, hposts⟩ := writeComplete_next Nat.one_ne_zero h hposts
      obtain ⟨es, rfl, h, hposts⟩ := writeComplete_next Nat.one_ne_zero h hposts
      rw [← hrest] at hposts
      have hrun := ih (by exact hsent) (by rfl) h hposts
      rw [run, List.foldl_cons, List.foldl_cons, List.foldl_cons, hpost, ← run, hrun]
      change s.sent ++ _ ++ ([chunk.payload].flatten) ++ ([] : List (List UInt8)).flatten ++ _ = _
      rw [List.flatten_singleton, List.flatten_nil, List.append_nil, bodyBytes, bodyBytes,
        List.flatMap_cons, chunkBytes]
      simp only [List.append_assoc]

/-- The bytes that are sent: the header, and then what is sent for the chunks. If no header was
posted beforehand, the first chunk is not among them. -/
theorem sent_posts {c : ChunkPosting} (hinit : c.postState = .init) (header : Option (List UInt8))
    {chunks : List (Packet Unit)} (hheader : header = none → c.headerSent = false ∧ chunks ≠ [])
    (h : Steps step Waits { posting := c } es)
    (hposts : ChunkEvent.posts es = postsOf header chunks) :
  (run step { posting := c } es).sent =
    header.getD c.header ++ bodyBytes (if header.isSome then chunks else chunks.tail)
  := by
  cases header with
  | some header =>
      obtain ⟨es, rfl, h, hposts⟩ := post_next rfl h hposts
      have hpost : step { posting := c } (.post (.header header)) = {
          posting := { c with header := header, postState := .init, headerSent := true }
          unwritten := 1
          sent := header }
        := by
        simp [step, give, ChunkPosting.postChunkHeader, hinit, ChunkCall.bytes?]
      rw [hpost] at h
      obtain ⟨post, posts, hrest⟩ := exists_next chunks
      change _ = chunks.map ChunkPost.chunk ++ [.eof] at hposts
      rw [hrest] at hposts
      obtain ⟨es, rfl, h, hposts⟩ := writeComplete_next Nat.one_ne_zero h hposts
      rw [← hrest] at hposts
      have hrun := sent_chunks (by rfl) (by rfl) h hposts
      rw [run, List.foldl_cons, List.foldl_cons, hpost, ← run, hrun]
      change header ++ ([] : List (List UInt8)).flatten ++ _ = _
      rw [List.flatten_nil, List.append_nil]
      rfl
  | none =>
      obtain ⟨hsent, hne⟩ := hheader rfl
      obtain ⟨chunk, chunks, rfl⟩ := List.exists_cons_of_ne_nil hne
      obtain ⟨es, rfl, h, hposts⟩ := post_next rfl h hposts
      have hpost : step { posting := c } (.post (.chunk chunk)) = {
          posting := { c with
            outPacket := some chunk
            postState := .chunkHeader
            headerSent := true }
          unwritten := 1
          sent := c.header }
        := by
        simp [step, give, ChunkPosting.postChunk, hsent, ChunkCall.bytes?]
      rw [hpost] at h
      obtain ⟨post, posts, hrest⟩ := exists_next chunks
      change _ = chunks.map ChunkPost.chunk ++ [.eof] at hposts
      rw [hrest] at hposts
      obtain ⟨es, rfl, h, hposts⟩ := writeComplete_next Nat.one_ne_zero h hposts
      rw [← hrest] at hposts
      have hrun := sent_chunks (by rfl) (by rfl) h hposts
      rw [run, List.foldl_cons, List.foldl_cons, hpost, ← run, hrun]
      change c.header ++ ([] : List (List UInt8)).flatten ++ _ = _
      rw [List.flatten_nil, List.append_nil]
      rfl

end ChunkSender

/-! ### What a reader takes -/

/-- The length of a size in digits. -/
def sizeLength (n : Nat) : Nat := (Nat.digits 16 n).length

theorem length_hexText {n : Nat} (h : 0 < n) :
  (hexText n).length = sizeLength n
  := by rw [hexText, if_neg (Nat.ne_of_gt h), List.length_reverse, List.length_map, sizeLength]

/-- A number is below the power of the base by the length of its text. -/
theorem strtol_lt (line : List UInt8) :
  (strtol line 16).natAbs < 16 ^ line.length
  := by
  have hpos : 0 < 16 ^ line.length := Nat.pow_pos (by decide)
  rw [strtol, leadingNumber]
  generalize hrest : (if (line.dropWhile isSpace).head? = some 45 ∨
    (line.dropWhile isSpace).head? = some 43 then (line.dropWhile isSpace).tail
    else line.dropWhile isSpace) = rest
  have hle : rest.length ≤ line.length
    := by
    have hspaces := (List.dropWhile_sublist isSpace (l := line)).length_le
    rw [← hrest]
    split
    · rw [List.length_tail]
      omega
    · exact hspaces
  have hprefix : (dropHexPrefix rest).length ≤ rest.length
    := by
    unfold dropHexPrefix
    split
    · split
      · simp only [List.length_cons]
        omega
      · exact Nat.le_refl _
    · exact Nat.le_refl _
  have hdigits := (List.takeWhile_sublist (isDigit 16) (l := dropHexPrefix rest)).length_le
  have hnumeral : numeral 16 ((dropHexPrefix rest).takeWhile (isDigit 16)) <
      16 ^ ((dropHexPrefix rest).takeWhile (isDigit 16)).length
    := numeral_lt fun d hd => List.mem_takeWhile_imp hd
  have hpow := Nat.pow_le_pow_right (n := 16) (by decide)
    (Nat.le_trans hdigits (Nat.le_trans hprefix hle))
  rw [if_pos rfl]
  by_cases hempty : ((dropHexPrefix rest).takeWhile (isDigit 16)).isEmpty = true
  · rw [if_pos hempty]
    exact hpos
  · rw [if_neg hempty]
    cases decide ((line.dropWhile isSpace).head? = some 45) with
    | true =>
        dsimp only
        omega
    | false =>
        dsimp only
        omega

/-- The line of a size is at least as long as its digits. -/
theorem sizeLength_le (line : List UInt8) :
  sizeLength (truncate32 (strtol line 16)).toNat ≤ line.length
  := by
  have hlt := strtol_lt line
  rw [sizeLength, Nat.digits_length_le_iff (by decide)]
  rw [truncate32, Int.bmod_def]
  split
  · omega
  · omega

/-- What an output costs: a chunk its data, its size in digits and two line ends, and the end of
the body two line ends. -/
def chunkCost : HttpEvent → Nat
  | .onRequest _ (some packet) =>
      if packet.size.toNat < 2 ^ 31 then sizeLength packet.size.toNat + 4 + packet.size.toNat else 0
  | .onRequest _ none => 4
  | .forceClose => 0

namespace HttpParser

/-- How much of a chunk the packet has. -/
def got (p : HttpParser) : Nat := (p.packetFor p.currentChunkLength).size.toNat

/-- What a parser has taken for an output that is to come. -/
def chunkCredit (p : HttpParser) : Nat :=
  match p.state with
  | .expectChunkBody => sizeLength (p.currentChunkLength + p.got - 2).toNat + 2 + p.got
  | .expectLastEmptyChunk => 2
  | _ => 0

/-- A parser in a body of chunks. -/
structure InChunks (p : HttpParser) : Prop where
  isChunked : p.isChunked = true
  state : p.state = .expectChunkLen ∨ p.state = .expectChunkBody ∨
    p.state = .expectLastEmptyChunk ∨ p.state = .expectChunkComplete ∨ p.state = .expectError
  chunkLen : p.state = .expectChunkLen → p.chunk = none
  chunkBody : p.state = .expectChunkBody →
    (p.packetFor p.currentChunkLength).space = p.currentChunkLength ∧
      p.currentChunkLength + p.got < 2 ^ 31

/-- A step pays for its outputs. -/
def Pays (p : HttpParser) (b : List UInt8) : Parsed → Prop
  | .error _ => True
  | .ok (p', n, state) => p'.InChunks ∧ n ≤ b.length ∧
      p'.chunkCredit + ((HttpContext.react true p' state).map chunkCost).sum ≤ p.chunkCredit + n

theorem pays_readChunkLen {p : HttpParser} (hp : p.InChunks) (hstate : p.state = .expectChunkLen)
    (b : List UInt8) :
  p.Pays b (p.readChunkLen b)
  := by
  have hcredit : p.chunkCredit = 0 := by rw [chunkCredit, hstate]
  rw [readChunkLen]
  split
  · rename_i crlf hfind
    have hle : crlf + 2 ≤ b.length := le_of_find hfind
    have hdigits := sizeLength_le (b.take crlf)
    rw [List.length_take_of_le (by omega)] at hdigits
    have hlower := le_truncate32 (strtol (b.take crlf) 16)
    rw [chunkLenLine]
    generalize hq : (if 1024 * 1024 < truncate32 (strtol (b.take crlf) 16) then
      { p with reason := k400BadRequest } else p) = q
    have hsame : q.isChunked = true ∧ q.chunk = none
      := by
      rw [← hq]
      split
      · exact ⟨hp.isChunked, hp.chunkLen hstate⟩
      · exact ⟨hp.isChunked, hp.chunkLen hstate⟩
    split
    · refine ⟨⟨hsame.1, .inr (.inr (.inl rfl)), ?_, ?_⟩, hle, ?_⟩
      · intro h
        cases h
      · intro h
        cases h
      · rw [hcredit]
        change 2 + 0 ≤ _
        omega
    · split
      · trivial
      · rename_i hzero hlarge
        generalize truncate32 (strtol (b.take crlf) 16) = size at *
        have hnew : ({ q with
            currentChunkLength := size + 2
            state := .expectChunkBody } : HttpParser).packetFor (size + 2) =
            Packet.newPacket (UInt32.ofInt (size + 2)) ()
          := by
          rw [packetFor]
          dsimp only
          rw [hsame.2]
          rfl
        refine ⟨⟨hsame.1, .inr (.inl rfl), ?_, ?_⟩, hle, ?_⟩
        · intro h
          cases h
        · intro _
          rw [got]
          dsimp only
          rw [hnew]
          refine ⟨Packet.space_newPacket (by omega) (by omega), ?_⟩
          change size + 2 + ((0 : Nat) : Int) < _
          omega
        · rw [hcredit, chunkCredit, got]
          dsimp only
          rw [hnew]
          change sizeLength (size + 2 + ((0 : Nat) : Int) - 2).toNat + 2 + 0 + 0 ≤ _
          have hback : size + 2 + ((0 : Nat) : Int) - 2 = size := by omega
          rw [hback]
          omega
  · split
    · refine ⟨⟨hp.isChunked, .inr (.inr (.inr (.inr rfl))), ?_, ?_⟩, Nat.le_refl _, ?_⟩
      · intro h
        cases h
      · intro h
        cases h
      · exact Nat.zero_le _
    · refine ⟨hp, Nat.zero_le _, ?_⟩
      rw [hstate]
      exact Nat.le_refl _

theorem pays_parseChunk {p : HttpParser} (hp : p.InChunks) (hstate : p.state = .expectChunkBody)
    (b : List UInt8) :
  p.Pays b (returned (p.parseChunk b))
  := by
  obtain ⟨hspace, hlt⟩ := hp.chunkBody hstate
  have hcredit : p.chunkCredit = sizeLength (p.currentChunkLength + p.got - 2).toNat + 2 + p.got
    := by rw [chunkCredit, hstate]
  rw [got] at hlt hcredit
  rw [parseChunk]
  generalize p.packetFor p.currentChunkLength = packet at hspace hlt hcredit
  obtain ⟨-, herror⟩ | ⟨⟨-, hroom⟩, n, hle, hn, hok, hleft⟩ := fill_cases packet b
  · rw [herror]
    trivial
  · rw [hok]
    dsimp only
    have hsize : (packet.append (b.take n)).size.toNat = packet.size.toNat + n
      := by
      have hsum : packet.size.toNat + n < 2 ^ 32 := by omega
      rw [Packet.append, List.length_take_of_le hle]
      dsimp only
      rw [UInt32.toNat_add, UInt32.toNat_ofNat', Nat.mod_eq_of_lt (Nat.lt_of_le_of_lt
        (Nat.le_add_left n _) hsum), Nat.mod_eq_of_lt hsum]
    generalize packet.append (b.take n) = chunk at hleft hsize
    split
    · have hfull : (packet.size.toNat + n : Int) = p.currentChunkLength + packet.size.toNat
        := by omega
      refine ⟨⟨hp.isChunked, .inr (.inr (.inr (.inl rfl))), ?_, ?_⟩, hle, ?_⟩
      · intro h
        cases h
      · intro h
        cases h
      · rw [hcredit]
        change 0 + (chunkCost (.onRequest p.req (some { chunk with size := chunk.size - 2 })) + 0)
          ≤ _
        rw [chunkCost]
        dsimp only
        have htwo : (chunk.size - 2).toNat = (2 ^ 32 - 2 + chunk.size.toNat) % 2 ^ 32
          := UInt32.toNat_sub _ _
        split
        · have hdata : (p.currentChunkLength + packet.size.toNat - 2).toNat =
              (chunk.size - 2).toNat
            := by omega
          rw [hdata]
          omega
        · omega
    · rename_i hmore
      refine ⟨⟨hp.isChunked, .inr (.inl hstate), ?_, ?_⟩, hle, ?_⟩
      · intro h
        cases hstate.symm.trans h
      · intro _
        change chunk.space = p.currentChunkLength - n ∧
          p.currentChunkLength - n + (chunk.size.toNat : Int) < 2 ^ 31
        omega
      · rw [hcredit, chunkCredit]
        dsimp only
        rw [hstate]
        change sizeLength (p.currentChunkLength - n + (chunk.size.toNat : Int) - 2).toNat + 2 +
          chunk.size.toNat + 0 ≤ _
        have hsame : p.currentChunkLength - n + (chunk.size.toNat : Int) - 2 =
            p.currentChunkLength + packet.size.toNat - 2
          := by omega
        rw [hsame]
        omega

theorem pays_readLastEmptyChunk {p : HttpParser} (hp : p.InChunks)
    (hstate : p.state = .expectLastEmptyChunk) (b : List UInt8) :
  p.Pays b (p.readLastEmptyChunk b)
  := by
  have hcredit : p.chunkCredit = 2 := by rw [chunkCredit, hstate]
  rw [readLastEmptyChunk]
  split
  · rename_i crlf hfind
    have hle : crlf + 2 ≤ b.length := le_of_find hfind
    refine ⟨⟨hp.isChunked, .inr (.inr (.inr (.inl rfl))), ?_, ?_⟩, hle, ?_⟩
    · intro h
      cases h
    · intro h
      cases h
    · rw [hcredit]
      change 0 + (4 + 0) ≤ _
      omega
  · refine ⟨hp, Nat.zero_le _, ?_⟩
    rw [hstate]
    exact Nat.le_refl _

/-- What is complete is cleared, for nothing. -/
theorem InChunks.cleared {p : HttpParser} (hp : p.InChunks) :
  p.cleared.InChunks ∧ p.cleared.chunkCredit ≤ p.chunkCredit ∧
    p.cleared.state ≠ .expectChunkComplete
  := by
  rw [HttpParser.cleared]
  split
  · rename_i hstate
    rcases hp.state with h | h | h | h | h
    all_goals cases hstate.symm.trans h
  · rw [clearForNextChunk, if_pos hp.isChunked]
    refine ⟨⟨hp.isChunked, .inl rfl, fun _ => rfl, ?_⟩, Nat.zero_le _, ?_⟩
    · intro h
      cases h
    · intro h
      cases h
  · rename_i hcomplete
    exact ⟨hp, Nat.le_refl _, hcomplete⟩

theorem pays_step {p : HttpParser} (hp : p.InChunks) (hcomplete : p.state ≠ .expectChunkComplete)
    (b : List UInt8) :
  p.Pays b (p.step b)
  := by
  rw [step]
  rcases hp.state with h | h | h | h | h
  · rw [h]
    exact pays_readChunkLen hp h b
  · rw [h]
    exact pays_parseChunk hp h b
  · rw [h]
    exact pays_readLastEmptyChunk hp h b
  · exact absurd h hcomplete
  · rw [h]
    exact ⟨hp, Nat.zero_le _, Nat.le_refl _⟩

end HttpParser

/-- A reader of chunks pays for its outputs. -/
theorem chunkAccounts :
  Framing.Accounts (HttpContext.turn true) HttpParser.chunkCredit chunkCost InChunks
  := by
  constructor
  intro p p' b b' out hp hturn
  rw [HttpContext.turn] at hturn
  dsimp only at hturn
  split at hturn
  · rename_i hlength
    rw [HttpContext.parse_of_one_lt hlength] at hturn
    obtain ⟨hcleared, hcredit, hcomplete⟩ := hp.cleared
    have hpays := pays_step hcleared hcomplete b
    split at hturn
    · cases hturn
    · rename_i q n state hstep
      cases hturn
      rw [hstep] at hpays
      obtain ⟨hq, hn, hle⟩ := hpays
      refine ⟨hq, ?_⟩
      rw [List.length_drop]
      omega
  · cases hturn

/-- The bytes that are read back are at least as many as the chunks and the end cost. -/
theorem ReadBack.le_length {p : HttpParser} {r : HttpRequest} (hp : AtChunk p r)
    {bytes : List UInt8} {chunks : List (Packet Unit)} (hchunks : ∀ c ∈ chunks, IsChunk c)
    (h : ReadBack p r bytes chunks) :
  (chunks.map fun c => sizeLength c.size.toNat + 4 + c.size.toNat).sum + 4 ≤ bytes.length
  := by
  obtain ⟨reads, p', events, rfl, hreads, hbrings⟩ := h
  have hin : p.InChunks
    := by
    refine ⟨hp.isChunked, .inl hp.state, fun _ => hp.chunk, ?_⟩
    intro hbody
    cases hp.state.symm.trans hbody
  have hpaid := chunkAccounts.reads (c := (p, [])) hin hreads
  have hcredit : p.chunkCredit = 0 := by rw [chunkCredit, hp.state]
  have hcosts : events.map chunkCost =
      chunks.map fun c => sizeLength c.size.toNat + 4 + c.size.toNat
    := by
    clear hreads hpaid
    induction hbrings with
    | nil => rfl
    | cons hbring _ ih =>
        obtain ⟨packet, rfl, hsize, -⟩ := hbring
        rw [List.map_cons, List.map_cons, ih fun c hc => hchunks c (List.mem_cons_of_mem _ hc),
          chunkCost, hsize, if_pos (hchunks _ List.mem_cons_self).lt]
  rw [List.map_append, List.sum_append, hcosts] at hpaid
  change _ + _ + (_ + (4 + 0)) ≤ p.chunkCredit + 0 + _ at hpaid
  omega

/-! ### Bodies that are read back -/

/-- What is sent for a chunk is less than the chunk costs. -/
theorem length_bodyBytes {chunks : List (Packet Unit)} (hchunks : ∀ c ∈ chunks, IsChunk c) :
  (bodyBytes chunks).length + 2 * chunks.length =
    (chunks.map fun c => sizeLength c.size.toNat + 4 + c.size.toNat).sum + 5
  := by
  induction chunks with
  | nil => rfl
  | cons c chunks ih =>
      have hrest := ih fun c hc => hchunks c (List.mem_cons_of_mem _ hc)
      have hc := hchunks c List.mem_cons_self
      have hbody : bodyBytes (c :: chunks) = chunkBytes c ++ bodyBytes chunks
        := by rw [bodyBytes, List.flatMap_cons, List.append_assoc, ← bodyBytes]
      have hpayload : c.payload.length = c.size.toNat
        := by
        rw [Packet.payload, hc.filled.size_eq, List.take_length]
      have hline : (chunkBytes c).length = sizeLength c.size.toNat + 2 + c.size.toNat
        := by
        rw [chunkBytes, List.length_append, List.length_append, length_hexText hc.pos, hpayload]
        rfl
      rw [hbody, List.length_append, hline, List.map_cons, List.sum_cons, List.length_cons]
      omega

/-- The end alone is read back. -/
theorem readBack_eof {p : HttpParser} {r : HttpRequest} (hp : AtChunk p r) :
  ReadBack p r chunkEof []
  := by
  have hconsistent : Consistent p
    := by
    refine ⟨fun _ => hp.chunk, fun _ => hp.chunk, ?_, ?_, ?_⟩
    all_goals
      intro h
      cases hp.state.symm.trans h
  have hlast : (HttpContent.chunked [] ⟨ascii "0", [], []⟩ []).WellFormed
    := by
    refine ⟨fun _ h => (nomatch h), ⟨⟨by decide, by decide +kernel, rfl⟩, ?_, ?_⟩, rfl, ?_⟩
    · intro x hx
      cases hx
    · intro x hx
      cases hx
    · intro f hf
      cases hf
  have hawaits : HttpContext.Awaits (lastElements r ⟨ascii "0", [], []⟩ []) p
    := by
    refine ⟨hconsistent, ?_⟩
    rw [cleared_of_state hp.state (by decide) (by decide)]
    exact .last hp hlast
  obtain ⟨p', outs, hreads, houts⟩ := HttpContext.follows.reads hawaits
    (fun piece (hpiece : piece ∈ [chunkEof]) => by rw [List.mem_singleton.mp hpiece]; decide)
    rfl rfl
  have houts' : outs = [.onRequest (some r) none]
    := by
    obtain ⟨e, rfl, he⟩ := List.map_eq_singleton_iff.mp (houts : _ = [Delivery.message (some r) none])
    cases e with
    | onRequest req packet =>
        obtain ⟨rfl, hpacket⟩ := Delivery.message.inj he
        rw [Option.map_eq_none_iff.mp hpacket]
    | forceClose => cases he
  exact ⟨[chunkEof], p', [], rfl, houts' ▸ hreads, .nil⟩

open Runs

/-- What is sent behind the header is read back exactly if no chunk is posted. -/
theorem readBack_iff_nil {p : HttpParser} {r : HttpRequest} (hp : AtChunk p r) {c : ChunkPosting}
    (hinit : c.postState = .init) (header : Option (List UInt8)) {chunks : List (Packet Unit)}
    (hchunks : ∀ c ∈ chunks, IsChunk c)
    (hheader : header = none → c.headerSent = false ∧ chunks ≠ []) {es : List ChunkEvent}
    (h : Steps ChunkSender.step ChunkSender.Waits { posting := c } es)
    (hposts : ChunkEvent.posts es = postsOf header chunks) :
  (∃ bytes, (run ChunkSender.step { posting := c } es).sent = header.getD c.header ++ bytes ∧
      ReadBack p r bytes chunks) ↔ chunks = []
  := by
  rw [ChunkSender.sent_posts hinit header hheader h hposts]
  constructor
  · rintro ⟨bytes, hsent, hread⟩
    have hbytes := List.append_cancel_left hsent
    have hle := hread.le_length hp hchunks
    rw [← hbytes] at hle
    cases chunks with
    | nil => rfl
    | cons chunk chunks =>
        exfalso
        have hrest := length_bodyBytes fun c hc => hchunks c (List.mem_cons_of_mem chunk hc)
        have hall := length_bodyBytes hchunks
        rw [List.map_cons, List.sum_cons] at hle hall
        rw [List.length_cons] at hall
        split at hle
        · omega
        · rw [List.tail_cons] at hle
          omega
  · rintro rfl
    cases header with
    | none => exact absurd rfl (hheader rfl).2
    | some header => exact ⟨chunkEof, rfl, readBack_eof hp⟩

/-- The header of a response in chunks. -/
def chunkedHeader : List UInt8 :=
  ascii "HTTP/1.1 200 OK\r\ntransfer-encoding: chunked\r\n\r\n"

/-- The parser that has read it. -/
def chunkedParser : HttpParser :=
  match ({} : HttpParser).parse chunkedHeader with
  | .ok (p, _, _) => p
  | .error _ => {}

/-- The response that it has read. -/
def chunkedResponse : HttpRequest :=
  chunkedParser.req.getD { isRequest := false }

theorem atChunk_chunkedParser : AtChunk chunkedParser chunkedResponse
  := by
  have hparsed : chunkedParser.state = .expectChunkLen ∧ chunkedParser.chunk = none ∧
      chunkedParser.isChunked = true ∧ chunkedParser.req = some chunkedResponse
    := by decide +kernel
  obtain ⟨hstate, hchunk, hchunked, hreq⟩ := hparsed
  exact ⟨hstate, hchunk, hchunked, hreq⟩

/-- The end is posted behind a header. -/
theorem readBack_iff_nil_eof :
  (∃ bytes, (run ChunkSender.step { posting := { headerSent := false } }
      [.post (.header chunkedHeader), .writeComplete, .post .eof, .writeComplete]).sent =
        chunkedHeader ++ bytes ∧
      ReadBack chunkedParser chunkedResponse bytes []) ↔ ([] : List (Packet Unit)) = []
  := by
  apply readBack_iff_nil (c := { headerSent := false }) atChunk_chunkedParser rfl
    (some chunkedHeader)
  · intro c hc
    cases hc
  · intro h
    cases h
  · decide +kernel
  · rfl

/-- A chunk of one byte. -/
def oneByteChunk : Packet Unit := (Packet.newPacket 1 ()).append [97]

/-- One chunk is posted behind a header, and what is sent is not read as it. -/
theorem not_readBack_oneByteChunk :
  IsChunk oneByteChunk ∧ AtChunk chunkedParser chunkedResponse ∧
    Steps ChunkSender.step ChunkSender.Waits { posting := { headerSent := false } }
      [.post (.header chunkedHeader), .writeComplete, .post (.chunk oneByteChunk), .writeComplete,
        .writeComplete, .post .eof, .writeComplete] ∧
    ¬ ∃ bytes, (run ChunkSender.step { posting := { headerSent := false } }
      [.post (.header chunkedHeader), .writeComplete, .post (.chunk oneByteChunk), .writeComplete,
        .writeComplete, .post .eof, .writeComplete]).sent = chunkedHeader ++ bytes ∧
      ReadBack chunkedParser chunkedResponse bytes [oneByteChunk]
  := by
  have hchunk : IsChunk oneByteChunk := by decide +kernel
  refine ⟨hchunk, atChunk_chunkedParser, by decide +kernel, ?_⟩
  rintro ⟨bytes, hsent, hread⟩
  have hle := hread.le_length atChunk_chunkedParser
    fun c hc => by rw [List.mem_singleton.mp hc]; exact hchunk
  have hlength := length_bodyBytes
    fun c (hc : c ∈ [oneByteChunk]) => by rw [List.mem_singleton.mp hc]; exact hchunk
  have hbytes : bytes = bodyBytes [oneByteChunk]
    := by
    apply @List.append_cancel_left _ chunkedHeader
    rw [← hsent]
    decide +kernel
  rw [← hbytes, List.length_singleton] at hlength
  omega
