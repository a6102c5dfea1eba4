import Tmms.Http.Context

/-!
# Termination of the HTTP loop

The loop of `HttpContext::Parse` is left when at most one byte is unread.  A parser that has
nothing to do for the bytes that are there does not leave it: it is asked again about the same
bytes.  `Ready` says for each state when a step gets on.  The loop ends exactly when every
step it makes is ready.
-/

open StringUtils

namespace HttpParser

/-! ### When a step gets on -/

/-- The first line of a header block, if there is one, has the parts that are used. -/
def HasTokens (header : List UInt8) : Prop :=
  ∀ line rest, splitString header CRLF = line :: rest →
    ∃ str more, splitString line (ascii " ") = str :: more ∧
      (if (str.map toLower).take 4 = ascii "http" then 1 else 2) ≤ more.length

/-- A packet can be filled with what was received: neither the number of bytes as an `int` nor
the space is negative, and something is read unless the packet is full. -/
def Fillable (packet : Packet Unit) (b : List UInt8) : Prop :=
  0 ≤ truncate32 b.length ∧ 0 ≤ packet.space ∧ (packet.space = 0 ∨ 0 < truncate32 b.length)

/-- The step has something to do, and can do it: a header block with a first line, the line of a
chunk's size or too many bytes without one, the last line of a chunked body, or bytes of a
body. There is nothing to do behind an error. -/
def Ready (p : HttpParser) (b : List UInt8) : Prop :=
  match p.state with
  | .expectHeaders => 4 < b.length ∧ ∃ size, find CRLFCRLF b = some size ∧ HasTokens (b.take size)
  | .expectNormalBody => Fillable (p.packetFor p.currentContentLength) b
  | .expectStreamBody => Fillable (p.packetFor kHttpMaxBodySize) b
  | .expectChunkLen =>
    (∃ crlf, find CRLF b = some crlf ∧ truncate32 (strtol (b.take crlf) 16) + 2 < 2 ^ 31) ∨
      find CRLF b = none ∧ 32 < b.length
  | .expectChunkBody => Fillable (p.packetFor p.currentChunkLength) b
  | .expectLastEmptyChunk => ∃ crlf, find CRLF b = some crlf
  | _ => False

/-! ### The packet of a body -/

/-- A length is an `int32_t`, and it is the space of the packet of the body, if there is one. -/
structure Sized (length : Int) (chunk : Option (Packet Unit)) : Prop where
  le : -2 ^ 31 ≤ length
  lt : length < 2 ^ 31
  space : ∀ packet, chunk = some packet → packet.space = length

/-- What holds between the steps: a body that is expected is not empty, and what is left of it
is the space of its packet. -/
structure Consistent (p : HttpParser) : Prop where
  headers : p.state = .expectHeaders → p.chunk = none
  chunkLen : p.state = .expectChunkLen → p.chunk = none
  normalBody : p.state = .expectNormalBody →
    p.currentContentLength ≠ 0 ∧ Sized p.currentContentLength p.chunk
  streamBody : p.state = .expectStreamBody → ∀ packet, p.chunk = some packet → 0 < packet.space
  chunkBody : p.state = .expectChunkBody → Sized p.currentChunkLength p.chunk

/-- The space of the packet that is filled. -/
theorem Sized.space_packetFor {p : HttpParser} {length : Int} (h : Sized length p.chunk) :
  (p.packetFor length).space = length
  := by
  rw [packetFor]
  cases hc : p.chunk with
  | none => apply Packet.space_newPacket h.le h.lt
  | some packet => apply h.space packet hc

/-- Filling fails, or it takes as much as there is and fits. -/
theorem fill_cases (packet : Packet Unit) (b : List UInt8) :
  ¬ (0 ≤ truncate32 b.length ∧ 0 ≤ packet.space) ∧ fill packet b = .error .negativeSize ∨
    (0 ≤ truncate32 b.length ∧ 0 ≤ packet.space) ∧ ∃ size : Nat, size ≤ b.length ∧
      (size : Int) = min (truncate32 b.length) packet.space ∧
      fill packet b = .ok (packet.append (b.take size), size) ∧
      (packet.append (b.take size)).space = packet.space - size
  := by
  have hle := truncate32_le b.length
  by_cases h : 0 ≤ truncate32 b.length ∧ 0 ≤ packet.space
  · right
    have hnat : ((min (truncate32 b.length) packet.space).toNat : Int) =
        min (truncate32 b.length) packet.space
      := by
      apply Int.toNat_of_nonneg
      omega
    have hsize : (min (truncate32 b.length) packet.space).toNat ≤ b.length
      := by omega
    use h, (min (truncate32 b.length) packet.space).toNat, hsize, hnat
    constructor
    · rw [fill, if_neg (by omega)]
    · rw [Packet.space_append, List.length_take_of_le hsize]
      rw [List.length_take_of_le hsize]
      omega
  · left
    use h
    rw [fill, if_pos (by omega)]

/-! ### What a step does -/

/-- How many steps without bytes are possible: an empty chunk is completed by one. -/
def rank (p : HttpParser) : Nat := if p.state = .expectChunkBody then 1 else 0

/-- The step consumed something, or completed an empty chunk. -/
def GetsOn (p : HttpParser) : Parsed → Prop
  | .ok (p', n, _) => Consistent p' ∧ (0 < n ∨ p'.rank < p.rank)
  | .error _ => False

/-- The step failed, or it consumed nothing and the next one will not get on either. -/
def StaysPut (b : List UInt8) : Parsed → Prop
  | .ok (p', n, _) => Consistent p' ∧ n = 0 ∧ ¬ Ready p'.cleared b
  | .error _ => True

/-- A step gets on where it is ready and stays put where it is not. -/
def Sound (p : HttpParser) (b : List UInt8) (r : Parsed) : Prop :=
  (Ready p b → GetsOn p r) ∧ (¬ Ready p b → StaysPut b r)

/-- A parser in an error is not ready for anything. -/
theorem not_ready_error {p : HttpParser} (hp : p.state = .expectError) (b : List UInt8) :
  ¬ Ready p.cleared b
  := by
  simp only [cleared, hp, Ready, not_false_iff]

/-- There is nothing to keep in the states between the bodies. -/
theorem consistent_of_state {p : HttpParser}
    (hp : p.state = .expectHttpComplete ∨ p.state = .expectChunkComplete ∨
      p.state = .expectLastEmptyChunk ∨ p.state = .expectError) :
  Consistent p
  := by
  constructor <;> intro hs <;> rw [hs] at hp <;> simp only [reduceCtorEq, or_self] at hp

theorem consistent_of_chunk {p : HttpParser}
    (hp : p.state = .expectHeaders ∨ p.state = .expectChunkLen) (hc : p.chunk = none) :
  Consistent p
  := by
  constructor <;> intro hs <;> rw [hs] at hp <;> simp only [reduceCtorEq, or_self] at hp
  · apply hc
  · apply hc

theorem consistent_normalBody {p : HttpParser} (hp : p.state = .expectNormalBody)
    (hne : p.currentContentLength ≠ 0) (hsized : Sized p.currentContentLength p.chunk) :
  Consistent p
  := by
  constructor <;> intro hs <;> cases hs.symm.trans hp
  use hne

theorem consistent_streamBody {p : HttpParser} (hp : p.state = .expectStreamBody)
    (hspace : ∀ packet, p.chunk = some packet → 0 < packet.space) :
  Consistent p
  := by
  constructor <;> intro hs <;> cases hs.symm.trans hp
  apply hspace

theorem consistent_chunkBody {p : HttpParser} (hp : p.state = .expectChunkBody)
    (hsized : Sized p.currentChunkLength p.chunk) :
  Consistent p
  := by
  constructor <;> intro hs <;> cases hs.symm.trans hp
  apply hsized

/-- What is left of a length is the space left in the packet. -/
theorem Sized.sub {length : Int} {chunk : Option (Packet Unit)} {packet : Packet Unit}
    {size : Nat} (h : Sized length chunk) (hsize : size ≤ length)
    (hspace : packet.space = length - size) :
  Sized (length - size) (some packet)
  := by
  have hlt := h.lt
  constructor
  · omega
  · omega
  · rintro _ ⟨⟩
    apply hspace

/-- Where nothing can be read, no body that has space gets on. -/
theorem not_fillable {packet : Packet Unit} {b : List UInt8} (hspace : packet.space ≠ 0)
    (hn : truncate32 b.length ≤ 0) :
  ¬ Fillable packet b
  := by
  rintro ⟨-, -, hfill⟩
  omega

/-- What all the bodies do: fill a packet, and go on with it and the number of bytes read. -/
def fillThen (packet : Packet Unit) (b : List UInt8) (next : Packet Unit → Nat → HttpParser) :
    Except HttpFault (HttpParser × Nat) :=
  match fill packet b with
  | .error e => .error e
  | .ok (chunk, size) => .ok (next chunk size, size)

/-- A body gets on where its packet can be filled. A full packet leads to a consistent parser,
of a smaller rank if the packet was full before, and so does one with space left, which is
filled next. -/
theorem sound_fillThen {p : HttpParser} {packet : Packet Unit} {b : List UInt8}
    {next : Packet Unit → Nat → HttpParser} (hready : Ready p b ↔ Fillable packet b)
    (hfull : ∀ (chunk : Packet Unit) (size : Nat), chunk.space = 0 → size = packet.space →
      Consistent (next chunk size) ∧ (packet.space = 0 → (next chunk size).rank < p.rank))
    (hpart : ∀ (chunk : Packet Unit) (size : Nat), chunk.space ≠ 0 → size ≤ packet.space →
      chunk.space = packet.space - size →
      Consistent (next chunk size) ∧ (Ready (next chunk size).cleared b → Fillable chunk b)) :
  Sound p b (returned (fillThen packet b next))
  := by
  rw [Sound, hready, fillThen]
  obtain ⟨hneg, herror⟩ | ⟨⟨hn, hroom⟩, size, hle, hsize, hok, hspace⟩ := fill_cases packet b
  · rw [herror]
    constructor
    · rintro ⟨hn, hroom, -⟩
      apply hneg ⟨hn, hroom⟩
    · intro
      trivial
  · rw [hok]
    by_cases hzero : (packet.append (b.take size)).space = 0
    · obtain ⟨hconsistent, hrank⟩ := hfull _ size hzero (by omega)
      constructor
      · intro
        use hconsistent
        by_cases hempty : packet.space = 0
        · right
          apply hrank hempty
        · left
          omega
      · intro hnot
        exfalso
        apply hnot
        use hn, hroom
        omega
    · obtain ⟨hconsistent, hnext⟩ := hpart _ size hzero (by omega) hspace
      constructor
      · rintro ⟨-, -, hfill⟩
        use hconsistent
        left
        omega
      · intro hnot
        have hnone : truncate32 b.length ≤ 0
          := by
          by_contra hsome
          apply hnot
          use hn, hroom
          omega
        use hconsistent, by omega
        intro hready'
        apply not_fillable hzero hnone (hnext hready')

/-- A normal body is filled. -/
theorem sound_parseNormalBody {p : HttpParser} (hp : Consistent p)
    (hs : p.state = .expectNormalBody) (b : List UInt8) :
  Sound p b (returned (p.parseNormalBody b))
  := by
  obtain ⟨hne, hsized⟩ := hp.normalBody hs
  have hspace := hsized.space_packetFor
  have hfill : p.parseNormalBody b = fillThen (p.packetFor p.currentContentLength) b
      fun chunk size => { p with
        chunk := some chunk
        currentContentLength := p.currentContentLength - size
        state := if p.currentContentLength - size = 0 then .expectHttpComplete else p.state }
    := by rfl
  rw [hfill]
  apply sound_fillThen
  · rw [Ready, hs]
  · intro chunk size hzero hsize
    rw [hspace] at hsize ⊢
    constructor
    · rw [if_pos (by omega)]
      apply consistent_of_state (.inl rfl)
    · intro hempty
      contradiction
  · intro chunk size hzero hsize hleft
    rw [hspace] at hsize hleft
    have hsized' := hsized.sub hsize hleft
    rw [if_neg (by omega), hs]
    constructor
    · apply consistent_normalBody rfl _ hsized'
      dsimp only
      omega
    · intro hready
      apply hready

/-- The packet of a stream has space. -/
theorem Consistent.stream_space {p : HttpParser} (hp : Consistent p)
    (hs : p.state = .expectStreamBody) :
  0 < (p.packetFor kHttpMaxBodySize).space
  := by
  rw [packetFor]
  cases hc : p.chunk with
  | none => decide
  | some packet => apply hp.streamBody hs packet hc

/-- A body without an end is read in packets of one size. -/
theorem sound_parseStream {p : HttpParser} (hp : Consistent p)
    (hs : p.state = .expectStreamBody) (b : List UInt8) :
  Sound p b (returned (p.parseStream b))
  := by
  have hspace := hp.stream_space hs
  have hfill : p.parseStream b = fillThen (p.packetFor kHttpMaxBodySize) b
      fun chunk _ => { p with
        chunk := some chunk
        state := if chunk.space = 0 then .expectChunkComplete else p.state }
    := by rfl
  rw [hfill]
  apply sound_fillThen
  · rw [Ready, hs]
  · intro chunk size hzero _
    constructor
    · rw [if_pos hzero]
      apply consistent_of_state (.inr (.inl rfl))
    · intro hempty
      omega
  · intro chunk size hzero hsize hleft
    rw [if_neg hzero, hs]
    constructor
    · apply consistent_streamBody rfl
      rintro _ ⟨⟩
      omega
    · intro hready
      apply hready

/-- A chunk is filled. An empty one is completed without bytes. -/
theorem sound_parseChunk {p : HttpParser} (hp : Consistent p) (hs : p.state = .expectChunkBody)
    (b : List UInt8) :
  Sound p b (returned (p.parseChunk b))
  := by
  have hsized := hp.chunkBody hs
  have hspace := hsized.space_packetFor
  have hfill : p.parseChunk b = fillThen (p.packetFor p.currentChunkLength) b
      fun chunk size =>
        if p.currentChunkLength - size = 0 ∨ chunk.space = 0 then
          { p with
            chunk := some { chunk with size := chunk.size - 2 }
            currentChunkLength := p.currentChunkLength - size
            state := .expectChunkComplete }
        else
          { p with chunk := some chunk, currentChunkLength := p.currentChunkLength - size }
    := by
    rw [parseChunk, fillThen]
    cases fill (p.packetFor p.currentChunkLength) b with
    | error e => rfl
    | ok r =>
        dsimp only
        split
        · rfl
        · rfl
  rw [hfill]
  apply sound_fillThen
  · rw [Ready, hs]
  · intro chunk size hzero _
    rw [if_pos (.inr hzero)]
    constructor
    · apply consistent_of_state (.inr (.inl rfl))
    · intro
      simp only [rank, hs, reduceCtorEq, if_false, if_true, Nat.lt_one_iff]
  · intro chunk size hzero hsize hleft
    rw [hspace] at hsize hleft
    have hsized' := hsized.sub hsize hleft
    rw [if_neg (not_or_intro (by omega) hzero)]
    constructor
    · exact consistent_chunkBody hs hsized'
    · simp only [cleared, hs, Ready]
      intro hready
      apply hready

/-- The first line is processed exactly when it has its parts. -/
theorem processMethodLine_ok {line : List UInt8} :
  (∃ req, processMethodLine line = .ok req) ↔
    ∃ str more, splitString line (ascii " ") = str :: more ∧
      (if (str.map toLower).take 4 = ascii "http" then 1 else 2) ≤ more.length
  := by
  rw [processMethodLine]
  cases hsplit : splitString line (ascii " ") with
  | nil =>
      constructor
      · rintro ⟨_, ⟨⟩⟩
      · rintro ⟨_, _, ⟨⟩, _⟩
  | cons str more =>
      simp only [List.cons.injEq, exists_and_left, exists_eq_left', and_assoc]
      by_cases hresponse : (str.map toLower).take 4 = ascii "http"
      · simp only [if_pos hresponse]
        match more with
        | [] =>
            constructor
            · rintro ⟨_, ⟨⟩⟩
            · intro h
              contradiction
        | code :: more =>
            constructor
            · intro
              apply Nat.le_add_left
            · intro
              exact ⟨_, rfl⟩
      · simp only [if_neg hresponse]
        match more with
        | [] =>
            constructor
            · rintro ⟨_, ⟨⟩⟩
            · intro h
              contradiction
        | [path] =>
            constructor
            · rintro ⟨_, ⟨⟩⟩
            · intro h
              contradiction
        | path :: version :: more =>
            constructor
            · intro
              apply Nat.le_add_left
            · intro
              exact ⟨_, rfl⟩

/-- A header block is parsed exactly when its first line has its parts. -/
theorem parseHeaders_ok {p : HttpParser} :
  (∃ p', parseHeaders p = .ok p') ↔ HasTokens p.header
  := by
  rw [parseHeaders, HasTokens]
  cases hsplit : splitString p.header CRLF with
  | nil =>
      constructor
      · rintro - line rest ⟨⟩
      · intro
        exact ⟨_, rfl⟩
  | cons line rest =>
      dsimp only
      constructor
      · rintro ⟨p', hp'⟩ _ _ ⟨⟩
        apply processMethodLine_ok.mp
        cases hline : processMethodLine line with
        | error e =>
            rw [hline] at hp'
            cases hp'
        | ok req => use req
      · intro h
        obtain ⟨req, hreq⟩ := processMethodLine_ok.mpr (h line rest rfl)
        rw [hreq]
        exact ⟨_, rfl⟩

theorem consistent_frameLength {p : HttpParser} (hc : p.chunk = none) (len : List UInt8) :
  Consistent (p.frameLength len)
  := by
  rw [frameLength]
  cases stoull len with
  | none => apply consistent_of_state (.inr (.inr (.inr rfl)))
  | some n =>
      by_cases hzero : truncate32 n = 0
      · simp only [hzero, if_true]
        apply consistent_of_state (.inl rfl)
      · simp only [hzero, if_false]
        have hsized : Sized (truncate32 n) p.chunk
          := by
          constructor
          · apply le_truncate32
          · apply truncate32_lt
          · intro packet hpacket
            cases hc.symm.trans hpacket
        apply consistent_normalBody
        · rfl
        · dsimp only
          apply hzero
        · dsimp only
          apply hsized

/-- Whatever the headers say, the state behind them is consistent. -/
theorem consistent_frame {p : HttpParser} (hc : p.chunk = none) (req : HttpRequest) :
  Consistent (p.frame req)
  := by
  rw [frame]
  split_ifs
  · apply consistent_frameLength
    exact hc
  · exact consistent_of_chunk (.inr rfl) hc
  · apply consistent_of_state (.inl rfl)
  · apply consistent_streamBody rfl
    intro packet hpacket
    cases hc.symm.trans hpacket

theorem consistent_parseHeaders {p p' : HttpParser} (hc : p.chunk = none)
    (h : parseHeaders p = .ok p') :
  Consistent p'
  := by
  rw [parseHeaders] at h
  split at h
  · cases h
    apply consistent_of_state (.inr (.inr (.inr rfl)))
  · split at h
    · cases h
    · cases h
      apply consistent_frame
      exact hc

/-- A header block that has a first line with its parts is parsed. -/
theorem sound_readHeaders {p : HttpParser} (hp : Consistent p) (hs : p.state = .expectHeaders)
    (b : List UInt8) :
  Sound p b (p.readHeaders b)
  := by
  have hc := hp.headers hs
  rw [Sound, readHeaders]
  by_cases hshort : b.length ≤ CRLFCRLF.length
  · have hready : ¬ Ready p b
      := by
      rw [Ready, hs]
      rintro ⟨hlong, -⟩
      apply Nat.not_lt_of_le hshort hlong
    rw [if_pos hshort]
    constructor
    · intro h
      contradiction
    · intro
      use hp, rfl
      simp only [cleared, hs]
      apply hready
  · rw [if_neg hshort]
    cases hfind : find CRLFCRLF b with
    | some size =>
        dsimp only
        have hready : Ready p b ↔ HasTokens (b.take size)
          := by
          rw [Ready, hs]
          constructor
          · rintro ⟨-, size', hsize', htokens⟩
            cases hfind.symm.trans hsize'
            apply htokens
          · intro htokens
            use Nat.lt_of_not_le hshort, size, hfind
        rw [hready]
        cases hparse : parseHeaders { p with header := b.take size } with
        | ok p' =>
            constructor
            · intro
              constructor
              · exact consistent_parseHeaders (p := { p with header := b.take size }) hc hparse
              left
              apply Nat.succ_pos
            · intro htokens
              exfalso
              exact htokens (parseHeaders_ok.mp ⟨p', hparse⟩)
        | error e =>
            constructor
            · intro htokens
              obtain ⟨p', hok⟩ :=
                (parseHeaders_ok (p := { p with header := b.take size })).mpr htokens
              cases hparse.symm.trans hok
            · intro
              trivial
    | none =>
        have hready : ¬ Ready p b
          := by
          rw [Ready, hs]
          rintro ⟨-, size, hsize, -⟩
          cases hfind.symm.trans hsize
        dsimp only
        constructor
        · intro h
          contradiction
        · intro
          split
          · use consistent_of_state (.inr (.inr (.inr rfl))), rfl
            apply not_ready_error rfl
          · use hp, rfl
            simp only [cleared, hs]
            apply hready

/-- The line of a chunk's size leads to the chunk or to the last line, unless the size and 2
are too large. -/
theorem chunkLenLine_cases {p : HttpParser} (hc : p.chunk = none) (line : List UInt8) :
  (truncate32 (strtol line 16) + 2 < 2 ^ 31 ∧
      ∃ p', chunkLenLine p line = .ok p' ∧ Consistent p') ∨
    ¬ truncate32 (strtol line 16) + 2 < 2 ^ 31 ∧ chunkLenLine p line = .error .overflow
  := by
  have hle := le_truncate32 (strtol line 16)
  have hlt := truncate32_lt (strtol line 16)
  rw [chunkLenLine]
  by_cases hzero : truncate32 (strtol line 16) = 0
  · left
    use by omega
    rw [if_pos hzero]
    exact ⟨_, rfl, consistent_of_state (.inr (.inr (.inl rfl)))⟩
  · rw [if_neg hzero]
    by_cases hover : 2 ^ 31 ≤ truncate32 (strtol line 16) + 2
    · right
      use by omega
      rw [if_pos hover]
    · left
      use by omega
      rw [if_neg hover]
      have hsized : Sized (truncate32 (strtol line 16) + 2) p.chunk
        := by
        constructor
        · omega
        · omega
        · intro packet hpacket
          rw [hc] at hpacket
          cases hpacket
      refine ⟨_, rfl, consistent_chunkBody rfl ?_⟩
      split
      · exact hsized
      · exact hsized

/-- The line of a chunk's size is read. -/
theorem sound_readChunkLen {p : HttpParser} (hp : Consistent p) (hs : p.state = .expectChunkLen)
    (b : List UInt8) :
  Sound p b (p.readChunkLen b)
  := by
  rw [Sound, Ready, hs]
  dsimp only
  rw [readChunkLen]
  cases hfind : find CRLF b with
  | some crlf =>
      simp only [Option.some.injEq, exists_eq_left', reduceCtorEq, false_and, or_false]
      obtain ⟨hlt, p', hok, hconsistent⟩ | ⟨hge, herror⟩ :=
        chunkLenLine_cases (hp.chunkLen hs) (b.take crlf)
      · rw [hok]
        constructor
        · intro
          use hconsistent
          left
          apply Nat.succ_pos
        · intro hge
          contradiction
      · rw [herror]
        constructor
        · intro hlt
          contradiction
        · intro
          trivial
  | none =>
      simp only [reduceCtorEq, false_and, exists_const, true_and, false_or]
      split
      next hlong =>
        constructor
        · intro
          use consistent_of_state (.inr (.inr (.inr rfl)))
          left
          omega
        · intro hshort
          contradiction
      next hshort =>
        constructor
        · intro
          contradiction
        · intro
          use hp, rfl
          simp only [cleared, hs, Ready, hfind, reduceCtorEq, false_and, exists_const, true_and,
            false_or]
          apply hshort

/-- The last line of a chunked body is read. -/
theorem sound_readLastEmptyChunk {p : HttpParser} (hp : Consistent p)
    (hs : p.state = .expectLastEmptyChunk) (b : List UInt8) :
  Sound p b (p.readLastEmptyChunk b)
  := by
  rw [Sound, Ready, hs]
  dsimp only
  rw [readLastEmptyChunk]
  cases hfind : find CRLF b with
  | some crlf =>
      constructor
      · intro
        use consistent_of_state (.inr (.inl rfl))
        left
        omega
      · intro hready
        exfalso
        apply hready ⟨crlf, rfl⟩
  | none =>
      constructor
      · rintro ⟨_, ⟨⟩⟩
      · intro
        use hp, rfl
        simp only [cleared, hs, Ready, hfind, reduceCtorEq, exists_const, not_false_iff]

/-! ### Steps -/

/-- A step in every state but the complete ones, which are cleared before. -/
theorem sound_step {p : HttpParser} (hp : Consistent p) (hhttp : p.state ≠ .expectHttpComplete)
    (hchunk : p.state ≠ .expectChunkComplete) (b : List UInt8) :
  Sound p b (p.step b)
  := by
  rw [step]
  cases hs : p.state with
  | expectHeaders => apply sound_readHeaders hp hs
  | expectNormalBody => apply sound_parseNormalBody hp hs
  | expectStreamBody => apply sound_parseStream hp hs
  | expectChunkLen => apply sound_readChunkLen hp hs
  | expectChunkBody => apply sound_parseChunk hp hs
  | expectLastEmptyChunk => apply sound_readLastEmptyChunk hp hs
  | expectHttpComplete => contradiction
  | expectChunkComplete => contradiction
  | _ =>
      have hready : ¬ Ready p.cleared b
        := by simp only [cleared, hs, Ready, not_false_iff]
      constructor
      · intro h
        rw [Ready, hs] at h
        contradiction
      · intro
        use hp, rfl

/-- What is complete is cleared, and only that. -/
theorem cleared_cases (p : HttpParser) :
  p.cleared.state ≠ .expectHttpComplete ∧ p.cleared.state ≠ .expectChunkComplete ∧
    (p.cleared = p ∨ p.rank = 0 ∧ p.cleared.rank = 0 ∧ p.cleared.chunk = none ∧
      (p.cleared.state = .expectHeaders ∨ p.cleared.state = .expectChunkLen ∨
        p.cleared.state = .expectStreamBody))
  := by
  rw [cleared]
  cases hs : p.state with
  | expectHttpComplete => simp [clearForNextHttp, rank, hs]
  | expectChunkComplete =>
      rw [clearForNextChunk]
      split_ifs <;> simp [rank, hs]
  | _ => simp [hs]

theorem consistent_cleared {p : HttpParser} (hp : Consistent p) :
  Consistent p.cleared
  := by
  obtain ⟨-, -, heq | ⟨-, -, hc, hs | hs | hs⟩⟩ := cleared_cases p
  · rw [heq]
    apply hp
  · apply consistent_of_chunk (.inl hs) hc
  · apply consistent_of_chunk (.inr hs) hc
  · apply consistent_streamBody hs
    intro packet hpacket
    cases hc.symm.trans hpacket

theorem rank_cleared (p : HttpParser) :
  p.cleared.rank = p.rank
  := by
  obtain ⟨-, -, heq | ⟨hrank, hrank', -⟩⟩ := cleared_cases p
  · rw [heq]
  · rw [hrank, hrank']

/-- What `Parse` does with bytes. -/
theorem sound_parse {p : HttpParser} (hp : Consistent p) {b : List UInt8} (hb : 1 < b.length) :
  Sound p.cleared b (p.parse b)
  := by
  have hne : ¬ b.isEmpty
    := by
    rw [List.isEmpty_iff]
    rintro rfl
    contradiction
  obtain ⟨hhttp, hchunk, -⟩ := cleared_cases p
  rw [parse, if_neg hne]
  apply sound_step (consistent_cleared hp) hhttp hchunk

/-- Every step keeps the parser consistent. -/
theorem consistent_parse {p p' : HttpParser} (hp : Consistent p) {b : List UInt8} {n : Nat}
    {state : HttpParserState} (h : p.parse b = .ok (p', n, state)) :
  Consistent p'
  := by
  rw [parse] at h
  split at h
  · cases h
    apply hp
  · obtain ⟨hhttp, hchunk, -⟩ := cleared_cases p
    obtain ⟨hgets, hstays⟩ := sound_step (consistent_cleared hp) hhttp hchunk b
    rw [h] at hgets hstays
    by_cases hready : Ready p.cleared b
    · apply (hgets hready).1
    · apply (hstays hready).1

end HttpParser

namespace HttpContext

open HttpParser

/-! ### The loop -/

theorem Reachable.consistent {p : HttpParser} (h : Reachable p) :
  Consistent p
  := by
  induction h with
  | new => apply consistent_of_chunk (.inl rfl) rfl
  | step _ hparse ih => apply consistent_parse ih hparse

/-- Bytes are there, and the step does not get on. -/
def Bad (c : Config) : Prop := 1 < c.2.length ∧ ¬ Ready c.1.cleared c.2

/-- A turn that gets on leaves fewer bytes, or completes an empty chunk. -/
theorem progress (handler : Bool) :
  Loop.Progress (turn handler) (· < ·) (fun c => 2 * c.2.length + c.1.rank)
    (fun c => Consistent c.1) Bad
  := by
  constructor
  · rintro ⟨p, b⟩ ⟨p', b'⟩ out hp hnext
    rw [turn] at hnext
    split at hnext
    · cases hparse : p.parse b with
      | error e =>
          simp only [hparse] at hnext
          cases hnext
      | ok r =>
          simp only [hparse] at hnext
          cases hnext
          exact consistent_parse hp hparse
    · cases hnext
  · rintro ⟨p, b⟩ hp ⟨hb, hready⟩
    have hstays := (sound_parse hp hb).2 hready
    rw [turn, if_pos hb]
    cases hparse : p.parse b with
    | error e => simp
    | ok r =>
        obtain ⟨p', n, state⟩ := r
        rw [hparse] at hstays
        obtain ⟨-, rfl, hready'⟩ := hstays
        constructor
        · simp
        · rintro s' out ⟨⟩
          use hb, hready'
  · rintro ⟨p, b⟩ hp hbad
    by_cases hb : 1 < b.length
    · right
      have hready : Ready p.cleared b := by_contra fun h => hbad ⟨hb, h⟩
      have hgets := (sound_parse hp hb).1 hready
      rw [turn, if_pos hb]
      cases hparse : p.parse b with
      | error e =>
          rw [hparse] at hgets
          contradiction
      | ok r =>
          obtain ⟨p', n, state⟩ := r
          rw [hparse] at hgets
          obtain ⟨-, hless⟩ := hgets
          rw [rank_cleared] at hless
          dsimp only at hless
          refine ⟨_, _, rfl, ?_⟩
          have hrank : p'.rank ≤ 1
            := by
            rw [rank]
            split <;> omega
          change 2 * (b.drop n).length + p'.rank < 2 * b.length + p.rank
          rw [List.length_drop]
          omega
    · left
      rw [turn, if_neg hb]

/-- The loop ends exactly when each of its steps has something to do for the bytes that are
there. -/
theorem terminates_iff {p : HttpParser} (hp : Reachable p) (handler : Bool) (b : List UInt8) :
  Loop.Terminates (turn handler) (p, b) ↔
    ∀ p' b', Loop.Reaches (turn handler) (p, b) (p', b') → 1 < b'.length → Ready p'.cleared b'
  := by
  rw [(progress handler).terminates_iff_not_bad hp.consistent]
  constructor
  · intro h p' b' hr hb
    by_contra hready
    apply h _ hr ⟨hb, hready⟩
  · rintro h ⟨p', b'⟩ hr ⟨hb, hready⟩
    apply hready (h p' b' hr hb)

/-- One instance: a request followed by the first byte of the next one. -/
theorem terminates_iff_get :
  Loop.Terminates (turn true) ({}, ascii "GET / HTTP/1.1" ++ CRLFCRLF ++ ascii "G") ↔
    ∀ p' b', Loop.Reaches (turn true) ({}, ascii "GET / HTTP/1.1" ++ CRLFCRLF ++ ascii "G")
      (p', b') → 1 < b'.length → Ready p'.cleared b'
  := terminates_iff .new true _

/-- Two bytes of a first line keep the loop running. -/
theorem not_terminates_partial :
  ¬ Loop.Terminates (turn true) ({}, ascii "GE")
  := by
  have hturn : turn true ({}, ascii "GE") = .next ({}, ascii "GE") []
    := by rfl
  apply Loop.not_terminates_of_fixed hturn

end HttpContext
