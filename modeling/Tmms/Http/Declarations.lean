import Tmms.Http.Messages
import Tmms.Http.Termination
import Tmms.Library.Runs

/-!
# Lengths that are declared

A header block may declare the length of a body, and a line declares that of a chunk.  Behind it a
packet of this size is made, or the parser is in an error if the declaration is of no length.  So it
should be in every run (`Exact`), but what stands there is read as the standard library reads
numbers, and it is only seen that a number is missing, or that it needs more than 64 bits.
-/

open StringUtils

namespace HttpParser

/-- What declares a length: a header block with the value of its content length, or the line of a
chunk. -/
inductive Declaration where
  | contentLength (header text : List UInt8)
  | chunkLength (line : List UInt8)
  deriving DecidableEq, Repr

/-- The value of the content length in a header block that has one. -/
def contentLength (header : List UInt8) : Option (List UInt8) :=
  (((splitString header CRLF).foldl addLine { isRequest := true }).headers.find?
    fun e => e.1 = ascii "content-length").map Prod.snd

/-- The size of a chunk, which an extension may follow. -/
def chunkSize (line : List UInt8) : List UInt8 := line.takeWhile (· ≠ 59)

/-- The length that is declared: a decimal number that is an `int32_t`, or a hexadecimal one of a
MiB at most. -/
def Declaration.Declares : Declaration → Nat → Prop
  | .contentLength _ text, n => IsNumeral 10 text n ∧ n < 2 ^ 31
  | .chunkLength line, n => IsNumeral 16 (chunkSize line) n ∧ n ≤ 1024 * 1024

/-- What a step reads that declares a length. -/
def declaration (p : HttpParser) (b : List UInt8) : Option Declaration :=
  match p.cleared.state with
  | .expectHeaders =>
    if b.length ≤ CRLFCRLF.length then
      none
    else
      (find CRLFCRLF b).bind fun size =>
        (contentLength (b.take size)).map (.contentLength (b.take size))
  | .expectChunkLen => (find CRLF b).map fun crlf => .chunkLength (b.take crlf)
  | _ => none

/-- A parser that something is read with, until a step fails, and the declaration read last. -/
structure Watch where
  parser : Option HttpParser := some {}
  declared : Option Declaration := none
  deriving DecidableEq, Repr

/-- One call of `Parse`. -/
def Watch.read (w : Watch) (b : List UInt8) : Watch :=
  match w.parser with
  | none => w
  | some p =>
    { parser := (p.parse b).toOption.map Prod.fst
      declared := (declaration p b).or w.declared }

/-- The packet of a body, or of a chunk and its line end, has the size that was declared, and a
declaration of no length is an error. -/
structure ExactFor (w : Watch) (b : List UInt8) (p : HttpParser) : Prop where
  body : b ≠ [] → p.cleared.state = .expectNormalBody → p.cleared.chunk = none →
    ∃ header text n, w.declared = some (.contentLength header text) ∧
      (Declaration.contentLength header text).Declares n ∧ p.cleared.currentContentLength = n
  chunk : b ≠ [] → p.cleared.state = .expectChunkBody → p.cleared.chunk = none →
    ∃ line n, w.declared = some (.chunkLength line) ∧
      (Declaration.chunkLength line).Declares n ∧ p.cleared.currentChunkLength = n + 2
  refused : ∀ d, declaration p b = some d → (∀ n, ¬ d.Declares n) →
    ∃ p', (w.read b).parser = some p' ∧ p'.state = .expectError

/-- What a call allocates was declared. -/
def Exact (w : Watch) (b : List UInt8) : Prop := ∀ p, w.parser = some p → ExactFor w b p

/-- A declaration is of a length, or it is a content length that `stoull` refuses, behind a first
line that has its parts. -/
def Declaration.Handled : Declaration → Prop
  | .contentLength header text =>
    (∃ n, (Declaration.contentLength header text).Declares n) ∨
      text ≠ [] ∧ stoull text = none ∧ HasTokens header
  | .chunkLength line => ∃ n, (Declaration.chunkLength line).Declares n

/-- What a call reads is handled. -/
def Handles (w : Watch) (b : List UInt8) : Prop :=
  ∀ p, w.parser = some p → ∀ d, declaration p b = some d → d.Handled

/-! ### What declarations lead to -/

/-- What was declared last is the length of a packet that is not made yet. -/
structure Tied (declared : Option Declaration) (p : HttpParser) : Prop where
  consistent : Consistent p
  body : p.state = .expectNormalBody → p.chunk = none →
    ∃ header text n, declared = some (.contentLength header text) ∧
      (Declaration.contentLength header text).Declares n ∧ p.currentContentLength = n
  chunk : p.state = .expectChunkBody → p.chunk = none →
    ∃ line n, declared = some (.chunkLength line) ∧
      (Declaration.chunkLength line).Declares n ∧ p.currentChunkLength = n + 2

theorem tied_of_state {declared : Option Declaration} {p : HttpParser} (hp : Consistent p)
    (hbody : p.state ≠ .expectNormalBody) (hchunk : p.state ≠ .expectChunkBody) :
  Tied declared p
  := ⟨hp, fun h => absurd h hbody, fun h => absurd h hchunk⟩

theorem Tied.cleared {declared : Option Declaration} {p : HttpParser} (h : Tied declared p) :
  Tied declared p.cleared
  := by
  obtain ⟨-, -, heq | ⟨-, -, -, hs⟩⟩ := cleared_cases p
  · rw [heq]
    exact h
  · apply tied_of_state (consistent_cleared h.consistent)
    · intro hbody
      rw [hbody] at hs
      simp only [reduceCtorEq, or_self] at hs
    · intro hbody
      rw [hbody] at hs
      simp only [reduceCtorEq, or_self] at hs

theorem foldl_addLine_headers {r r' : HttpRequest} (h : r.headers = r'.headers)
    (ls : List (List UInt8)) :
  (ls.foldl addLine r).headers = (ls.foldl addLine r').headers
  := by
  induction ls generalizing r r' with
  | nil => exact h
  | cons l ls ih =>
      apply ih
      rw [addLine, addLine]
      split
      · rw [HttpRequest.addHeader, HttpRequest.addHeader, h]
      · exact h

theorem processMethodLine_headers {line : List UInt8} {req : HttpRequest}
    (h : processMethodLine line = .ok req) :
  req.headers = []
  := by
  rw [processMethodLine] at h
  split at h
  · cases h
  · split at h
    · rw [statusLine.eq_def] at h
      split at h
      · cases h
        rfl
      · cases h
    · rw [requestLine.eq_def] at h
      split at h
      · cases h
        exact HttpRequest.setTarget_headers _ _
      · cases h

theorem getHeader_contentLength {header line : List UInt8} {rest : List (List UInt8)}
    {req : HttpRequest} (hlines : splitString header CRLF = line :: rest)
    (hreq : processMethodLine line = .ok req) :
  ((line :: rest).foldl addLine req).getHeader (ascii "content-length") =
    (contentLength header).getD []
  := by
  have hheaders : ((line :: rest).foldl addLine req).headers =
      ((line :: rest).foldl addLine { isRequest := true }).headers
    := foldl_addLine_headers (processMethodLine_headers hreq) _
  rw [HttpRequest.getHeader, StringMap.get, hheaders, contentLength, hlines]
  rfl

/-- Without the value of a content length there is no body of a known length, nor an error, if there
is a line. -/
theorem frame_state {p : HttpParser} {req : HttpRequest}
    (h : req.getHeader (ascii "content-length") = []) :
  (p.frame req).state ≠ .expectNormalBody ∧ (p.frame req).state ≠ .expectChunkBody ∧
    (p.frame req).state ≠ .expectError
  := by
  rw [frame, if_neg (not_not.mpr h)]
  split
  · refine ⟨?_, ?_, ?_⟩
    all_goals rintro ⟨⟩
  · split
    all_goals
      refine ⟨?_, ?_, ?_⟩
      all_goals rintro ⟨⟩

/-- What a header block with a content length leads to. -/
theorem parseHeaders_declared {p p' : HttpParser} {text : List UInt8}
    (htext : contentLength p.header = some text) (h : parseHeaders p = .ok p') :
  (text = [] ∧ p'.state ≠ .expectNormalBody ∧ p'.state ≠ .expectChunkBody ∧
      p'.state ≠ .expectError) ∨
    text ≠ [] ∧ ∃ p₀ : HttpParser, p' = p₀.frameLength text
  := by
  rw [parseHeaders] at h
  split at h
  next hlines =>
    rw [contentLength, hlines] at htext
    cases htext
  next line rest hlines =>
    split at h
    · cases h
    next req hreq =>
      cases h
      have hget := getHeader_contentLength hlines hreq
      rw [htext, Option.getD_some] at hget
      by_cases hnil : text = []
      · left
        rw [hnil] at hget
        exact ⟨hnil, frame_state hget⟩
      · right
        refine ⟨hnil, ?_⟩
        rw [frame, hget, if_pos hnil]
        exact ⟨_, rfl⟩

theorem parseHeaders_undeclared {p p' : HttpParser} (htext : contentLength p.header = none)
    (h : parseHeaders p = .ok p') :
  p'.state ≠ .expectNormalBody ∧ p'.state ≠ .expectChunkBody ∧
    (p'.state = .expectError ↔ p.header = [])
  := by
  rw [parseHeaders] at h
  split at h
  next hlines =>
    cases h
    refine ⟨?_, ?_, iff_of_true rfl (splitString_eq_nil hlines)⟩
    · rintro ⟨⟩
    · rintro ⟨⟩
  next line rest hlines =>
    split at h
    · cases h
    next req hreq =>
      cases h
      have hget := getHeader_contentLength hlines hreq
      rw [htext, Option.getD_none] at hget
      obtain ⟨hbody, hchunk, herror⟩ :=
        @frame_state { p with isRequest := req.isRequest } _ hget
      refine ⟨hbody, hchunk, iff_of_false herror fun hnil => ?_⟩
      rw [hnil] at hlines
      cases hlines

/-- A content length is a state of its own, or an error exactly if it is refused. -/
theorem frameLength_state (p : HttpParser) (text : List UInt8) :
  (p.frameLength text).state ≠ .expectChunkBody ∧
    ((p.frameLength text).state = .expectError ↔ stoull text = none)
  := by
  rw [frameLength]
  cases stoull text with
  | none =>
      refine ⟨?_, iff_of_true rfl rfl⟩
      rintro ⟨⟩
  | some n =>
      dsimp only
      split
      all_goals
        refine ⟨?_, iff_of_false ?_ (Option.some_ne_none n)⟩
        · rintro ⟨⟩
        · rintro ⟨⟩

/-- With a content length the only error is that it is refused. -/
theorem parseHeaders_refused {p p' : HttpParser} {text : List UInt8}
    (htext : contentLength p.header = some text) (h : parseHeaders p = .ok p') :
  p'.state = .expectError ↔ text ≠ [] ∧ stoull text = none
  := by
  obtain ⟨hnil, -, -, hno⟩ | ⟨hne, p₀, rfl⟩ := parseHeaders_declared htext h
  · exact iff_of_false hno fun hrefused => hrefused.1 hnil
  · rw [(p₀.frameLength_state text).2, and_iff_right hne]

/-- A length that is declared is the one that is kept. -/
theorem frameLength_declared {p : HttpParser} {header text : List UInt8} {n : Nat}
    (h : (Declaration.contentLength header text).Declares n) :
  (p.frameLength text).state ≠ .expectError ∧ (p.frameLength text).currentContentLength = n
  := by
  obtain ⟨hnumeral, hlt⟩ := h
  have hvalue := hnumeral.value
  have hread : stoull text = some n
    := by
    rw [stoull_digits hnumeral.ne_nil hnumeral.digits (by omega), hvalue]
  rw [frameLength, hread]
  dsimp only
  rw [truncate32_of_lt hlt]
  split
  next hzero =>
    refine ⟨?_, hzero.symm⟩
    rintro ⟨⟩
  next =>
    refine ⟨?_, rfl⟩
    rintro ⟨⟩

/-- The line of a chunk does not lead to an error. -/
theorem chunkLenLine_state {p p' : HttpParser} {line : List UInt8}
    (h : p.chunkLenLine line = .ok p') :
  p'.state ≠ .expectError ∧ p'.state ≠ .expectNormalBody
  := by
  rw [chunkLenLine] at h
  split at h
  · cases h
    constructor
    · rintro ⟨⟩
    · rintro ⟨⟩
  · split at h
    · cases h
    · cases h
      constructor
      · rintro ⟨⟩
      · rintro ⟨⟩

theorem chunkLenLine_declared {p p' : HttpParser} {line : List UInt8} {n : Nat}
    (h : (Declaration.chunkLength line).Declares n) (hread : p.chunkLenLine line = .ok p')
    (hstate : p'.state = .expectChunkBody) :
  p'.currentChunkLength = n + 2
  := by
  obtain ⟨hnumeral, hle⟩ := h
  have hvalue := hnumeral.value
  have hbehind : ∀ c, (line.dropWhile (· ≠ 59)).head? = some c → isDigit 36 c = false
    := by
    intro c hc
    have hnot := List.head?_dropWhile_not (· ≠ 59) line
    rw [hc] at hnot
    obtain rfl : c = 59 := by simpa using hnot
    rfl
  have hnumber : truncate32 (strtol line 16) = n
    := by
    rw [← List.takeWhile_append_dropWhile (p := (· ≠ 59)) (l := line), ← chunkSize,
      strtol_digits hnumeral.ne_nil hnumeral.digits (Nat.le_refl _) hbehind (by omega), hvalue,
      truncate32_of_lt (by omega)]
  rw [chunkLenLine, hnumber] at hread
  split at hread
  · cases hread
    cases hstate
  · split at hread
    · cases hread
    · cases hread
      rfl

/-! ### Steps -/

theorem parse_of_ne_nil {b : List UInt8} (hb : b ≠ []) (p : HttpParser) :
  p.parse b = p.cleared.step b
  := by
  rw [parse, if_neg fun hempty => hb (List.isEmpty_iff.mp hempty)]

theorem declaration_nil (p : HttpParser) :
  declaration p [] = none
  := by
  rw [declaration]
  split
  · rfl
  · rfl
  · rfl

theorem readHeaders_of_find {p : HttpParser} {b : List UInt8} {size : Nat}
    (hlong : ¬ b.length ≤ CRLFCRLF.length) (hfind : find CRLFCRLF b = some size) :
  p.readHeaders b = (parseHeaders { p with header := b.take size }).map
    fun p' => (p', size + 4, p'.state)
  := by
  rw [readHeaders, if_neg hlong, hfind]
  dsimp only
  cases parseHeaders { p with header := b.take size } with
  | error e => rfl
  | ok p' => rfl

/-- A packet that is waited for is not there yet. -/
def Unmade (p : HttpParser) : Prop :=
  (p.state = .expectNormalBody ∨ p.state = .expectChunkBody) ∧ p.chunk = none

theorem not_unmade_of_state {p : HttpParser} {state : HttpParserState} (hs : p.state = state)
    (hbody : state ≠ .expectNormalBody) (hchunk : state ≠ .expectChunkBody) :
  ¬ Unmade p
  := by
  subst hs
  rintro ⟨hs | hs, -⟩
  · exact hbody hs
  · exact hchunk hs

theorem returned_ok {r : Except HttpFault (HttpParser × Nat)} {p' : HttpParser} {n : Nat}
    {state : HttpParserState} (h : returned r = .ok (p', n, state)) :
  r = .ok (p', n)
  := by
  cases r with
  | error e => cases h
  | ok r => cases h; rfl

/-- A body that is read has a packet. -/
theorem not_unmade_parseNormalBody {p p' : HttpParser} {b : List UInt8} {n : Nat}
    (h : p.parseNormalBody b = .ok (p', n)) :
  ¬ Unmade p'
  := by
  rw [parseNormalBody] at h
  split at h
  · cases h
  · cases h
    exact fun hunmade => nomatch hunmade.2

theorem not_unmade_parseStream {p p' : HttpParser} {b : List UInt8} {n : Nat}
    (h : p.parseStream b = .ok (p', n)) :
  ¬ Unmade p'
  := by
  rw [parseStream] at h
  split at h
  · cases h
  · cases h
    exact fun hunmade => nomatch hunmade.2

theorem not_unmade_parseChunk {p p' : HttpParser} {b : List UInt8} {n : Nat}
    (h : p.parseChunk b = .ok (p', n)) :
  ¬ Unmade p'
  := by
  rw [parseChunk] at h
  split at h
  · cases h
  · dsimp only at h
    split at h
    · cases h
      rintro ⟨-, ⟨⟩⟩
    · cases h
      rintro ⟨-, ⟨⟩⟩

/-- Only what declares a length leads to a packet that is waited for. -/
theorem not_unmade_step {q p' : HttpParser} {b : List UInt8} {n : Nat} {state : HttpParserState}
    (hq : q.cleared = q) (hdeclaration : declaration q b = none)
    (h : q.step b = .ok (p', n, state)) :
  ¬ Unmade p'
  := by
  rw [declaration, hq] at hdeclaration
  rw [step] at h
  cases hs : q.state with
  | expectHeaders =>
      rw [hs] at h hdeclaration
      dsimp only at h hdeclaration
      have hsame : ¬ Unmade q := not_unmade_of_state hs (by decide) (by decide)
      by_cases hshort : b.length ≤ CRLFCRLF.length
      · rw [readHeaders, if_pos hshort] at h
        cases h
        exact hsame
      · rw [if_neg hshort] at hdeclaration
        cases hfind : find CRLFCRLF b with
        | none =>
            rw [readHeaders, if_neg hshort, hfind] at h
            dsimp only at h
            split at h
            · cases h
              exact not_unmade_of_state rfl (by rintro ⟨⟩) (by rintro ⟨⟩)
            · cases h
              exact hsame
        | some size =>
            rw [hfind, Option.bind_some, Option.map_eq_none_iff] at hdeclaration
            rw [readHeaders_of_find hshort hfind] at h
            cases hparse : parseHeaders { q with header := b.take size } with
            | error e =>
                rw [hparse] at h
                cases h
            | ok r =>
                rw [hparse] at h
                cases h
                obtain ⟨hbody, hchunk, -⟩ :=
                  @parseHeaders_undeclared { q with header := b.take size } _ hdeclaration hparse
                exact not_unmade_of_state rfl hbody hchunk
  | expectNormalBody =>
      rw [hs] at h
      exact not_unmade_parseNormalBody (returned_ok h)
  | expectStreamBody =>
      rw [hs] at h
      exact not_unmade_parseStream (returned_ok h)
  | expectChunkBody =>
      rw [hs] at h
      exact not_unmade_parseChunk (returned_ok h)
  | expectChunkLen =>
      rw [hs] at h hdeclaration
      dsimp only at h hdeclaration
      rw [Option.map_eq_none_iff] at hdeclaration
      rw [readChunkLen, hdeclaration] at h
      dsimp only at h
      split at h
      · cases h
        exact not_unmade_of_state rfl (by rintro ⟨⟩) (by rintro ⟨⟩)
      · cases h
        exact not_unmade_of_state hs (by decide) (by decide)
  | expectLastEmptyChunk =>
      rw [hs] at h
      dsimp only at h
      rw [readLastEmptyChunk] at h
      split at h
      · cases h
        exact not_unmade_of_state rfl (by rintro ⟨⟩) (by rintro ⟨⟩)
      · cases h
        exact not_unmade_of_state hs (by decide) (by decide)
  | _ =>
      rw [hs] at h
      cases h
      exact not_unmade_of_state hs (by decide) (by decide)

theorem cleared_cleared (p : HttpParser) :
  p.cleared.cleared = p.cleared
  := by
  obtain ⟨hhttp, hchunk, -⟩ := cleared_cases p
  rw [cleared.eq_def p.cleared]
  split
  next h => cases hhttp h
  next h => cases hchunk h
  next => rfl

theorem declaration_cleared (p : HttpParser) (b : List UInt8) :
  declaration p.cleared b = declaration p b
  := by rw [declaration, declaration, cleared_cleared]

/-- What is read that declares a length. -/
theorem declaration_cases {p : HttpParser} {b : List UInt8} {d : Declaration}
    (h : declaration p b = some d) :
  (∃ size text, d = .contentLength (b.take size) text ∧ contentLength (b.take size) = some text ∧
      p.cleared.step b = (parseHeaders { p.cleared with header := b.take size }).map
        fun p' => (p', size + 4, p'.state)) ∨
    ∃ crlf, d = .chunkLength (b.take crlf) ∧
      p.cleared.step b = returned ((p.cleared.chunkLenLine (b.take crlf)).map
        fun p' => (p', crlf + 2))
  := by
  rw [declaration] at h
  rw [step]
  cases hs : p.cleared.state with
  | expectHeaders =>
      left
      rw [hs] at h
      dsimp only at h ⊢
      by_cases hshort : b.length ≤ CRLFCRLF.length
      · rw [if_pos hshort] at h
        cases h
      · rw [if_neg hshort] at h
        obtain ⟨size, hfind, hmap⟩ := Option.bind_eq_some_iff.mp h
        obtain ⟨text, htext, rfl⟩ := Option.map_eq_some_iff.mp hmap
        exact ⟨size, text, rfl, htext, readHeaders_of_find hshort hfind⟩
  | expectChunkLen =>
      right
      rw [hs] at h
      obtain ⟨crlf, hfind, rfl⟩ := Option.map_eq_some_iff.mp h
      refine ⟨crlf, rfl, ?_⟩
      dsimp only
      rw [readChunkLen, hfind]
  | _ =>
      rw [hs] at h
      cases h

section Step

variable {p : HttpParser} {declared : Option Declaration} {b : List UInt8}

theorem read_some (hb : b ≠ []) (p : HttpParser) (declared : Option Declaration) :
  Watch.read { parser := some p, declared := declared } b =
    { parser := (p.cleared.step b).toOption.map Prod.fst
      declared := (declaration p b).or declared }
  := by
  rw [← parse_of_ne_nil hb]
  rfl

/-- A content length is as it should be exactly if it is handled, and then what it leads to is tied
to it. -/
theorem contentLength_handled {p : HttpParser} {text : List UInt8}
    (hchunk : p.chunk = none) (htext : contentLength p.header = some text) :
  (((∀ n, ¬ (Declaration.contentLength p.header text).Declares n) →
      ∃ p', parseHeaders p = .ok p' ∧ p'.state = .expectError) ↔
    (Declaration.contentLength p.header text).Handled) ∧
  ((Declaration.contentLength p.header text).Handled → ∀ p', parseHeaders p = .ok p' →
    Tied (some (.contentLength p.header text)) p')
  := by
  constructor
  · constructor
    · intro hrefused
      by_cases hdeclares : ∃ n, (Declaration.contentLength p.header text).Declares n
      · exact Or.inl hdeclares
      · right
        obtain ⟨p', hparse, herror⟩ := hrefused fun n hn => hdeclares ⟨n, hn⟩
        obtain ⟨hne, hnone⟩ := (parseHeaders_refused htext hparse).mp herror
        exact ⟨hne, hnone, parseHeaders_ok.mp ⟨_, hparse⟩⟩
    · rintro (⟨n, hn⟩ | ⟨hne, hnone, htokens⟩) hnot
      · cases hnot n hn
      · obtain ⟨p', hparse⟩ := parseHeaders_ok.mpr htokens
        exact ⟨p', hparse, (parseHeaders_refused htext hparse).mpr ⟨hne, hnone⟩⟩
  · intro hhandled p' hparse
    have hconsistent := consistent_parseHeaders hchunk hparse
    obtain ⟨-, hbody, hchunk, -⟩ | ⟨-, p₀, rfl⟩ := parseHeaders_declared htext hparse
    · exact tied_of_state hconsistent hbody hchunk
    · obtain ⟨hchunk, herror⟩ := p₀.frameLength_state text
      obtain ⟨n, hn⟩ | ⟨-, hnone, -⟩ := hhandled
      · exact ⟨hconsistent, fun _ _ => ⟨_, text, n, rfl, hn, (frameLength_declared hn).2⟩,
          fun hs => absurd hs hchunk⟩
      · have hs := herror.mpr hnone
        apply tied_of_state hconsistent
        · rw [hs]
          nofun
        · exact hchunk

/-- So is the line of a chunk. -/
theorem chunkLength_handled {p : HttpParser} (hchunk : p.chunk = none) (line : List UInt8) :
  (((∀ n, ¬ (Declaration.chunkLength line).Declares n) →
      ∃ p', p.chunkLenLine line = .ok p' ∧ p'.state = .expectError) ↔
    (Declaration.chunkLength line).Handled) ∧
  ((Declaration.chunkLength line).Handled → ∀ p', p.chunkLenLine line = .ok p' →
    Tied (some (.chunkLength line)) p')
  := by
  constructor
  · constructor
    · intro hrefused
      by_contra hnot
      obtain ⟨p', hread, herror⟩ := hrefused fun n hn => hnot ⟨n, hn⟩
      exact (chunkLenLine_state hread).1 herror
    · rintro ⟨n, hn⟩ hnot
      cases hnot n hn
  · rintro ⟨n, hn⟩ p' hread
    obtain ⟨-, p'', hok, hconsistent⟩ | ⟨-, herror⟩ := chunkLenLine_cases hchunk line
    · cases hread.symm.trans hok
      exact ⟨hconsistent, fun hs => absurd hs (chunkLenLine_state hread).2,
        fun hs _ => ⟨line, n, rfl, hn, chunkLenLine_declared hn hread hs⟩⟩
    · cases hread.symm.trans herror

theorem Declaration.declaredState {d : Declaration} (h : declaration p b = some d) :
  p.cleared.state = .expectHeaders ∨ p.cleared.state = .expectChunkLen
  := by
  rw [declaration] at h
  split at h
  next hs => exact Or.inl hs
  next hs => exact Or.inr hs
  next => cases h

theorem parser_of_map {x : Except HttpFault HttpParser} {p' : HttpParser} (n : Nat) :
  (x.map fun p => (p, n, p.state)).toOption.map Prod.fst = some p' ↔ x = .ok p'
  := by
  cases x with
  | error e => exact iff_of_false nofun nofun
  | ok p =>
      constructor
      · intro h
        exact congrArg Except.ok (Option.some.inj h)
      · intro h
        exact congrArg some (Except.ok.inj h)

theorem returned_map (x : Except HttpFault HttpParser) (n : Nat) :
  returned (x.map fun p => (p, n)) = x.map fun p => (p, n, p.state)
  := by
  cases x with
  | error e => rfl
  | ok p => rfl

/-- What a call reads leads to an error or a packet as it should exactly if it is handled, and then
the next packet is tied to it. -/
theorem Tied.read (h : Tied declared p) (hb : b ≠ []) :
  ((∀ d, declaration p b = some d → (∀ n, ¬ d.Declares n) →
      ∃ p', ((p.cleared.step b).toOption.map Prod.fst) = some p' ∧ p'.state = .expectError) ↔
    ∀ d, declaration p b = some d → d.Handled) ∧
  ((∀ d, declaration p b = some d → d.Handled) → ∀ p',
    (p.cleared.step b).toOption.map Prod.fst = some p' →
    Tied ((declaration p b).or declared) p')
  := by
  have hq := h.cleared
  cases hd : declaration p b with
  | none =>
      refine ⟨iff_of_true nofun nofun, fun _ p' hread => ?_⟩
      obtain ⟨⟨_, n, state⟩, hstep, rfl⟩ := Option.map_eq_some_iff.mp hread
      cases hrun : p.cleared.step b with
      | error e =>
          rw [hrun] at hstep
          cases hstep
      | ok r =>
          rw [hrun] at hstep
          cases hstep
          have hunmade :=
            not_unmade_step p.cleared_cleared ((declaration_cleared p b).trans hd) hrun
          have hparse := (parse_of_ne_nil hb p).trans hrun
          exact ⟨consistent_parse h.consistent hparse,
            fun hs hc => absurd ⟨Or.inl hs, hc⟩ hunmade,
            fun hs hc => absurd ⟨Or.inr hs, hc⟩ hunmade⟩
  | some d =>
      have hchunk : p.cleared.chunk = none
        := by
        obtain hs | hs := Declaration.declaredState hd
        · exact hq.consistent.headers hs
        · exact hq.consistent.chunkLen hs
      simp only [Option.some.injEq, forall_eq', Option.some_or]
      obtain ⟨size, text, rfl, htext, hrun⟩ | ⟨crlf, rfl, hrun⟩ := declaration_cases hd
      · rw [hrun]
        simp only [parser_of_map]
        exact @contentLength_handled { p.cleared with header := b.take size } text hchunk htext
      · rw [hrun, returned_map]
        simp only [parser_of_map]
        exact chunkLength_handled hchunk (b.take crlf)

end Step

/-- In a parser that is tied to a declaration a call is exact exactly if it handles what it
reads. -/
theorem exactFor_iff {p : HttpParser} {declared : Option Declaration} (h : Tied declared p)
    (b : List UInt8) :
  ExactFor { parser := some p, declared } b p ↔ ∀ d, declaration p b = some d → d.Handled
  := by
  have hq := h.cleared
  by_cases hb : b = []
  · subst hb
    rw [declaration_nil]
    apply iff_of_true _ nofun
    exact ⟨fun hb => absurd rfl hb, fun hb => absurd rfl hb, by rw [declaration_nil]; nofun⟩
  · rw [← (h.read hb).1]
    constructor
    · intro hexact
      have hrefused := hexact.refused
      rw [read_some hb] at hrefused
      exact hrefused
    · intro hrefused
      refine ⟨fun _ => hq.body, fun _ => hq.chunk, ?_⟩
      rw [read_some hb]
      exact hrefused

theorem read_nil (p : HttpParser) (declared : Option Declaration) :
  Watch.read { parser := some p, declared } [] = { parser := some p, declared }
  := by
  change ({ parser := some p, declared := (declaration p []).or declared } : Watch) = _
  rw [declaration_nil, Option.none_or]

/-- A watched parser is tied to the declaration. -/
def Watch.Tied (w : Watch) : Prop := ∀ p, w.parser = some p → HttpParser.Tied w.declared p

theorem Watch.tied_read {w : Watch} (h : w.Tied) {b : List UInt8} (hb : Handles w b) :
  (w.read b).Tied
  := by
  obtain ⟨_ | p, declared⟩ := w
  · exact h
  · by_cases hnil : b = []
    · subst hnil
      rw [read_nil]
      exact h
    · rw [read_some hnil]
      exact ((h p rfl).read hnil).2 (hb p rfl)

/-- In a run everything that is allocated was declared, and every other declaration is an error,
exactly if what is read declares lengths, or content lengths that `stoull` refuses. -/
theorem exact_iff_handles (reads : List (List UInt8)) :
  Runs.Steps Watch.read Exact {} reads ↔ Runs.Steps Watch.read Handles {} reads
  := by
  apply Runs.steps_iff_steps (I := Watch.Tied) Runs.steps_true
  · rintro p ⟨⟩
    exact tied_of_state (consistent_of_chunk (.inl rfl) rfl) nofun nofun
  · intro w b hw _
    refine ⟨forall_congr' fun p => forall_congr' fun hp => ?_, fun hb => Watch.tied_read hw hb⟩
    obtain ⟨parser, declared⟩ := w
    obtain rfl : parser = some p := hp
    exact exactFor_iff (hw p rfl) b

/-- The header block of a request with a content length of less than zero. -/
def negativeLength : List UInt8 :=
  ascii "POST / HTTP/1.1" ++ CRLF ++ ascii "Content-Length: -5"

/-- A packet of less than no bytes is waited for behind it. -/
theorem not_exact_negativeLength :
  ¬ Runs.Steps Watch.read Exact {} [negativeLength ++ CRLFCRLF]
  := by
  intro h
  have hrefused := (h.1 {} rfl).refused (.contentLength negativeLength (ascii "-5"))
    (by decide +kernel)
  obtain ⟨p', hread, herror⟩ := hrefused (by
    rintro n ⟨hnumeral, -⟩
    exact absurd (hnumeral.digits 45 (by decide)) (by decide))
  have hstate : (Watch.read {} (negativeLength ++ CRLFCRLF)).parser.map (·.state) =
      some .expectNormalBody
    := by decide +kernel
  rw [hread, Option.map_some, herror] at hstate
  cases hstate

end HttpParser
