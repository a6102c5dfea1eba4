import Tmms.Http.Messages

/-!
# Header blocks

What the parser makes of the header block of a message that is well formed and supported: the
request that the message says, and the state from which its content is read.
-/

open StringUtils HttpParser

/-! ### Bytes of lines -/

theorem IsTokenByte.visible {c : UInt8} (h : IsTokenByte c) :
  33 ≤ c.toNat ∧ c ≠ 58
  := by
  obtain hdigit | hmem | rfl | rfl | rfl | rfl := h
  · have hle := le_of_isDigit hdigit
    use by omega
    rintro rfl
    contradiction
  · have hall : ∀ c ∈ ascii "!#$%&*+-.^_", 33 ≤ c.toNat ∧ c ≠ 58 := by decide +kernel
    apply hall c hmem
  · decide
  · decide
  · decide
  · decide

theorem IsTextByte.ne_return {c : UInt8} (h : IsTextByte c) :
  c ≠ 13
  := by
  rintro rfl
  obtain ⟨hle, -⟩ | h | h := h
  · contradiction
  · contradiction
  · contradiction

theorem isSpace_of_blank {c : UInt8} (h : c = 32 ∨ c = 9) :
  isSpace c
  := by
  obtain rfl | rfl := h
  · rfl
  · rfl

/-- The bytes of a version. -/
theorem IsVersion.visible {s : List UInt8} (h : IsVersion s) :
  ∀ c ∈ s, 33 ≤ c.toNat
  := by
  obtain ⟨d, hd, rfl⟩ := h
  intro c hc
  obtain hc | hc := List.mem_append.mp hc
  · have hall : ∀ c ∈ ascii "HTTP/1.", 33 ≤ c.toNat := by decide +kernel
    apply hall c hc
  · obtain rfl := List.mem_singleton.mp hc
    have hle := le_of_isDigit hd
    omega

/-- Visible bytes are no spaces and no line ends. -/
theorem notMem_of_visible {s : List UInt8} (h : ∀ c ∈ s, 33 ≤ c.toNat) {x : UInt8}
    (hx : x.toNat < 33) :
  x ∉ s
  := by
  intro hmem
  have hle := h x hmem
  omega

/-- A line of a field has no return, and is not empty. -/
theorem HeaderField.WellFormed.line {f : HeaderField} (hf : f.WellFormed) :
  13 ∉ f.line ∧ f.line ≠ []
  := by
  obtain ⟨hne, hname⟩ := hf.name
  constructor
  · have hname' : 13 ∉ f.name
      := by
      apply notMem_of_visible (fun c hc => (hname c hc).visible.1)
      decide
    have hbefore : 13 ∉ f.before
      := by
      intro hmem
      cases hf.before 13 hmem <;> contradiction
    have hafter : 13 ∉ f.after
      := by
      intro hmem
      cases hf.after 13 hmem <;> contradiction
    have hvalue : 13 ∉ f.value
      := by
      intro hmem
      apply (hf.value 13 hmem).ne_return rfl
    have hcolon : 13 ∉ ascii ":" := by decide
    simp only [HeaderField.line, List.mem_append, hname', hcolon, hbefore, hvalue, hafter, or_self,
      not_false_iff]
  · simp only [HeaderField.line, ne_eq, List.append_eq_nil_iff, hne, false_and, not_false_iff]

/-- A start line has no return, and is not empty. -/
theorem StartLine.WellFormed.line {s : StartLine} (hs : s.WellFormed) :
  13 ∉ s.line ∧ s.line ≠ []
  := by
  have hspace : 13 ∉ ascii " " := by decide
  cases s with
  | request method target version =>
      obtain ⟨⟨hne, hmethod⟩, -, htarget, hversion⟩ := hs
      have hmethod' : 13 ∉ method
        := by
        apply notMem_of_visible (fun c hc => (hmethod c hc).visible.1)
        decide
      have htarget' : 13 ∉ target
        := by
        apply notMem_of_visible (fun c hc => (htarget c hc).1)
        decide
      have hversion' : 13 ∉ version
        := by
        apply notMem_of_visible hversion.visible
        decide
      constructor
      · simp only [StartLine.line, List.mem_append, hmethod', htarget', hversion', hspace, or_self,
          not_false_iff]
      · simp only [StartLine.line, ne_eq, List.append_eq_nil_iff, hne, false_and, not_false_iff]
  | status version code reason =>
      obtain ⟨hversion, -, hcode, hreason⟩ := hs
      have hversion' : 13 ∉ version
        := by
        apply notMem_of_visible hversion.visible
        decide
      have hcode' : 13 ∉ code
        := by
        intro hmem
        have hle := le_of_isDigit (hcode 13 hmem)
        contradiction
      have hreason' : 13 ∉ reason
        := by
        intro hmem
        apply (hreason 13 hmem).ne_return rfl
      constructor
      · simp only [StartLine.line, List.mem_append, hversion', hcode', hreason', hspace, or_self,
          not_false_iff]
      · obtain ⟨d, -, rfl⟩ := hversion
        simp only [StartLine.line, ne_eq, List.append_eq_nil_iff, List.cons_ne_self, and_false,
          false_and, not_false_iff]

/-- The lines of a header block have no return, and are not empty. -/
theorem HttpMessage.WellFormed.lines {m : HttpMessage} (hm : m.WellFormed) :
  ∀ l ∈ m.lines, 13 ∉ l ∧ l ≠ []
  := by
  intro l hl
  cases hl with
  | head => apply hm.start.line
  | tail _ hl =>
      obtain ⟨f, hf, rfl⟩ := List.mem_map.mp hl
      apply (hm.fields f hf).line

/-! ### The end of a block -/

/-- Lines with their ends are the lines with ends between them and one more. -/
theorem linesBytes_eq {ls : List (List UInt8)} (hne : ls ≠ []) :
  linesBytes ls = CRLF.intercalate ls ++ CRLF
  := by
  induction ls with
  | nil => contradiction
  | cons l ls ih =>
      cases ls with
      | nil =>
          rw [List.intercalate_singleton, linesBytes, List.flatMap_cons, List.flatMap_nil,
            List.append_nil]
      | cons l' ls =>
          rw [linesBytes, List.flatMap_cons, ← linesBytes, ih (List.cons_ne_nil _ _),
            List.intercalate_cons_cons, List.append_assoc, List.append_assoc, List.append_assoc]

/-- Joined lines begin with the first one. -/
theorem exists_intercalate_cons (sep l : List UInt8) (ls : List (List UInt8)) :
  ∃ t, sep.intercalate (l :: ls) = l ++ t
  := by
  cases ls with
  | nil =>
      use []
      rw [List.intercalate_singleton, List.append_nil]
  | cons l' ls =>
      use sep ++ sep.intercalate (l' :: ls)
      rw [List.intercalate_cons_cons, List.append_assoc]

/-- A line end in front of something else than a return is not the empty line. -/
theorem find_lineEnd {x : UInt8} (hx : x ≠ 13) (t : List UInt8) :
  find CRLFCRLF (CRLF ++ x :: t) = (find CRLFCRLF (x :: t)).map (· + 2)
  := by
  have hreturn : ¬ CRLFCRLF.isPrefixOf (13 :: 10 :: x :: t)
    := by
    simp only [CRLFCRLF, List.isPrefixOf, Bool.and_eq_true, beq_iff_eq, true_and]
    rintro ⟨h, -⟩
    apply hx h.symm
  have hfeed : ¬ CRLFCRLF.isPrefixOf (10 :: x :: t)
    := by
    simp only [CRLFCRLF, List.isPrefixOf, Bool.and_eq_true, beq_iff_eq]
    rintro ⟨h, -⟩
    contradiction
  rw [CRLF, List.cons_append, List.cons_append, List.nil_append, find, if_neg hreturn, find,
    if_neg hfeed, Option.map_map]
  rfl

/-- The empty line is found behind lines that are not empty, whatever follows. -/
theorem find_emptyLine {ls : List (List UInt8)} (hne : ls ≠ [])
    (h : ∀ l ∈ ls, 13 ∉ l ∧ l ≠ []) (c : List UInt8) :
  find CRLFCRLF (CRLF.intercalate ls ++ (CRLFCRLF ++ c)) = some (CRLF.intercalate ls).length
  := by
  induction ls with
  | nil => contradiction
  | cons l ls ih =>
      obtain ⟨hl, -⟩ := h l (List.mem_cons_self ..)
      cases ls with
      | nil =>
          rw [List.intercalate_singleton]
          apply find_append_self hl
      | cons l' ls =>
          obtain ⟨hl', hne'⟩ := h l' (List.mem_cons_of_mem _ (List.mem_cons_self ..))
          obtain ⟨x, l'', rfl⟩ := List.exists_cons_of_ne_nil hne'
          have hx : x ≠ 13
            := by
            rintro rfl
            apply hl' (List.mem_cons_self ..)
          obtain ⟨t, ht⟩ := exists_intercalate_cons CRLF (x :: l'') ls
          have hrest := ih (List.cons_ne_nil _ _)
            (fun l' h' => h l' (List.mem_cons_of_mem _ h'))
          rw [ht, List.cons_append, List.cons_append] at hrest
          have hskip := find_lineEnd hx (l'' ++ t ++ (CRLFCRLF ++ c))
          rw [hrest] at hskip
          rw [List.intercalate_cons_cons, ht, List.append_assoc, List.append_assoc,
            List.cons_append, List.cons_append, CRLFCRLF, find_append hl, ← CRLFCRLF, hskip]
          simp only [Option.map_some, List.length_append, List.length_cons, CRLF, List.length_nil,
            Option.some.injEq]
          omega

/-! ### Start lines -/

/-- The parts of the first line of a request. -/
theorem splitString_requestLine {method target version : List UInt8}
    (h : (StartLine.request method target version).WellFormed) :
  splitString (StartLine.request method target version).line (ascii " ") = [method, target, version]
  := by
  obtain ⟨⟨-, hmethod⟩, -, htarget, hversion⟩ := h
  have hspace : ascii " " = [32] := by decide
  have hne : version ≠ []
    := by
    obtain ⟨d, -, rfl⟩ := hversion
    apply List.append_ne_nil_of_right_ne_nil _ (List.cons_ne_nil _ _)
  rw [StartLine.line, hspace, List.append_assoc, List.append_assoc, List.append_assoc,
    List.cons_append, splitString_append, List.cons_append, splitString_append,
    splitString_of_notMem _ hne]
  · apply notMem_of_visible hversion.visible
    decide
  · apply notMem_of_visible (fun c hc => (htarget c hc).1)
    decide
  · apply notMem_of_visible (fun c hc => (hmethod c hc).visible.1)
    decide

/-- The parts of the first line of a response. The reason may have spaces. -/
theorem splitString_statusLine {version code reason : List UInt8}
    (h : (StartLine.status version code reason).WellFormed) :
  splitString (StartLine.status version code reason).line (ascii " ") =
    version :: code :: splitString reason (ascii " ")
  := by
  obtain ⟨hversion, -, hcode, -⟩ := h
  have hspace : ascii " " = [32] := by decide
  have hcode' : 32 ∉ code
    := by
    apply notMem_of_visible
    · intro c hc
      have hle := le_of_isDigit (hcode c hc)
      omega
    · decide
  rw [StartLine.line, hspace, List.append_assoc, List.append_assoc, List.append_assoc,
    List.cons_append, splitString_append, List.cons_append, splitString_append hcode']
  apply notMem_of_visible hversion.visible
  decide

/-- A start line is processed to the request or response it says. -/
theorem processMethodLine_line {s : StartLine} (hs : s.WellFormed) (hsup : s.Supported) :
  processMethodLine s.line = .ok s.withoutFields
  := by
  cases s with
  | request method target version =>
      rw [processMethodLine, splitString_requestLine hs]
      dsimp only
      rw [if_neg hsup]
      rfl
  | status version code reason =>
      have hsplit := splitString_statusLine hs
      obtain ⟨hversion, hlen, hcode, -⟩ := hs
      have hhttp : (version.map toLower).take 4 = ascii "http"
        := by
        obtain ⟨d, -, rfl⟩ := hversion
        rfl
      have hlt := numeral_lt hcode
      rw [hlen] at hlt
      have hnumber : atoi code = numeral 10 code
        := by
        apply atoi_digits _ hcode (by omega)
        rintro rfl
        contradiction
      rw [processMethodLine, hsplit]
      dsimp only
      rw [if_pos hhttp, statusLine, hnumber]
      rfl

/-! ### Fields -/

/-- A name has neither spaces nor a colon. -/
theorem HeaderField.WellFormed.visible {f : HeaderField} (hf : f.WellFormed) :
  ∀ c ∈ f.name, 33 ≤ c.toNat ∧ c ≠ 58
  := by
  intro c hc
  apply (hf.name.2 c hc).visible

/-- Visible bytes are not trimmed. -/
theorem trim_of_visible {s : List UInt8} (h : ∀ c ∈ s, 33 ≤ c.toNat) :
  trim s = s
  := by
  have hall : trim ([] ++ s ++ []) = s
    := by
    apply trim_append
    · rintro c ⟨⟩
    · rintro c ⟨⟩
    · intro c hc
      apply isSpace_eq_false (h c (List.mem_of_head? hc))
    · intro c hc
      apply isSpace_eq_false (h c (List.mem_of_getLast? hc))
  rw [List.nil_append, List.append_nil] at hall
  apply hall

/-- The spaces around a value are left out. -/
theorem HeaderField.WellFormed.trim_value {f : HeaderField} (hf : f.WellFormed) :
  trim (f.before ++ f.value ++ f.after) = f.value
  := by
  apply trim_append
  · intro c hc
    apply isSpace_of_blank (hf.before c hc)
  · intro c hc
    apply isSpace_of_blank (hf.after c hc)
  · intro c hc
    apply isSpace_eq_false (hf.head c hc).1
  · intro c hc
    apply isSpace_eq_false (hf.last c hc).1

/-- A line with a colon behind a name adds a header, with its value trimmed. -/
theorem addLine_colon {name : List UInt8} (hname : ∀ c ∈ name, 33 ≤ c.toNat ∧ c ≠ 58)
    (value : List UInt8) (req : HttpRequest) :
  addLine req (name ++ ascii ":" ++ value) = req.addHeader name (trim value)
  := by
  have hcolon : 58 ∉ name
    := by
    intro hmem
    apply (hname 58 hmem).2 rfl
  have hfind : find (ascii ":") (name ++ ascii ":" ++ value) = some name.length
    := by
    rw [List.append_assoc]
    apply find_append_self hcolon
  have hdrop : (ascii ":" ++ value).drop 1 = value := by rfl
  rw [addLine, hfind]
  dsimp only
  rw [List.append_assoc, List.take_left, trim_of_visible fun c hc => (hname c hc).1,
    ← List.drop_drop, List.drop_left, hdrop]

/-- Lines with different names are all kept, in order. -/
theorem foldl_addLine_colon {lines : StringMap} (hnames : ∀ l ∈ lines, ∀ c ∈ l.1,
      33 ≤ c.toNat ∧ c ≠ 58)
    (hkeys : (lines.map fun l => l.1.map toLower).Nodup) (req : HttpRequest)
    (hnew : ∀ e ∈ req.headers, e.1 ∉ lines.map fun l => l.1.map toLower) :
  (lines.map fun l => l.1 ++ ascii ":" ++ l.2).foldl addLine req =
    { req with headers := req.headers ++ lines.map fun l => (l.1.map toLower, trim l.2) }
  := by
  have hfold : (lines.map fun l => l.1 ++ ascii ":" ++ l.2).foldl addLine req =
      { req with
        headers := List.foldl (fun m e => StringMap.set m e.1 e.2) req.headers
          (lines.map fun l => (l.1.map toLower, trim l.2)) }
    := by
    clear hkeys hnew
    induction lines generalizing req with
    | nil => rfl
    | cons l lines ih =>
        rw [List.map_cons, List.foldl_cons, addLine_colon (hnames l List.mem_cons_self),
          ih fun l' h' => hnames l' (List.mem_cons_of_mem _ h')]
        rfl
  rw [hfold, StringMap.foldl_set]
  · rw [List.map_map]
    exact hkeys
  · rw [List.map_map]
    exact hnew

/-- Fields of different names are all kept, in order. -/
theorem foldl_addLine {fields : List HeaderField} (hf : ∀ f ∈ fields, f.WellFormed)
    (hnames : (fields.map HeaderField.key).Nodup) (req : HttpRequest)
    (hnew : ∀ e ∈ req.headers, e.1 ∉ fields.map HeaderField.key) :
  (fields.map HeaderField.line).foldl addLine req =
    { req with headers := req.headers ++ fields.map fun f => (f.key, f.value) }
  := by
  have hlines := @foldl_addLine_colon (fields.map fun f =>
    (f.name, f.before ++ f.value ++ f.after))
  rw [List.map_map, List.map_map, List.map_map] at hlines
  have htrim : fields.map (fun f => (f.key, f.value)) =
      fields.map fun f => (f.key, trim (f.before ++ f.value ++ f.after))
    := by
    apply List.map_congr_left
    intro f hmem
    rw [(hf f hmem).trim_value]
  rw [htrim]
  apply hlines _ hnames req hnew
  intro l hl
  obtain ⟨f, hmem, rfl⟩ := List.mem_map.mp hl
  exact (hf f hmem).visible

/-- A start line without a colon adds nothing. -/
theorem addLine_start {s : StartLine} (hcolon : 58 ∉ s.line) (req : HttpRequest) :
  addLine req s.line = req
  := by
  have hfind : find (ascii ":") s.line = none
    := by apply find_eq_none hcolon
  rw [addLine, hfind]

namespace HttpMessage

/-- The request or response of a message before its content is known. -/
def headRequest (m : HttpMessage) : HttpRequest :=
  { m.start.withoutFields with headers := m.fields.map fun f => (f.key, f.value) }

/-- The lines of a message make its request or response. -/
theorem foldl_lines {m : HttpMessage} (hm : m.WellFormed) (hsup : m.Supported) :
  m.lines.foldl addLine m.start.withoutFields = m.headRequest
  := by
  have hempty : m.start.withoutFields.headers = []
    := by
    cases m.start with
    | request method target version => apply HttpRequest.setTarget_headers
    | status version code reason => rfl
  rw [lines, List.foldl_cons, addLine_start hsup.colon, foldl_addLine hm.fields hsup.names, hempty]
  · rfl
  · rw [hempty]
    rintro e ⟨⟩

end HttpMessage

/-! ### The block -/

/-- No field of a name. -/
theorem StringMap.get_eq_nil {fields : List HeaderField} {key : List UInt8}
    (h : ∀ f ∈ fields, f.key ≠ key) :
  StringMap.get (fields.map fun f => (f.key, f.value)) key = []
  := by
  have hnone : (fields.map fun f => (f.key, f.value)).find? (fun e => e.1 = key) = none
    := by
    rw [List.find?_eq_none]
    intro e he
    obtain ⟨f, hf, rfl⟩ := List.mem_map.mp he
    rw [decide_eq_true_iff]
    apply h f hf
  rw [StringMap.get, hnone]
  rfl

/-- The value of a field of a name. -/
theorem StringMap.exists_get {fields : List HeaderField} {key : List UInt8}
    (h : ∃ f ∈ fields, f.key = key) :
  ∃ f ∈ fields, f.key = key ∧
    StringMap.get (fields.map fun f => (f.key, f.value)) key = f.value
  := by
  cases hfind : (fields.map fun f => (f.key, f.value)).find? (fun e => e.1 = key) with
  | none =>
      obtain ⟨f, hf, hkey⟩ := h
      rw [List.find?_eq_none] at hfind
      have hne := hfind _ (List.mem_map_of_mem hf)
      rw [decide_eq_true_iff] at hne
      contradiction
  | some e =>
      have hkey := List.find?_some hfind
      rw [decide_eq_true_iff] at hkey
      obtain ⟨f, hf, rfl⟩ := List.mem_map.mp (List.mem_of_find?_eq_some hfind)
      use f, hf, hkey
      rw [StringMap.get, hfind]
      rfl

/-- A parser behind the header block of a message with a content. -/
def HttpContent.framed (p : HttpParser) : HttpContent → HttpParser
  | .none => { p with currentChunkLength := 0, state := .expectHttpComplete }
  | .length body =>
    if body.isEmpty then
      { p with currentContentLength := 0, state := .expectHttpComplete }
    else
      { p with currentContentLength := body.length, state := .expectNormalBody }
  | .chunked _ _ _ => { p with isChunked := true, state := .expectChunkLen }

/-- An announced length is what the content length says. -/
theorem frameLength_numeral {p : HttpParser} {value body : List UInt8}
    (h : IsNumeral 10 value body.length) (hlt : body.length < 2 ^ 31) :
  p.frameLength value = (HttpContent.length body).framed p
  := by
  have hvalue := h.value
  rw [frameLength, stoull_digits h.ne_nil h.digits (by omega), hvalue]
  dsimp only
  rw [truncate32_of_lt hlt, HttpContent.framed]
  cases body with
  | nil => rfl
  | cons c body =>
      rw [if_neg, if_neg]
      · apply Bool.false_ne_true
      · rw [List.length_cons]
        omega

/-- A start line that says that there is no body is taken so. -/
theorem StartLine.Bodiless.framed {s : StartLine} (hs : s.WellFormed) (h : s.Bodiless) :
  (!s.withoutFields.isRequest && s.withoutFields.code ≠ 200) ||
    (s.withoutFields.isRequest && (s.withoutFields.method = .get ||
      s.withoutFields.method = .head || s.withoutFields.method = .options))
  := by
  cases s with
  | request method target version =>
      have hisRequest : (StartLine.request method target version).withoutFields.isRequest = true
        := by apply HttpRequest.setTarget_isRequest
      have hmethod : (StartLine.request method target version).withoutFields.method =
          HttpUtils.parseMethod method
        := by apply HttpRequest.setTarget_method
      rw [hisRequest, hmethod]
      obtain rfl | rfl | rfl := h
      · rfl
      · rfl
      · rfl
  | status version code reason =>
      obtain ⟨-, hlen, hcode, -⟩ := hs
      have hlt := numeral_lt hcode
      rw [hlen] at hlt
      have hne : (StartLine.status version code reason).withoutFields.code ≠ 200
        := by
        intro heq
        apply h
        have hnat := congrArg UInt32.toNat heq
        change (UInt32.ofInt (numeral 10 code)).toNat = 200 at hnat
        rw [UInt32.ofInt, UInt32.toNat_ofNat'] at hnat
        omega
      have hisRequest : (StartLine.status version code reason).withoutFields.isRequest = false
        := by rfl
      rw [hisRequest, Bool.not_false, Bool.true_and, decide_eq_true hne, Bool.true_or]

/-- A content that is announced and supported is framed as it is. -/
theorem frame_headRequest {m : HttpMessage} (hm : m.WellFormed) (hsup : m.Supported)
    {p : HttpParser} (hp : p.isRequest = m.start.withoutFields.isRequest) :
  p.frame m.headRequest = m.content.framed { p with req := some m.request }
  := by
  obtain ⟨start, fields, content⟩ := m
  have hchunked : start.withoutFields.isChunked = false
    := by
    cases start with
    | request method target version => apply HttpRequest.setTarget_isChunked
    | status version code reason => rfl
  have hlength : ∀ m : HttpMessage, m.headRequest.getHeader (ascii "content-length") =
      StringMap.get (m.fields.map fun f => (f.key, f.value)) (ascii "content-length")
    := by
    intro m
    rfl
  have hencoding : ∀ m : HttpMessage, m.headRequest.getHeader (ascii "transfer-encoding") =
      StringMap.get (m.fields.map fun f => (f.key, f.value)) (ascii "transfer-encoding")
    := by
    intro m
    rfl
  have hannounced := hm.announced
  have hcontent := hsup.content
  rw [frame, hlength, hencoding]
  cases content with
  | none =>
      have hrequest : HttpMessage.headRequest ⟨start, fields, .none⟩ =
          HttpMessage.request ⟨start, fields, .none⟩
        := by rw [HttpMessage.headRequest, HttpMessage.request, hchunked]; rfl
      have hbodiless := StartLine.Bodiless.framed hm.start hcontent
      rw [StringMap.get_eq_nil (fun f hf => (hannounced f hf).1),
        StringMap.get_eq_nil (fun f hf => (hannounced f hf).2), if_neg (by simp), if_neg (by decide),
        hp, ← hrequest, if_pos]
      · rfl
      · apply hbodiless
  | length body =>
      have hrequest : HttpMessage.headRequest ⟨start, fields, .length body⟩ =
          HttpMessage.request ⟨start, fields, .length body⟩
        := by rw [HttpMessage.headRequest, HttpMessage.request, hchunked]; rfl
      obtain ⟨hexists, hall⟩ := hannounced
      obtain ⟨f, hf, hkey, hget⟩ := StringMap.exists_get hexists
      have hnumeral := (hall f hf).2 hkey
      rw [hget, if_pos hnumeral.ne_nil, frameLength_numeral hnumeral hcontent, hrequest]
  | chunked chunks last trailer =>
      obtain ⟨hexists, hall⟩ := hannounced
      obtain ⟨f, hf, hkey, hget⟩ := StringMap.exists_get hexists
      rw [StringMap.get_eq_nil (fun f hf => (hall f hf).1), if_neg (by simp), hget,
        hcontent.2 f hf hkey, if_pos rfl]
      rfl

/-- A parser behind the header block of a message. -/
def HttpMessage.framed (p : HttpParser) (m : HttpMessage) : HttpParser :=
  m.content.framed { p with
    header := CRLF.intercalate m.lines
    isRequest := m.start.withoutFields.isRequest
    req := some m.request }

/-- The lines of a header block are read to the request and the framing of the message. -/
theorem parseHeaders_lines {m : HttpMessage} (hm : m.WellFormed) (hsup : m.Supported)
    (p : HttpParser) :
  parseHeaders { p with header := CRLF.intercalate m.lines } = .ok (m.framed p)
  := by
  have hsplit : splitString (CRLF.intercalate m.lines) CRLF = m.lines
    := by apply splitString_intercalate hm.lines
  have hfold := HttpMessage.foldl_lines hm hsup
  rw [HttpMessage.lines] at hfold
  rw [parseHeaders, hsplit, HttpMessage.lines]
  dsimp only
  rw [processMethodLine_line hm.start hsup.start]
  dsimp only
  rw [hfold, frame_headRequest hm hsup rfl]
  rfl

/-- Lines with an empty line behind them are lines with ends between them and an empty line. -/
theorem linesBytes_block {ls : List (List UInt8)} (hne : ls ≠ []) :
  linesBytes ls ++ CRLF = CRLF.intercalate ls ++ CRLFCRLF
  := by
  rw [linesBytes_eq hne, List.append_assoc]
  rfl

/-- A header block has a first line. -/
theorem HttpMessage.lines_ne_nil (m : HttpMessage) :
  m.lines ≠ []
  := List.cons_ne_nil _ _

/-- A header block is lines with ends between them and an empty line. -/
theorem HttpMessage.head_eq (m : HttpMessage) :
  m.head = CRLF.intercalate m.lines ++ CRLFCRLF
  := linesBytes_block m.lines_ne_nil

/-- Lines with an empty line behind them are read whole, and what is behind them is left. -/
theorem readHeaders_lines {line : List UInt8} {rest : List (List UInt8)}
    (h : ∀ l ∈ line :: rest, 13 ∉ l ∧ l ≠ []) {p q : HttpParser}
    (hparse : parseHeaders { p with header := CRLF.intercalate (line :: rest) } = .ok q)
    (c : List UInt8) :
  p.readHeaders (linesBytes (line :: rest) ++ CRLF ++ c) =
    .ok (q, (linesBytes (line :: rest) ++ CRLF).length, q.state)
  := by
  have hfind := find_emptyLine (List.cons_ne_nil line rest) h c
  have hlength : ¬ (CRLF.intercalate (line :: rest) ++ (CRLFCRLF ++ c)).length ≤ CRLFCRLF.length
    := by
    obtain ⟨t, ht⟩ := exists_intercalate_cons CRLF line rest
    have hpos := List.length_pos_of_ne_nil (h line List.mem_cons_self).2
    rw [ht]
    simp only [List.length_append]
    omega
  rw [linesBytes_block (List.cons_ne_nil _ _), List.append_assoc, readHeaders, if_neg hlength,
    hfind]
  dsimp only
  rw [List.take_left, hparse, List.length_append]
  rfl

/-- A header block is read whole, and what is behind it is left. -/
theorem readHeaders_head {m : HttpMessage} (hm : m.WellFormed) (hsup : m.Supported)
    (p : HttpParser) (c : List UInt8) :
  p.readHeaders (m.head ++ c) = .ok (m.framed p, m.head.length, (m.framed p).state)
  := readHeaders_lines hm.lines (parseHeaders_lines hm hsup p) c
