import Tmms.Http.Declarations

/-!
# The first line of a header block

What is in front of the first empty line begins with the line of a request, which has a method, a
target and a version, or with the status line of a response, which has a code.  Of every other
header block the parser should only be in an error.  It does not look how many parts a line has
before it takes them, and nothing else of the line makes an error of it.
-/

open StringUtils

namespace HttpParser

/-- A method, a target and a version, with one space between them and nothing behind the version: a
space at the end of the line would be an empty fourth part, which `SplitString` does not give, so
that the parser reads such a line as it reads the one without. -/
def IsRequestLine (line : List UInt8) : Prop :=
  ∃ method target version, (method ≠ [] ∧ 32 ∉ method) ∧ (target ≠ [] ∧ 32 ∉ target) ∧
    (version ≠ [] ∧ 32 ∉ version) ∧ line = method ++ 32 :: (target ++ 32 :: version)

/-- A version of HTTP and a code, and maybe more behind it. -/
def IsStatusLine (line : List UInt8) : Prop :=
  ∃ version code more n, ((version.map toLower).take 4 = ascii "http" ∧ 32 ∉ version) ∧
    IsNumeral 10 code n ∧ (∀ c, more.head? = some c → c = 32) ∧
      line = version ++ 32 :: (code ++ more)

/-- The first line is that of a request or of a response. -/
def HasFirstLine (header : List UInt8) : Prop :=
  ∃ line, (splitString header CRLF).head? = some line ∧ (IsRequestLine line ∨ IsStatusLine line)

/-- The header block of a parser is only looked at where it has parts, and without a first line it
is an error, and no request of it is delivered. -/
def ReadsFirstLine (p : HttpParser) : Prop :=
  ∃ p', parseHeaders p = .ok p' ∧ (¬ HasFirstLine p.header → p'.state = .expectError ∧
    ∀ handler req packet, .onRequest req packet ∉ HttpContext.react handler p' p'.state)

/-- There is a content length that `stoull` refuses. -/
def RefusesLength (header : List UInt8) : Prop :=
  ∃ text, contentLength header = some text ∧ text ≠ [] ∧ stoull text = none

variable {p p' : HttpParser} {line header : List UInt8}

theorem IsRequestLine.split (h : IsRequestLine line) :
  ∃ method target version, splitString line (ascii " ") = [method, target, version]
  := by
  obtain ⟨method, target, version, ⟨-, hmethod⟩, ⟨-, htarget⟩, ⟨hne, hversion⟩, rfl⟩ := h
  have hspace : ascii " " = [32] := by decide
  refine ⟨method, target, version, ?_⟩
  rw [hspace]
  have hlast : splitString version [32] = [version] := splitString_of_notMem hversion hne
  have hbehind : splitString (target ++ 32 :: version) [32] = target :: splitString version [32]
    := @splitString_append _ [] _ htarget version
  have hline : splitString (method ++ 32 :: (target ++ 32 :: version)) [32] =
      method :: splitString (target ++ 32 :: version) [32]
    := @splitString_append _ [] _ hmethod _
  rw [hline, hbehind, hlast]

theorem IsStatusLine.split (h : IsStatusLine line) :
  ∃ version code more, splitString line (ascii " ") = version :: code :: more ∧
    (version.map toLower).take 4 = ascii "http"
  := by
  obtain ⟨version, code, more, n, ⟨hhttp, hversion⟩, hcode, -, rfl⟩ := h
  have hspace : ascii " " = [32] := by decide
  have hline : splitString (version ++ 32 :: (code ++ more)) [32] =
      version :: splitString (code ++ more) [32]
    := @splitString_append _ [] _ hversion _
  rw [hspace, hline]
  cases hbehind : splitString (code ++ more) [32] with
  | nil => cases hcode.ne_nil (List.append_eq_nil_iff.mp (splitString_eq_nil hbehind)).1
  | cons code' more' => exact ⟨version, code', more', rfl, hhttp⟩

/-- A first line has the parts that are used of it. -/
theorem HasFirstLine.hasTokens (h : HasFirstLine header) :
  HasTokens header
  := by
  obtain ⟨line, hhead, hline⟩ := h
  intro line' rest hlines
  rw [hlines] at hhead
  cases hhead
  obtain hrequest | hstatus := hline
  · obtain ⟨method, target, version, hsplit⟩ := hrequest.split
    refine ⟨method, [target, version], hsplit, ?_⟩
    split
    · exact Nat.le_succ 1
    · exact Nat.le_refl 2
  · obtain ⟨version, code, more, hsplit, hhttp⟩ := hstatus.split
    refine ⟨version, code :: more, hsplit, ?_⟩
    rw [if_pos hhttp]
    exact Nat.le_add_left 1 more.length

/-- The only errors of a header block are that there is nothing, and a length that is refused. -/
theorem parseHeaders_error (h : parseHeaders p = .ok p') :
  p'.state = .expectError ↔ p.header = [] ∨ RefusesLength p.header
  := by
  cases htext : contentLength p.header with
  | none =>
      rw [(parseHeaders_undeclared htext h).2.2, or_iff_left]
      rintro ⟨text, hsome, -⟩
      cases htext.symm.trans hsome
  | some text =>
      have hne : p.header ≠ []
        := by
        intro hnil
        rw [hnil] at htext
        cases htext
      rw [parseHeaders_refused htext h, or_iff_right hne]
      constructor
      · intro hrefused
        exact ⟨text, htext, hrefused⟩
      · rintro ⟨text', hsome, hrefused⟩
        cases htext.symm.trans hsome
        exact hrefused

/-- Header blocks are read as they should be exactly if they have a first line, or nothing at all,
or the parts that are used and a content length that is refused. -/
theorem readsFirstLine_iff (p : HttpParser) :
  ReadsFirstLine p ↔
    HasFirstLine p.header ∨ p.header = [] ∨ HasTokens p.header ∧ RefusesLength p.header
  := by
  constructor
  · rintro ⟨p', hparse, herror⟩
    by_cases hfirst : HasFirstLine p.header
    · exact Or.inl hfirst
    · right
      obtain hnil | hrefuses := (parseHeaders_error hparse).mp (herror hfirst).1
      · exact Or.inl hnil
      · exact Or.inr ⟨parseHeaders_ok.mp ⟨p', hparse⟩, hrefuses⟩
  · intro h
    have htokens : HasTokens p.header
      := by
      obtain hfirst | hnil | ⟨htokens, -⟩ := h
      · exact hfirst.hasTokens
      · rw [hnil]
        intro line rest hlines
        cases hlines
      · exact htokens
    obtain ⟨p', hparse⟩ := parseHeaders_ok.mpr htokens
    refine ⟨p', hparse, fun hnot => ?_⟩
    have hstate : p'.state = .expectError
      := by
      rw [parseHeaders_error hparse]
      obtain hfirst | hnil | ⟨-, hrefuses⟩ := h
      · cases hnot hfirst
      · exact Or.inl hnil
      · exact Or.inr hrefuses
    refine ⟨hstate, fun handler req packet hmem => ?_⟩
    rw [hstate] at hmem
    cases List.mem_singleton.mp hmem

/-- A line of one part. -/
theorem not_readsFirstLine_method :
  ¬ ReadsFirstLine { header := ascii "GET" }
  := by
  rintro ⟨p', hparse, -⟩
  have hfault : parseHeaders { header := ascii "GET" } = .error .missingToken := by decide +kernel
  cases hfault.symm.trans hparse

end HttpParser
