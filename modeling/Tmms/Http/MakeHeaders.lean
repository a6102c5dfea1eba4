import Mathlib.Algebra.Order.BigOperators.Group.List
import Mathlib.Data.Bool.AllAny
import Mathlib.Data.List.Nodup
import Tmms.Base.Bytes
import Tmms.Http.HeaderBlock

/-!
# Requests that are sent

`MakeHeaders` writes a request: the method, the path with the parameters behind a question mark,
and the headers.  The path and the parameters are encoded as a whole, but only the path is decoded
when the request is read.  So it is read as it was exactly if the encoding leaves its parameters
alone and the parser knows its method (`readAsWritten_iff`).
-/

open StringUtils HttpParser

/-! ### Encoding -/

namespace HttpUtils

/-- `CharToHex`. -/
def charToHex (c : UInt8) : List UInt8 := [hexChar (c.toNat / 16), hexChar (c.toNat % 16)]

/-- A character that `UrlEncode` leaves as it is: a letter, a digit or a mark. -/
def isUnescaped (c : UInt8) : Bool := isDigit 36 c || (ascii "-_.!~*'()&=/\\?").contains c

/-- What `UrlEncode` makes of a character. -/
def encodeChar (c : UInt8) : List UInt8 :=
  if c = 32 then [43] else if isUnescaped c then [c] else 37 :: charToHex c

/-- `UrlEncode`. -/
def urlEncode (src : List UInt8) : List UInt8 := src.flatMap encodeChar

end HttpUtils

open HttpUtils

namespace HttpRequest

/-- The name of a method in `AppendRequestFirstLine`. -/
def methodName : HttpMethod → List UInt8
  | .get => ascii "GET"
  | .post => ascii "POST"
  | .head => ascii "HEAD"
  | .put => ascii "PUT"
  | .delete => ascii "DELETE"
  | .options => ascii "OPTIONS"
  | .patch => ascii "PATCH"
  | .invalid => ascii "UNKNOW"

/-- The parameters in `AppendRequestFirstLine`. -/
def joinParameters (parameters : StringMap) : List UInt8 :=
  (ascii "&").intercalate (parameters.map fun e => e.1 ++ ascii "=" ++ e.2)

/-- The path and the parameters in `AppendRequestFirstLine`. -/
def target (r : HttpRequest) : List UInt8 :=
  (if r.path ≠ [] then r.path else ascii "/") ++
    if r.parameters ≠ [] then ascii "?" ++ joinParameters r.parameters else []

/-- `AppendRequestFirstLine`, without the line end. -/
def requestFirstLine (r : HttpRequest) : List UInt8 :=
  methodName r.method ++ ascii " " ++ (urlEncode r.target ++ ascii " ") ++
    if r.version = .http10 then ascii "HTTP/1.0 " else ascii "HTTP/1.1 "

/-- `MakeHeaders` of a request. -/
def makeHeaders (r : HttpRequest) : List UInt8 :=
  r.requestFirstLine ++ CRLF ++
    ((r.headers.flatMap fun h => h.1 ++ ascii ": " ++ h.2 ++ CRLF) ++ CRLF)

/-- `SetParameter`. -/
def setParameter (r : HttpRequest) (key value : List UInt8) : HttpRequest :=
  { r with parameters := r.parameters.set key value }

/-- A request as it is set: the path has neither a question mark nor a space, and the headers have
tokens for names and values without line ends and spaces around them. -/
structure Sendable (r : HttpRequest) : Prop where
  isRequest : r.isRequest = true
  method : r.method ≠ .invalid
  path : 63 ∉ r.path ∧ 32 ∉ r.path
  parameterKeys : (r.parameters.map Prod.fst).Nodup
  headerKeys : (r.headers.map Prod.fst).Nodup
  names : ∀ h ∈ r.headers, IsToken h.1 ∧ h.1.map toLower = h.1
  values : ∀ h ∈ r.headers, 13 ∉ h.2 ∧ 10 ∉ h.2 ∧
    (∀ c ∈ h.2.head?, isSpace c = false) ∧ ∀ c ∈ h.2.getLast?, isSpace c = false

/-- Two requests have the same method, path, parameters and headers. -/
structure Same (r r' : HttpRequest) : Prop where
  method : r'.method = r.method
  path : r'.path = r.path
  parameters : ∀ e, e ∈ r'.parameters ↔ e ∈ r.parameters
  headers : ∀ e, e ∈ r'.headers ↔ e ∈ r.headers

/-- A parser reads what is written of a request, all of it and without an error, as the same
request. -/
def ReadAsWritten (p : HttpParser) (r : HttpRequest) : Prop :=
  ∃ p' state r', p.parse r.makeHeaders = .ok (p', r.makeHeaders.length, state) ∧
    state ≠ .expectError ∧ p'.req = some r' ∧ r.Same r'

/-- The parser knows the method, there is a path, the encoding leaves the parameters alone and
they have no separators, and a content length is a number. -/
structure Readable (r : HttpRequest) : Prop where
  method : r.method ≠ .patch
  path : r.path ≠ []
  names : ∀ e ∈ r.parameters, urlEncode e.1 = e.1 ∧ 61 ∉ e.1 ∧ 38 ∉ e.1
  values : ∀ e ∈ r.parameters, urlEncode e.2 = e.2 ∧ 38 ∉ e.2
  length : r.getHeader (ascii "content-length") ≠ [] →
    stoull (r.getHeader (ascii "content-length")) ≠ none

end HttpRequest

namespace HttpUtils

/-! ### Decoding -/

theorem urlEncode_append (s t : List UInt8) :
  urlEncode (s ++ t) = urlEncode s ++ urlEncode t
  := List.flatMap_append

theorem urlEncode_cons (c : UInt8) (s : List UInt8) :
  urlEncode (c :: s) = encodeChar c ++ urlEncode s
  := List.flatMap_cons

theorem isDigit_of_hexDigit {c : UInt8} {d : Nat} (h : hexDigit c = some d) :
  isDigit 16 c
  := by
  rw [hexDigit, Option.filter_eq_some_iff] at h
  rw [isDigit, Option.any_eq_true]
  exact ⟨d, h⟩

theorem hexDigit_hexChar {d : Nat} (h : d < 16) :
  hexDigit (hexChar d) = some d
  := by
  have hall : ∀ d : Fin 16, hexDigit (hexChar d) = some d.val := by decide
  exact hall ⟨d, h⟩

/-- Whether all characters are visible and no colon can be computed. -/
theorem visible_of_all {s : List UInt8}
    (h : s.all (fun c => decide (33 ≤ c.toNat ∧ c ≠ 58)) = true) :
  ∀ c ∈ s, 33 ≤ c.toNat ∧ c ≠ 58
  := List.all_iff_forall_prop.mp h

/-- A character that is left as it is can be printed, and is neither a space, a colon, a plus sign
nor a percent sign. -/
theorem isUnescaped_spec {c : UInt8} (h : isUnescaped c = true) :
  (33 ≤ c.toNat ∧ c.toNat ≤ 126) ∧ c ≠ 58 ∧ c ≠ 43 ∧ c ≠ 37
  := by
  rw [isUnescaped, Bool.or_eq_true, List.contains_iff_mem] at h
  obtain hdigit | hmark := h
  · have hbounds := bounds_of_isDigit hdigit
    refine ⟨by omega, ?_, ?_, ?_⟩
    · rintro rfl
      contradiction
    · rintro rfl
      contradiction
    · rintro rfl
      contradiction
  · have hall : ∀ c ∈ ascii "-_.!~*'()&=/\\?",
        (33 ≤ c.toNat ∧ c.toNat ≤ 126) ∧ c ≠ 58 ∧ c ≠ 43 ∧ c ≠ 37
      := List.all_iff_forall_prop.mp (by decide)
    exact hall c hmark

/-- A character is encoded as itself, as a plus sign or as a number of two digits. -/
theorem encodeChar_cases (c : UInt8) :
  (encodeChar c = [c] ∧ isUnescaped c = true) ∨ (c = 32 ∧ encodeChar c = [43]) ∨
    ∃ a b, encodeChar c = [37, a, b] ∧ hexDigit a = some (c.toNat / 16) ∧
      hexDigit b = some (c.toNat % 16)
  := by
  rw [encodeChar]
  split
  · rename_i hspace
    exact .inr (.inl ⟨hspace, rfl⟩)
  · split
    · rename_i hunescaped
      exact .inl ⟨rfl, hunescaped⟩
    · have hlt := c.toNat_lt
      exact .inr (.inr ⟨_, _, rfl, hexDigit_hexChar (by omega), hexDigit_hexChar (by omega)⟩)

/-- What a character is encoded as: the character, a sign or a digit. -/
theorem mem_encodeChar {c x : UInt8} (h : x ∈ encodeChar c) :
  (x = c ∧ isUnescaped c = true) ∨ x = 43 ∨ x = 37 ∨ isDigit 16 x = true
  := by
  obtain ⟨hc, hunescaped⟩ | ⟨-, hc⟩ | ⟨a, b, hc, ha, hb⟩ := encodeChar_cases c
  · rw [hc] at h
    exact .inl ⟨List.mem_singleton.mp h, hunescaped⟩
  · rw [hc] at h
    exact .inr (.inl (List.mem_singleton.mp h))
  · rw [hc, List.mem_cons, List.mem_cons, List.mem_singleton] at h
    obtain rfl | rfl | rfl := h
    · exact .inr (.inr (.inl rfl))
    · exact .inr (.inr (.inr (isDigit_of_hexDigit ha)))
    · exact .inr (.inr (.inr (isDigit_of_hexDigit hb)))

/-- What a character is encoded as can be printed and has no colon. -/
theorem encodeChar_visible {c x : UInt8} (h : x ∈ encodeChar c) :
  (33 ≤ x.toNat ∧ x.toNat ≤ 126) ∧ x ≠ 58
  := by
  obtain ⟨rfl, hunescaped⟩ | rfl | rfl | hdigit := mem_encodeChar h
  · obtain ⟨hbounds, hcolon, -⟩ := isUnescaped_spec hunescaped
    exact ⟨hbounds, hcolon⟩
  · decide
  · decide
  · have hbounds := bounds_of_isDigit hdigit
    use by omega
    rintro rfl
    contradiction

/-- A separator is only in what a separator is encoded as. -/
theorem eq_of_mem_encodeChar {c x : UInt8} (hx : x ∈ [63, 61, 38]) (h : x ∈ encodeChar c) :
  c = x
  := by
  have hsigns : x ≠ 43 ∧ x ≠ 37 ∧ ¬ isDigit 16 x = true
    := by
    rw [List.mem_cons, List.mem_cons, List.mem_singleton] at hx
    obtain rfl | rfl | rfl := hx
    · decide
    · decide
    · decide
  obtain ⟨hplus, hpercent, hdigit⟩ := hsigns
  obtain ⟨heq, -⟩ | heq | heq | htrue := mem_encodeChar h
  · exact heq.symm
  · exact absurd heq hplus
  · exact absurd heq hpercent
  · exact absurd htrue hdigit

/-- A character that is no percent sign is decoded alone. -/
theorem urlDecode_cons {c : UInt8} (hc : c ≠ 37) (s : List UInt8) :
  urlDecode (c :: s) = (if c = 43 then 32 else c) :: urlDecode s
  := by
  rw [urlDecode.eq_def]
  dsimp only
  split
  · rfl
  · rfl

/-- What is encoded is decoded. -/
theorem urlDecode_urlEncode (s : List UInt8) :
  urlDecode (urlEncode s) = s
  := by
  induction s with
  | nil => rfl
  | cons c s ih =>
      rw [urlEncode_cons]
      obtain ⟨hc, hunescaped⟩ | ⟨rfl, hc⟩ | ⟨a, b, hc, ha, hb⟩ := encodeChar_cases c
      · obtain ⟨-, -, hplus, hpercent⟩ := isUnescaped_spec hunescaped
        rw [hc, List.singleton_append, urlDecode_cons hpercent, if_neg hplus, ih]
      · rw [hc, List.singleton_append, urlDecode_cons (by decide), if_pos rfl, ih]
      · rw [hc]
        change urlDecode (37 :: a :: b :: urlEncode s) = _
        rw [urlDecode, if_neg (by decide), if_pos rfl, ha, hb]
        dsimp only
        rw [ih]
        congr 1
        rw [Nat.div_add_mod']
        exact UInt8.ofNat_toNat

theorem urlEncode_inj {s t : List UInt8} (h : urlEncode s = urlEncode t) :
  s = t
  := by rw [← urlDecode_urlEncode s, h, urlDecode_urlEncode]

/-- What is encoded has no spaces and no colon. -/
theorem urlEncode_visible (s : List UInt8) :
  ∀ x ∈ urlEncode s, 33 ≤ x.toNat ∧ x ≠ 58
  := by
  intro x hx
  obtain ⟨c, -, hc⟩ := List.mem_flatMap.mp hx
  obtain ⟨⟨hle, -⟩, hcolon⟩ := encodeChar_visible hc
  exact ⟨hle, hcolon⟩

/-- Two hexadecimal digits are behind every percent sign. -/
def DigitsBehind (s : List UInt8) : Prop :=
  ∀ before rest, s = before ++ 37 :: rest →
    ∃ a b more, rest = a :: b :: more ∧ (hexDigit a).isSome ∧ (hexDigit b).isSome

theorem digitsBehind_nil : DigitsBehind []
  := by
  intro before rest h
  cases before with
  | nil => cases h
  | cons c before => cases h

/-- A character that is no percent sign is put in front. -/
theorem DigitsBehind.cons {c : UInt8} {s : List UInt8} (h : DigitsBehind s) (hc : c ≠ 37) :
  DigitsBehind (c :: s)
  := by
  intro before rest heq
  cases before with
  | nil =>
      cases heq
      exact absurd rfl hc
  | cons d before =>
      injection heq with _ heq
      exact h before rest heq

/-- A number of two digits is put in front. -/
theorem DigitsBehind.escape {a b : UInt8} {s : List UInt8} (h : DigitsBehind s)
    (ha : (hexDigit a).isSome) (hb : (hexDigit b).isSome) :
  DigitsBehind (37 :: a :: b :: s)
  := by
  have hdigit (c : UInt8) (hc : (hexDigit c).isSome) : c ≠ 37
    := by
    rintro rfl
    contradiction
  intro before rest heq
  cases before with
  | nil =>
      injection heq with _ heq
      exact ⟨a, b, s, heq.symm, ha, hb⟩
  | cons d before =>
      injection heq with _ heq
      exact (h.cons (hdigit b hb)).cons (hdigit a ha) before rest heq

theorem digitsBehind_urlEncode (s : List UInt8) :
  DigitsBehind (urlEncode s)
  := by
  induction s with
  | nil => exact digitsBehind_nil
  | cons c s ih =>
      rw [urlEncode_cons]
      obtain ⟨hc, hunescaped⟩ | ⟨rfl, hc⟩ | ⟨a, b, hc, ha, hb⟩ := encodeChar_cases c
      · obtain ⟨-, -, -, hpercent⟩ := isUnescaped_spec hunescaped
        rw [hc]
        exact ih.cons hpercent
      · rw [hc]
        exact ih.cons (by decide)
      · rw [hc]
        apply ih.escape
        · rw [ha]
          rfl
        · rw [hb]
          rfl

/-- What is encoded is decoded as it was, and has neither spaces nor characters that cannot be
printed, nor percent signs without two digits. -/
theorem urlEncode_sound (s : List UInt8) :
  urlDecode (urlEncode s) = s ∧ 32 ∉ urlEncode s ∧
    (∀ x ∈ urlEncode s, 32 ≤ x.toNat ∧ x.toNat ≤ 126) ∧ DigitsBehind (urlEncode s)
  := by
  refine ⟨urlDecode_urlEncode s, ?_, ?_, digitsBehind_urlEncode s⟩
  · intro hspace
    have hvisible := (urlEncode_visible s 32 hspace).1
    rw [show (32 : UInt8).toNat = 32 from rfl] at hvisible
    omega
  · intro x hx
    obtain ⟨c, -, hc⟩ := List.mem_flatMap.mp hx
    obtain ⟨⟨hle, hprinted⟩, -⟩ := encodeChar_visible hc
    exact ⟨Nat.le_of_succ_le hle, hprinted⟩

/-- What is encoded has the separators of what it is made of. -/
theorem notMem_urlEncode {x : UInt8} (hx : x ∈ [63, 61, 38]) {s : List UInt8} (h : x ∉ s) :
  x ∉ urlEncode s
  := by
  intro hmem
  obtain ⟨c, hc, hx'⟩ := List.mem_flatMap.mp hmem
  rw [eq_of_mem_encodeChar hx hx'] at hc
  exact h hc

/-- What has no plus and no percent sign when it is encoded is as it was. -/
theorem urlEncode_of_not_need {s : List UInt8} (h : needUrlDecoding (urlEncode s) = false) :
  urlEncode s = s
  := by
  rw [needUrlDecoding, List.any_eq_false] at h
  induction s with
  | nil => rfl
  | cons c s ih =>
      rw [urlEncode_cons] at h ⊢
      have hs := ih fun x hx => h x (List.mem_append_right _ hx)
      obtain ⟨hc, -⟩ | ⟨rfl, hc⟩ | ⟨a, b, hc, -, -⟩ := encodeChar_cases c
      · rw [hc, hs]
        rfl
      · rw [hc] at h
        exact absurd rfl (h 43 List.mem_cons_self)
      · rw [hc] at h
        exact absurd rfl (h 37 List.mem_cons_self)

/-- Encoding makes nothing shorter, and what has no space and keeps its length is as it was. -/
theorem length_urlEncode {s : List UInt8} :
  s.length ≤ (urlEncode s).length ∧
    (32 ∉ s → (urlEncode s).length ≤ s.length → urlEncode s = s)
  := by
  induction s with
  | nil => exact ⟨Nat.le_refl 0, fun _ _ => rfl⟩
  | cons c s ih =>
      obtain ⟨hle, hsame⟩ := ih
      rw [urlEncode_cons, List.length_append, List.length_cons]
      obtain ⟨hc, -⟩ | ⟨rfl, hc⟩ | ⟨a, b, hc, -, -⟩ := encodeChar_cases c
      · rw [hc, List.length_singleton]
        refine ⟨by omega, ?_⟩
        intro hspace hlength
        rw [hsame (fun hmem => hspace (List.mem_cons_of_mem _ hmem)) (by omega)]
        rfl
      · rw [hc, List.length_singleton]
        refine ⟨by omega, ?_⟩
        intro hspace
        exact absurd List.mem_cons_self hspace
      · rw [hc]
        dsimp only [List.length_cons, List.length_nil]
        refine ⟨by omega, ?_⟩
        intro _ hlength
        omega

theorem urlEncode_intercalate (sep : List UInt8) (ls : List (List UInt8)) :
  urlEncode (sep.intercalate ls) = (urlEncode sep).intercalate (ls.map urlEncode)
  := by
  induction ls with
  | nil => rfl
  | cons l ls ih =>
      cases ls with
      | nil =>
          rw [List.intercalate_singleton, List.map_singleton, List.intercalate_singleton]
      | cons l' ls =>
          rw [List.intercalate_cons_cons, urlEncode_append, urlEncode_append, ih]
          exact (List.intercalate_cons_cons ..).symm

end HttpUtils

/-! ### Setting -/

namespace StringMap

/-- The entries of a map in which a key was set. -/
theorem mem_of_mem_set {m : StringMap} {key value : List UInt8} {e : List UInt8 × List UInt8}
    (h : e ∈ m.set key value) :
  e ∈ m ∨ e = (key, value)
  := by
  obtain h | h := List.mem_append.mp h
  · exact .inl (List.mem_of_mem_filter h)
  · exact .inr (List.mem_singleton.mp h)

/-- Keys stay different. -/
theorem nodup_set {m : StringMap} (hm : (m.map Prod.fst).Nodup) (key value : List UInt8) :
  ((m.set key value).map Prod.fst).Nodup
  := by
  rw [set, List.map_append, List.nodup_append]
  refine ⟨(List.filter_sublist.map Prod.fst).nodup hm, List.nodup_singleton key, ?_⟩
  intro k hk k' hk'
  obtain ⟨e, he, rfl⟩ := List.mem_map.mp hk
  obtain rfl := List.mem_singleton.mp hk'
  exact of_decide_eq_true (List.mem_filter.mp he).2

end StringMap

theorem toLower_toLower (c : UInt8) :
  toLower (toLower c) = toLower c
  := by
  by_cases h : 65 ≤ c ∧ c ≤ 90
  · have hlower : ¬ (65 ≤ c + 32 ∧ c + 32 ≤ 90)
      := by
      simp only [UInt8.le_iff_toNat_le, UInt8.toNat_add, UInt8.toNat_ofNat] at h ⊢
      omega
    rw [toLower, toLower, if_pos h, if_neg hlower]
  · rw [toLower, toLower, if_neg h, if_neg h]

/-- A capital letter of a token is made a letter. -/
theorem isTokenByte_toLower {c : UInt8} (h : IsTokenByte c) :
  IsTokenByte (toLower c)
  := by
  rw [toLower]
  split
  · rename_i hupper
    left
    simp only [UInt8.le_iff_toNat_le, UInt8.toNat_ofNat] at hupper
    simp only [isDigit, digitValue, UInt8.le_iff_toNat_le, UInt8.toNat_add, UInt8.toNat_ofNat]
    rw [if_neg (by omega), if_neg (by omega), if_pos (by omega)]
    exact decide_eq_true (by omega)
  · exact h

theorem IsToken.map_toLower {s : List UInt8} (h : IsToken s) :
  IsToken (s.map toLower) ∧ (s.map toLower).map toLower = s.map toLower
  := by
  refine ⟨⟨fun hnil => h.1 (List.map_eq_nil_iff.mp hnil), ?_⟩, ?_⟩
  · intro c hc
    obtain ⟨d, hd, rfl⟩ := List.mem_map.mp hc
    exact isTokenByte_toLower (h.2 d hd)
  · rw [List.map_map]
    apply List.map_congr_left
    intro c _
    exact toLower_toLower c

namespace HttpRequest

/-- Any parameter may be set in a request that is sent. -/
theorem Sendable.setParameter {r : HttpRequest} (hr : r.Sendable) (key value : List UInt8) :
  (r.setParameter key value).Sendable
  := { hr with parameterKeys := StringMap.nodup_set hr.parameterKeys key value }

/-- A header with a token for a name may be added to a request that is sent. -/
theorem Sendable.addHeader {r : HttpRequest} (hr : r.Sendable) {field value : List UInt8}
    (hfield : IsToken field) (hvalue : 13 ∉ value ∧ 10 ∉ value ∧
      (∀ c ∈ value.head?, isSpace c = false) ∧ ∀ c ∈ value.getLast?, isSpace c = false) :
  (r.addHeader field value).Sendable
  := by
  refine { hr with
    headerKeys := StringMap.nodup_set hr.headerKeys _ value
    names := ?_
    values := ?_ }
  · intro h hh
    obtain hh | rfl := StringMap.mem_of_mem_set hh
    · exact hr.names h hh
    · exact hfield.map_toLower
  · intro h hh
    obtain hh | rfl := StringMap.mem_of_mem_set hh
    · exact hr.values h hh
    · exact hvalue

/-- A request of a method and a path with any parameters and headers. -/
theorem sendable_of_lists {method : HttpMethod} (hmethod : method ≠ .invalid) {path : List UInt8}
    (hpath : 63 ∉ path ∧ 32 ∉ path) (parameters : StringMap) {headers : StringMap}
    (hheaders : ∀ h ∈ headers, IsToken h.1 ∧ 13 ∉ h.2 ∧ 10 ∉ h.2 ∧
      (∀ c ∈ h.2.head?, isSpace c = false) ∧ ∀ c ∈ h.2.getLast?, isSpace c = false) :
  (headers.foldl (fun (r : HttpRequest) h => r.addHeader h.1 h.2)
    (parameters.foldl (fun (r : HttpRequest) e => r.setParameter e.1 e.2)
      { isRequest := true, method := method, path := path })).Sendable
  := by
  have hempty : ({ isRequest := true, method := method, path := path } : HttpRequest).Sendable
    := {
      isRequest := rfl
      method := hmethod
      path := hpath
      parameterKeys := List.nodup_nil
      headerKeys := List.nodup_nil
      names := fun _ h => (nomatch h)
      values := fun _ h => (nomatch h) }
  apply List.foldlRecOn headers _ (motive := Sendable)
  · apply List.foldlRecOn parameters _ (motive := Sendable) hempty
    exact fun r hr e _ => hr.setParameter e.1 e.2
  · exact fun r hr h hh => hr.addHeader (hheaders h hh).1 (hheaders h hh).2

end HttpRequest

/-! ### Pieces -/

namespace StringUtils

/-- What is in front of the first place is without it. -/
theorem notMem_take_of_find {c : UInt8} {s : List UInt8} {n : Nat} (h : find [c] s = some n) :
  c ∉ s.take n
  := by
  induction s generalizing n with
  | nil => cases h
  | cons d s ih =>
      rw [find] at h
      split at h
      · cases h
        exact List.not_mem_nil
      · rename_i hne
        obtain ⟨m, hm, rfl⟩ := Option.map_eq_some_iff.mp h
        rw [List.take_succ_cons, List.mem_cons, not_or]
        refine ⟨?_, ih hm⟩
        rintro rfl
        apply hne
        rw [List.isPrefixOf, List.isPrefixOf, beq_self_eq_true]
        rfl

theorem notMem_of_find {c : UInt8} {s : List UInt8} (h : find [c] s = none) :
  c ∉ s
  := by
  induction s with
  | nil => exact List.not_mem_nil
  | cons d s ih =>
      rw [find] at h
      split at h
      · cases h
      · rename_i hne
        rw [List.mem_cons, not_or]
        refine ⟨?_, ih (Option.map_eq_none_iff.mp h)⟩
        rintro rfl
        apply hne
        rw [List.isPrefixOf, List.isPrefixOf, beq_self_eq_true]
        rfl

/-- Pieces have no delimiter, and nothing else than what is split. -/
theorem mem_splitString {c : UInt8} {s l : List UInt8} (h : l ∈ splitString s [c]) :
  c ∉ l ∧ ∀ x ∈ l, x ∈ s
  := by
  rw [splitString] at h
  split at h
  · cases h
  · generalize s.length + 1 = fuel at h
    induction fuel generalizing s with
    | zero => cases h
    | succ fuel ih =>
        rw [splitLoop] at h
        split at h
        · rename_i next hfind
          rcases List.mem_cons.mp h with rfl | h
          · exact ⟨notMem_take_of_find hfind, fun x hx => List.mem_of_mem_take hx⟩
          · obtain ⟨hc, hs⟩ := ih h
            exact ⟨hc, fun x hx => List.mem_of_mem_drop (hs x hx)⟩
        · rename_i hfind
          split at h
          · cases h
          · obtain rfl := List.mem_singleton.mp h
            exact ⟨notMem_of_find hfind, fun x hx => hx⟩

theorem mem_of_mem_trim {s : List UInt8} {x : UInt8} (h : x ∈ trim s) :
  x ∈ s
  := by
  have hsub : (trim s).Sublist s
    := (List.dropWhile_sublist _).trans (List.rdropWhile_prefix isSpace s).sublist
  exact hsub.subset h

end StringUtils

/-! ### Parameters -/

namespace HttpRequest

/-- The parameters of a query. -/
def parametersOf (query : List UInt8) : StringMap :=
  (splitString query (ascii "&")).foldl parseParameter []

/-- The query that is sent. -/
def encodedQuery (parameters : StringMap) : List UInt8 :=
  (ascii "&").intercalate (parameters.map fun e => urlEncode e.1 ++ ascii "=" ++ urlEncode e.2)

theorem urlEncode_joinParameters (parameters : StringMap) :
  urlEncode (joinParameters parameters) = encodedQuery parameters
  := by
  rw [joinParameters, urlEncode_intercalate, List.map_map, encodedQuery]
  congr 1
  apply List.map_congr_left
  intro e _
  change urlEncode (e.1 ++ ascii "=" ++ e.2) = _
  rw [urlEncode_append, urlEncode_append]
  rfl

/-- A name without an equals sign and its value are separated. -/
theorem parseParameter_pair {k v : List UInt8} (hk : 61 ∉ k) (hkv : ∀ x ∈ k, 33 ≤ x.toNat)
    (hv : ∀ x ∈ v, 33 ≤ x.toNat) (m : StringMap) :
  parseParameter m (k ++ ascii "=" ++ v) = m.set k v
  := by
  have hfind : find (ascii "=") (k ++ ascii "=" ++ v) = some k.length
    := by
    rw [List.append_assoc]
    apply find_append_self hk
  have hdrop : (ascii "=" ++ v).drop 1 = v := by rfl
  rw [parseParameter, hfind]
  dsimp only
  rw [List.append_assoc, List.take_left, ← List.drop_drop, List.drop_left, hdrop,
    trim_of_visible hkv, trim_of_visible hv]

/-- Parameters without separators are read as they were encoded. -/
theorem parametersOf_encodedQuery {parameters : StringMap}
    (hkeys : (parameters.map Prod.fst).Nodup)
    (hnames : ∀ e ∈ parameters, 61 ∉ e.1 ∧ 38 ∉ e.1) (hvalues : ∀ e ∈ parameters, 38 ∉ e.2) :
  parametersOf (encodedQuery parameters) =
    parameters.map fun e => (urlEncode e.1, urlEncode e.2)
  := by
  have hpieces : splitString (encodedQuery parameters) (ascii "&") =
      parameters.map fun e => urlEncode e.1 ++ ascii "=" ++ urlEncode e.2
    := by
    apply @splitString_intercalate 38 []
    intro l hl
    obtain ⟨e, he, rfl⟩ := List.mem_map.mp hl
    refine ⟨?_, ?_⟩
    · rw [List.mem_append, List.mem_append, not_or, not_or]
      refine ⟨⟨?_, by decide⟩, ?_⟩
      · apply notMem_urlEncode (by decide) (hnames e he).2
      · apply notMem_urlEncode (by decide) (hvalues e he)
    · simp [ascii]
  have hfold : ∀ (entries m : StringMap), (∀ e ∈ entries, 61 ∉ e.1) →
      (entries.map fun e => urlEncode e.1 ++ ascii "=" ++ urlEncode e.2).foldl parseParameter m =
        List.foldl (fun m e => StringMap.set m e.1 e.2) m
          (entries.map fun e => (urlEncode e.1, urlEncode e.2))
    := by
    intro entries
    induction entries with
    | nil =>
        intro m _
        rfl
    | cons e entries ih =>
        intro m he
        rw [List.map_cons, List.foldl_cons, parseParameter_pair, ih,
          List.map_cons, List.foldl_cons]
        · exact fun e' h' => he e' (List.mem_cons_of_mem _ h')
        · exact notMem_urlEncode (by decide) (he e List.mem_cons_self)
        · exact fun x hx => (urlEncode_visible _ x hx).1
        · exact fun x hx => (urlEncode_visible _ x hx).1
  rw [parametersOf, hpieces, hfold parameters [] fun e he => (hnames e he).1,
    StringMap.foldl_set]
  · rfl
  · rw [List.map_map]
    change (parameters.map (urlEncode ∘ Prod.fst)).Nodup
    rw [← List.map_map]
    exact List.Nodup.map (fun _ _ => urlEncode_inj) hkeys
  · intro e he
    cases he

/-- Names that are read have no separators, and values no ampersand. -/
theorem mem_parametersOf {query : List UInt8} (h : 32 ∉ query) :
  ∀ e ∈ parametersOf query, (61 ∉ e.1 ∧ 38 ∉ e.1 ∧ 32 ∉ e.1) ∧ 38 ∉ e.2 ∧ 32 ∉ e.2
  := by
  have hfold : ∀ (ls : List (List UInt8)) (m : StringMap),
      (∀ l ∈ ls, 38 ∉ l ∧ 32 ∉ l) →
      (∀ e ∈ m, (61 ∉ e.1 ∧ 38 ∉ e.1 ∧ 32 ∉ e.1) ∧ 38 ∉ e.2 ∧ 32 ∉ e.2) →
      ∀ e ∈ ls.foldl parseParameter m,
        (61 ∉ e.1 ∧ 38 ∉ e.1 ∧ 32 ∉ e.1) ∧ 38 ∉ e.2 ∧ 32 ∉ e.2
    := by
    intro ls
    induction ls with
    | nil => exact fun m _ hm => hm
    | cons l ls ih =>
        intro m hls hm
        rw [List.foldl_cons]
        apply ih _ fun l' h' => hls l' (List.mem_cons_of_mem _ h')
        obtain ⟨hand, hspace⟩ := hls l List.mem_cons_self
        rw [parseParameter]
        split
        · rename_i pos hfind
          intro e he
          rw [StringMap.set] at he
          rcases List.mem_append.mp he with he | he
          · exact hm e (List.mem_of_mem_filter he)
          · obtain rfl := List.mem_singleton.mp he
            have htake : ∀ x, x ∉ l.take pos → x ∉ trim (l.take pos)
              := fun x hx hmem => hx (mem_of_mem_trim hmem)
            refine ⟨⟨?_, ?_, ?_⟩, ?_, ?_⟩
            · exact htake 61 (notMem_take_of_find hfind)
            · exact htake 38 fun hmem => hand (List.mem_of_mem_take hmem)
            · exact htake 32 fun hmem => hspace (List.mem_of_mem_take hmem)
            · exact fun hmem => hand (List.mem_of_mem_drop (mem_of_mem_trim hmem))
            · exact fun hmem => hspace (List.mem_of_mem_drop (mem_of_mem_trim hmem))
        · exact hm
  apply hfold _ []
  · intro l hl
    obtain ⟨hand, hsub⟩ := mem_splitString (c := 38) hl
    exact ⟨hand, fun hmem => h (hsub 32 hmem)⟩
  · intro e he
    cases he

/-- Numbers that are at most others, and are so in sum the other way, are the same. -/
theorem le_of_sum_le {α : Type} {f g : α → Nat} {l : List α} (hle : ∀ a ∈ l, f a ≤ g a)
    (hsum : (l.map g).sum ≤ (l.map f).sum) :
  ∀ a ∈ l, g a ≤ f a
  := by
  induction l with
  | nil => exact fun _ h => (nomatch h)
  | cons a l ih =>
      have hrest : (l.map f).sum ≤ (l.map g).sum
        := List.sum_le_sum fun b hb => hle b (List.mem_cons_of_mem _ hb)
      have ha := hle a List.mem_cons_self
      rw [List.map_cons, List.map_cons, List.sum_cons, List.sum_cons] at hsum
      intro b hb
      rcases List.mem_cons.mp hb with rfl | hb
      · omega
      · exact ih (fun b hb => hle b (List.mem_cons_of_mem _ hb)) (by omega) b hb

/-- The parameters that are read are those that were set exactly if the encoding leaves them alone
and they have no separators. -/
theorem parametersOf_iff {parameters : StringMap} (hkeys : (parameters.map Prod.fst).Nodup) :
  (∀ e, e ∈ parametersOf (encodedQuery parameters) ↔ e ∈ parameters) ↔
    ∀ e ∈ parameters, (urlEncode e.1 = e.1 ∧ 61 ∉ e.1 ∧ 38 ∉ e.1) ∧ urlEncode e.2 = e.2 ∧ 38 ∉ e.2
  := by
  constructor
  · intro hsame
    have hspace : 32 ∉ encodedQuery parameters
      := by
      rw [← urlEncode_joinParameters]
      intro hmem
      exact absurd (urlEncode_visible _ 32 hmem).1 (by decide)
    have hclean := mem_parametersOf hspace
    have hread := parametersOf_encodedQuery hkeys
      (fun e he => ⟨(hclean e ((hsame e).mpr he)).1.1, (hclean e ((hsame e).mpr he)).1.2.1⟩)
      (fun e he => (hclean e ((hsame e).mpr he)).2.1)
    rw [hread] at hsame
    have hnodup : parameters.Nodup := List.Nodup.of_map Prod.fst hkeys
    have hinj : Function.Injective fun e : List UInt8 × List UInt8 =>
        (urlEncode e.1, urlEncode e.2)
      := by
      intro e e' h
      obtain ⟨hname, hvalue⟩ := Prod.mk.inj h
      exact Prod.ext (urlEncode_inj hname) (urlEncode_inj hvalue)
    have hperm := (List.perm_ext_iff_of_nodup (List.Nodup.map hinj hnodup) hnodup).mpr hsame
    -- Encoding makes nothing shorter, so where the sums of the lengths are the same, it changes
    -- no length.
    have hsum := (hperm.map fun e => e.1.length + e.2.length).sum_nat
    rw [List.map_map] at hsum
    have hsum' : (parameters.map fun e => (urlEncode e.1).length + (urlEncode e.2).length).sum =
        (parameters.map fun e => e.1.length + e.2.length).sum
      := hsum
    have hlengths := le_of_sum_le
      (fun (e : List UInt8 × List UInt8) (_ : e ∈ parameters) =>
        Nat.add_le_add (length_urlEncode (s := e.1)).1 (length_urlEncode (s := e.2)).1)
      (Nat.le_of_eq hsum')
    intro e he
    obtain ⟨⟨hequals, hand, hspace⟩, hand', hspace'⟩ := hclean e (by
      rw [hread]
      exact (hsame e).mpr he)
    have hlength := hlengths e he
    have hname := length_urlEncode (s := e.1)
    have hvalue := length_urlEncode (s := e.2)
    exact ⟨⟨hname.2 hspace (by omega), hequals, hand⟩, hvalue.2 hspace' (by omega), hand'⟩
  · intro hclean e
    rw [parametersOf_encodedQuery hkeys (fun e he => (hclean e he).1.2)
      (fun e he => (hclean e he).2.2)]
    have hid : parameters.map (fun e => (urlEncode e.1, urlEncode e.2)) = parameters
      := by
      conv_rhs => rw [← List.map_id parameters]
      apply List.map_congr_left
      intro e he
      rw [(hclean e he).1.1, (hclean e he).2.1]
      rfl
    rw [hid]

/-! ### Reading -/

/-- The path that is sent. -/
def sentPath (r : HttpRequest) : List UInt8 := if r.path ≠ [] then r.path else ascii "/"

theorem setPath_urlEncode (req : HttpRequest) (path : List UInt8) :
  req.setPath (urlEncode path) = { req with path := path }
  := by
  rw [setPath]
  split
  · rw [urlDecode_urlEncode]
  · rename_i hneed
    rw [urlEncode_of_not_need (Bool.not_eq_true _ ▸ hneed)]

/-- The path and the parameters of a request that are read. -/
theorem setTarget_target {r : HttpRequest} (hpath : 63 ∉ r.path) {req : HttpRequest}
    (hreq : req.parameters = []) :
  (req.setTarget (urlEncode r.target)).path = r.sentPath ∧
    (req.setTarget (urlEncode r.target)).parameters =
      if r.parameters ≠ [] then parametersOf (encodedQuery r.parameters) else []
  := by
  have hsent : 63 ∉ urlEncode r.sentPath
    := by
    apply notMem_urlEncode (by decide)
    rw [sentPath]
    split
    · exact hpath
    · decide
  have htarget : urlEncode r.target = urlEncode r.sentPath ++
      if r.parameters ≠ [] then ascii "?" ++ encodedQuery r.parameters else []
    := by
    rw [target, urlEncode_append, sentPath]
    congr 1
    split
    · rw [urlEncode_append, urlEncode_joinParameters]
      rfl
    · rfl
  rw [htarget, setTarget]
  by_cases hnone : r.parameters = []
  · rw [if_neg (not_not_intro hnone), if_neg (not_not_intro hnone), List.append_nil]
    have hfind : find (ascii "?") (urlEncode r.sentPath) = none := by apply find_eq_none hsent
    rw [hfind]
    dsimp only
    rw [setPath_urlEncode]
    exact ⟨rfl, hreq⟩
  · rw [if_pos hnone, if_pos hnone]
    have hfind : find (ascii "?") (urlEncode r.sentPath ++
        (ascii "?" ++ encodedQuery r.parameters)) = some (urlEncode r.sentPath).length
      := by apply find_append_self hsent
    have hdrop : (ascii "?" ++ encodedQuery r.parameters).drop 1 = encodedQuery r.parameters
      := by rfl
    rw [hfind]
    dsimp only
    rw [List.take_left, ← List.drop_drop, List.drop_left, hdrop, setPath_urlEncode, setQuery,
      hreq]
    exact ⟨rfl, rfl⟩

/-- What the framing makes of a request: it notes how the content ends, and it is an error
exactly if there is a content length that is no number. -/
theorem frame_spec (p : HttpParser) (req : HttpRequest) :
  (∃ chunked stream, (p.frame req).req =
      some { req with isChunked := chunked, isStream := stream }) ∧
    ((p.frame req).state = .expectError ↔ req.getHeader (ascii "content-length") ≠ [] ∧
      stoull (req.getHeader (ascii "content-length")) = none)
  := by
  rw [frame]
  split
  · rename_i hlength
    rw [frameLength]
    split
    · rename_i hnone
      exact ⟨⟨_, _, rfl⟩, fun _ => ⟨hlength, hnone⟩, fun _ => rfl⟩
    · rename_i n hsome
      have hnot : ¬ stoull (req.getHeader (ascii "content-length")) = none
        := by
        rw [hsome]
        exact Option.some_ne_none n
      split
      · exact ⟨⟨_, _, rfl⟩, by rintro ⟨⟩, fun h => absurd h.2 hnot⟩
      · exact ⟨⟨_, _, rfl⟩, by rintro ⟨⟩, fun h => absurd h.2 hnot⟩
  · rename_i hlength
    split
    · exact ⟨⟨_, _, rfl⟩, by rintro ⟨⟩, fun h => absurd h.1 hlength⟩
    · split
      · exact ⟨⟨_, _, rfl⟩, by rintro ⟨⟩, fun h => absurd h.1 hlength⟩
      · exact ⟨⟨_, _, rfl⟩, by rintro ⟨⟩, fun h => absurd h.1 hlength⟩

/-- The name of a method is visible, is no version, and is read as the method unless that is
`PATCH`. -/
theorem methodName_spec {m : HttpMethod} (hm : m ≠ .invalid) :
  (∀ c ∈ methodName m, 33 ≤ c.toNat ∧ c ≠ 58) ∧
    ((methodName m).map toLower).take 4 ≠ ascii "http" ∧
    (parseMethod (methodName m) = m ↔ m ≠ .patch)
  := by
  cases m with
  | invalid => contradiction
  | get => exact ⟨visible_of_all (by decide), by decide, by decide⟩
  | post => exact ⟨visible_of_all (by decide), by decide, by decide⟩
  | head => exact ⟨visible_of_all (by decide), by decide, by decide⟩
  | put => exact ⟨visible_of_all (by decide), by decide, by decide⟩
  | delete => exact ⟨visible_of_all (by decide), by decide, by decide⟩
  | options => exact ⟨visible_of_all (by decide), by decide, by decide⟩
  | patch => exact ⟨visible_of_all (by decide), by decide, by decide⟩

/-- What is written of the version. -/
def versionName (r : HttpRequest) : List UInt8 :=
  if r.version = .http10 then ascii "HTTP/1.0" else ascii "HTTP/1.1"

theorem versionName_visible (r : HttpRequest) :
  ∀ c ∈ r.versionName, 33 ≤ c.toNat ∧ c ≠ 58
  := by
  rw [versionName]
  split
  · exact visible_of_all (by decide)
  · exact visible_of_all (by decide)

/-- The first line is three pieces with a space behind each. -/
theorem requestFirstLine_eq (r : HttpRequest) :
  r.requestFirstLine =
    methodName r.method ++ 32 :: (urlEncode r.target ++ 32 :: (r.versionName ++ [32]))
  := by
  have hversion : (if r.version = .http10 then ascii "HTTP/1.0 " else ascii "HTTP/1.1 ") =
      r.versionName ++ [32]
    := by
    rw [versionName]
    split
    · decide +kernel
    · decide +kernel
  rw [requestFirstLine, hversion]
  simp only [List.append_assoc]
  rfl

/-- The request that is read of a first line. -/
theorem processMethodLine_firstLine {r : HttpRequest} (hm : r.method ≠ .invalid) :
  ∃ version, processMethodLine r.requestFirstLine = .ok
    { (({ isRequest := true, method := parseMethod (methodName r.method) } :
      HttpRequest).setTarget (urlEncode r.target)) with version := version }
  := by
  obtain ⟨hvisible, hhttp, -⟩ := methodName_spec hm
  have hspace : ascii " " = [32] := by decide
  have hnone : ∀ s : List UInt8, (∀ c ∈ s, 33 ≤ c.toNat ∧ c ≠ 58) → 32 ∉ s
    := fun s hs => notMem_of_visible (fun c hc => (hs c hc).1) (by decide)
  have hsplit : splitString r.requestFirstLine (ascii " ") =
      [methodName r.method, urlEncode r.target, r.versionName]
    := by
    have hend : splitString (r.versionName ++ 32 :: ([] ++ [])) [32] = r.versionName :: []
      := splitString_append (hnone _ r.versionName_visible) []
    rw [requestFirstLine_eq, hspace]
    change splitString (_ ++ 32 :: ([] ++ _)) [32] = _
    rw [splitString_append (hnone _ hvisible)]
    change _ :: splitString (_ ++ 32 :: ([] ++ _)) [32] = _
    rw [splitString_append (hnone _ (urlEncode_visible _))]
    exact congrArg (fun l => _ :: _ :: l) hend
  rw [processMethodLine, hsplit]
  dsimp only
  rw [if_neg hhttp]
  exact ⟨_, rfl⟩

/-- The lines that are written. -/
def headerLines (r : HttpRequest) : List (List UInt8) :=
  r.headers.map fun h => h.1 ++ ascii ":" ++ 32 :: h.2

/-- The lines have no return, and are not empty. -/
theorem Sendable.lines {r : HttpRequest} (hr : r.Sendable) :
  ∀ l ∈ r.requestFirstLine :: r.headerLines, 13 ∉ l ∧ l ≠ []
  := by
  have hnone : ∀ s : List UInt8, (∀ c ∈ s, 33 ≤ c.toNat ∧ c ≠ 58) → 13 ∉ s
    := fun s hs => notMem_of_visible (fun c hc => (hs c hc).1) (by decide)
  intro l hl
  rcases List.mem_cons.mp hl with rfl | hl
  · rw [requestFirstLine_eq]
    have hmethod := hnone _ (methodName_spec hr.method).1
    have htarget := hnone _ (urlEncode_visible r.target)
    have hversion := hnone _ r.versionName_visible
    constructor
    · simp [hmethod, htarget, hversion]
    · simp
  · obtain ⟨h, hh, rfl⟩ := List.mem_map.mp hl
    have hname := hnone h.1 fun c hc => ((hr.names h hh).1.2 c hc).visible
    have hvalue := (hr.values h hh).1
    constructor
    · simp [hname, hvalue, ascii]
    · simp [ascii]

/-- What is written is the lines with their ends, and an empty one. -/
theorem makeHeaders_eq (r : HttpRequest) :
  r.makeHeaders = linesBytes (r.requestFirstLine :: r.headerLines) ++ CRLF
  := by
  have hlines : (r.headers.flatMap fun h => h.1 ++ ascii ": " ++ h.2 ++ CRLF) =
      linesBytes r.headerLines
    := by
    rw [linesBytes, headerLines, List.flatMap_map]
    apply congrArg (fun f => List.flatMap f r.headers)
    funext h
    simp [ascii]
  rw [makeHeaders, hlines, linesBytes, linesBytes, List.flatMap_cons, List.append_assoc,
    List.append_assoc, List.append_assoc]

/-- The headers are read as they were set, and nothing is read of the first line. -/
theorem foldl_headerLines {r : HttpRequest} (hr : r.Sendable) {req : HttpRequest}
    (hreq : req.headers = []) :
  (r.requestFirstLine :: r.headerLines).foldl addLine req = { req with headers := r.headers }
  := by
  have hcolon : 58 ∉ r.requestFirstLine
    := by
    have hmethod : 58 ∉ methodName r.method
      := fun hmem => ((methodName_spec hr.method).1 58 hmem).2 rfl
    have htarget : 58 ∉ urlEncode r.target := fun hmem => (urlEncode_visible _ 58 hmem).2 rfl
    have hversion : 58 ∉ r.versionName := fun hmem => (r.versionName_visible 58 hmem).2 rfl
    rw [requestFirstLine_eq]
    simp [hmethod, htarget, hversion]
  have hfirst : addLine req r.requestFirstLine = req
    := by
    have hfind : find (ascii ":") r.requestFirstLine = none := by apply find_eq_none hcolon
    rw [addLine, hfind]
  have hkeys : (r.headers.map fun h => (h.1, (32 : UInt8) :: h.2)).map (fun l => l.1.map toLower) =
      r.headers.map Prod.fst
    := by
    rw [List.map_map]
    apply List.map_congr_left
    intro h hh
    exact (hr.names h hh).2
  have hentries : (r.headers.map fun h => (h.1, (32 : UInt8) :: h.2)).map
      (fun l => (l.1.map toLower, trim l.2)) = r.headers
    := by
    rw [List.map_map]
    conv_rhs => rw [← List.map_id r.headers]
    apply List.map_congr_left
    intro h hh
    obtain ⟨-, -, hhead, hlast⟩ := hr.values h hh
    have htrim : trim ([32] ++ h.2 ++ []) = h.2
      := by
      apply trim_append
      · intro c hc
        obtain rfl := List.mem_singleton.mp hc
        rfl
      · rintro c ⟨⟩
      · exact hhead
      · exact hlast
    rw [List.append_nil] at htrim
    exact Prod.ext (hr.names h hh).2 htrim
  have hfold := @foldl_addLine_colon
    (r.headers.map fun h => (h.1, (32 : UInt8) :: h.2)) (fun l hl c hc => by
      obtain ⟨h, hh, rfl⟩ := List.mem_map.mp hl
      exact ((hr.names h hh).1.2 c hc).visible)
    (by rw [hkeys]; exact hr.headerKeys) req (by rw [hreq]; rintro e ⟨⟩)
  rw [hentries, List.map_map, hreq, List.nil_append] at hfold
  rw [List.foldl_cons, hfirst, headerLines]
  exact hfold

/-- What a parser that expects headers makes of a request that is sent. -/
theorem parse_makeHeaders {r : HttpRequest} (hr : r.Sendable) {p : HttpParser}
    (hp : p.state = .expectHeaders) :
  ∃ q r', p.parse r.makeHeaders = .ok (q, r.makeHeaders.length, q.state) ∧ q.req = some r' ∧
    (q.state = .expectError ↔ r.getHeader (ascii "content-length") ≠ [] ∧
      stoull (r.getHeader (ascii "content-length")) = none) ∧
    r'.method = parseMethod (methodName r.method) ∧ r'.path = r.sentPath ∧
    r'.parameters = (if r.parameters ≠ [] then parametersOf (encodedQuery r.parameters) else []) ∧
    r'.headers = r.headers
  := by
  obtain ⟨version, hfirst⟩ := processMethodLine_firstLine hr.method
  have htarget := setTarget_target hr.path.1
    (show ({ isRequest := true, method := parseMethod (methodName r.method) } :
      HttpRequest).parameters = [] from rfl)
  have hmethod := setTarget_method
    { isRequest := true, method := parseMethod (methodName r.method) } (urlEncode r.target)
  have hheaders := setTarget_headers
    { isRequest := true, method := parseMethod (methodName r.method) } (urlEncode r.target)
  generalize setTarget { isRequest := true, method := parseMethod (methodName r.method) }
    (urlEncode r.target) = target at hfirst htarget hmethod hheaders
  have hfold := foldl_headerLines hr
    (show ({ target with version := version } : HttpRequest).headers = [] from hheaders)
  have hparse :
      parseHeaders
        { p with header := CRLF.intercalate (r.requestFirstLine :: r.headerLines) } =
      .ok (({ p with
        header := CRLF.intercalate (r.requestFirstLine :: r.headerLines)
        isRequest := target.isRequest } : HttpParser).frame
          { target with version := version, headers := r.headers })
    := by
    have hsplit : splitString (CRLF.intercalate (r.requestFirstLine :: r.headerLines)) CRLF =
        r.requestFirstLine :: r.headerLines
      := splitString_intercalate hr.lines
    rw [parseHeaders, hsplit]
    dsimp only
    rw [hfirst]
    dsimp only
    rw [hfold]
  obtain ⟨⟨chunked, stream, hreq⟩, herror⟩ := frame_spec ({ p with
    header := CRLF.intercalate (r.requestFirstLine :: r.headerLines)
    isRequest := target.isRequest } : HttpParser)
      { target with version := version, headers := r.headers }
  have hread := readHeaders_lines hr.lines hparse []
  rw [List.append_nil, ← makeHeaders_eq] at hread
  have hne : r.makeHeaders.isEmpty = false
    := by
    rw [makeHeaders_eq, List.isEmpty_eq_false_iff]
    exact List.append_ne_nil_of_right_ne_nil _ (List.cons_ne_nil _ _)
  have hcleared : p.cleared = p := by rw [cleared, hp]
  refine ⟨_, _, ?_, hreq, herror, hmethod, htarget.1, htarget.2, rfl⟩
  rw [parse, hne, hcleared, step, hp]
  exact hread

/-- A request is read as it was written exactly if it is readable: the query is encoded with the
path but not decoded with it, and the parser does not know `PATCH`. -/
theorem readAsWritten_iff {r : HttpRequest} (hr : r.Sendable) {p : HttpParser}
    (hp : p.state = .expectHeaders) :
  ReadAsWritten p r ↔ r.Readable
  := by
  obtain ⟨q, r', hparse, hreq, herror, hmethod, hpath, hparameters, hheaders⟩ :=
    parse_makeHeaders hr hp
  obtain ⟨-, -, hknown⟩ := methodName_spec hr.method
  have hsent : r.sentPath = r.path ↔ r.path ≠ []
    := by
    rw [sentPath]
    constructor
    · intro hsame hnil
      rw [if_neg (not_not_intro hnil), hnil] at hsame
      contradiction
    · exact fun hne => if_pos hne
  -- Without parameters nothing is sent of them, so the equivalence is about all of them.
  have hentries : (∀ e, e ∈ r'.parameters ↔ e ∈ r.parameters) ↔ ∀ e ∈ r.parameters,
      (urlEncode e.1 = e.1 ∧ 61 ∉ e.1 ∧ 38 ∉ e.1) ∧ urlEncode e.2 = e.2 ∧ 38 ∉ e.2
    := by
    rw [hparameters]
    by_cases hnone : r.parameters = []
    · rw [if_neg (not_not_intro hnone), hnone]
      exact ⟨fun _ e he => (nomatch he), fun _ _ => Iff.rfl⟩
    · rw [if_pos hnone]
      exact parametersOf_iff hr.parameterKeys
  constructor
  · rintro ⟨q', state, r'', hparse', hstate, hreq', hsame⟩
    rw [hparse] at hparse'
    obtain ⟨rfl, rfl⟩ : q = q' ∧ q.state = state
      := by
      injection hparse' with h
      injection h with h h'
      injection h' with _ h'
      exact ⟨h, h'⟩
    obtain rfl : r' = r'' := Option.some.inj (hreq.symm.trans hreq')
    have hclean := hentries.mp hsame.parameters
    refine ⟨hknown.mp (hmethod.symm.trans hsame.method),
      hsent.mp (hpath.symm.trans hsame.path), fun e he => (hclean e he).1,
      fun e he => (hclean e he).2, ?_⟩
    intro hlength hnone
    exact hstate (herror.mpr ⟨hlength, hnone⟩)
  · intro hr'
    refine ⟨q, q.state, r', hparse, ?_, hreq, hmethod.trans (hknown.mpr hr'.method),
      hpath.trans (hsent.mpr hr'.path),
      hentries.mpr fun e he => ⟨hr'.names e he, hr'.values e he⟩, ?_⟩
    · intro hstate
      obtain ⟨hlength, hnone⟩ := herror.mp hstate
      exact hr'.length hlength hnone
    · intro e
      rw [hheaders]

/-- A request with a path, to which a header and parameters were added, is read as it was written. -/
theorem readAsWritten_get :
  let r : HttpRequest :=
    [(ascii "Host", ascii "localhost:8080")].foldl (fun r h => r.addHeader h.1 h.2)
      ([(ascii "user", ascii "x=y"), (ascii "token", ascii "1")].foldl
        (fun (r : HttpRequest) e => r.setParameter e.1 e.2)
        { isRequest := true, method := .get, path := ascii "/live/a&b=c" })
  r.Sendable ∧ ReadAsWritten {} r
  := by
  intro r
  have hr : r.Sendable := sendable_of_lists (by decide) (by decide) _ (by decide +kernel)
  have hreadable : r.Readable
    := {
      method := by decide
      path := by decide
      names := by decide +kernel
      values := by decide +kernel
      length := by decide }
  use hr
  exact (readAsWritten_iff hr rfl).mpr hreadable

/-- A space in a parameter is read as a plus sign. -/
theorem not_readAsWritten_space :
  let r : HttpRequest := {
    isRequest := true
    method := .get
    path := ascii "/live"
    parameters := [(ascii "user", ascii "a b")] }
  r.Sendable ∧ ¬ ReadAsWritten {} r
  := by
  intro r
  have hr : r.Sendable
    := {
      isRequest := rfl
      method := by decide
      path := by decide
      parameterKeys := by decide
      headerKeys := by decide
      names := by decide
      values := by decide }
  use hr
  rintro ⟨q, state, r', hparse, -, hreq, hsame⟩
  have hread : ((parse {} r.makeHeaders).toOption.bind fun q => q.1.req.map parameters) =
      some [(ascii "user", ascii "a+b")]
    := by decide +kernel
  rw [hparse] at hread
  change q.req.map parameters = _ at hread
  rw [hreq] at hread
  have hparameters : r'.parameters = [(ascii "user", ascii "a+b")] := Option.some.inj hread
  have hmem := (hsame.parameters (ascii "user", ascii "a b")).mpr List.mem_cons_self
  rw [hparameters] at hmem
  revert hmem
  decide

end HttpRequest
