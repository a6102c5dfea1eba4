import Mathlib.Data.List.Basic
import Tmms.Base.Strings

/-!
# HTTP requests and responses

`HttpRequest` is both.  The setters are the ones that the parser calls.  An `unordered_map`
is a list of keys and values here, whose order means nothing.
-/

open StringUtils

inductive HttpMethod where
  | get
  | post
  | head
  | put
  | delete
  | options
  | patch
  | invalid
  deriving DecidableEq, Repr

inductive Version where
  | unknown
  | http10
  | http11
  deriving DecidableEq, Repr

/-- The entries of a map. -/
abbrev StringMap := List (List UInt8 × List UInt8)

namespace StringMap

/-- `map[key] = value`. -/
def set (m : StringMap) (key value : List UInt8) : StringMap :=
  m.filter (fun e => e.1 ≠ key) ++ [(key, value)]

/-- The value of a key, empty without one. -/
def get (m : StringMap) (key : List UInt8) : List UInt8 :=
  ((m.find? fun e => e.1 = key).map Prod.snd).getD []

/-- Entries with keys of their own are all kept, in order. -/
theorem foldl_set {m entries : StringMap} (hkeys : (entries.map Prod.fst).Nodup)
    (hnew : ∀ e ∈ m, e.1 ∉ entries.map Prod.fst) :
  entries.foldl (fun m e => m.set e.1 e.2) m = m ++ entries
  := by
  induction entries generalizing m with
  | nil => exact (List.append_nil m).symm
  | cons entry entries ih =>
      rw [List.map_cons, List.nodup_cons] at hkeys
      have hset : m.set entry.1 entry.2 = m ++ [entry]
        := by
        rw [set, List.filter_eq_self.mpr]
        intro e he
        rw [decide_eq_true_iff]
        intro heq
        apply hnew e he
        rw [heq]
        apply List.mem_cons_self
      rw [List.foldl_cons, hset, ih hkeys.2, List.append_assoc, List.singleton_append]
      intro e he
      obtain he | he := List.mem_append.mp he
      · intro hmem
        apply hnew e he
        apply List.mem_cons_of_mem _ hmem
      · obtain rfl := List.mem_singleton.mp he
        apply hkeys.1

end StringMap

/-- `HttpRequest`, without the body, which the parser does not set. -/
structure HttpRequest where
  isRequest : Bool
  method : HttpMethod := .invalid
  version : Version := .unknown
  path : List UInt8 := []
  query : List UInt8 := []
  headers : StringMap := []
  parameters : StringMap := []
  code : UInt32 := 0
  isStream : Bool := false
  isChunked : Bool := false
  deriving DecidableEq, Repr

namespace HttpUtils

/-- `ParseMethod`, whose table has no entry for `PATCH`. -/
def parseMethod (method : List UInt8) : HttpMethod :=
  if method = ascii "GET" then .get
  else if method = ascii "PUT" then .put
  else if method = ascii "POST" then .post
  else if method = ascii "HEAD" then .head
  else if method = ascii "DELETE" then .delete
  else if method = ascii "OPTIONS" then .options
  else .invalid

/-- `NeedUrlDecoding`: the url has a plus or a percent sign. -/
def needUrlDecoding (url : List UInt8) : Bool := url.any fun c => c = 43 ∨ c = 37

/-- The value of a hexadecimal digit. -/
def hexDigit (c : UInt8) : Option Nat := (digitValue c).filter (· < 16)

/-- `UrlDecode`. -/
def urlDecode : List UInt8 → List UInt8
  | [] => []
  | c :: url =>
    if c = 43 then
      32 :: urlDecode url
    else if c = 37 then
      match url with
      | a :: b :: rest =>
        match hexDigit a, hexDigit b with
        | some x, some y => UInt8.ofNat (x * 16 + y) :: urlDecode rest
        | _, _ => 37 :: urlDecode (a :: b :: rest)
      | rest => 37 :: urlDecode rest
    else
      c :: urlDecode url

end HttpUtils

namespace HttpRequest

open HttpUtils

/-- `SetMethod(const std::string &)`. -/
def setMethod (r : HttpRequest) (method : List UInt8) : HttpRequest :=
  { r with method := parseMethod method }

/-- `SetPath`. -/
def setPath (r : HttpRequest) (path : List UInt8) : HttpRequest :=
  { r with path := if needUrlDecoding path then urlDecode path else path }

/-- One piece of the query in `ParseParameters`. -/
def parseParameter (m : StringMap) (l : List UInt8) : StringMap :=
  match find (ascii "=") l with
  | some pos => m.set (trim (l.take pos)) (trim (l.drop (pos + 1)))
  | none => m

/-- `SetQuery` and `ParseParameters`. -/
def setQuery (r : HttpRequest) (query : List UInt8) : HttpRequest :=
  { r with
    query := query
    parameters := (splitString query (ascii "&")).foldl parseParameter r.parameters }

/-- How `ProcessMethodLine` sets the path and the query. -/
def setTarget (r : HttpRequest) (path : List UInt8) : HttpRequest :=
  match find (ascii "?") path with
  | some pos => (r.setPath (path.take pos)).setQuery (path.drop (pos + 1))
  | none => r.setPath path

/-- `SetVersion(const std::string &)`. What is compared has six bytes and seven, so the result
of the comparison is always not zero. -/
def setVersion (r : HttpRequest) (v : List UInt8) : HttpRequest :=
  { r with
    version :=
      if v.length = 8 ∧ v.take 6 ≠ ascii "HTTP/1." then
        if v[7]? = some 49 then .http11
        else if v[7]? = some 48 then .http10
        else .unknown
      else
        .unknown }

/-- `SetStatusCode`. -/
def setStatusCode (r : HttpRequest) (code : Int) : HttpRequest :=
  { r with code := UInt32.ofInt code }

/-- `AddHeader`. -/
def addHeader (r : HttpRequest) (field value : List UInt8) : HttpRequest :=
  { r with headers := r.headers.set (field.map toLower) value }

/-- `GetHeader`. -/
def getHeader (r : HttpRequest) (field : List UInt8) : List UInt8 :=
  r.headers.get (field.map toLower)

/-! ### What the target leaves alone -/

@[simp]
theorem setTarget_headers (r : HttpRequest) (path : List UInt8) :
  (r.setTarget path).headers = r.headers
  := by
  rw [setTarget]
  split
  · rfl
  · rfl

@[simp]
theorem setTarget_isRequest (r : HttpRequest) (path : List UInt8) :
  (r.setTarget path).isRequest = r.isRequest
  := by
  rw [setTarget]
  split
  · rfl
  · rfl

@[simp]
theorem setTarget_method (r : HttpRequest) (path : List UInt8) :
  (r.setTarget path).method = r.method
  := by
  rw [setTarget]
  split
  · rfl
  · rfl

@[simp]
theorem setTarget_isChunked (r : HttpRequest) (path : List UInt8) :
  (r.setTarget path).isChunked = r.isChunked
  := by
  rw [setTarget]
  split
  · rfl
  · rfl

end HttpRequest
