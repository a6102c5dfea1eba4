import Tmms.Http.Messages
import Tmms.Live.PullerRelay

/-!
# Where a URL leads

A URL has a host, maybe a port, and maybe a path with a query.  Three parsers cut it:
`HttpClient::ParseUrl`, `RtmpClient::ParseUrl` and `Target::ParseTargetUrl`.

The first looks for the port at a place in the URL that it counts from the host, and decodes the
path.  The second finds none unless a path is behind it, and without port and path it finds no host
either.  The third takes for a host what is in front of the path and seven bytes more, and does not
look for a port.
-/

open StringUtils

/-- `std::string::find_first_of`: where one of some characters occurs first. -/
def StringUtils.findFirstOf (chars s : List UInt8) : Option Nat := s.findIdx? (chars.contains ·)

/-- The `addr_` of a client: a host, or its address, and a port. -/
structure PeerAddress where
  addr : List UInt8 := []
  port : UInt16 := 0
  deriving DecidableEq, Repr

/-! ### The parsers -/

/-- An address that a name resolves to. -/
structure HostAddress where
  ip : List UInt8
  isIpV6 : Bool
  deriving DecidableEq, Repr

/-- How names resolve: the addresses that `DnsService` has, and those of `GetHostInfo`. That has no
result where `getaddrinfo` fails otherwise than with -1: it follows a pointer that nothing has set.
(A host that is asked for is also one of those `DnsService` looks up again, which is left out.) -/
structure Resolver where
  known : List UInt8 → List HostAddress
  info : List UInt8 → Option (List HostAddress)

/-- The addresses of a host that `HttpClient::ParseUrl` goes through. -/
def Resolver.addresses (r : Resolver) (host : List UInt8) : Option (List HostAddress) :=
  if r.known host = [] then r.info host else some (r.known host)

/-- The address taken for a host: the first that is not of version 6, or its name. -/
def chosenAddress (host : List UInt8) (addresses : List HostAddress) : List UInt8 :=
  ((addresses.find? (!·.isIpV6)).map (·.ip)).getD host

structure HttpClient where
  addr : PeerAddress := {}
  request : HttpRequest
  deriving DecidableEq, Repr

namespace HttpClient

/-- The request that `CreateTcpClient` makes. -/
def newRequest (isPost : Bool) : HttpRequest :=
  let r : HttpRequest := { isRequest := true, method := if isPost then .post else .get }
  (r.addHeader (ascii "User-Agent") (ascii "curl/7.61.1")).addHeader (ascii "Accept") (ascii "*/*")

/-- How `ParseUrl` ends: the name of the host is resolved. -/
def resolved (r : Resolver) (c : HttpClient) : Option (HttpClient × Bool) :=
  (r.addresses c.addr.addr).map fun addresses =>
    ({ c with addr := { c.addr with addr := chosenAddress c.addr.addr addresses } }, true)

/-- `ParseUrl`. -/
def parseUrl (r : Resolver) (c : HttpClient) (url : List UInt8) : Option (HttpClient × Bool) :=
  if url.length > 7 then
    let port := 80
    match find (ascii "/") (url.drop 7) with
    | some pos =>
        let request := c.request.setTarget (url.drop (7 + pos))
        let domain := (url.drop 7).take pos
        let request := request.addHeader (ascii "Host") domain
        match find (ascii ":") domain with
        | some pos2 =>
            resolved r { c with
              addr := { addr := domain.take pos2, port := .ofInt (atoi (url.drop (pos2 + 1))) }
              request := request }
        | none => resolved r { c with addr := { addr := domain, port }, request := request }
    | none =>
        let domain := url.drop 7
        let request := (c.request.setPath (ascii "/")).addHeader (ascii "Host") domain
        resolved r { c with addr := { addr := domain, port }, request := request }
  else
    some (c, false)

end HttpClient

namespace RtmpClient

/-- `ParseUrl`. -/
def parseUrl (addr : PeerAddress) (url : List UInt8) : PeerAddress × Bool :=
  if url.length > 7 then
    match findFirstOf (ascii ":/") (url.drop 7) with
    | some pos =>
        let domain := (url.drop 7).take pos
        let behind := url.drop (7 + pos + 1)
        let port : UInt16 :=
          if (url.drop 7).getD pos 0 = 58 then
            match find (ascii "/") behind with
            -- the slash is part of what is read
            | some pos1 => .ofInt (atoi (behind.take (pos1 + 1)))
            | none => 1935
          else
            1935
        ({ addr := domain, port }, true)
    | none => (addr, false)
  else
    (addr, false)

end RtmpClient

/-! ### Paths that are not decoded -/

namespace HttpUtils

/-- There is no plus sign, and no percent sign with two hexadecimal digits behind it. -/
def Plain (s : List UInt8) : Prop :=
  43 ∉ s ∧ ∀ a b, (hexDigit a).isSome → (hexDigit b).isSome → ¬ [37, a, b] <:+: s

theorem plain_nil : Plain [] := ⟨List.not_mem_nil, fun _ _ _ _ h => nomatch List.infix_nil.mp h⟩

/-- No escape begins with the first character. -/
theorem plain_cons {c : UInt8} {s : List UInt8}
    (h : ∀ a b, (hexDigit a).isSome → (hexDigit b).isSome → ¬ [37, a, b] <+: c :: s) :
  Plain (c :: s) ↔ c ≠ 43 ∧ Plain s
  := by
  rw [Plain, Plain, List.mem_cons, not_or, and_assoc, ne_comm]
  apply and_congr_right
  intro _
  apply and_congr_right
  intro _
  constructor
  · intro hno a b ha hb hsub
    exact hno a b ha hb (hsub.trans (List.suffix_cons c s).isInfix)
  · intro hno a b ha hb hsub
    rcases List.infix_cons_iff.mp hsub with hprefix | hsub
    · exact h a b ha hb hprefix
    · exact hno a b ha hb hsub

/-- Decoding makes nothing longer. -/
theorem length_urlDecode_le (s : List UInt8) :
  (urlDecode s).length ≤ s.length
  := by
  fun_induction urlDecode s with
  | case1 => exact Nat.le_refl _
  | case2 s ih => exact Nat.succ_le_succ ih
  | case3 a b s x y hb ha _ ih =>
      rw [List.length_cons, List.length_cons, List.length_cons, List.length_cons]
      omega
  | case4 a b s hno _ ih => exact Nat.succ_le_succ ih
  | case5 s hno _ ih => exact Nat.succ_le_succ ih
  | case6 c s _ _ ih => exact Nat.succ_le_succ ih

/-- The paths that decoding leaves as they are. -/
theorem urlDecode_eq_self_iff (s : List UInt8) :
  urlDecode s = s ↔ Plain s
  := by
  fun_induction urlDecode s with
  | case1 => exact iff_of_true rfl plain_nil
  | case2 s ih =>
      apply iff_of_false
      · exact fun h => absurd (List.head_eq_of_cons_eq h) (by decide)
      · exact fun h => h.1 (List.mem_cons_self ..)
  | case3 a b s x y hb ha _ ih =>
      apply iff_of_false
      · intro h
        have hlength := congrArg List.length h
        have hle := length_urlDecode_le s
        rw [List.length_cons, List.length_cons, List.length_cons, List.length_cons] at hlength
        omega
      · intro h
        exact h.2 a b (Option.isSome_of_eq_some ha) (Option.isSome_of_eq_some hb)
          (List.prefix_append [37, a, b] s).isInfix
  | case4 a b s hno _ ih =>
      have hescape (x y : UInt8) (hx : (hexDigit x).isSome) (hy : (hexDigit y).isSome) :
          ¬ [37, x, y] <+: 37 :: a :: b :: s
        := by
        rintro ⟨_, heq⟩
        cases heq
        exact hno _ _ (Option.some_get hx).symm (Option.some_get hy).symm
      rw [List.cons_inj_right, ih, plain_cons hescape]
      exact (and_iff_right (by decide)).symm
  | case5 s hno _ ih =>
      have hescape (x y : UInt8) (hx : (hexDigit x).isSome) (hy : (hexDigit y).isSome) :
          ¬ [37, x, y] <+: 37 :: s
        := by
        rintro ⟨_, heq⟩
        cases heq
        exact hno _ _ _ rfl
      rw [List.cons_inj_right, ih, plain_cons hescape]
      exact (and_iff_right (by decide)).symm
  | case6 c s hplus hpercent ih =>
      have hescape (x y : UInt8) (hx : (hexDigit x).isSome) (hy : (hexDigit y).isSome) :
          ¬ [37, x, y] <+: c :: s
        := by
        rintro ⟨_, heq⟩
        cases heq
        exact hpercent rfl
      rw [List.cons_inj_right, ih, plain_cons hescape]
      exact (and_iff_right hplus).symm

/-- What needs no decoding is left as it is too. -/
theorem plain_of_not_needUrlDecoding {s : List UInt8} (h : needUrlDecoding s = false) :
  Plain s
  := by
  rw [needUrlDecoding, List.any_eq_false] at h
  constructor
  · exact fun hmem => h 43 hmem rfl
  · intro a b _ _ hsub
    exact h 37 (hsub.subset (List.mem_cons_self ..)) rfl

end HttpUtils

theorem HttpRequest.setPath_eq_iff {r : HttpRequest} {path : List UInt8} :
  (r.setPath path).path = path ↔ HttpUtils.Plain path
  := by
  rw [setPath]
  cases hneed : HttpUtils.needUrlDecoding path with
  | false => exact iff_of_true rfl (HttpUtils.plain_of_not_needUrlDecoding hneed)
  | true => exact HttpUtils.urlDecode_eq_self_iff path

/-! ### URLs -/

/-- A port in decimal digits. -/
structure PortText where
  text : List UInt8
  number : Nat
  isNumeral : IsNumeral 10 text number
  pos : 0 < number
  lt : number < 2 ^ 16

/-- The parts of a URL behind its scheme. -/
structure Endpoint where
  host : List UInt8
  port : Option PortText
  path : List UInt8
  query : Option (List UInt8)
  colon : 58 ∉ host
  slash : 47 ∉ host
  root : path = [] ∧ query = none ∨ path.head? = some 47
  question : 63 ∉ path

namespace Endpoint

/-- The host, and a colon and the port. -/
def domain (e : Endpoint) : List UInt8 := e.host ++ e.port.elim [] fun p => 58 :: p.text

/-- The path, and a question mark and the query. -/
def target (e : Endpoint) : List UInt8 := e.path ++ e.query.elim [] fun q => 63 :: q

def url (scheme : String) (e : Endpoint) : List UInt8 := ascii scheme ++ (e.domain ++ e.target)

/-- The port, or that of the scheme. -/
def portOr (e : Endpoint) (default : UInt16) : UInt16 :=
  e.port.elim default fun p => .ofNat p.number

/-- A client of HTTP finds the host, if that resolves, and the port, and a request has the path,
which is `/` if there is none, and the query. -/
def HttpFound (e : Endpoint) : Prop :=
  ∀ (r : Resolver) (isPost : Bool) (addr : PeerAddress) (addresses : List HostAddress),
    r.addresses e.host = some addresses →
    ∃ c : HttpClient,
      HttpClient.parseUrl r { addr, request := HttpClient.newRequest isPost } (e.url "http://") =
        some (c, true) ∧
      c.addr = { addr := chosenAddress e.host addresses, port := e.portOr 80 } ∧
      c.request.path = (if e.path = [] then ascii "/" else e.path) ∧
      c.request.query = e.query.getD []

/-- A client of RTMP finds the host and the port. -/
def RtmpFound (e : Endpoint) : Prop :=
  ∀ addr, RtmpClient.parseUrl addr (e.url "rtmp://") =
    ({ addr := e.host, port := e.portOr 1935 }, true)

/-- A new target finds the host and the port. -/
def TargetFound (e : Endpoint) : Prop :=
  ∀ t : Target, t.protocol = ascii "http" → t.remoteHost = [] →
    t.parseTargetUrl (e.url "http://") =
      some { t with remoteHost := e.host, remotePort := e.portOr 80 }

/-! ### What is found -/

variable (e : Endpoint)

theorem drop_url {scheme : String} (h : (ascii scheme).length = 7) (n : Nat) :
  (e.url scheme).drop (7 + n) = (e.domain ++ e.target).drop n
  := by rw [url, ← List.drop_drop, ← h, List.drop_left]

theorem length_url {scheme : String} (h : (ascii scheme).length = 7) :
  (e.url scheme).length = 7 + (e.domain.length + e.target.length)
  := by rw [url, List.length_append, List.length_append, h]

theorem notMem_text {p : PortText} {c : UInt8} (hc : isDigit 10 c = false) :
  c ∉ p.text
  := by
  intro hmem
  have hdigit := p.isNumeral.digits c hmem
  rw [hc] at hdigit
  cases hdigit

theorem slash_notMem_domain :
  47 ∉ e.domain
  := by
  rw [domain, List.mem_append, not_or]
  refine ⟨e.slash, ?_⟩
  cases e.port with
  | none => exact List.not_mem_nil
  | some p =>
      rw [Option.elim_some, List.mem_cons, not_or]
      exact ⟨by decide, notMem_text (by decide)⟩

/-- The target is empty, or begins with a slash. -/
theorem target_cases :
  (e.path = [] ∧ e.query = none ∧ e.target = []) ∨
    e.path ≠ [] ∧ ∃ rest, e.target = 47 :: rest
  := by
  obtain ⟨hpath, hquery⟩ | hhead := e.root
  · left
    refine ⟨hpath, hquery, ?_⟩
    rw [target, hpath, hquery]
    rfl
  · right
    rw [target]
    cases hpath : e.path with
    | nil =>
        rw [hpath] at hhead
        cases hhead
    | cons c path =>
        rw [hpath] at hhead
        cases hhead
        exact ⟨List.cons_ne_nil _ _, _, List.cons_append⟩

theorem find_slash {rest : List UInt8} (h : e.target = 47 :: rest) :
  find (ascii "/") (e.domain ++ e.target) = some e.domain.length
  := by
  rw [h]
  exact @find_append_self _ [] _ _ e.slash_notMem_domain

theorem find_slash_of_nil (h : e.target = []) :
  find (ascii "/") (e.domain ++ e.target) = none
  := by
  rw [h, List.append_nil]
  exact find_eq_none e.slash_notMem_domain

variable {e}

theorem domain_of_none (h : e.port = none) :
  e.domain = e.host
  := by
  rw [domain, h]
  exact List.append_nil _

theorem domain_of_some {p : PortText} (h : e.port = some p) :
  e.domain = e.host ++ 58 :: p.text
  := by
  rw [domain, h]
  rfl

/-! ### The client of HTTP -/

theorem takeWhile_append_cons {α : Type} {f : α → Bool} {s rest : List α} {c : α}
    (h : f c = false) :
  (s ++ c :: rest).takeWhile f = s.takeWhile f
  := by
  rw [List.takeWhile_append]
  split
  next hall =>
    rw [List.takeWhile_cons_of_neg (by rw [h]; exact Bool.false_ne_true), List.append_nil]
    exact (List.IsPrefix.eq_of_length (List.takeWhile_prefix f) hall).symm
  next => rfl

theorem dropWhile_append_cons {α : Type} {f : α → Bool} {s rest : List α} {c : α}
    (h : f c = false) :
  (s ++ c :: rest).dropWhile f = s.dropWhile f ++ c :: rest
  := by
  rw [List.dropWhile_append]
  split
  next hall =>
    rw [List.isEmpty_iff.mp hall, List.dropWhile_cons_of_neg (by rw [h]; exact Bool.false_ne_true)]
    rfl
  next => rfl

/-- A number ends at the latest where something stands that is no part of one. -/
theorem atoi_append_cons {s rest : List UInt8} {c : UInt8} (hspace : isSpace c = false)
    (hdigit : isDigit 10 c = false) (hminus : c ≠ 45) (hplus : c ≠ 43) :
  atoi (s ++ c :: rest) = atoi s
  := by
  have hnumber : leadingNumber 10 (s ++ c :: rest) = leadingNumber 10 s
    := by
    rw [leadingNumber, leadingNumber, dropWhile_append_cons hspace]
    cases s.dropWhile isSpace with
    | nil =>
        simp [hminus, hplus, hdigit]
    | cons d s =>
        rw [List.cons_append, List.head?_cons, List.head?_cons, List.tail_cons, List.tail_cons]
        have hten : ¬ (10 : Nat) = 16 := by decide
        rw [if_neg hten, if_neg hten]
        split
        · rw [takeWhile_append_cons hdigit]
        · rw [← List.cons_append, takeWhile_append_cons hdigit]
  rw [atoi, atoi, strtol, strtol, hnumber]

/-- Behind a short host the URL is read from the scheme on, where there is no number. -/
theorem atoi_scheme {n : Nat} (h : n < 6) (s : List UInt8) :
  atoi ((ascii "http://").drop (n + 1) ++ s) = 0
  := by
  have hnone {c : UInt8} (hspace : isSpace c = false) (hdigit : isDigit 10 c = false)
      (hminus : c ≠ 45) (hplus : c ≠ 43) (rest : List UInt8) : atoi (c :: rest) = 0
    := (atoi_append_cons (s := []) hspace hdigit hminus hplus).trans rfl
  match n with
  | 0 => exact hnone (c := 116) rfl rfl (by decide) (by decide) _
  | 1 => exact hnone (c := 116) rfl rfl (by decide) (by decide) _
  | 2 => exact hnone (c := 112) rfl rfl (by decide) (by decide) _
  | 3 => exact hnone (c := 58) rfl rfl (by decide) (by decide) _
  | 4 => exact hnone (c := 47) rfl rfl (by decide) (by decide) _
  | 5 => exact hnone (c := 47) rfl rfl (by decide) (by decide) _

/-- The target of a request is cut at its question mark. -/
theorem setTarget_target (e : Endpoint) (r : HttpRequest) :
  (r.setTarget e.target).path = (r.setPath e.path).path ∧
    (r.setTarget e.target).query = e.query.getD r.query
  := by
  rw [HttpRequest.setTarget, target]
  cases e.query with
  | none =>
      have hnone : find (ascii "?") e.path = none := find_eq_none e.question
      rw [Option.elim_none, List.append_nil, hnone]
      exact ⟨rfl, rfl⟩
  | some q =>
      have hsome : find (ascii "?") (e.path ++ 63 :: q) = some e.path.length
        := @find_append_self _ [] _ _ e.question
      rw [Option.elim_some, hsome]
      dsimp only
      rw [List.take_left, ← List.drop_drop, List.drop_left]
      exact ⟨rfl, rfl⟩

/-- The port that `HttpClient::ParseUrl` reads. -/
def httpPort (e : Endpoint) : UInt16 :=
  if e.port = none then 80
  else .ofInt (atoi ((e.url "http://").drop (e.host.length + 1)))

instance : DecidableEq PortText := fun p p' =>
  decidable_of_iff (p.text = p'.text ∧ p.number = p'.number) (by
    constructor
    · obtain ⟨text, number, _, _, _⟩ := p
      rintro ⟨rfl, rfl⟩
      rfl
    · rintro rfl
      exact ⟨rfl, rfl⟩)

/-- With a path the host is found. -/
theorem parseUrl_of_path {rest : List UInt8} (htarget : e.target = 47 :: rest) (r : Resolver)
    (c : HttpClient) :
  HttpClient.parseUrl r c (e.url "http://") =
    HttpClient.resolved r
      { addr := { addr := e.host, port := e.httpPort }
        request := (c.request.setTarget e.target).addHeader (ascii "Host") e.domain }
  := by
  have hscheme : (ascii "http://").length = 7 := by decide
  have hlong : (e.url "http://").length > 7
    := by
    rw [length_url e hscheme, htarget, List.length_cons]
    omega
  have hdrop : (e.url "http://").drop 7 = e.domain ++ e.target := drop_url e hscheme 0
  rw [HttpClient.parseUrl, if_pos hlong, hdrop, find_slash e htarget]
  dsimp only
  rw [drop_url e hscheme, List.drop_left, List.take_left, httpPort]
  cases hport : e.port with
  | none =>
      have hnone : find (ascii ":") e.domain = none
        := by
        rw [domain_of_none hport]
        exact find_eq_none e.colon
      rw [hnone, if_pos rfl, domain_of_none hport]
  | some p =>
      have hsome : find (ascii ":") e.domain = some e.host.length
        := by
        rw [domain_of_some hport]
        exact @find_append_self _ [] _ _ e.colon
      rw [hsome, if_neg (Option.some_ne_none p)]
      dsimp only
      rw [domain_of_some hport, List.take_left]

/-- Without a path all that is behind the scheme is taken for the host, if there is something. -/
theorem parseUrl_of_nil (htarget : e.target = []) (r : Resolver) (c : HttpClient) :
  HttpClient.parseUrl r c (e.url "http://") =
    if e.domain = [] then some (c, false)
    else HttpClient.resolved r
      { addr := { addr := e.domain, port := 80 }
        request := (c.request.setPath (ascii "/")).addHeader (ascii "Host") e.domain }
  := by
  have hscheme : (ascii "http://").length = 7 := by decide
  have hdrop : (e.url "http://").drop 7 = e.domain ++ e.target := drop_url e hscheme 0
  rw [HttpClient.parseUrl, length_url e hscheme, htarget, List.length_nil, hdrop,
    find_slash_of_nil e htarget, htarget, List.append_nil]
  split
  next hlong => rw [if_neg fun hnil => by simp [hnil] at hlong]
  next hshort =>
    rw [if_pos]
    apply List.eq_nil_of_length_eq_zero
    omega

/-- The host is not empty, or there is a path, and there is no port, or the six bytes at the end of
the host are read as its number. -/
def HostSuits (e : Endpoint) : Prop :=
  match e.port with
  | none => e.path ≠ [] ∨ e.host ≠ []
  | some p =>
    e.path ≠ [] ∧ 6 ≤ e.host.length ∧
      UInt16.ofInt (atoi (e.host.drop (e.host.length - 6))) = .ofNat p.number

/-- That, and nothing in the path is decoded. -/
def HttpSuits (e : Endpoint) : Prop := e.HostSuits ∧ HttpUtils.Plain e.path

theorem zero_ne_port (p : PortText) :
  (0 : UInt16) ≠ .ofNat p.number
  := by
  intro h
  have hnat := congrArg UInt16.toNat h
  rw [UInt16.toNat_ofNat_of_lt' p.lt] at hnat
  exact Nat.ne_of_lt p.pos hnat

/-- The place that the port is read from is six bytes in front of it. -/
theorem atoi_url {p : PortText} (hport : e.port = some p) :
  UInt16.ofInt (atoi ((e.url "http://").drop (e.host.length + 1))) = .ofNat p.number ↔
    6 ≤ e.host.length ∧
      UInt16.ofInt (atoi (e.host.drop (e.host.length - 6))) = .ofNat p.number
  := by
  have hscheme : (ascii "http://").length = 7 := by decide
  by_cases hlong : 6 ≤ e.host.length
  · have hplace : e.host.length + 1 = 7 + (e.host.length - 6) := by omega
    rw [hplace, drop_url e hscheme, domain_of_some hport, List.append_assoc, List.cons_append,
      List.drop_append_of_le_length (Nat.sub_le _ _),
      atoi_append_cons (by decide) (by decide) (by decide) (by decide)]
    exact (and_iff_right hlong).symm
  · apply iff_of_false
    · rw [url, List.drop_append_of_le_length (by omega), atoi_scheme (by omega)]
      exact zero_ne_port p
    · exact fun h => hlong h.1

theorem httpPort_iff (e : Endpoint) :
  e.httpPort = e.portOr 80 ↔
    ∀ p, e.port = some p → 6 ≤ e.host.length ∧
      UInt16.ofInt (atoi (e.host.drop (e.host.length - 6))) = .ofNat p.number
  := by
  rw [httpPort, portOr]
  cases hport : e.port with
  | none => exact iff_of_true rfl nofun
  | some p =>
      rw [if_neg (Option.some_ne_none p), Option.elim_some, atoi_url hport]
      constructor
      · rintro h _ ⟨⟩
        exact h
      · intro h
        exact h p rfl

theorem domain_eq_host_iff (e : Endpoint) :
  e.domain = e.host ↔ e.port = none
  := by
  constructor
  · intro h
    cases hport : e.port with
    | none => rfl
    | some p =>
        rw [domain_of_some hport] at h
        cases List.append_right_eq_self.mp h
  · exact domain_of_none

/-- A name is resolved to itself. -/
def nameOnly : Resolver := { known := fun _ => [], info := fun _ => some [] }

/-- What the end of `ParseUrl` makes of a client. -/
theorem resolved_of_addresses {r : Resolver} {c : HttpClient} {addresses : List HostAddress}
    (h : r.addresses c.addr.addr = some addresses) :
  HttpClient.resolved r c =
    some ({ c with addr := { c.addr with addr := chosenAddress c.addr.addr addresses } }, true)
  := by
  rw [HttpClient.resolved, h]
  rfl

/-- A client finds a URL without a path if the host is all there is. -/
theorem httpFound_of_nil (hpath : e.path = []) (hquery : e.query = none) (htarget : e.target = []) :
  e.HttpFound ↔ e.HostSuits
  := by
  have hsuits : e.HostSuits ↔ e.domain ≠ [] ∧ e.domain = e.host
    := by
    rw [HostSuits, domain_eq_host_iff]
    cases hport : e.port with
    | none =>
        rw [domain_of_none hport]
        constructor
        · rintro (hno | hhost)
          · cases hno hpath
          · exact ⟨hhost, rfl⟩
        · exact fun h => Or.inr h.1
    | some p => exact iff_of_false (fun h => h.1 hpath) fun h => nomatch h.2
  rw [hsuits]
  constructor
  · intro h
    obtain ⟨c, hparse, haddr, -⟩ := h nameOnly false {} [] rfl
    rw [parseUrl_of_nil htarget] at hparse
    split at hparse
    · cases hparse
    next hne =>
      cases hparse
      exact ⟨hne, congrArg PeerAddress.addr haddr⟩
  · rintro ⟨hne, hhost⟩ r isPost addr addresses hresolves
    have hport := (domain_eq_host_iff e).mp hhost
    rw [parseUrl_of_nil htarget, if_neg hne, hhost, resolved_of_addresses hresolves]
    refine ⟨_, rfl, ?_, ?_, ?_⟩
    · rw [portOr, hport]
      rfl
    · rw [if_pos hpath]
      rfl
    · rw [hquery]
      rfl

/-- A client finds a URL with a path if it finds the port, and the path is not decoded. -/
theorem httpFound_of_path {rest : List UInt8} (hpath : e.path ≠ [])
    (htarget : e.target = 47 :: rest) :
  e.HttpFound ↔ e.HostSuits ∧ HttpUtils.Plain e.path
  := by
  have hsuits : e.HostSuits ↔ e.httpPort = e.portOr 80
    := by
    rw [httpPort_iff, HostSuits]
    cases hport : e.port with
    | none => exact iff_of_true (Or.inl hpath) nofun
    | some p =>
        dsimp only
        rw [and_iff_right hpath]
        constructor
        · rintro h _ ⟨⟩
          exact h
        · intro h
          exact h p rfl
  rw [hsuits]
  constructor
  · intro h
    obtain ⟨c, hparse, haddr, hpathOf, -⟩ := h nameOnly false {} [] rfl
    rw [parseUrl_of_path htarget] at hparse
    cases hparse
    rw [if_neg hpath] at hpathOf
    have hset := (e.setTarget_target (HttpClient.newRequest false)).1
    exact ⟨congrArg PeerAddress.port haddr, HttpRequest.setPath_eq_iff.mp (hset.symm.trans hpathOf)⟩
  · rintro ⟨hport, hplain⟩ r isPost addr addresses hresolves
    obtain ⟨hpathOf, hqueryOf⟩ := e.setTarget_target (HttpClient.newRequest isPost)
    rw [parseUrl_of_path htarget, resolved_of_addresses hresolves]
    refine ⟨_, rfl, ?_, ?_, ?_⟩
    · rw [← hport]
    · rw [if_neg hpath]
      exact hpathOf.trans (HttpRequest.setPath_eq_iff.mpr hplain)
    · exact hqueryOf

theorem httpFound_iff (e : Endpoint) :
  e.HttpFound ↔ e.HttpSuits
  := by
  obtain ⟨hpath, hquery, htarget⟩ | ⟨hpath, rest, htarget⟩ := e.target_cases
  · rw [httpFound_of_nil hpath hquery htarget, HttpSuits, hpath]
    exact (and_iff_left HttpUtils.plain_nil).symm
  · exact httpFound_of_path hpath htarget

/-! ### The client of RTMP, and targets -/

/-- Neither a colon nor a slash is in a host. -/
theorem findIdx_host (e : Endpoint) :
  e.host.findIdx? ((ascii ":/").contains ·) = none
  := by
  rw [List.findIdx?_eq_none_iff]
  intro x hx
  rw [← Bool.not_eq_true, List.contains_iff_mem]
  intro hmem
  obtain rfl | rfl : x = 58 ∨ x = 47
    := by simpa using (show x ∈ [58, 47] from hmem)
  · exact e.colon hx
  · exact e.slash hx

/-- The one that is behind it is found. -/
theorem findFirstOf_host (e : Endpoint) {c : UInt8} (hc : (ascii ":/").contains c = true)
    (rest : List UInt8) :
  findFirstOf (ascii ":/") (e.host ++ c :: rest) = some e.host.length
  := by
  rw [findFirstOf, List.findIdx?_append, findIdx_host, List.findIdx?_cons, hc]
  exact congrArg some (Nat.zero_add _)

theorem getD_host (e : Endpoint) (c : UInt8) (rest : List UInt8) :
  (e.host ++ c :: rest).getD e.host.length 0 = c
  := by
  rw [List.getD_eq_getElem?_getD, List.getElem?_append_right (Nat.le_refl _), Nat.sub_self]
  rfl

theorem ofInt_port (p : PortText) :
  UInt16.ofInt p.number = .ofNat p.number
  := by
  have hlt := p.lt
  have hnumber : ((p.number : Int) % 2 ^ 16).toNat = p.number := by omega
  rw [UInt16.ofInt, hnumber]

/-- A port with a slash behind it is read. -/
theorem atoi_port (p : PortText) (rest : List UInt8) :
  atoi (p.text ++ 47 :: rest) = p.number
  := by
  have hlt := p.lt
  have hvalue := p.isNumeral.value
  rw [atoi_append_cons (by decide) (by decide) (by decide) (by decide),
    atoi_digits p.isNumeral.ne_nil p.isNumeral.digits (by omega), hvalue]

/-- There is a path, or a port that is the one without a port. -/
def RtmpSuits (e : Endpoint) : Prop := e.path ≠ [] ∨ ∃ p, e.port = some p ∧ p.number = 1935

/-- What `RtmpClient::ParseUrl` finds. -/
theorem rtmp_parseUrl (e : Endpoint) (addr : PeerAddress) :
  RtmpClient.parseUrl addr (e.url "rtmp://") =
    if e.path = [] then
      if e.port = none then (addr, false) else ({ addr := e.host, port := 1935 }, true)
    else
      ({ addr := e.host, port := e.portOr 1935 }, true)
  := by
  have hscheme : (ascii "rtmp://").length = 7 := by decide
  have hdrop : (e.url "rtmp://").drop 7 = e.domain ++ e.target := drop_url e hscheme 0
  have hlength := length_url e hscheme
  rw [RtmpClient.parseUrl, portOr]
  cases hport : e.port with
  | none =>
      rw [hdrop, domain_of_none hport]
      obtain ⟨hpath, -, htarget⟩ | ⟨hpath, rest, htarget⟩ := e.target_cases
      · rw [htarget, List.append_nil, findFirstOf, findIdx_host, if_pos hpath, if_pos rfl]
        split
        · rfl
        · rfl
      · rw [htarget, List.length_cons] at hlength
        rw [htarget, findFirstOf_host e (by decide), if_neg hpath, if_pos (by omega)]
        dsimp only
        rw [List.take_left, if_neg]
        · rfl
        · rw [getD_host]
          decide
  | some p =>
      have hbehind : (e.url "rtmp://").drop (7 + e.host.length + 1) = p.text ++ e.target
        := by
        rw [Nat.add_assoc, drop_url e hscheme, domain_of_some hport, List.append_assoc,
          ← List.drop_drop, List.drop_left]
        rfl
      have hlong : (e.url "rtmp://").length > 7
        := by
        rw [domain_of_some hport, List.length_append, List.length_cons] at hlength
        omega
      rw [if_pos hlong, hdrop, domain_of_some hport, List.append_assoc, List.cons_append,
        findFirstOf_host e (by decide)]
      dsimp only
      rw [hbehind, List.take_left, if_pos]
      · obtain ⟨hpath, -, htarget⟩ | ⟨hpath, rest, htarget⟩ := e.target_cases
        · have hnone : find (ascii "/") (p.text ++ []) = none
            := by
            rw [List.append_nil]
            exact find_eq_none (notMem_text (by decide))
          rw [htarget, hnone, if_pos hpath, if_neg (Option.some_ne_none p)]
        · have hsome : find (ascii "/") (p.text ++ 47 :: rest) = some p.text.length
            := @find_append_self _ [] _ _ (notMem_text (by decide))
          rw [htarget, hsome, if_neg hpath, Option.elim_some]
          dsimp only
          rw [List.take_length_add_append, List.take_succ_cons, atoi_port, ofInt_port]
      · exact getD_host e 58 _

theorem rtmpFound_iff (e : Endpoint) :
  e.RtmpFound ↔ e.RtmpSuits
  := by
  rw [RtmpFound, RtmpSuits]
  by_cases hpath : e.path = []
  · simp only [rtmp_parseUrl, if_pos hpath]
    rw [or_iff_right (not_not.mpr hpath), portOr]
    cases hport : e.port with
    | none =>
        apply iff_of_false
        · intro h
          have hno := h {}
          rw [if_pos rfl] at hno
          exact Bool.false_ne_true (congrArg Prod.snd hno)
        · rintro ⟨p, hp, -⟩
          cases hp
    | some p =>
        simp only [if_neg (Option.some_ne_none p), Option.elim_some]
        constructor
        · intro h
          have hnumber := congrArg (fun r => r.1.port.toNat) (h {})
          dsimp only at hnumber
          rw [UInt16.toNat_ofNat_of_lt' p.lt] at hnumber
          exact ⟨p, rfl, hnumber.symm⟩
        · rintro ⟨_, ⟨⟩, hnumber⟩ addr
          rw [hnumber]
          rfl
  · simp only [rtmp_parseUrl, if_neg hpath]
    exact iff_of_true (fun _ => trivial) (Or.inl hpath)

/-- There is neither a path nor a port. -/
def TargetSuits (e : Endpoint) : Prop := e.path = [] ∧ e.port = none

theorem targetFound_iff (e : Endpoint) :
  e.TargetFound ↔ e.TargetSuits
  := by
  have hscheme : (ascii "http://").length = 7 := by decide
  have hdrop : (e.url "http://").drop 7 = e.domain ++ e.target := drop_url e hscheme 0
  have hlength := length_url e hscheme
  rw [TargetSuits]
  obtain ⟨hpath, -, htarget⟩ | ⟨hpath, rest, htarget⟩ := e.target_cases
  · have hparse (t : Target) (hprotocol : t.protocol = ascii "http") :
        t.parseTargetUrl (e.url "http://") = some { t with remoteHost := e.domain, remotePort := 80 }
      := by
      rw [Target.parseTargetUrl, if_pos hprotocol, hdrop, find_slash_of_nil e htarget]
      dsimp only
      rw [if_neg (by omega), htarget, List.append_nil]
    rw [and_iff_right hpath, ← domain_eq_host_iff]
    constructor
    · intro h
      have hfound := h { remotePort := 0, protocol := ascii "http" } rfl rfl
      rw [hparse _ rfl] at hfound
      exact congrArg Target.remoteHost (Option.some.inj hfound)
    · intro hhost t hprotocol _
      have hport := (domain_eq_host_iff e).mp hhost
      rw [hparse t hprotocol, hhost, portOr, hport]
      rfl
  · apply iff_of_false _ fun h => hpath h.1
    intro h
    have hfound := h { remotePort := 0, protocol := ascii "http" } rfl rfl
    rw [Target.parseTargetUrl, if_pos rfl, hdrop, find_slash e htarget] at hfound
    have hhost := congrArg (fun t => t.remoteHost.length) (Option.some.inj hfound)
    dsimp only at hhost
    have hle : e.host.length ≤ e.domain.length
      := by
      rw [domain, List.length_append]
      exact Nat.le_add_right _ _
    rw [List.length_take, List.length_append, htarget, List.length_cons] at hhost
    omega

/-- Which parser finds the host and the port of which URL. -/
theorem found_iff (e : Endpoint) :
  (e.HttpFound ↔ e.HttpSuits) ∧ (e.RtmpFound ↔ e.RtmpSuits) ∧ (e.TargetFound ↔ e.TargetSuits)
  := ⟨e.httpFound_iff, e.rtmpFound_iff, e.targetFound_iff⟩

/-- A host with a port, and maybe a path. -/
def exampleUrl (path : List UInt8) (h : path = [] ∨ path.head? = some 47) (h' : 63 ∉ path) :
    Endpoint where
  host := ascii "example.com"
  port := some
    { text := ascii "8080"
      number := 8080
      isNumeral := ⟨by decide, by decide +kernel, by decide⟩
      pos := by decide
      lt := by decide }
  path := path
  query := none
  colon := by decide
  slash := by decide
  root := h.imp_left fun hnil => ⟨hnil, rfl⟩
  question := h'

/-- The first parser finds no port, the second only the one of the scheme, and the third a longer
host. -/
theorem not_found_port :
  ¬ (exampleUrl (ascii "/live") (by decide) (by decide)).HttpFound ∧
    ¬ (exampleUrl [] (by decide) (by decide)).RtmpFound ∧
    ¬ (exampleUrl (ascii "/live") (by decide) (by decide)).TargetFound
  := by
  rw [httpFound_iff, rtmpFound_iff, targetFound_iff]
  refine ⟨?_, ?_, ?_⟩
  · rintro ⟨⟨-, -, hport⟩, -⟩
    exact absurd hport (by decide +kernel)
  · rintro (hpath | ⟨_, ⟨⟩, hnumber⟩)
    · exact hpath rfl
    · cases hnumber
  · exact fun h => nomatch h.2

end Endpoint
