import Tmms.Rtmp.ClientCommands

/-!
# Names of sessions

The client that is given a url, the server that it sends its commands to and `WebrtcService`
look for the name of a session in what they have.  They find the same one in the url that a puller
makes, `rtmp://ip[:port]/domain/app/stream`, if it has no parameters.
-/

open AMFAny AMFObject StringUtils

/-- `GetSessionNameFromUrl`. -/
def WebrtcService.getSessionNameFromUrl (url : List UInt8) : List UInt8 :=
  let list := splitString url (ascii "/")
  if list.length < 5 then
    []
  else
    let (domain, app, stream) : List UInt8 × List UInt8 × List UInt8 :=
      match list with
      | [_, _, domain, app, stream] => (domain, app, stream)
      | [_, _, _, domain, app, stream] => (domain, app, stream)
      | _ => ([], [], [])
    let domain :=
      match find (ascii ":") domain with
      | some pos => domain.take pos
      | none => domain
    domain ++ ascii "/" ++ app ++ ascii "/" ++ stream

/-- A part of a name has no slash, no colon and no question mark. -/
structure Plain (s : List UInt8) : Prop where
  slash : 47 ∉ s
  colon : 58 ∉ s
  question : 63 ∉ s

/-- The url of a stream: of its domain, or of an address that is asked for the stream of the domain.
A service for RTMP and one for WebRTC have ports of their own. -/
structure StreamUrl where
  domain : List UInt8
  app : List UInt8
  stream : List UInt8
  /-- The address of a server that is not the domain. -/
  ip : Option (List UInt8)
  rtmpPort : Option (List UInt8)
  webrtcPort : Option (List UInt8)
  param : Option (List UInt8)
  domain_ne : domain ≠ []
  plain_domain : Plain domain
  plain_app : Plain app
  plain_stream : Plain stream
  ip_slash : ∀ s ∈ ip, 47 ∉ s
  rtmpPort_slash : ∀ s ∈ rtmpPort, 47 ∉ s
  webrtcPort_slash : ∀ s ∈ webrtcPort, 47 ∉ s

namespace StreamUrl

/-- The name of the session. -/
def sessionName (u : StreamUrl) : List UInt8 :=
  u.domain ++ ascii "/" ++ u.app ++ ascii "/" ++ u.stream

/-- A part that may be left out, with what stands in front of it. -/
def optional (mark : String) (part : Option (List UInt8)) : List UInt8 :=
  match part with
  | none => []
  | some part => ascii mark ++ part

/-- The host and the port. -/
def authority (u : StreamUrl) (port : Option (List UInt8)) : List UInt8 :=
  u.ip.getD u.domain ++ optional ":" port

/-- The domain behind an address. -/
def behindAddress (u : StreamUrl) : List UInt8 :=
  match u.ip with
  | none => []
  | some _ => u.domain ++ ascii "/"

/-- The stream and the parameters. -/
def query (u : StreamUrl) : List UInt8 := u.stream ++ optional "?" u.param

/-- The text of the url. -/
def text (u : StreamUrl) (scheme : String) (port : Option (List UInt8)) : List UInt8 :=
  ascii scheme ++ ascii "://" ++ u.authority port ++ ascii "/" ++ u.behindAddress ++ u.app ++
    ascii "/" ++ u.query

/-- The url that the client is given. -/
def rtmp (u : StreamUrl) : List UInt8 := u.text "rtmp" u.rtmpPort

/-- The url that a browser asks for. -/
def webrtc (u : StreamUrl) : List UInt8 := u.text "webrtc" u.webrtcPort

/-- All parties derive the name of the session. -/
structure NamedAlike (u : StreamUrl) : Prop where
  client : ∀ role hasHandler, (RtmpContext.client hasHandler u.rtmp role).sessionName = u.sessionName
  server : ∀ role hasHandler hasHandler',
    (RtmpContext.receive (.new hasHandler') (RtmpContext.client hasHandler u.rtmp role)).map
      Session.sessionName = some u.sessionName
  webrtcService : WebrtcService.getSessionNameFromUrl u.webrtc = u.sessionName

/-- The url is the one that a puller makes, and the connect command that has the application and
the url in it fits into its packet. -/
structure Pulled (u : StreamUrl) : Prop where
  ip : u.ip.isSome
  param : u.param = none
  stream : u.stream ≠ []
  fits : 140 + u.app.length + u.rtmp.length ≤ 1024

/-! ### The parts of a url -/

theorem splitString_part {a : List UInt8} (h : 47 ∉ a) (s : List UInt8) :
  splitString (a ++ ascii "/" ++ s) (ascii "/") = a :: splitString s (ascii "/")
  := by
  rw [List.append_assoc]
  exact splitString_append h s

theorem slash_authority (u : StreamUrl) {port : Option (List UInt8)} (h : ∀ s ∈ port, 47 ∉ s) :
  47 ∉ u.authority port
  := by
  rw [authority, List.mem_append, not_or]
  constructor
  · cases hip : u.ip with
    | none => exact u.plain_domain.slash
    | some ip => exact u.ip_slash ip hip
  · cases port with
    | none => exact List.not_mem_nil
    | some port =>
        rw [optional, List.mem_append, not_or]
        exact ⟨by decide, h port rfl⟩

/-- What a url is split into. -/
theorem splitString_text (u : StreamUrl) {scheme : String} (hscheme : 47 ∉ ascii scheme)
    {port : Option (List UInt8)} (hport : ∀ s ∈ port, 47 ∉ s) :
  splitString (u.text scheme port) (ascii "/") =
    (ascii scheme ++ ascii ":") :: [] :: u.authority port ::
      match u.ip with
      | none => u.app :: splitString u.query (ascii "/")
      | some _ => u.domain :: u.app :: splitString u.query (ascii "/")
  := by
  have hfirst : 47 ∉ ascii scheme ++ ascii ":" := by
    rw [List.mem_append, not_or]
    exact ⟨hscheme, by decide⟩
  have htext : u.text scheme port = (ascii scheme ++ ascii ":") ++ ascii "/" ++ ([] ++ ascii "/" ++
      (u.authority port ++ ascii "/" ++ (u.behindAddress ++ (u.app ++ ascii "/" ++ u.query))))
    := by
    have hmark : ascii "://" = ascii ":" ++ ascii "/" ++ ascii "/" := rfl
    rw [text, hmark]
    simp only [List.append_assoc, List.nil_append]
  rw [htext, splitString_part hfirst, splitString_part List.not_mem_nil,
    splitString_part (u.slash_authority hport), behindAddress]
  cases hip : u.ip with
  | none =>
      dsimp only
      rw [List.nil_append, splitString_part u.plain_app.slash]
  | some ip =>
      dsimp only
      rw [splitString_part u.plain_domain.slash, splitString_part u.plain_app.slash]

theorem query_of_param {u : StreamUrl} {p : List UInt8} (h : u.param = some p) :
  ∃ x rest, splitString u.query (ascii "/") = (u.stream ++ [63] ++ x) :: rest
  := by
  have hquery : u.query = (u.stream ++ [63]) ++ p := by
    rw [query, h, List.append_assoc]
    rfl
  rw [hquery]
  apply exists_splitString_append
  · rw [List.mem_append, not_or]
    exact ⟨u.plain_stream.slash, by decide⟩
  · exact List.append_ne_nil_of_right_ne_nil _ (List.cons_ne_nil _ _)

theorem query_of_none {u : StreamUrl} (h : u.param = none) :
  splitString u.query (ascii "/") = if u.stream = [] then [] else [u.stream]
  := by
  rw [query, h, optional, List.append_nil]
  split
  next hempty =>
    rw [hempty]
    rfl
  next hne => exact splitString_of_notMem u.plain_stream.slash hne

/-! ### Names that are found -/

/-- The domain without a port. -/
def withoutPort (domain : List UInt8) : List UInt8 :=
  match find (ascii ":") domain with
  | some pos => domain.take pos
  | none => domain

theorem withoutPort_of_plain {domain : List UInt8} (h : Plain domain) :
  withoutPort domain = domain
  := by
  rw [withoutPort]
  have hnone : find (ascii ":") domain = none := find_eq_none h.colon
  rw [hnone]

/-- A name of its parts. -/
def join (domain app stream : List UInt8) : List UInt8 :=
  domain ++ ascii "/" ++ app ++ ascii "/" ++ stream

/-- What a context takes from a url of six parts. -/
theorem parseNameAndTcUrl_six {s : Session} {x y z domain app name : List UInt8}
    (h : splitString s.tcUrl (ascii "/") = [x, y, z, domain, app, name]) :
  ∃ param, RtmpContext.parseNameAndTcUrl s =
    { s with app, name, param, sessionName := join (withoutPort domain) app name }
  := by
  have hurl : ∀ app' name' param, RtmpContext.parseTcUrl
      { s with app := app', name := name', param := param } = (domain, { s with app, name, param })
    := by
    intro app' name' param
    rw [RtmpContext.parseTcUrl]
    dsimp only
    rw [h]
  rw [RtmpContext.parseNameAndTcUrl]
  cases find (ascii "/") s.app with
  | none =>
      cases find (ascii "?") s.name with
      | none => exact ⟨_, by rw [hurl]; rfl⟩
      | some pos => exact ⟨_, by rw [hurl]; rfl⟩
  | some pos =>
      cases find (ascii "?") s.name with
      | none => exact ⟨_, by rw [hurl]; rfl⟩
      | some pos => exact ⟨_, by rw [hurl]; rfl⟩

/-- The name that a new context finds in the parts of a url. -/
def nameOfParts : List (List UInt8) → List UInt8
  | [_, _, _, domain, app, name] => join (withoutPort domain) app name
  | [_, _, _, domain, app] => join (withoutPort domain) app []
  | [_, _, domain, app] => join (withoutPort domain) app []
  | _ => join [] [] []

/-- A new context has no application and no name to look into. -/
theorem sessionName_new (s : Session) (happ : s.app = []) (hname : s.name = []) (hparam : s.param = []) :
  (RtmpContext.parseNameAndTcUrl s).sessionName =
    join (withoutPort (RtmpContext.parseTcUrl s).1) (RtmpContext.parseTcUrl s).2.app
      (RtmpContext.parseTcUrl s).2.name
  := by
  obtain ⟨app, tcUrl, name, sessionName, param, isPlayer, hasHandler⟩ := s
  cases happ
  cases hname
  cases hparam
  rfl

theorem sessionName_client (role : RtmpContext.Role) (hasHandler : Bool) (url : List UInt8) :
  (RtmpContext.client hasHandler url role).sessionName =
    nameOfParts (splitString url (ascii "/"))
  := by
  have hparse : ∀ isPlayer, (RtmpContext.parseNameAndTcUrl
      { Session.new hasHandler with isPlayer, tcUrl := url }).sessionName =
        nameOfParts (splitString url (ascii "/"))
    := by
    intro isPlayer
    rw [sessionName_new _ rfl rfl rfl, RtmpContext.parseTcUrl]
    dsimp only
    generalize splitString url (ascii "/") = parts
    split
    · rfl
    · rfl
    · rfl
    next hsix hfive hfour =>
      rw [nameOfParts]
      · rfl
      · exact hsix
      · exact hfive
      · exact hfour
  cases role with
  | play => exact hparse true
  | publish => exact hparse false

/-! ### Names that are no name of the stream -/

theorem question_sessionName (u : StreamUrl) :
  63 ∉ u.sessionName
  := by
  simp only [sessionName, List.mem_append, not_or]
  exact ⟨⟨⟨⟨u.plain_domain.question, by decide⟩, u.plain_app.question⟩, by decide⟩,
    u.plain_stream.question⟩

theorem question_join (domain stream x name : List UInt8) :
  63 ∈ join domain (stream ++ [63] ++ x) name
  := by
  simp only [join, List.mem_append, List.mem_singleton]
  tauto

theorem question_join_name (domain app stream x : List UInt8) :
  63 ∈ join domain app (stream ++ [63] ++ x)
  := by
  simp only [join, List.mem_append, List.mem_singleton]
  tauto

/-- The name of a stream begins with its domain, and so with no slash. -/
theorem join_nil_ne (u : StreamUrl) (app stream : List UInt8) :
  join [] app stream ≠ u.sessionName
  := by
  intro h
  obtain ⟨c, domain, hdomain⟩ := List.exists_cons_of_ne_nil u.domain_ne
  rw [sessionName, hdomain] at h
  have hhead : 47 = c := List.head_eq_of_cons_eq h
  apply u.plain_domain.slash
  rw [hdomain, hhead]
  exact List.mem_cons_self

theorem length_sessionName (u : StreamUrl) :
  u.sessionName.length = u.domain.length + u.app.length + u.stream.length + 2
  := by
  simp only [sessionName, List.length_append]
  change _ + 1 + _ + 1 + _ = _
  omega

theorem length_join (domain app stream : List UInt8) :
  (join domain app stream).length = domain.length + app.length + stream.length + 2
  := by
  simp only [join, List.length_append]
  change _ + 1 + _ + 1 + _ = _
  omega

theorem splitString_rtmp (u : StreamUrl) :
  splitString u.rtmp (ascii "/") = (ascii "rtmp" ++ ascii ":") :: [] :: u.authority u.rtmpPort ::
    match u.ip with
    | none => u.app :: splitString u.query (ascii "/")
    | some _ => u.domain :: u.app :: splitString u.query (ascii "/")
  := u.splitString_text (by decide) u.rtmpPort_slash

theorem splitString_webrtc (u : StreamUrl) :
  splitString u.webrtc (ascii "/") =
    (ascii "webrtc" ++ ascii ":") :: [] :: u.authority u.webrtcPort ::
      match u.ip with
      | none => u.app :: splitString u.query (ascii "/")
      | some _ => u.domain :: u.app :: splitString u.query (ascii "/")
  := u.splitString_text (by decide) u.webrtcPort_slash

/-- The parameters are taken for a part of the name. -/
theorem nameOfParts_of_param {u : StreamUrl} {p : List UInt8} (h : u.param = some p) :
  nameOfParts (splitString u.rtmp (ascii "/")) ≠ u.sessionName
  := by
  obtain ⟨x, rest, hquery⟩ := query_of_param h
  have hquestion := u.question_sessionName
  rw [splitString_rtmp, hquery]
  cases hip : u.ip with
  | none =>
      match rest with
      | [] =>
          intro heq
          apply hquestion
          rw [← heq]
          exact question_join _ _ _ _
      | [y] =>
          intro heq
          apply hquestion
          rw [← heq]
          exact question_join _ _ _ _
      | _ :: _ :: _ => exact u.join_nil_ne [] []
  | some ip =>
      match rest with
      | [] =>
          intro heq
          apply hquestion
          rw [← heq]
          exact question_join_name _ _ _ _
      | _ :: _ => exact u.join_nil_ne [] []

/-- In the url of a domain the application is taken for the domain. -/
theorem nameOfParts_of_domain {u : StreamUrl} (hip : u.ip = none) (hparam : u.param = none)
    (hstream : u.stream ≠ []) :
  nameOfParts (splitString u.rtmp (ascii "/")) ≠ u.sessionName
  := by
  rw [splitString_rtmp, hip, query_of_none hparam, if_neg hstream]
  change join (withoutPort u.app) u.stream [] ≠ _
  rw [withoutPort_of_plain u.plain_app]
  intro heq
  have hlen := congrArg List.length heq
  rw [length_join, length_sessionName, List.length_nil] at hlen
  apply u.domain_ne
  apply List.eq_nil_of_length_eq_zero
  omega

/-- The part that a stream without a name leaves out is missed. -/
theorem getSessionNameFromUrl_of_empty {u : StreamUrl} (hparam : u.param = none)
    (hstream : u.stream = []) :
  WebrtcService.getSessionNameFromUrl u.webrtc ≠ u.sessionName
  := by
  rw [WebrtcService.getSessionNameFromUrl, splitString_webrtc, query_of_none hparam,
    if_pos hstream]
  intro heq
  have hlen := congrArg List.length heq
  rw [length_sessionName, hstream, List.length_nil] at hlen
  cases hip : u.ip with
  | none =>
      rw [hip] at hlen
      change 0 = _ at hlen
      omega
  | some ip =>
      rw [hip] at hlen heq
      change (join (withoutPort (u.authority u.webrtcPort)) u.domain u.app).length = _ at hlen
      change join (withoutPort (u.authority u.webrtcPort)) u.domain u.app = _ at heq
      rw [length_join] at hlen
      have hnil : withoutPort (u.authority u.webrtcPort) = [] := by
        apply List.eq_nil_of_length_eq_zero
        omega
      rw [hnil] at heq
      exact u.join_nil_ne _ _ heq

/-! ### The url of a puller -/

theorem sixParts {u : StreamUrl} {ip : List UInt8} (hip : u.ip = some ip) (hparam : u.param = none)
    (hstream : u.stream ≠ []) :
  splitString u.rtmp (ascii "/") =
      [ascii "rtmp" ++ ascii ":", [], u.authority u.rtmpPort, u.domain, u.app, u.stream] ∧
    splitString u.webrtc (ascii "/") =
      [ascii "webrtc" ++ ascii ":", [], u.authority u.webrtcPort, u.domain, u.app, u.stream]
  := by
  rw [splitString_rtmp, splitString_webrtc, hip, query_of_none hparam, if_neg hstream]
  exact ⟨rfl, rfl⟩

/-- What a client makes of it. -/
theorem client_of_sixParts {u : StreamUrl} {ip : List UInt8} (hip : u.ip = some ip)
    (hparam : u.param = none) (hstream : u.stream ≠ []) (role : RtmpContext.Role)
    (hasHandler : Bool) :
  (RtmpContext.client hasHandler u.rtmp role).app = u.app ∧
    (RtmpContext.client hasHandler u.rtmp role).name = u.stream ∧
    (RtmpContext.client hasHandler u.rtmp role).tcUrl = u.rtmp
  := by
  obtain ⟨hrtmp, -⟩ := sixParts hip hparam hstream
  cases role with
  | play =>
      obtain ⟨param, hparse⟩ := @parseNameAndTcUrl_six
        { Session.new hasHandler with isPlayer := true, tcUrl := u.rtmp } _ _ _ _ _ _ hrtmp
      rw [RtmpContext.client, RtmpContext.play, hparse]
      exact ⟨rfl, rfl, rfl⟩
  | publish =>
      obtain ⟨param, hparse⟩ := @parseNameAndTcUrl_six
        { Session.new hasHandler with isPlayer := false, tcUrl := u.rtmp } _ _ _ _ _ _ hrtmp
      rw [RtmpContext.client, RtmpContext.publish, hparse]
      exact ⟨rfl, rfl, rfl⟩

theorem namedAlike_of_pulled {u : StreamUrl} (h : Pulled u) :
  NamedAlike u
  := by
  obtain ⟨ip, hip⟩ := Option.isSome_iff_exists.mp h.ip
  obtain ⟨hrtmp, hwebrtc⟩ := sixParts hip h.param h.stream
  have hdomain := withoutPort_of_plain u.plain_domain
  constructor
  · intro role hasHandler
    rw [sessionName_client, hrtmp, nameOfParts, hdomain]
    rfl
  · intro role hasHandler hasHandler'
    obtain ⟨happ, hname, hurl⟩ := client_of_sixParts hip h.param h.stream role hasHandler
    have hfits := h.fits
    have hlen := RtmpContext.length_connectBody (RtmpContext.client hasHandler u.rtmp role)
    rw [happ, hurl] at hlen
    have hshort : u.stream.length ≤ u.rtmp.length := by
      rw [rtmp, text, query]
      simp only [List.length_append]
      omega
    rw [RtmpContext.receive_of_short _ (by omega) (by rw [hname]; omega), happ, hname, hurl]
    obtain ⟨param, hparse⟩ := @parseNameAndTcUrl_six
      { Session.new hasHandler' with app := u.app, tcUrl := u.rtmp, name := u.stream }
      _ _ _ _ _ _ hrtmp
    rw [hparse, hdomain]
    rfl
  · rw [WebrtcService.getSessionNameFromUrl, hwebrtc]
    change join (withoutPort u.domain) u.app u.stream = _
    rw [hdomain]
    rfl

/-- All parties derive the name of a session exactly if the url is one of a puller. -/
theorem namedAlike_iff_pulled (u : StreamUrl) :
  NamedAlike u ↔ Pulled u
  := by
  constructor
  · intro h
    have hclient := h.client .play true
    rw [sessionName_client] at hclient
    have hparam : u.param = none := by
      cases hparam : u.param with
      | none => rfl
      | some p => exact absurd hclient (nameOfParts_of_param hparam)
    have hstream : u.stream ≠ [] := fun hempty =>
      getSessionNameFromUrl_of_empty hparam hempty h.webrtcService
    cases hip : u.ip with
    | none => exact absurd hclient (nameOfParts_of_domain hip hparam hstream)
    | some ip =>
        refine ⟨by rw [hip]; rfl, hparam, hstream, ?_⟩
        by_contra hlong
        have hserver := h.server .play true true
        obtain ⟨happ, -, hurl⟩ := client_of_sixParts hip hparam hstream .play true
        have hlen := RtmpContext.length_connectBody (RtmpContext.client true u.rtmp .play)
        rw [happ, hurl] at hlen
        rw [RtmpContext.receive_of_long _ (by omega)] at hserver
        cases hserver
  · exact namedAlike_of_pulled

/-- `rtmp://hx.com/live/test`. -/
def ofDomain : StreamUrl where
  domain := ascii "hx.com"
  app := ascii "live"
  stream := ascii "test"
  ip := none
  rtmpPort := none
  webrtcPort := none
  param := none
  domain_ne := by decide
  plain_domain := ⟨by decide, by decide, by decide⟩
  plain_app := ⟨by decide, by decide, by decide⟩
  plain_stream := ⟨by decide, by decide, by decide⟩
  ip_slash := nofun
  rtmpPort_slash := nofun
  webrtcPort_slash := nofun

/-- The client takes it for a stream without a name, of the application `test` in the domain
`live`. -/
theorem not_namedAlike_domain :
  ¬ ∀ u : StreamUrl, NamedAlike u
  := by
  intro h
  have hclient := (h ofDomain).client .play true
  revert hclient
  decide +kernel

end StreamUrl
