import Mathlib.Logic.Function.Basic
import Tmms.Library.Runs
import Tmms.Webrtc.Stun

/-!
# Datagrams of WebRTC players

`WebrtcService` finds the player of a datagram in two maps: a STUN request names it, and what else
comes from the address of the request is for the same player.  A player is entered in the maps only
where there is none yet, and is never taken out of them.  So datagrams reach the live player that
was named last as long as no address names two players and nothing comes for a player that is
closed (`deliversRight_of_allowed`).

The callbacks of datagrams run one after another on the loop of the server, and `OnStun` and
`OnRequest` hold the lock of the names.
-/

open Runs

/-- A `WebrtcPlayerUser`, as far as datagrams find it. -/
structure WebrtcPlayerUser where
  id : Nat
  localUFrag : List UInt8
  localPasswd : List UInt8
  deriving DecidableEq, Repr

/-- The address of a peer. `ToIpPort` gives no two of them the same text. -/
structure InetAddress where
  ipv4 : UInt32
  port : UInt16
  deriving DecidableEq, Repr

/-- `emplace`: an entry stays if there is one. -/
def emplace {κ ν : Type} [DecidableEq κ] (map : κ → Option ν) (key : κ) (value : ν) :
    κ → Option ν :=
  if (map key).isSome then map else Function.update map key (some value)

namespace WebrtcServer

/-! ### What a datagram is -/

def isStun (buf : List UInt8) : Bool := 20 ≤ buf.length && buf.headD 0 ≤ 3

def isDtls (buf : List UInt8) : Bool := 13 ≤ buf.length && 20 ≤ buf.headD 0 && buf.headD 0 ≤ 63

/-- Whether the second byte is one of the types of RTCP. -/
def isRtcpType (buf : List UInt8) : Bool :=
  192 ≤ (buf.drop 1).headD 0 && (buf.drop 1).headD 0 ≤ 223

def isRtp (buf : List UInt8) : Bool :=
  12 ≤ buf.length && buf.headD 0 &&& 0x80 ≠ 0 && !isRtcpType buf

def isRtcp (buf : List UInt8) : Bool :=
  12 ≤ buf.length && buf.headD 0 &&& 0x80 ≠ 0 && isRtcpType buf

end WebrtcServer

open WebrtcServer (isStun isDtls isRtp isRtcp)

/-- The maps, and the table of the checksums in the responses. -/
structure WebrtcService where
  nameUsers : List UInt8 → Option WebrtcPlayerUser := fun _ => none
  users : InetAddress → Option WebrtcPlayerUser := fun _ => none
  globals : TsTool.Globals := {}

namespace WebrtcService

variable (hmacSha1 : List UInt8 → List UInt8 → Mac)

/-- `OnStun`, and the player that it finds. The response is left out, except that it has no result
if it does not fit its packet. -/
def onStun (w : WebrtcService) (addr : InetAddress) (buf : List UInt8) :
    Option (WebrtcService × Option WebrtcPlayerUser) :=
  match Stun.decode buf with
  | none => some (w, none)
  | some stun =>
      match w.nameUsers stun.localUFrag with
      | none => some (w, none)
      | some user =>
          ((stun.respond user.localPasswd addr.ipv4 addr.port).encode hmacSha1 w.globals).map
            fun response =>
              ({ w with
                users := emplace w.users addr user
                globals := response.2 }, some user)

/-- `OnDtls`, the player whose `OnDtlsRecv` is called. -/
def onDtls (w : WebrtcService) (addr : InetAddress) : Option WebrtcPlayerUser := w.users addr

/-- `OnRtcp`, the player whose `OnRtcp` is called. -/
def onRtcp (w : WebrtcService) (addr : InetAddress) : Option WebrtcPlayerUser := w.users addr

/-- `MessageCallback` of the server, and the player that the datagram is given to. -/
def messageCallback (w : WebrtcService) (addr : InetAddress) (buf : List UInt8) :
    Option (WebrtcService × Option WebrtcPlayerUser) :=
  if isStun buf then
    w.onStun hmacSha1 addr buf
  else if isDtls buf then
    some (w, w.onDtls addr)
  else if isRtp buf then
    some (w, none)
  else if isRtcp buf then
    some (w, w.onRtcp addr)
  else
    some (w, none)

/-- The end of `OnRequest` for a player whose offer was read. -/
def onRequest (w : WebrtcService) (user : WebrtcPlayerUser) : WebrtcService :=
  { w with nameUsers := emplace w.nameUsers user.localUFrag user }

end WebrtcService

/-- The service, the players that joined, the last one first, and which are closed; and for every
address the live player that the last STUN request from it named. -/
structure WebrtcWorld where
  service : WebrtcService := {}
  joined : List WebrtcPlayerUser := []
  closed : Nat → Bool := fun _ => false
  bound : InetAddress → Option WebrtcPlayerUser := fun _ => none

/-- What happens: a player joins, a session closes one, and a datagram comes. -/
inductive WebrtcWorldEvent where
  | request (ufrag passwd : List UInt8)
  | closeUser (id : Nat)
  | datagram (addr : InetAddress) (buf : List UInt8)

namespace WebrtcWorld

/-- The player is not closed. -/
def live (w : WebrtcWorld) (user : WebrtcPlayerUser) : Bool := !w.closed user.id

/-- The live player that a STUN request names. -/
def named (w : WebrtcWorld) (buf : List UInt8) : Option WebrtcPlayerUser :=
  (Stun.decode buf).bind fun stun =>
    w.joined.find? fun user => user.localUFrag = stun.localUFrag && w.live user

/-- The player that a datagram is for. -/
def recipient (w : WebrtcWorld) (addr : InetAddress) (buf : List UInt8) :
    Option WebrtcPlayerUser :=
  if isStun buf then
    w.named buf
  else if isDtls buf || isRtcp buf then
    (w.bound addr).filter w.live
  else
    none

/-- The players that addresses are bound to after a datagram. -/
def bind (w : WebrtcWorld) (addr : InetAddress) (buf : List UInt8) :
    InetAddress → Option WebrtcPlayerUser :=
  match if isStun buf then w.named buf else none with
  | none => w.bound
  | some user => Function.update w.bound addr (some user)

variable (hmacSha1 : List UInt8 → List UInt8 → Mac)

/-- One event. It has no result if a response does not fit its packet. -/
def step : Option WebrtcWorld → WebrtcWorldEvent → Option WebrtcWorld
  | none, _ => none
  | some w, .request ufrag passwd =>
      let user : WebrtcPlayerUser := ⟨w.joined.length, ufrag, passwd⟩
      some { w with
        service := w.service.onRequest user
        joined := user :: w.joined }
  | some w, .closeUser id => some { w with closed := Function.update w.closed id true }
  | some w, .datagram addr buf =>
      (w.service.messageCallback hmacSha1 addr buf).map fun result =>
        { w with
          service := result.1
          bound := w.bind addr buf }

/-- A datagram is given to the player it is for, and to no other one. -/
def DeliversRight : Option WebrtcWorld → WebrtcWorldEvent → Prop
  | some w, .datagram addr buf =>
      (w.service.messageCallback hmacSha1 addr buf).map Prod.snd = some (w.recipient addr buf)
  | some _, _ => True
  | none, _ => False

/-- A STUN request with the name of a player in the map is of an address without a player or with
this one, the player is live, and the response fits. What else comes is not for a closed player. -/
def Allowed : Option WebrtcWorld → WebrtcWorldEvent → Prop
  | some w, .request ufrag _ => w.service.nameUsers ufrag = none
  | some w, .datagram addr buf =>
      (isStun buf → ∀ stun ∈ Stun.decode buf, ∀ user ∈ w.service.nameUsers stun.localUFrag,
        w.live user ∧ (∀ other ∈ w.service.users addr, other = user) ∧
          stun.userName.length ≤ 444) ∧
        (isDtls buf || isRtcp buf → ∀ user ∈ w.service.users addr, w.live user)
  | _, _ => True

/-- The maps of the service are those of the world. -/
structure Agrees (w : WebrtcWorld) : Prop where
  names : ∀ ufrag, w.service.nameUsers ufrag = w.joined.find? fun user => user.localUFrag = ufrag
  users : w.service.users = w.bound

/-! ### The maps -/

variable {hmacSha1} {w : WebrtcWorld} {addr : InetAddress} {buf : List UInt8}

/-- With an empty place an entry is added. -/
theorem emplace_of_none {κ ν : Type} [DecidableEq κ] {map : κ → Option ν} {key : κ}
    (h : map key = none) (value : ν) :
  emplace map key value = Function.update map key (some value)
  := by
  rw [emplace, h]
  rfl

/-- With the same entry nothing changes, and the map is as if it was added. -/
theorem emplace_of_eq {κ ν : Type} [DecidableEq κ] {map : κ → Option ν} {key : κ} {value : ν}
    (h : map key = some value) :
  emplace map key value = Function.update map key (some value)
  := by
  rw [emplace, if_pos (by rw [h, Option.isSome_some]), ← h, Function.update_eq_self]

/-- The player with the name of a request, if it is live, is the one that the request names. -/
theorem named_of_live (h : w.Agrees) {stun : Stun} (hdecode : Stun.decode buf = some stun)
    {user : WebrtcPlayerUser} (huser : w.service.nameUsers stun.localUFrag = some user)
    (hlive : w.live user) :
  w.named buf = some user
  := by
  rw [h.names, List.find?_eq_some_iff_append] at huser
  obtain ⟨hname, before, after, hjoined, hbefore⟩ := huser
  rw [named, hdecode, Option.bind_some, List.find?_eq_some_iff_append]
  refine ⟨?_, before, after, hjoined, ?_⟩
  · rw [hname, hlive]
    rfl
  · intro other hother
    have hnot := hbefore other hother
    rw [Bool.not_and, hnot, Bool.true_or]

/-- A request with a name that no player has names none. -/
theorem named_of_none (h : w.Agrees) {stun : Stun} (hdecode : Stun.decode buf = some stun)
    (hnone : w.service.nameUsers stun.localUFrag = none) :
  w.named buf = none
  := by
  rw [h.names, List.find?_eq_none] at hnone
  rw [named, hdecode, Option.bind_some, List.find?_eq_none]
  intro other hother hboth
  exact hnone other hother (Bool.and_eq_true_iff.mp hboth).1

/-! ### Events -/

/-- A STUN request is given to the player that it names, and binds its address to it. -/
theorem onStun_of_allowed (h : w.Agrees)
    (hallowed : ∀ stun ∈ Stun.decode buf, ∀ user ∈ w.service.nameUsers stun.localUFrag,
      w.live user ∧ (∀ other ∈ w.service.users addr, other = user) ∧
        stun.userName.length ≤ 444) :
  ∃ service, w.service.onStun hmacSha1 addr buf = some (service, w.named buf) ∧
    service.nameUsers = w.service.nameUsers ∧
    service.users = match w.named buf with
      | none => w.bound
      | some user => Function.update w.bound addr (some user)
  := by
  rw [WebrtcService.onStun]
  cases hdecode : Stun.decode buf with
  | none =>
      have hnamed : w.named buf = none := by rw [named, hdecode, Option.bind_none]
      rw [hnamed]
      exact ⟨_, rfl, rfl, h.users⟩
  | some stun =>
      dsimp only
      cases huser : w.service.nameUsers stun.localUFrag with
      | none =>
          rw [named_of_none h hdecode huser]
          exact ⟨_, rfl, rfl, h.users⟩
      | some user =>
          obtain ⟨hlive, hbound, hlength⟩ := hallowed stun hdecode user huser
          obtain ⟨packet, g, hencode, -⟩ := (Stun.encode_responds_iff hmacSha1 stun
            user.localPasswd addr.ipv4 addr.port w.service.globals).mpr hlength
          rw [named_of_live h hdecode huser hlive]
          dsimp only
          rw [hencode]
          refine ⟨_, rfl, rfl, ?_⟩
          dsimp only
          rw [← h.users]
          cases haddr : w.service.users addr with
          | none => exact emplace_of_none haddr user
          | some other =>
              obtain rfl := hbound other haddr
              exact emplace_of_eq haddr

/-- Media is not a report. -/
theorem isRtcp_of_isRtp (h : isRtp buf) :
  isRtcp buf = false
  := by
  rw [isRtp, Bool.and_eq_true, Bool.not_eq_true'] at h
  rw [isRtcp, h.2, Bool.and_false]

/-- What is not a STUN request is given to the player that the address is bound to. -/
theorem filter_bound (h : w.Agrees) (hlive : ∀ user ∈ w.service.users addr, w.live user) :
  (w.bound addr).filter w.live = w.service.users addr
  := by
  rw [← h.users]
  cases haddr : w.service.users addr with
  | none => rfl
  | some user => exact Option.filter_eq_some_iff.mpr ⟨rfl, hlive user haddr⟩

/-- A datagram is given to the player it is for, and binds as it should. -/
theorem messageCallback_of_allowed (h : w.Agrees) (hallowed : Allowed (some w) (.datagram addr buf)) :
  ∃ service, w.service.messageCallback hmacSha1 addr buf = some (service, w.recipient addr buf) ∧
    service.nameUsers = w.service.nameUsers ∧ service.users = w.bind addr buf
  := by
  rw [WebrtcService.messageCallback, recipient, bind]
  by_cases hstun : isStun buf
  · rw [if_pos hstun, if_pos hstun, if_pos hstun]
    exact onStun_of_allowed h (hallowed.1 hstun)
  · rw [if_neg hstun, if_neg hstun, if_neg hstun]
    by_cases hdtls : isDtls buf
    · have hgiven : (isDtls buf || isRtcp buf) = true := by rw [hdtls, Bool.true_or]
      rw [if_pos hdtls, if_pos hgiven, filter_bound h (hallowed.2 hgiven)]
      exact ⟨_, rfl, rfl, h.users⟩
    · have hnot : isDtls buf = false := Bool.eq_false_iff.mpr hdtls
      rw [if_neg hdtls, hnot, Bool.false_or]
      by_cases hrtp : isRtp buf
      · rw [if_pos hrtp, isRtcp_of_isRtp hrtp]
        exact ⟨_, rfl, rfl, h.users⟩
      · rw [if_neg hrtp]
        by_cases hrtcp : isRtcp buf
        · have hgiven : (isDtls buf || isRtcp buf) = true := by rw [hrtcp, Bool.or_true]
          rw [if_pos hrtcp, if_pos hrtcp, filter_bound h (hallowed.2 hgiven)]
          exact ⟨_, rfl, rfl, h.users⟩
        · rw [if_neg hrtcp, if_neg hrtcp]
          exact ⟨_, rfl, rfl, h.users⟩

/-- A new player is found by its name. -/
theorem agrees_request (h : w.Agrees) {ufrag : List UInt8} (passwd : List UInt8)
    (hnew : w.service.nameUsers ufrag = none) :
  ∀ w' ∈ step hmacSha1 (some w) (.request ufrag passwd), w'.Agrees
  := by
  rintro _ ⟨⟩
  refine ⟨?_, h.users⟩
  intro other
  dsimp only [WebrtcService.onRequest]
  rw [emplace_of_none hnew, List.find?_cons]
  by_cases hother : ufrag = other
  · subst hother
    rw [Function.update_self, decide_eq_true rfl]
  · rw [Function.update_of_ne (Ne.symm hother), decide_eq_false hother]
    exact h.names other

/-- An allowed event keeps the maps, and if it is a datagram, it is given to the player that it is
for. -/
theorem step_of_allowed {s : Option WebrtcWorld} {e : WebrtcWorldEvent}
    (h : ∃ w, s = some w ∧ w.Agrees) (hallowed : Allowed s e) :
  (∃ w, step hmacSha1 s e = some w ∧ w.Agrees) ∧ DeliversRight hmacSha1 s e
  := by
  obtain ⟨w, rfl, h⟩ := h
  cases e with
  | request ufrag passwd =>
      have hrequest : ∀ w' ∈ step hmacSha1 (some w) (.request ufrag passwd), w'.Agrees
        := agrees_request h passwd hallowed
      exact ⟨⟨_, rfl, hrequest _ rfl⟩, trivial⟩
  | closeUser id => exact ⟨⟨_, rfl, h.names, h.users⟩, trivial⟩
  | datagram addr buf =>
      obtain ⟨service, hservice, hnames, husers⟩ : ∃ service,
          w.service.messageCallback hmacSha1 addr buf = some (service, w.recipient addr buf) ∧
            service.nameUsers = w.service.nameUsers ∧ service.users = w.bind addr buf
        := messageCallback_of_allowed h hallowed
      rw [DeliversRight, step, hservice]
      refine ⟨⟨_, rfl, ?_, husers⟩, rfl⟩
      intro ufrag
      dsimp only
      rw [hnames, h.names]

/-- In a run of allowed events every datagram is given to the player that it is for: a STUN request
to the live player that it names, what else comes to the live player that the last such request from
its address named, and nothing to a closed one. -/
theorem deliversRight_of_allowed (hmacSha1 : List UInt8 → List UInt8 → Mac)
    (es : List WebrtcWorldEvent) (h : Steps (step hmacSha1) Allowed (some {}) es) :
  Steps (step hmacSha1) (DeliversRight hmacSha1) (some {}) es
  := by
  apply h.of_invariant (I := fun s => ∃ w, s = some w ∧ w.Agrees)
  · exact ⟨{}, rfl, fun _ => rfl, rfl⟩
  · intro s e hs hallowed
    exact step_of_allowed hs hallowed

/-! ### Where datagrams go astray -/

instance (hmacSha1 : List UInt8 → List UInt8 → Mac) (s : Option WebrtcWorld)
    (e : WebrtcWorldEvent) : Decidable (DeliversRight hmacSha1 s e) :=
  match s, e with
  | some w, .datagram addr buf =>
      inferInstanceAs (Decidable ((w.service.messageCallback hmacSha1 addr buf).map Prod.snd =
        some (w.recipient addr buf)))
  | some _, .request _ _ => isTrue trivial
  | some _, .closeUser _ => isTrue trivial
  | none, _ => isFalse id

instance (s : Option WebrtcWorld) (e : WebrtcWorldEvent) : Decidable (Allowed s e) :=
  match s, e with
  | some w, .request ufrag _ => inferInstanceAs (Decidable (w.service.nameUsers ufrag = none))
  | some w, .datagram addr buf =>
      inferInstanceAs (Decidable ((isStun buf → ∀ stun ∈ Stun.decode buf,
        ∀ user ∈ w.service.nameUsers stun.localUFrag, w.live user ∧
          (∀ other ∈ w.service.users addr, other = user) ∧ stun.userName.length ≤ 444) ∧
        (isDtls buf || isRtcp buf → ∀ user ∈ w.service.users addr, w.live user)))
  | some _, .closeUser _ => isTrue trivial
  | none, _ => isTrue trivial

/-- A STUN request with a name of four bytes. -/
def stunRequest (name : List UInt8) : List UInt8 :=
  [0x00, 0x01, 0x00, 0x08, 0x21, 0x12, 0xa4, 0x42, 0, 0, 0, 0, 0, 0, 0, 0, 0, 0, 0, 0,
    0x00, 0x06, 0x00, 0x04] ++ name

/-- Two players share an address: requests from it name the one and then the other, and a record of
the second one is given to the first one. -/
theorem not_deliversRight_rebound :
  ¬ ∀ (hmacSha1 : List UInt8 → List UInt8 → Mac) (es : List WebrtcWorldEvent),
      Steps (step hmacSha1) (DeliversRight hmacSha1) (some {}) es
  := by
  intro h
  have hrun := h (fun _ _ => ⟨List.replicate 20 0, List.length_replicate⟩)
    [.request [0x61] [], .request [0x62] [],
      .datagram ⟨0x7f000001, 5000⟩ (stunRequest [0x61, 0x3a, 0x78, 0x79]),
      .datagram ⟨0x7f000001, 5000⟩ (stunRequest [0x62, 0x3a, 0x78, 0x79]),
      .datagram ⟨0x7f000001, 5000⟩ (0x16 :: List.replicate 13 0)]
  revert hrun
  decide +kernel

/-- A player joins, is named by a request, gets a record, and leaves. -/
theorem deliversRight_one :
  Steps (step fun _ _ => ⟨List.replicate 20 0, List.length_replicate⟩)
    (DeliversRight fun _ _ => ⟨List.replicate 20 0, List.length_replicate⟩) (some {})
    [.request [0x61] [], .datagram ⟨0x7f000001, 5000⟩ (stunRequest [0x61, 0x3a, 0x78, 0x79]),
      .datagram ⟨0x7f000001, 5000⟩ (0x16 :: List.replicate 13 0), .closeUser 0]
  := by
  apply deliversRight_of_allowed
  decide +kernel

end WebrtcWorld
