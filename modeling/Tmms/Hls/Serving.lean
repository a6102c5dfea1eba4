import Tmms.Hls.Owners
import Tmms.Http.Posting
import Tmms.Http.Request
import Tmms.Library.Runs

/-!
# Serving fragments

A request for a `.ts` file looks a fragment up, posts a header with its size and its packet, and the
packet is sent when the header has been written.  In between the publisher's packets come to the
muxer.  A run lists all these steps, of any number of connections.

Whoever asks has the content from when the fragment was looked up (`immutable_of_keepsRequested`),
in every run in which no fragment leaves the window between the lookup and the sending.  A fragment
that does is reset, and its packet, which the connection holds, is empty or has the content of a
later fragment (`not_immutable_slowRequest`).  The connection reads the packet while it writes, so
the bytes are those from the lookup to the end if the fragment stays in the window until the body
has been written, too.

What the requests remember of the lookup is in the state only to state this.
-/

/-- The response of `OnRequest` for a `.ts` file of some size. -/
def tsResponse (size : Int) : HttpRequest :=
  (((({ isRequest := false } : HttpRequest).addHeader (ascii "server") (ascii "tmms")).addHeader
    (ascii "content-length") (ascii (toString size))).addHeader
    (ascii "content-type") (ascii "video/MP2T")).setStatusCode 200

/-- The length that a response announces. -/
def contentLength (response : HttpRequest) : List UInt8 :=
  response.getHeader (ascii "content-length")

/-- A response that was sent: the content of the fragment when it was looked up, the header, and
the bytes of the body. -/
structure ServedFragment where
  content : List UInt8
  header : Option HttpRequest
  body : List UInt8

/-- A response has the content from the lookup, and announced its length. -/
def ServedFragment.Faithful (r : ServedFragment) : Prop :=
  r.body = r.content ∧
    ∃ header, r.header = some header ∧ contentLength header = ascii (toString r.body.length)

/-- The muxer and the connections. `looked` is what `OnRequest` of a connection has got from
`GetFragment`, and `posted` what the response of a connection is of; both have the content from the
lookup. `nullRead` tells of a size that was read without a packet. -/
structure HlsServing where
  muxer : HLSMuxer
  contexts : Nat → HttpPosting HttpRequest PacketPtr := fun _ => {}
  looked : Nat → Option (FragmentPtr × List UInt8) := fun _ => none
  posted : Nat → Option (FragmentPtr × List UInt8) := fun _ => none
  served : List ServedFragment := []
  nullRead : Bool := false

/-- The steps of a run: a packet at a reading of the clock, a lookup, the post that follows it, the
post of some other response, and a completed write. -/
inductive HlsEvent where
  | packet (now : Int) (packet : Packet Unit)
  | lookup (connection : Nat) (name : String)
  | post (connection : Nat)
  | postOther (connection : Nat) (response : HttpRequest)
  | writeComplete (connection : Nat)

namespace HlsServing

/-- `GetFragment` in `OnRequest`. A connection is in `OnRequest` once. -/
def lookup (s : HlsServing) (connection : Nat) (name : String) : HlsServing :=
  match s.looked connection, s.muxer.getFragment name with
  | none, some f =>
      { s with
        looked := Function.update s.looked connection (some (f, s.muxer.memory.content f)) }
  | _, _ => s

/-- The rest of `OnRequest`. -/
def post (s : HlsServing) (connection : Nat) : HlsServing :=
  match s.looked connection with
  | none => s
  | some (f, content) =>
      let s := { s with looked := Function.update s.looked connection none }
      match (s.muxer.memory.fragments f).data with
      | none => { s with nullRead := true }
      | some p =>
          let context := s.contexts connection
          let response := tsResponse (int32 (s.muxer.memory.packets p).size)
          { s with
            contexts := Function.update s.contexts connection
              (context.postRequestPacket response p).1
            posted := Function.update s.posted connection
              (if context.postState = .init then some (f, content) else s.posted connection) }

/-- Some other response is posted. -/
def postOther (s : HlsServing) (connection : Nat) (response : HttpRequest) : HlsServing :=
  { s with
    contexts := Function.update s.contexts connection
      ((s.contexts connection).postRequest response).1 }

/-- What is sent, a packet with the bytes it has now. -/
def send (s : HlsServing) (connection : Nat) : HttpPost HttpRequest PacketPtr → HlsServing
  | .sendPacket p =>
      { s with
        served := s.served ++ [{
          content := ((s.posted connection).map Prod.snd).getD []
          header := (s.contexts connection).header
          body := (s.muxer.memory.packets p).payload }] }
  | _ => s

/-- `WriteComplete`. -/
def writeComplete (s : HlsServing) (connection : Nat) : HlsServing :=
  let (context, posts) := (s.contexts connection).writeComplete
  posts.foldl (fun s post => s.send connection post)
    { s with contexts := Function.update s.contexts connection context }

/-- A step. It has no result if `OnPacket` has none. -/
def stepFrom (s : HlsServing) : HlsEvent → Option HlsServing
  | .packet now packet =>
      match s.muxer.onPacket now packet with
      | some muxer => some { s with muxer := muxer }
      | none => none
  | .lookup connection name => some (s.lookup connection name)
  | .post connection => some (s.post connection)
  | .postOther connection response => some (s.postOther connection response)
  | .writeComplete connection => some (s.writeComplete connection)

/-- A step of a run. -/
def step (s : Option HlsServing) (e : HlsEvent) : Option HlsServing := s.bind fun s => s.stepFrom e

/-- The start of a stream, whatever the static variables are. -/
def start (name : String) (g : TsTool.Globals) : HlsServing :=
  { muxer := { streamName := name, statics := g } }

/-- Every fragment was sent as it was when it was looked up. -/
structure Immutable (s : HlsServing) : Prop where
  nullRead : s.nullRead = false
  faithful : ∀ r ∈ s.served, r.Faithful

/-- A request is between its lookup and the sending of the fragment. -/
def Requested (s : HlsServing) (f : FragmentPtr) : Prop :=
  ∃ connection content, s.looked connection = some (f, content) ∨
    (s.contexts connection).postState = .httpHeader ∧ s.posted connection = some (f, content)

/-- No fragment leaves the window that is requested, and a fragment has a packet when its size is
read. -/
def KeepsRequested (s : HlsServing) : HlsEvent → Prop
  | .packet _ packet => ∀ f ∈ s.muxer.dropped packet, ¬ s.Requested f
  | .post connection =>
      ∀ f content, s.looked connection = some (f, content) →
        (s.muxer.memory.fragments f).data ≠ none
  | _ => True

/-! ### What is requested stays -/

/-- What is looked up and posted is in the window, and has the content from the lookup. -/
structure Serves (s : HlsServing) : Prop where
  held : s.muxer.WellHeld
  looked : ∀ c f content, s.looked c = some (f, content) →
    f ∈ s.muxer.fragmentWindow.fragments ∧ content = s.muxer.memory.content f
  posted : ∀ c, (s.contexts c).postState = .httpHeader →
    ∃ f p, s.posted c = some (f, s.muxer.memory.content f) ∧
      f ∈ s.muxer.fragmentWindow.fragments ∧ (s.muxer.memory.fragments f).data = some p ∧
      (s.contexts c).outPacket = some p ∧
      (s.contexts c).header = some (tsResponse (s.muxer.memory.content f).length)

theorem serves_start (name : String) (g : TsTool.Globals) :
  (start name g).Serves
  := by
  refine ⟨HLSMuxer.wellHeld_new name, ?_, ?_⟩
  · intro c f content h
    cases h
  · intro c h
    cases h

theorem immutable_start (name : String) (g : TsTool.Globals) :
  (start name g).Immutable
  := by
  refine ⟨rfl, ?_⟩
  intro r hr
  cases hr

theorem contentLength_tsResponse (size : Int) :
  contentLength (tsResponse size) = ascii (toString size)
  := rfl

variable {s s' : HlsServing}

/-- A fragment that does not leave the window stays as it is. -/
theorem Serves.stays (h : s.Serves) {now : Int} {packet : Packet Unit} {muxer : HLSMuxer}
    (hpacket : s.muxer.onPacket now packet = some muxer) {f : FragmentPtr}
    (hf : f ∈ s.muxer.fragmentWindow.fragments) (hout : f ∉ s.muxer.dropped packet) :
  f ∈ muxer.fragmentWindow.fragments ∧ s.muxer.memory.Keeps muxer.memory f
  := by
  obtain ⟨-, hfragments, hsame⟩ := HLSMuxer.onPacket_keeps h.held hpacket
  have hin : f ∈ muxer.fragmentWindow.fragments
    := by
    rw [hfragments]
    exact (HLSMuxer.mem_closeFragment h.held packet).mpr ⟨.inl hf, hout⟩
  exact ⟨hin, hsame f hin⟩

/-- A packet that keeps what is requested. -/
theorem Serves.packet (h : s.Serves) {now : Int} {packet : Packet Unit}
    (hkeeps : s.KeepsRequested (.packet now packet)) {muxer : HLSMuxer}
    (hpacket : s.muxer.onPacket now packet = some muxer) :
  Serves { s with muxer := muxer }
  := by
  obtain ⟨hheld, -⟩ := HLSMuxer.onPacket_keeps h.held hpacket
  have hstays := fun f hf hrequested =>
    h.stays hpacket hf fun hdropped => hkeeps f hdropped hrequested
  refine ⟨hheld, ?_, ?_⟩
  · intro c f content hlooked
    obtain ⟨hf, rfl⟩ := h.looked c f content hlooked
    obtain ⟨hin, -, hcontent⟩ := hstays f hf ⟨c, _, .inl hlooked⟩
    exact ⟨hin, hcontent.symm⟩
  · intro c hstate
    obtain ⟨f, p, hposted, hf, hdata, hpacket, hheader⟩ := h.posted c hstate
    obtain ⟨hin, hfragment, hcontent⟩ := hstays f hf ⟨c, _, .inr ⟨hstate, hposted⟩⟩
    refine ⟨f, p, ?_, hin, ?_, hpacket, ?_⟩
    · rw [hcontent]
      exact hposted
    · rw [hfragment]
      exact hdata
    · rw [hcontent]
      exact hheader

theorem Serves.lookup (h : s.Serves) (connection : Nat) (name : String) :
  (s.lookup connection name).Serves
  := by
  rw [HlsServing.lookup]
  split
  · rename_i f hlooked hfound
    refine ⟨h.held, ?_, h.posted⟩
    intro c g content hc
    dsimp only at hc
    rcases eq_or_ne c connection with rfl | hne
    · rw [Function.update_self] at hc
      obtain ⟨rfl, rfl⟩ := Prod.mk.inj (Option.some.inj hc)
      exact ⟨List.mem_of_find?_eq_some hfound, rfl⟩
    · rw [Function.update_of_ne hne] at hc
      exact h.looked c g content hc
  · exact h

/-- The size of a fragment that is announced. -/
theorem size_eq {m : HlsMemory} {f : FragmentPtr} (h : m.Stored f) {p : PacketPtr}
    (hp : (m.fragments f).data = some p) :
  int32 (m.packets p).size = (m.content f).length ∧ m.content f = (m.packets p).payload
  := by
  have hstores := h.some p hp
  have hcapacity := hstores.capacity
  have hle := hstores.size_le
  have hlt := h.bufSize_lt
  have hcontent : m.content f = (m.packets p).payload
    := by
    rw [HlsMemory.content, hp]
  rw [hcontent, hstores.length]
  exact ⟨int32_of_lt (by omega), rfl⟩

theorem Serves.post (h : s.Serves) {connection : Nat}
    (hkeeps : s.KeepsRequested (.post connection)) :
  (s.post connection).Serves ∧ (s.post connection).nullRead = s.nullRead ∧
    (s.post connection).served = s.served
  := by
  have hless : ∀ c f content,
      Function.update s.looked connection none c = some (f, content) →
      f ∈ s.muxer.fragmentWindow.fragments ∧ content = s.muxer.memory.content f
    := by
    intro c f content hc
    rcases eq_or_ne c connection with rfl | hne
    · rw [Function.update_self] at hc
      cases hc
    · rw [Function.update_of_ne hne] at hc
      exact h.looked c f content hc
  rw [HlsServing.post]
  split
  · exact ⟨h, rfl, rfl⟩
  · rename_i f content hlooked
    obtain ⟨hf, rfl⟩ := h.looked connection f content hlooked
    dsimp only
    split
    · rename_i hnone
      exact absurd hnone (hkeeps f _ hlooked)
    · rename_i p hp
      obtain ⟨hsize, -⟩ := size_eq (h.held.owned.stored f) hp
      refine ⟨⟨h.held, hless, ?_⟩, rfl, rfl⟩
      intro c hstate
      dsimp only at hstate ⊢
      rcases eq_or_ne c connection with rfl | hne
      · rw [Function.update_self] at hstate ⊢
        rw [Function.update_self, HttpPosting.postRequestPacket] at *
        split at hstate
        · rename_i hbusy
          rw [if_pos hbusy, if_neg hbusy]
          exact h.posted c hstate
        · rename_i hfree
          rw [if_neg hfree, if_pos (not_not.mp hfree), hsize]
          exact ⟨f, p, rfl, hf, hp, rfl, rfl⟩
      · rw [Function.update_of_ne hne] at hstate ⊢
        rw [Function.update_of_ne hne]
        exact h.posted c hstate

theorem Serves.postOther (h : s.Serves) (connection : Nat) (response : HttpRequest) :
  (s.postOther connection response).Serves
  := by
  refine ⟨h.held, h.looked, ?_⟩
  intro c hstate
  dsimp only [HlsServing.postOther] at hstate ⊢
  rcases eq_or_ne c connection with rfl | hne
  · rw [Function.update_self, HttpPosting.postRequest] at *
    split at hstate
    · rename_i hbusy
      rw [if_pos hbusy]
      exact h.posted c hstate
    · cases hstate
  · rw [Function.update_of_ne hne] at hstate ⊢
    exact h.posted c hstate

/-- What is sent is the content from the lookup. -/
theorem Serves.writeComplete (h : s.Serves) (hs : s.Immutable) (connection : Nat) :
  (s.writeComplete connection).Serves ∧ (s.writeComplete connection).Immutable
  := by
  have hother : ∀ context : HttpPosting HttpRequest PacketPtr, context.postState ≠ .httpHeader →
      ∀ served, Serves { s with
        contexts := Function.update s.contexts connection context
        served := served }
    := by
    intro context hcontext served
    refine ⟨h.held, h.looked, ?_⟩
    intro c hstate
    dsimp only at hstate ⊢
    rcases eq_or_ne c connection with rfl | hne
    · rw [Function.update_self] at hstate
      exact absurd hstate hcontext
    · rw [Function.update_of_ne hne] at hstate ⊢
      exact h.posted c hstate
  rw [HlsServing.writeComplete, HttpPosting.writeComplete]
  cases hstate : (s.contexts connection).postState with
  | init =>
      refine ⟨hother (s.contexts connection) ?_ s.served, ⟨hs.nullRead, hs.faithful⟩⟩
      rw [hstate]
      decide
  | http => exact ⟨hother _ (by intro hcase; cases hcase) s.served, ⟨hs.nullRead, hs.faithful⟩⟩
  | httpBody => exact ⟨hother _ (by intro hcase; cases hcase) s.served, ⟨hs.nullRead, hs.faithful⟩⟩
  | httpHeader =>
      obtain ⟨f, p, hposted, hf, hdata, hpacket, hheader⟩ := h.posted connection hstate
      obtain ⟨-, hcontent⟩ := size_eq (h.held.owned.stored f) hdata
      dsimp only
      rw [hpacket]
      change Serves { s with contexts := _, served := s.served ++ [_] } ∧
        Immutable { s with contexts := _, served := s.served ++ [_] }
      refine ⟨hother _ (by intro hcase; cases hcase) _, ⟨hs.nullRead, ?_⟩⟩
      intro r hr
      rcases List.mem_append.mp hr with hold | hnew
      · exact hs.faithful r hold
      · rw [List.mem_singleton.mp hnew]
        dsimp only
        rw [Function.update_self, hposted]
        refine ⟨hcontent.symm, _, hheader, ?_⟩
        rw [contentLength_tsResponse, hcontent]
        rfl

/-- A step that keeps what is requested. -/
theorem serves_stepFrom (h : s.Serves) (hs : s.Immutable) {e : HlsEvent}
    (hkeeps : s.KeepsRequested e)
    (hstep : s.stepFrom e = some s') :
  s'.Serves ∧ s'.Immutable
  := by
  cases e with
  | packet now packet =>
      rw [stepFrom] at hstep
      split at hstep
      · rename_i muxer hpacket
        obtain rfl := Option.some.inj hstep
        exact ⟨h.packet hkeeps hpacket, ⟨hs.nullRead, hs.faithful⟩⟩
      · cases hstep
  | lookup connection name =>
      obtain rfl := Option.some.inj hstep
      refine ⟨h.lookup connection name, ?_⟩
      rw [HlsServing.lookup]
      split
      · exact ⟨hs.nullRead, hs.faithful⟩
      · exact hs
  | post connection =>
      obtain rfl := Option.some.inj hstep
      obtain ⟨hserves, hnull, hserved⟩ := h.post hkeeps
      refine ⟨hserves, ⟨hnull.trans hs.nullRead, ?_⟩⟩
      rw [hserved]
      exact hs.faithful
  | postOther connection response =>
      obtain rfl := Option.some.inj hstep
      exact ⟨h.postOther connection response, ⟨hs.nullRead, hs.faithful⟩⟩
  | writeComplete connection =>
      obtain rfl := Option.some.inj hstep
      exact h.writeComplete hs connection

/-! ### While it is written -/

/-- A fragment has been given to a connection, which has not written all of it. -/
def Sending (s : HlsServing) (f : FragmentPtr) : Prop :=
  ∃ connection content,
    (s.contexts connection).postState = .httpBody ∧ s.posted connection = some (f, content)

/-- No fragment leaves the window that is being sent. -/
def KeepsSending (s : HlsServing) : HlsEvent → Prop
  | .packet _ packet => ∀ f ∈ s.muxer.dropped packet, ¬s.Sending f
  | _ => True

/-- The packets that connections write have the content from the lookup. -/
def Intact (s : HlsServing) : Prop :=
  ∀ c, (s.contexts c).postState = .httpBody → ∃ f content p, s.posted c = some (f, content) ∧
    (s.contexts c).outPacket = some p ∧ (s.muxer.memory.packets p).payload = content

/-- What is being sent is in the window, and has the content from the lookup. -/
def Sends (s : HlsServing) : Prop :=
  ∀ c, (s.contexts c).postState = .httpBody →
    ∃ f p, s.posted c = some (f, s.muxer.memory.content f) ∧
      f ∈ s.muxer.fragmentWindow.fragments ∧ (s.muxer.memory.fragments f).data = some p ∧
      (s.contexts c).outPacket = some p

theorem Sends.intact (h : s.Sends) (hserves : s.Serves) :
  s.Intact
  := by
  intro c hstate
  obtain ⟨f, p, hposted, -, hdata, hpacket⟩ := h c hstate
  obtain ⟨-, hcontent⟩ := size_eq (hserves.held.owned.stored f) hdata
  exact ⟨f, _, p, hposted, hpacket, hcontent.symm⟩

theorem Sends.packet (h : s.Sends) (hserves : s.Serves) {now : Int} {packet : Packet Unit}
    (hkeeps : s.KeepsSending (.packet now packet)) {muxer : HLSMuxer}
    (hpacket : s.muxer.onPacket now packet = some muxer) :
  Sends { s with muxer := muxer }
  := by
  intro c hstate
  obtain ⟨f, p, hposted, hf, hdata, hout⟩ := h c hstate
  obtain ⟨hin, hfragment, hcontent⟩ := hserves.stays hpacket hf fun hdropped =>
    hkeeps f hdropped ⟨c, _, hstate, hposted⟩
  refine ⟨f, p, ?_, hin, ?_, hout⟩
  · rw [hcontent]
    exact hposted
  · rw [hfragment]
    exact hdata

theorem Sends.post (h : s.Sends) (connection : Nat) :
  (s.post connection).Sends
  := by
  rw [HlsServing.post]
  split
  · exact h
  · dsimp only
    split
    · exact h
    · intro c hstate
      dsimp only at hstate ⊢
      rcases eq_or_ne c connection with rfl | hne
      · rw [Function.update_self] at hstate ⊢
        rw [Function.update_self, HttpPosting.postRequestPacket] at *
        split at hstate
        · next hbusy =>
            rw [if_pos hbusy, if_neg hbusy]
            exact h c hstate
        · cases hstate
      · rw [Function.update_of_ne hne] at hstate ⊢
        rw [Function.update_of_ne hne]
        exact h c hstate

theorem Sends.postOther (h : s.Sends) (connection : Nat) (response : HttpRequest) :
  (s.postOther connection response).Sends
  := by
  intro c hstate
  dsimp only [HlsServing.postOther] at hstate ⊢
  rcases eq_or_ne c connection with rfl | hne
  · rw [Function.update_self, HttpPosting.postRequest] at *
    split at hstate
    · next hbusy =>
        rw [if_pos hbusy]
        exact h c hstate
    · cases hstate
  · rw [Function.update_of_ne hne] at hstate ⊢
    exact h c hstate

/-- What is sent next was requested before. -/
theorem Sends.writeComplete (h : s.Sends) (hserves : s.Serves) (connection : Nat) :
  (s.writeComplete connection).Sends
  := by
  have hother : ∀ context : HttpPosting HttpRequest PacketPtr, context.postState ≠ .httpBody →
      Sends { s with contexts := Function.update s.contexts connection context }
    := by
    intro context hcontext c hstate
    dsimp only at hstate ⊢
    rcases eq_or_ne c connection with rfl | hne
    · rw [Function.update_self] at hstate
      exact absurd hstate hcontext
    · rw [Function.update_of_ne hne] at hstate ⊢
      exact h c hstate
  rw [HlsServing.writeComplete, HttpPosting.writeComplete]
  cases hstate : (s.contexts connection).postState with
  | init =>
      apply hother
      rw [hstate]
      decide
  | http => exact hother _ (by intro hcase; cases hcase)
  | httpBody => exact hother _ (by intro hcase; cases hcase)
  | httpHeader =>
      obtain ⟨f, p, hposted, hf, hdata, hpacket, -⟩ := hserves.posted connection hstate
      dsimp only
      rw [hpacket]
      intro c hbody
      change (Function.update s.contexts connection _ c).postState = .httpBody at hbody
      change ∃ f p, s.posted c = some (f, s.muxer.memory.content f) ∧
        f ∈ s.muxer.fragmentWindow.fragments ∧ (s.muxer.memory.fragments f).data = some p ∧
        (Function.update s.contexts connection _ c).outPacket = some p
      rcases eq_or_ne c connection with rfl | hne
      · rw [Function.update_self]
        exact ⟨f, p, hposted, hf, hdata, rfl⟩
      · rw [Function.update_of_ne hne] at hbody ⊢
        exact h c hbody

theorem sends_stepFrom (h : s.Sends) (hserves : s.Serves) {e : HlsEvent} (hkeeps : s.KeepsSending e)
    (hstep : s.stepFrom e = some s') :
  s'.Sends
  := by
  cases e with
  | packet now packet =>
      rw [stepFrom] at hstep
      split at hstep
      · next muxer hpacket =>
          obtain rfl := Option.some.inj hstep
          exact h.packet hserves hkeeps hpacket
      · cases hstep
  | lookup connection name =>
      obtain rfl := Option.some.inj hstep
      rw [HlsServing.lookup]
      split
      · exact h
      · exact h
  | post connection =>
      obtain rfl := Option.some.inj hstep
      exact h.post connection
  | postOther connection response =>
      obtain rfl := Option.some.inj hstep
      exact h.postOther connection response
  | writeComplete connection =>
      obtain rfl := Option.some.inj hstep
      exact h.writeComplete hserves connection

/-! ### Runs -/

open Runs

/-- Every fragment is sent as it was when it was looked up, in every run in which no fragment
leaves the window that is requested.  If none leaves it either that is being sent, the packets have
this content as long as connections write them. -/
theorem immutable_of_keepsRequested (name : String) (g : TsTool.Globals) {events : List HlsEvent}
    (h : Steps step (fun s e => ∀ s', s = some s' → s'.KeepsRequested e) (some (start name g))
      events) :
  Throughout step (fun s => ∀ s', s = some s' → s'.Immutable) (some (start name g)) events ∧
    (Steps step (fun s e => ∀ s', s = some s' → s'.KeepsSending e) (some (start name g)) events →
      Throughout step (fun s => ∀ s', s = some s' → s'.Intact) (some (start name g)) events)
  := by
  have hstart : ∀ s, some (start name g) = some s → s.Serves ∧ s.Immutable
    := by
    rintro s ⟨⟩
    exact ⟨serves_start name g, immutable_start name g⟩
  constructor
  · have hthroughout : Throughout step (fun s => ∀ s', s = some s' → s'.Serves ∧ s'.Immutable)
        (some (start name g)) events
      := by
      apply h.throughout hstart
      intro s e hs hkeeps s' hstep
      obtain ⟨s, rfl, hfrom⟩ := Option.bind_eq_some_iff.mp hstep
      obtain ⟨hserves, himmutable⟩ := hs s rfl
      exact serves_stepFrom hserves himmutable (hkeeps s rfl) hfrom
    exact hthroughout.mono fun s hs s' hs' => (hs s' hs').2
  · intro hsending
    have hthroughout : Throughout step
        (fun s => ∀ s', s = some s' → (s'.Serves ∧ s'.Immutable) ∧ s'.Sends) (some (start name g))
        events
      := by
      apply (h.and hsending).throughout
      · intro s hs
        refine ⟨hstart s hs, ?_⟩
        obtain rfl := Option.some.inj hs
        exact fun c hstate => by cases hstate
      · intro s e hs hkeeps s' hstep
        obtain ⟨s, rfl, hfrom⟩ := Option.bind_eq_some_iff.mp hstep
        obtain ⟨⟨hserves, himmutable⟩, hsends⟩ := hs s rfl
        exact ⟨serves_stepFrom hserves himmutable (hkeeps.1 s rfl) hfrom,
          sends_stepFrom hsends hserves (hkeeps.2 s rfl) hfrom⟩
    refine hthroughout.mono fun s hs s' hs' => ?_
    obtain ⟨⟨hserves, -⟩, hsends⟩ := hs s' hs'
    exact hsends.intact hserves

/-! ### A slow request -/

/-- A packet of some type. -/
def packetOf (type : Int) (timestamp : Nat) (data : List UInt8) : Packet Unit where
  type := type
  size := UInt32.ofNat data.length
  timestamp := UInt64.ofNat timestamp
  capacity := UInt32.ofNat data.length
  data := data
  ext := ()

/-- The sequence headers of AAC and AVC. -/
def sequenceHeaders : List HlsEvent :=
  [.packet 0 (packetOf kPacketTypeAudio 0 [0xaf, 0x00, 0x12, 0x10]),
    .packet 0 (packetOf kPacketTypeVideo 0 [0x17, 0x00, 0x00, 0x00, 0x00])]

/-- Packets without samples, which move the time on. -/
def pauses (times : List Nat) : List HlsEvent :=
  times.map fun (t : Nat) => .packet t (packetOf kPacketTypeAudio t [0xaf, 0x02])

/-- A fragment is in the window, and is looked up and posted. -/
def request : List HlsEvent :=
  sequenceHeaders ++ pauses [0, 13000, 26000] ++ [.lookup 0 "s_0.ts", .post 0]

/-- Nothing leaves the window, and what is looked up has a packet. -/
def isCalm : Option HlsServing → HlsEvent → Bool
  | some s, .packet _ packet => s.muxer.dropped packet == []
  | some s, .post connection =>
      (s.looked connection).all fun looked => (s.muxer.memory.fragments looked.1).data.isSome
  | _, _ => true

theorem keepsRequested_of_isCalm {s : Option HlsServing} {e : HlsEvent} (h : isCalm s e = true) :
  ∀ s', s = some s' → s'.KeepsRequested e ∧ s'.KeepsSending e
  := by
  rintro s rfl
  cases e with
  | packet now packet =>
      have hnone : s.muxer.dropped packet = [] := eq_of_beq h
      constructor
      · intro f hf
        rw [hnone] at hf
        cases hf
      · intro f hf
        rw [hnone] at hf
        cases hf
  | post connection =>
      refine ⟨?_, trivial⟩
      intro f content hlooked hnone
      rw [isCalm, hlooked] at h
      change (s.muxer.memory.fragments f).data.isSome = true at h
      rw [hnone] at h
      cases h
  | lookup connection name => exact ⟨trivial, trivial⟩
  | postOther connection response => exact ⟨trivial, trivial⟩
  | writeComplete connection => exact ⟨trivial, trivial⟩

/-- A request, and what happens until its body is written. -/
def servedRequest : List HlsEvent :=
  request ++ pauses [39000, 52000] ++ [.writeComplete 0] ++ pauses [53000] ++ [.writeComplete 0]

/-- The fragment is sent while the next one is begun, and written while it goes on. -/
theorem immutable_request :
  Throughout step (fun s => ∀ s', s = some s' → s'.Immutable) (some (start "s" {})) servedRequest ∧
    Throughout step (fun s => ∀ s', s = some s' → s'.Intact) (some (start "s" {})) servedRequest
  := by
  have hcalm : Steps step (fun s e => isCalm s e = true) (some (start "s" {})) servedRequest
    := by decide +kernel
  obtain ⟨himmutable, hintact⟩ := immutable_of_keepsRequested "s" {}
    (hcalm.mono fun s e h s' hs' => (keepsRequested_of_isCalm h s' hs').1)
  exact ⟨himmutable, hintact (hcalm.mono fun s e h s' hs' => (keepsRequested_of_isCalm h s' hs').2)⟩

/-- The fragment leaves the window before it is sent, and is sent with the tables of the sixth
fragment after it. -/
theorem not_immutable_slowRequest :
  ¬ ∀ (name : String) (g : TsTool.Globals) (events : List HlsEvent),
      Throughout step (fun s => ∀ s', s = some s' → s'.Immutable) (some (start name g)) events
  := by
  intro h
  have hlast := (h "s" {} (request ++ pauses [39000, 52000, 65000, 78000, 91000, 104000, 117000,
    130000, 143000, 156000] ++ [.writeComplete 0])).last
  generalize hend : run step (some (start "s" {})) _ = s at hlast
  have hsent : s.map (fun s => s.served.map fun r => (r.content[3]?, r.body[3]?)) =
      some [(some 0x10, some 0x16)]
    := by
    rw [← hend]
    decide +kernel
  cases s with
  | none => cases hsent
  | some s =>
      have hfaithful := (hlast s rfl).faithful
      rw [Option.map_some] at hsent
      cases hserved : s.served with
      | nil =>
          rw [hserved] at hsent
          cases hsent
      | cons r served =>
          rw [hserved] at hsent hfaithful
          have hfirst := (List.cons.inj (Option.some.inj hsent)).1
          obtain ⟨hcontent, hbody⟩ := Prod.mk.inj hfirst
          rw [(hfaithful r List.mem_cons_self).1, hcontent] at hbody
          revert hbody
          decide

end HlsServing
