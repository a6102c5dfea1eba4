import Tmms.Rtmp.ServerHandShake

/-!
# The handshake of a client and a server

A client and a server are connected by two queues of bytes: what an end sends comes out at the
other end, in pieces of any size.  A run lists the deliveries and the completions of writes.

The client sends C0C1 and then waits for S0S1, and in this state it does not look at what it
receives.  So it stays there in every run.
-/

open Runs

/-! ### The lengths of C1 and S1 -/

theorem length_overwrite {data bytes : List UInt8} {pos : Nat}
    (h : pos + bytes.length ≤ data.length) :
  (overwrite data pos bytes).length = data.length
  := by
  simp only [overwrite, List.length_append, List.length_take, List.length_drop]
  omega

theorem getDigestOffset_lt (buf : List UInt8) (off : Nat) {modVal : Nat} (h : 0 < modVal) :
  getDigestOffset buf off modVal < modVal + (off + 4)
  := by
  apply Nat.add_lt_add_right
  apply Nat.mod_lt _ h

theorem length_calculateDigest (crypto : HandShakeCrypto) (src : List UInt8) (gap : Nat)
    (key : List UInt8) :
  (calculateDigest crypto src gap key).length = 32
  := by
  rw [calculateDigest]
  split
  · apply crypto.length_hmac
  · apply crypto.length_hmac

namespace RtmpHandShake

/-- C0C1 and S0S1 have 1537 bytes. -/
theorem length_createC1S1 (crypto : HandShakeCrypto) (draws : HandShakeDraws)
    (h : RtmpHandShake) :
  (createC1S1 crypto draws h).c1s1.length = 1537
  := by
  have hopen : (overwrite (overwrite ((List.range (kRtmpHandShakePacketSize + 1)).map draws.c1s1)
      0 [0x03]) 1 [0, 0, 0, 0]).length = 1537
    := by
    have hrandom : ((List.range (kRtmpHandShakePacketSize + 1)).map draws.c1s1).length = 1537
      := by rw [List.length_map, List.length_range]; rfl
    have hversion := @length_overwrite _ [0x03] 0 (hrandom.symm ▸ (by decide : 0 + 1 ≤ 1537))
    rw [length_overwrite, hversion, hrandom]
    rw [hversion, hrandom]
    decide
  simp only [createC1S1]
  split
  · dsimp only
    have hver (isClient : Bool) :
        (if isClient then rtmpClientVer else rtmpServerVer).length = 4
      := by cases isClient <;> rfl
    rw [length_overwrite, length_overwrite, hopen]
    · rw [hver, hopen]
      decide
    · rw [length_calculateDigest, length_overwrite, hopen]
      · have hoffset := @getDigestOffset_lt ((overwrite (overwrite
          ((List.range (kRtmpHandShakePacketSize + 1)).map draws.c1s1) 0 [0x03]) 1
          [0, 0, 0, 0]).drop 1) 8 728 (by decide)
        omega
      · rw [hver, hopen]
        decide
  · dsimp only
    rw [length_overwrite, hopen]
    rw [hopen]
    decide

end RtmpHandShake

/-- What happens to a client and a server. -/
inductive HandShakePairEvent where
  | deliverToServer (n atOnce : Nat)
  | deliverToClient (n atOnce : Nat)
  | clientWritten (atOnce : Nat)
  | serverWritten (atOnce : Nat)
  deriving DecidableEq, Repr

/-- A client and a server, with the bytes on their ways. -/
structure HandShakePair where
  client : HandShakeEnd
  server : HandShakeEnd
  toServer : List UInt8 := []
  toClient : List UInt8 := []

namespace HandShakePair

variable (crypto : HandShakeCrypto) (forClient forServer : HandShakeDraws)

/-- What an end has sent from one state to a later one. -/
def sentSince (c c' : HandShakeEnd) : List UInt8 := (c'.sent.drop c.sent.length).flatten

/-- Both ends start, and some writes of the client complete at once. -/
def start (atOnce : Nat) : HandShakePair where
  client := .start crypto forClient true atOnce
  server := .start crypto forServer false 0
  toServer := (HandShakeEnd.start crypto forClient true atOnce).sent.flatten

def step (p : HandShakePair) : HandShakePairEvent → HandShakePair
  | .deliverToServer n atOnce =>
      let server := p.server.onRead crypto forServer (p.toServer.take n) atOnce
      { p with
        server := server
        toServer := p.toServer.drop n
        toClient := p.toClient ++ sentSince p.server server }
  | .deliverToClient n atOnce =>
      let client := p.client.onRead crypto forClient (p.toClient.take n) atOnce
      { p with
        client := client
        toClient := p.toClient.drop n
        toServer := p.toServer ++ sentSince p.client client }
  | .clientWritten atOnce =>
      let client := p.client.onWriteComplete atOnce
      { p with client := client, toServer := p.toServer ++ sentSince p.client client }
  | .serverWritten atOnce =>
      let server := p.server.onWriteComplete atOnce
      { p with server := server, toClient := p.toClient ++ sentSince p.server server }

/-- Bytes on the way come out at an end that is open, and a write that was begun completes. -/
def Possible (p : HandShakePair) : HandShakePairEvent → Prop
  | .deliverToServer n _ => 0 < n ∧ n ≤ p.toServer.length ∧ p.server.closed = false
  | .deliverToClient n _ => 0 < n ∧ n ≤ p.toClient.length ∧ p.client.closed = false
  | .clientWritten _ => p.client.writing = true ∧ p.client.closed = false
  | .serverWritten _ => p.server.writing = true ∧ p.server.closed = false

/-- Nothing more can happen. -/
def Final (p : HandShakePair) : Prop := ∀ e, ¬ p.Possible e

/-- Both handshakes are done, after C0C1, S0S1, S2 and C2 and nothing else, and no chunk has
been read. -/
def Complete (p : HandShakePair) : Prop :=
  (p.client.handShake.state = .done ∧ p.server.handShake.state = .done) ∧
    p.client.sent = [p.client.handShake.c1s1, p.client.handShake.c2s2] ∧
    p.server.sent = [p.server.handShake.c1s1, p.server.handShake.c2s2] ∧
    p.client.receiver = {} ∧ p.server.receiver = {}

/-- The client waits for S0S1, or will. -/
def ClientWaits (p : HandShakePair) : Prop :=
  p.client.state = .handShake ∧
    (p.client.handShake.state = .postC0C1 ∨ p.client.handShake.state = .waitS0S1)

variable {crypto forClient forServer} {p : HandShakePair}

theorem clientWaits_start (atOnce : Nat) :
  (start crypto forClient forServer atOnce).ClientWaits
  := by
  match atOnce with
  | 0 => exact ⟨rfl, .inl rfl⟩
  | atOnce + 1 => exact ⟨rfl, .inr rfl⟩

/-- A client that waits does not look at what it receives. -/
theorem onRead_of_clientWaits (h : p.ClientWaits) (bytes : List UInt8) (atOnce : Nat) :
  p.client.onRead crypto forClient bytes atOnce = p.client ∨
    p.client.onRead crypto forClient bytes atOnce =
      { p.client with buf := p.client.buf ++ bytes }
  := by
  obtain ⟨hcontext, hstate⟩ := h
  have h0 : p.client.handShake.state ≠ .waitC0C1
    := by rcases hstate with h | h <;> (rw [h]; rintro ⟨⟩)
  have h2 : p.client.handShake.state ≠ .waitC2
    := by rcases hstate with h | h <;> (rw [h]; rintro ⟨⟩)
  cases hclosed : p.client.closed with
  | true =>
      left
      rw [HandShakeEnd.onRead, if_pos hclosed]
  | false =>
      right
      have hwait := @HandShakeEnd.parse_of_wait crypto forClient
        { p.client with buf := p.client.buf ++ bytes } _ atOnce hcontext
        (HandShakeEnd.handShakeStep_of_ne h0 h2)
      rw [HandShakeEnd.onRead_eq hclosed RtmpServing.one_ne hwait]

/-- A client that has written C0C1 waits for S0S1. -/
theorem onWriteComplete_of_clientWaits (h : p.ClientWaits) (atOnce : Nat) :
  (p.client.onWriteComplete atOnce).state = .handShake ∧
    (p.client.onWriteComplete atOnce).handShake.state = .waitS0S1
  := by
  obtain ⟨hcontext, hstate⟩ := h
  rw [HandShakeEnd.onWriteComplete, HandShakeEnd.writeCompleted, hcontext]
  rcases hstate with hstate | hstate
  · rw [RtmpHandShake.writeComplete, hstate]
    exact ⟨rfl, rfl⟩
  · rw [RtmpHandShake.writeComplete, hstate]
    exact ⟨rfl, hstate⟩

/-- Whatever happens, the client waits. -/
theorem clientWaits_step (h : p.ClientWaits) (e : HandShakePairEvent) :
  (p.step crypto forClient forServer e).ClientWaits
  := by
  cases e with
  | deliverToServer n atOnce => apply h
  | serverWritten atOnce => apply h
  | deliverToClient n atOnce =>
      rw [step, ClientWaits]
      dsimp only
      rcases @onRead_of_clientWaits crypto forClient p h (p.toClient.take n) atOnce with hread | hread
      · rw [hread]
        apply h
      · rw [hread]
        apply h
  | clientWritten atOnce =>
      obtain ⟨hcontext, hstate⟩ := onWriteComplete_of_clientWaits h atOnce
      exact ⟨hcontext, .inr hstate⟩

theorem ClientWaits.not_complete (h : p.ClientWaits) :
  ¬ p.Complete
  := by
  rintro ⟨⟨hdone, -⟩, -⟩
  rcases h.2 with hstate | hstate
  · rw [hstate] at hdone
    cases hdone
  · rw [hstate] at hdone
    cases hdone

/-- In every run the client waits. -/
theorem clientWaits_run (atOnce : Nat) (events : List HandShakePairEvent) :
  (run (step crypto forClient forServer) (start crypto forClient forServer atOnce)
    events).ClientWaits
  := by
  apply Throughout.last
  apply Steps.throughout steps_true (clientWaits_start atOnce)
  intro p e h _
  apply clientWaits_step h

/-- Nothing more can happen when nothing is on its way or being written. -/
theorem final_of_idle (hserver : p.toServer = []) (hclient : p.toClient = [])
    (hidle : p.client.writing = false) (hidle' : p.server.writing = false) :
  p.Final
  := by
  rintro (⟨n, atOnce⟩ | ⟨n, atOnce⟩ | atOnce | atOnce)
  · rintro ⟨hpos, hle, -⟩
    rw [hserver] at hle
    exact absurd hle (Nat.not_le_of_lt hpos)
  · rintro ⟨hpos, hle, -⟩
    rw [hclient] at hle
    exact absurd hle (Nat.not_le_of_lt hpos)
  · rintro ⟨hwriting, -⟩
    rw [hidle] at hwriting
    cases hwriting
  · rintro ⟨hwriting, -⟩
    rw [hidle'] at hwriting
    cases hwriting

/-- What is on its way to a client that waits can be delivered, and nothing follows. -/
theorem exists_final_of_clientWaits (h : p.ClientWaits) (hopen : p.client.closed = false)
    (hserver : p.toServer = []) (hidle : p.client.writing = false)
    (hidle' : p.server.writing = false) :
  ∃ events, Steps (step crypto forClient forServer) Possible p events ∧
    (run (step crypto forClient forServer) p events).Final
  := by
  by_cases hclient : p.toClient = []
  · exact ⟨[], trivial, final_of_idle hserver hclient hidle hidle'⟩
  · use [.deliverToClient p.toClient.length 0]
    refine ⟨⟨⟨List.length_pos_iff.mpr hclient, Nat.le_refl _, hopen⟩, trivial⟩, ?_⟩
    obtain ⟨hsent, hwriting⟩ :
        (p.client.onRead crypto forClient (p.toClient.take p.toClient.length) 0).sent =
            p.client.sent ∧
          (p.client.onRead crypto forClient (p.toClient.take p.toClient.length) 0).writing = false
      := by
      rcases @onRead_of_clientWaits crypto forClient p h (p.toClient.take p.toClient.length) 0
        with hread | hread
      · rw [hread]
        exact ⟨rfl, hidle⟩
      · rw [hread]
        exact ⟨rfl, hidle⟩
    apply final_of_idle
    · change p.toServer ++ sentSince _ _ = []
      rw [hserver, sentSince, hsent, List.drop_length]
      rfl
    · apply List.drop_length
    · apply hwriting
    · apply hidle'

/-- A server that gets C0C1 writes everything, when its writes complete at once, or nothing. -/
theorem writing_onRead_C0C1 (c0c1 : List UInt8) (hlen : c0c1.length = 1537) :
  ((HandShakeEnd.start crypto forServer false 0).onRead crypto forServer c0c1 2).writing = false
  := by
  have htake : c0c1.take 1537 = c0c1 := List.take_of_length_le (Nat.le_of_eq hlen)
  have hall : ¬ c0c1.length < 1537 := Nat.not_lt_of_le (Nat.le_of_eq hlen.symm)
  by_cases haccept : 0 ≤ crypto.checkC1S1 false c0c1
  · have hread := @RtmpServing.read_C0C1 crypto forServer [] c0c1 2 (Nat.le_of_eq hlen.symm) (by
      rw [List.nil_append, htake]
      apply haccept)
    have hserver := congrArg RtmpServing.server hread
    exact congrArg HandShakeEnd.writing hserver
  · have hrefuse : ¬ 0 ≤ crypto.checkC1S1 false (c0c1.take 1537)
      := by
      rw [htake]
      apply haccept
    have hclosed := @HandShakeEnd.onRead_of_refused crypto forServer
      (HandShakeEnd.start crypto forServer false 0) _ c0c1 2 rfl
      (HandShakeEnd.parse_of_refused rfl (HandShakeEnd.handShakeStep_refused rfl hall hrefuse))
    rw [hclosed]
    rfl

/-- C0C1 can be delivered to a server that has started, then what the server sends, and nothing
follows. -/
theorem exists_final_of_started (h : p.ClientWaits) (hopen : p.client.closed = false)
    (hidle : p.client.writing = false) (hlen : p.toServer.length = 1537)
    (hserver : p.server = .start crypto forServer false 0) :
  ∃ events, Steps (step crypto forClient forServer) Possible p events ∧
    (run (step crypto forClient forServer) p events).Final
  := by
  have hpossible : p.Possible (.deliverToServer p.toServer.length 2)
    := by
    refine ⟨?_, Nat.le_refl _, ?_⟩
    · rw [hlen]
      decide
    · rw [hserver]
      rfl
  have hempty : (p.step crypto forClient forServer
      (.deliverToServer p.toServer.length 2)).toServer = []
    := by
    rw [step]
    apply List.drop_length
  have hidle' : (p.step crypto forClient forServer
      (.deliverToServer p.toServer.length 2)).server.writing = false
    := by
    rw [step, hserver, List.take_length]
    apply writing_onRead_C0C1 _ hlen
  obtain ⟨events, hpossible', hfinal⟩ := exists_final_of_clientWaits
    (@clientWaits_step crypto forClient forServer p h (.deliverToServer p.toServer.length 2))
    hopen hempty hidle hidle'
  use .deliverToServer p.toServer.length 2 :: events
  exact ⟨⟨hpossible, hpossible'⟩, hfinal⟩

theorem exists_final (crypto : HandShakeCrypto) (forClient forServer : HandShakeDraws) :
  ∃ events,
    Steps (step crypto forClient forServer) Possible (start crypto forClient forServer 1) events ∧
      (run (step crypto forClient forServer) (start crypto forClient forServer 1) events).Final
  := by
  apply exists_final_of_started (clientWaits_start 1) rfl rfl
  · change ([_] : List (List UInt8)).flatten.length = 1537
    rw [List.flatten_singleton]
    apply RtmpHandShake.length_createC1S1
  · rfl

/-- In no run is the handshake complete, and there are runs that end. -/
theorem not_complete_run (crypto : HandShakeCrypto) (forClient forServer : HandShakeDraws) :
  (∀ atOnce events, ¬ (run (step crypto forClient forServer)
      (start crypto forClient forServer atOnce) events).Complete) ∧
    ∃ atOnce events,
      Steps (step crypto forClient forServer) Possible
          (start crypto forClient forServer atOnce) events ∧
        (run (step crypto forClient forServer) (start crypto forClient forServer atOnce)
          events).Final
  := by
  constructor
  · intro atOnce events
    apply (clientWaits_run atOnce events).not_complete
  · exact ⟨1, exists_final crypto forClient forServer⟩

open RtmpServing (zeroCrypto zeroDraws) in
/-- A run in which the digests are accepted ends with a client that waits. -/
theorem not_complete_zero :
  ¬ ∀ atOnce events,
      Steps (step zeroCrypto zeroDraws zeroDraws) Possible
          (start zeroCrypto zeroDraws zeroDraws atOnce) events →
        (run (step zeroCrypto zeroDraws zeroDraws) (start zeroCrypto zeroDraws zeroDraws atOnce)
          events).Final →
        (run (step zeroCrypto zeroDraws zeroDraws) (start zeroCrypto zeroDraws zeroDraws atOnce)
          events).Complete
  := by
  intro h
  obtain ⟨events, hpossible, hfinal⟩ := exists_final zeroCrypto zeroDraws zeroDraws
  apply (clientWaits_run 1 events).not_complete (h 1 events hpossible hfinal)

end HandShakePair
