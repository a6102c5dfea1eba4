import Tmms.Rtmp.HandShake

/-!
# The handshake of a server

A run of a server lists the reads of the client's bytes and the completions of its own two
writes, in any order.  The unread bytes are looked at after a read only, and those of C2 only
in the state that the completion of S2 leads to.  So a server whose last write completes when
C0C1 and C2 have arrived waits for bytes that may never come.
-/

open Runs

/-- What happens to an end of a connection, with the number of writes that complete at
once. -/
inductive HandShakeEvent where
  | read (bytes : List UInt8) (atOnce : Nat)
  | writeComplete (atOnce : Nat)
  deriving DecidableEq, Repr

/-- A server, and the bytes that have arrived. -/
structure RtmpServing where
  server : HandShakeEnd
  received : List UInt8 := []

namespace RtmpServing

variable (crypto : HandShakeCrypto) (draws : HandShakeDraws)

def start : RtmpServing where
  server := .start crypto draws false 0

def step (s : RtmpServing) : HandShakeEvent → RtmpServing
  | .read bytes atOnce =>
      { server := s.server.onRead crypto draws bytes atOnce
        received := s.received ++ bytes }
  | .writeComplete atOnce => { s with server := s.server.onWriteComplete atOnce }

/-- A read has bytes, and the C1 that they complete is one that is accepted. Only a write that
was begun can be complete. -/
def Possible (s : RtmpServing) : HandShakeEvent → Prop
  | .read bytes _ =>
      bytes ≠ [] ∧
        (1537 ≤ (s.received ++ bytes).length →
          0 ≤ crypto.checkC1S1 false ((s.received ++ bytes).take 1537))
  | .writeComplete _ => s.server.writing = true

/-- C0C1 and C2 have arrived. -/
def Arrived (s : RtmpServing) : Prop := 1537 + 1536 ≤ s.received.length

/-- S0S1 and S2 have been sent, in this order, and both writes are complete. -/
def Written (s : RtmpServing) : Prop :=
  s.server.sent = [s.server.handShake.c1s1, s.server.handShake.c2s2] ∧ s.server.writing = false

/-- The handshake is done and messages are read. -/
def Done (s : RtmpServing) : Prop :=
  s.server.handShake.state = .done ∧ s.server.state = .message

/-- The handshake is done as soon as everything has arrived and has been written. -/
def DoneInTime (s : RtmpServing) : Prop := s.Arrived → s.Written → s.Done

/-- The handshake is done, or messages are read, only when everything has arrived and has been
written. The bytes behind C0C1 and C2 are read as chunks, in the pieces they came in. -/
def DoneInOrder (s : RtmpServing) : Prop :=
  s.server.handShake.state = .done ∨ s.server.state ≠ .handShake →
    s.Done ∧ s.Arrived ∧ s.Written ∧ s.server.buf = [] ∧
      ∃ pieces, pieces.flatten = s.received.drop (1537 + 1536) ∧
        s.server.receiver = RtmpReceiver.onReads {} pieces

/-- No byte is forgotten: the handshake is done exactly when it can be. -/
def LosesNoWakeUp (s : RtmpServing) : Prop := s.DoneInTime ∧ s.DoneInOrder

/-- When the write of S2 completes in an event, less than C0C1 and C2 has arrived. -/
def BeforeC2 (s : RtmpServing) : HandShakeEvent → Prop
  | .read bytes atOnce =>
      s.server.handShake.state = .waitC0C1 → 1537 ≤ (s.received ++ bytes).length → 2 ≤ atOnce →
        (s.received ++ bytes).length < 1537 + 1536
  | .writeComplete atOnce =>
      s.server.handShake.state = .postS2 ∨ s.server.handShake.state = .postS0S1 ∧ 1 ≤ atOnce →
        s.received.length < 1537 + 1536

/-! ### The phases of a server -/

/-- The handshake with S0S1. -/
def withS0S1 : RtmpHandShake := RtmpHandShake.createC1S1 crypto draws { isClient := false }

/-- The handshake with the S2 for a C0C1. -/
def withS2 (c0c1 : List UInt8) : RtmpHandShake :=
  (withS0S1 crypto draws).createC2S2 crypto draws (c0c1.drop 1)
    (crypto.checkC1S1 false c0c1).toNat

theorem withS2_isClient (c0c1 : List UInt8) :
  (withS2 crypto draws c0c1).isClient = false
  := (RtmpHandShake.createC2S2_frame crypto draws _ .init _ _).2.2

/-- Where a server is after some bytes. -/
inductive Phase : RtmpServing → Prop where
  | waitC0C1 {received : List UInt8} (hshort : received.length < 1537) :
      Phase
        { server :=
            { handShake := { withS0S1 crypto draws with state := .waitC0C1 }
              buf := received }
          received := received }
  | postS0S1 {c0c1 rest : List UInt8} (hlen : c0c1.length = 1537) :
      Phase
        { server :=
            { handShake := { withS2 crypto draws c0c1 with state := .postS0S1 }
              buf := rest
              sent := [(withS2 crypto draws c0c1).c1s1]
              writing := true }
          received := c0c1 ++ rest }
  | postS2 {c0c1 rest : List UInt8} (hlen : c0c1.length = 1537) :
      Phase
        { server :=
            { handShake := { withS2 crypto draws c0c1 with state := .postS2 }
              buf := rest
              sent := [(withS2 crypto draws c0c1).c1s1, (withS2 crypto draws c0c1).c2s2]
              writing := true }
          received := c0c1 ++ rest }
  | waitC2 {c0c1 rest : List UInt8} (hlen : c0c1.length = 1537) :
      Phase
        { server :=
            { handShake := { withS2 crypto draws c0c1 with state := .waitC2 }
              buf := rest
              sent := [(withS2 crypto draws c0c1).c1s1, (withS2 crypto draws c0c1).c2s2] }
          received := c0c1 ++ rest }
  | done {c0c1 c2 : List UInt8} {pieces : List (List UInt8)} (hlen : c0c1.length = 1537)
      (hlen' : c2.length = 1536) :
      Phase
        { server :=
            { handShake := { withS2 crypto draws c0c1 with state := .done }
              state := .message
              receiver := RtmpReceiver.onReads {} pieces
              sent := [(withS2 crypto draws c0c1).c1s1, (withS2 crypto draws c0c1).c2s2] }
          received := c0c1 ++ c2 ++ pieces.flatten }

theorem phase_start :
  Phase crypto draws (start crypto draws)
  := by
  apply Phase.waitC0C1
  decide

variable {crypto draws} {s : RtmpServing}

/-- A server that waits has written everything. -/
theorem not_doneInTime_of_waitC2 {c0c1 rest : List UInt8} :
  DoneInTime
      { server :=
          { handShake := { withS2 crypto draws c0c1 with state := .waitC2 }
            buf := rest
            sent := [(withS2 crypto draws c0c1).c1s1, (withS2 crypto draws c0c1).c2s2] }
        received := c0c1 ++ rest } ↔
    (c0c1 ++ rest).length < 1537 + 1536
  := by
  constructor
  · intro h
    by_contra hge
    have hdone := h (Nat.le_of_not_lt hge) ⟨rfl, rfl⟩
    cases hdone.1
  · intro hlt harrived
    exact absurd hlt (Nat.not_lt_of_le harrived)

/-- In every phase a server is done in order. -/
theorem Phase.doneInOrder (h : Phase crypto draws s) :
  s.DoneInOrder
  := by
  intro hdone
  cases h with
  | waitC0C1 => simp at hdone
  | postS0S1 => simp at hdone
  | postS2 => simp at hdone
  | waitC2 => simp at hdone
  | @done c0c1 c2 pieces hlen hlen' =>
      refine ⟨⟨rfl, rfl⟩, ?_, ⟨rfl, rfl⟩, rfl, pieces, ?_, rfl⟩
      · simp only [Arrived, List.length_append]
        omega
      · rw [List.drop_left']
        rw [List.length_append, hlen, hlen']

/-- A server in one of the phases in which the handshake is not done and does not wait has
nothing to be late with. -/
theorem doneInTime_of_writing (h : s.server.writing = true) :
  s.DoneInTime
  := by
  rintro - ⟨-, hidle⟩
  rw [h] at hidle
  cases hidle

/-! ### Steps -/

theorem one_ne : (1 : Int) ≠ -1 := by decide

theorem zero_ne : (0 : Int) ≠ -1 := by decide

/-- The bytes behind C2 are read at once if there are any. -/
def piecesOf (rest : List UInt8) : List (List UInt8) := if rest = [] then [] else [rest]

theorem flatten_piecesOf (rest : List UInt8) :
  (piecesOf rest).flatten = rest
  := by
  rw [piecesOf]
  split
  next h => rw [h]; rfl
  next => apply List.flatten_singleton

/-- C0C1 is there and is accepted: S0S1 is sent, and as much as completes at once. -/
theorem phase_reply {c0c1 : List UInt8} (hlen : c0c1.length = 1537) (rest : List UInt8)
    (atOnce : Nat) :
  let replied : RtmpServing :=
    { server := HandShakeEnd.send atOnce
        { handShake := { withS2 crypto draws c0c1 with state := .postS0S1 }, buf := rest }
        (withS2 crypto draws c0c1).c1s1
      received := c0c1 ++ rest }
  Phase crypto draws replied ∧
    (replied.DoneInTime ↔ (2 ≤ atOnce → (c0c1 ++ rest).length < 1537 + 1536))
  := by
  match atOnce with
  | 0 =>
      refine ⟨.postS0S1 hlen, iff_of_true (doneInTime_of_writing rfl) ?_⟩
      intro hnone
      cases hnone
  | 1 =>
      refine ⟨.postS2 hlen, iff_of_true (doneInTime_of_writing rfl) ?_⟩
      intro hone
      omega
  | atOnce + 2 =>
      refine ⟨.waitC2 hlen, ?_⟩
      have hall : 2 ≤ atOnce + 2 := Nat.le_add_left 2 atOnce
      rw [forall_prop_of_true hall]
      apply not_doneInTime_of_waitC2

/-- The bytes that complete C0C1 arrive. -/
theorem read_C0C1 (received bytes : List UInt8) (atOnce : Nat)
    (hall : 1537 ≤ (received ++ bytes).length)
    (haccept : 0 ≤ crypto.checkC1S1 false ((received ++ bytes).take 1537)) :
  step crypto draws
      { server :=
          { handShake := { withS0S1 crypto draws with state := .waitC0C1 }
            buf := received }
        received := received }
      (.read bytes atOnce) =
    { server := HandShakeEnd.send atOnce
        { handShake :=
            { withS2 crypto draws ((received ++ bytes).take 1537) with state := .postS0S1 }
          buf := (received ++ bytes).drop 1537 }
        (withS2 crypto draws ((received ++ bytes).take 1537)).c1s1
      received := received ++ bytes }
  := by
  have hdata : ((received ++ bytes).drop 1).take 1536 = ((received ++ bytes).take 1537).drop 1
    := by rw [List.drop_take]
  have hreply := @HandShakeEnd.onRead_eq crypto draws
    { handShake := { withS0S1 crypto draws with state := .waitC0C1 }, buf := received } _ bytes
    atOnce rfl _ one_ne
    (HandShakeEnd.parse_of_wait rfl
      (HandShakeEnd.handShakeStep_C0C1 rfl (Nat.not_lt_of_le hall) haccept))
  rw [(RtmpHandShake.createC2S2_frame crypto draws (withS0S1 crypto draws) .waitC0C1 _ _).1, hdata]
    at hreply
  rw [step, hreply]
  rfl

/-- Bytes arrive at a server that waits for C0C1. -/
theorem read_waitC0C1 (received bytes : List UInt8) (atOnce : Nat)
    (haccept : 1537 ≤ (received ++ bytes).length →
      0 ≤ crypto.checkC1S1 false ((received ++ bytes).take 1537)) :
  let s : RtmpServing :=
    { server :=
        { handShake := { withS0S1 crypto draws with state := .waitC0C1 }
          buf := received }
      received := received }
  Phase crypto draws (s.step crypto draws (.read bytes atOnce)) ∧
    ((s.step crypto draws (.read bytes atOnce)).DoneInTime ↔ s.BeforeC2 (.read bytes atOnce))
  := by
  intro s
  by_cases hshort : (received ++ bytes).length < 1537
  · have hstep := HandShakeEnd.onRead_eq rfl one_ne
      (@HandShakeEnd.parse_of_wait crypto draws { s.server with buf := received ++ bytes } _ atOnce
        rfl (HandShakeEnd.handShakeStep_shortC0C1 rfl hshort))
    rw [step, hstep]
    refine ⟨.waitC0C1 hshort, iff_of_true ?_ ?_⟩
    · rintro - ⟨hsent, -⟩
      cases hsent
    · intro _ hlong
      exact absurd hshort (Nat.not_lt_of_le hlong)
  · have hlen : ((received ++ bytes).take 1537).length = 1537
      := by
      rw [List.length_take]
      omega
    have hall := Nat.le_of_not_lt hshort
    obtain ⟨hphase, hintime⟩ :=
      @phase_reply crypto draws _ hlen ((received ++ bytes).drop 1537) atOnce
    rw [List.take_append_drop] at hphase hintime
    rw [read_C0C1 received bytes atOnce hall (haccept hall)]
    refine ⟨hphase, hintime.trans ?_⟩
    constructor
    · intro h _ _ hboth
      apply h hboth
    · intro h hboth
      apply h rfl hall hboth

/-- Bytes arrive at a server that waits for C2, in time so far. -/
theorem read_waitC2 {c0c1 : List UInt8} (hlen : c0c1.length = 1537) (rest bytes : List UInt8)
    (atOnce : Nat) :
  let s : RtmpServing :=
    { server :=
        { handShake := { withS2 crypto draws c0c1 with state := .waitC2 }
          buf := rest
          sent := [(withS2 crypto draws c0c1).c1s1, (withS2 crypto draws c0c1).c2s2] }
      received := c0c1 ++ rest }
  Phase crypto draws (s.step crypto draws (.read bytes atOnce)) ∧
    (s.step crypto draws (.read bytes atOnce)).DoneInTime
  := by
  intro s
  by_cases hshort : (rest ++ bytes).length < 1536
  · have hstep := HandShakeEnd.onRead_eq rfl one_ne
      (@HandShakeEnd.parse_of_wait crypto draws { s.server with buf := rest ++ bytes } _ atOnce
        rfl (HandShakeEnd.handShakeStep_shortC2 rfl hshort))
    rw [step, hstep, List.append_assoc]
    refine ⟨.waitC2 hlen, not_doneInTime_of_waitC2.mpr ?_⟩
    rw [List.length_append, hlen]
    omega
  · have hlen' : ((rest ++ bytes).take 1536).length = 1536
      := by
      rw [List.length_take]
      omega
    have hparse := @HandShakeEnd.parse_of_done crypto draws
      { s.server with buf := rest ++ bytes } _ atOnce rfl (HandShakeEnd.handShakeStep_C2 rfl hshort)
    have hdone : s.step crypto draws (.read bytes atOnce) =
        { server :=
            { handShake := { withS2 crypto draws c0c1 with state := .done }
              state := .message
              receiver := RtmpReceiver.onReads {} (piecesOf ((rest ++ bytes).drop 1536))
              sent := [(withS2 crypto draws c0c1).c1s1, (withS2 crypto draws c0c1).c2s2] }
          received := c0c1 ++ (rest ++ bytes) }
      := by
      rw [step, ← List.append_assoc]
      rw [HandShakeEnd.toMessages_of_server (withS2_isClient crypto draws c0c1)] at hparse
      by_cases hrest : (rest ++ bytes).drop 1536 = []
      · rw [if_neg (by rw [hrest]; apply Nat.lt_irrefl)] at hparse
        rw [HandShakeEnd.onRead_eq rfl zero_ne hparse, hrest]
        rfl
      · rw [if_pos (List.length_pos_iff.mpr hrest)] at hparse
        rw [HandShakeEnd.onRead_eq rfl one_ne hparse, piecesOf, if_neg hrest]
        rfl
    rw [hdone]
    have hall : c0c1 ++ (rest ++ bytes) =
        c0c1 ++ (rest ++ bytes).take 1536 ++ (piecesOf ((rest ++ bytes).drop 1536)).flatten
      := by
      rw [flatten_piecesOf, List.append_assoc, List.take_append_drop]
    rw [hall]
    exact ⟨.done hlen hlen', fun _ _ => ⟨rfl, rfl⟩⟩

/-- Bytes that arrive while a write goes on are left for later. -/
theorem read_writing (hopen : s.server.closed = false) (hstate : s.server.state = .handShake)
    (h0 : s.server.handShake.state ≠ .waitC0C1) (h2 : s.server.handShake.state ≠ .waitC2)
    (bytes : List UInt8) (atOnce : Nat) :
  s.step crypto draws (.read bytes atOnce) =
    { server := { s.server with buf := s.server.buf ++ bytes }
      received := s.received ++ bytes }
  := by
  have hwait := @HandShakeEnd.parse_of_wait crypto draws
    { s.server with buf := s.server.buf ++ bytes } _ atOnce hstate
    (HandShakeEnd.handShakeStep_of_ne h0 h2)
  rw [step, HandShakeEnd.onRead_eq hopen one_ne hwait]

/-- Bytes that arrive when messages are read are read as chunks. -/
theorem read_message (hopen : s.server.closed = false) (hstate : s.server.state = .message)
    (hempty : s.server.buf = []) (bytes : List UInt8) (atOnce : Nat) :
  s.step crypto draws (.read bytes atOnce) =
    { server := { s.server with receiver := s.server.receiver.onRead bytes, buf := [] }
      received := s.received ++ bytes }
  := by
  have hread := @HandShakeEnd.parse_message crypto draws
    { s.server with buf := s.server.buf ++ bytes } atOnce hstate
  rw [step, HandShakeEnd.onRead_eq hopen one_ne hread, hempty]
  rfl

/-- The next event keeps the phases, and the server is in time exactly if C2 is not there too
early. -/
theorem phase_step (hphase : Phase crypto draws s) (hintime : s.DoneInTime)
    {e : HandShakeEvent} (hpossible : s.Possible crypto e) :
  Phase crypto draws (s.step crypto draws e) ∧
    ((s.step crypto draws e).DoneInTime ↔ s.BeforeC2 e)
  := by
  cases hphase with
  | @waitC0C1 received hshort =>
      cases e with
      | read bytes atOnce => exact read_waitC0C1 received bytes atOnce hpossible.2
      | writeComplete atOnce => cases hpossible
  | @postS0S1 c0c1 rest hlen =>
      cases e with
      | read bytes atOnce =>
          rw [read_writing rfl rfl (by rintro ⟨⟩) (by rintro ⟨⟩), List.append_assoc]
          refine ⟨.postS0S1 hlen, iff_of_true (doneInTime_of_writing rfl) ?_⟩
          intro hstate
          cases hstate
      | writeComplete atOnce =>
          match atOnce with
          | 0 =>
              refine ⟨.postS2 hlen, iff_of_true (doneInTime_of_writing rfl) ?_⟩
              rintro (hstate | ⟨-, hnone⟩)
              · cases hstate
              · cases hnone
          | atOnce + 1 =>
              refine ⟨.waitC2 hlen, not_doneInTime_of_waitC2.trans ?_⟩
              constructor
              · intro h _
                apply h
              · intro h
                apply h (.inr ⟨rfl, Nat.le_add_left 1 atOnce⟩)
  | @postS2 c0c1 rest hlen =>
      cases e with
      | read bytes atOnce =>
          rw [read_writing rfl rfl (by rintro ⟨⟩) (by rintro ⟨⟩), List.append_assoc]
          refine ⟨.postS2 hlen, iff_of_true (doneInTime_of_writing rfl) ?_⟩
          intro hstate
          cases hstate
      | writeComplete atOnce =>
          refine ⟨.waitC2 hlen, not_doneInTime_of_waitC2.trans ?_⟩
          constructor
          · intro h _
            apply h
          · intro h
            apply h (.inl rfl)
  | @waitC2 c0c1 rest hlen =>
      cases e with
      | read bytes atOnce =>
          obtain ⟨hphase', hintime'⟩ := @read_waitC2 crypto draws c0c1 hlen rest bytes atOnce
          refine ⟨hphase', iff_of_true hintime' ?_⟩
          intro hstate
          cases hstate
      | writeComplete atOnce => cases hpossible
  | @done c0c1 c2 pieces hlen hlen' =>
      cases e with
      | read bytes atOnce =>
          have hpieces : (pieces ++ [bytes]).flatten = pieces.flatten ++ bytes
            := by simp
          have hreads : RtmpReceiver.onReads {} (pieces ++ [bytes]) =
              (RtmpReceiver.onReads {} pieces).onRead bytes
            := by
            apply List.foldl_append
          rw [read_message rfl rfl rfl]
          dsimp only
          rw [List.append_assoc, ← hpieces, ← hreads]
          refine ⟨.done hlen hlen', iff_of_true (fun _ _ => ⟨rfl, rfl⟩) ?_⟩
          intro hstate
          cases hstate
      | writeComplete atOnce => cases hpossible

/-- No byte is forgotten in a run exactly if less than C0C1 and C2 has arrived whenever the
write of S2 completes. -/
theorem losesNoWakeUp_iff_beforeC2 (crypto : HandShakeCrypto) (draws : HandShakeDraws)
    {events : List HandShakeEvent}
    (hpossible : Steps (step crypto draws) (Possible crypto) (start crypto draws) events) :
  Throughout (step crypto draws) LosesNoWakeUp (start crypto draws) events ↔
    Steps (step crypto draws) BeforeC2 (start crypto draws) events
  := by
  apply throughout_iff_steps hpossible (phase_start crypto draws)
  · refine ⟨?_, (phase_start crypto draws).doneInOrder⟩
    intro harrived
    cases harrived
  · intro s e hphase hin hpossible
    obtain ⟨hphase', hintime⟩ := phase_step hphase hin.1 hpossible
    refine ⟨hphase', Iff.trans ?_ hintime⟩
    constructor
    · intro h
      apply h.1
    · intro h
      exact ⟨h, hphase'.doneInOrder⟩

/-! ### A client that is fast -/

/-- C0C1 comes in one read. -/
theorem start_read {c0c1 : List UInt8} (hlen : c0c1.length = 1537)
    (haccept : 0 ≤ crypto.checkC1S1 false c0c1) :
  step crypto draws (start crypto draws) (.read c0c1 0) =
    { server :=
        { handShake := { withS2 crypto draws c0c1 with state := .postS0S1 }
          sent := [(withS2 crypto draws c0c1).c1s1]
          writing := true }
      received := c0c1 }
  := by
  have htake : c0c1.take 1537 = c0c1 := List.take_of_length_le (Nat.le_of_eq hlen)
  have hdrop : c0c1.drop 1537 = [] := List.drop_of_length_le (Nat.le_of_eq hlen)
  have hread := @read_C0C1 crypto draws [] c0c1 0 (Nat.le_of_eq hlen.symm) (by
    rw [List.nil_append, htake]
    apply haccept)
  rw [List.nil_append, htake, hdrop] at hread
  exact hread

/-- A run in which C2 comes after the write of S2 has completed. -/
def patient (c0c1 c2 : List UInt8) : List HandShakeEvent :=
  [.read c0c1 0, .writeComplete 0, .writeComplete 0, .read c2 0]

/-- A run in which C2 comes before the write of S2 has completed. -/
def fast (c0c1 c2 : List UInt8) : List HandShakeEvent :=
  [.read c0c1 0, .writeComplete 0, .read c2 0, .writeComplete 0]

theorem possible_patient (haccept : ∀ c0c1, 0 ≤ crypto.checkC1S1 false c0c1)
    {c0c1 c2 : List UInt8} (hlen : c0c1.length = 1537) (hlen' : c2.length = 1536) :
  Steps (step crypto draws) (Possible crypto) (start crypto draws) (patient c0c1 c2) ∧
    Steps (step crypto draws) BeforeC2 (start crypto draws) (patient c0c1 c2)
  := by
  have hne : c0c1 ≠ [] := List.ne_nil_of_length_eq_add_one hlen
  have hne' : c2 ≠ [] := List.ne_nil_of_length_eq_add_one hlen'
  simp only [patient, Steps, start_read hlen (haccept c0c1)]
  refine ⟨⟨⟨hne, fun _ => haccept _⟩, rfl, rfl, ⟨hne', fun _ => haccept _⟩, trivial⟩,
    ?_, ?_, ?_, ?_, trivial⟩
  · intro _ _ hboth
    cases hboth
  · rintro (hstate | ⟨-, hone⟩)
    · cases hstate
    · cases hone
  · intro _
    change c0c1.length < 1537 + 1536
    omega
  · intro hstate
    cases hstate

theorem possible_fast (haccept : ∀ c0c1, 0 ≤ crypto.checkC1S1 false c0c1)
    {c0c1 c2 : List UInt8} (hlen : c0c1.length = 1537) (hlen' : c2.length = 1536) :
  Steps (step crypto draws) (Possible crypto) (start crypto draws) (fast c0c1 c2) ∧
    ¬ (run (step crypto draws) (start crypto draws) (fast c0c1 c2)).DoneInTime
  := by
  have hne : c0c1 ≠ [] := List.ne_nil_of_length_eq_add_one hlen
  have hne' : c2 ≠ [] := List.ne_nil_of_length_eq_add_one hlen'
  simp only [fast, Steps, run, List.foldl, start_read hlen (haccept c0c1)]
  refine ⟨⟨⟨hne, fun _ => haccept _⟩, rfl, ⟨hne', fun _ => haccept _⟩, rfl, trivial⟩, ?_⟩
  intro hintime
  have hshort := (@not_doneInTime_of_waitC2 crypto draws c0c1 c2).mp hintime
  rw [List.length_append] at hshort
  omega

/-- Every hash is zero and the digest of a C1 is taken to be at its first place. -/
def zeroCrypto : HandShakeCrypto where
  hmac := fun _ _ => List.replicate sha256DigestLength 0
  length_hmac := fun _ _ => List.length_replicate
  checkC1S1 := fun _ _ => 12

def zeroDraws : HandShakeDraws where
  c1s1 := fun _ => 0
  c2s2 := fun _ => 0
  now := 0

theorem accepts_zero (c0c1 : List UInt8) :
  0 ≤ zeroCrypto.checkC1S1 false c0c1
  := by
  change (0 : Int) ≤ 12
  decide

theorem losesNoWakeUp_patient :
  Throughout (step zeroCrypto zeroDraws) LosesNoWakeUp (start zeroCrypto zeroDraws)
    (patient (List.replicate 1537 3) (List.replicate 1536 0))
  := by
  obtain ⟨hpossible, hbefore⟩ := @possible_patient zeroCrypto zeroDraws accepts_zero
    _ _ (@List.length_replicate _ 1537 3) (@List.length_replicate _ 1536 0)
  apply (losesNoWakeUp_iff_beforeC2 zeroCrypto zeroDraws hpossible).mpr hbefore

theorem not_losesNoWakeUp_fast :
  Steps (step zeroCrypto zeroDraws) (Possible zeroCrypto) (start zeroCrypto zeroDraws)
      (fast (List.replicate 1537 3) (List.replicate 1536 0)) ∧
    ¬ Throughout (step zeroCrypto zeroDraws) LosesNoWakeUp (start zeroCrypto zeroDraws)
      (fast (List.replicate 1537 3) (List.replicate 1536 0))
  := by
  obtain ⟨hpossible, hlate⟩ := @possible_fast zeroCrypto zeroDraws accepts_zero
    _ _ (@List.length_replicate _ 1537 3) (@List.length_replicate _ 1536 0)
  refine ⟨hpossible, ?_⟩
  intro h
  apply hlate h.last.1

end RtmpServing
