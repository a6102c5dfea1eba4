import Tmms.Live.Stream

/-!
# The order in which players see a stream

A run is a list of calls: of `AddPacket` by the publisher, of `GetFrames` by players, and of
what players do with what they got.  Each call holds the lock, so a run is any interleaving.
What is seen of a player is a list of entries: the frames delivered to it, each with the
newest index at that time, and the times `SkipFrame` moved it.

The position of a player is its `out_index_`.  `Leads` says how entries move it: a frame is
the next one, or a later one when the slot of the next one has been used again.
-/

variable {ε : Type}

/-- The calls of a run. Players are numbered. -/
inductive StreamEvent (ε : Type) where
  | addPacket (packet : Packet ε)
  | getFrames (user : Nat) (elapsed : UInt64)
  | clearMeta (user : Nat)
  | clearAudioHeader (user : Nat)
  | clearVideoHeader (user : Nat)
  | clearOutFrames (user : Nat)

/-- A stream and its players. -/
structure Broadcast (ε : Type) where
  stream : LiveStream ε := {}
  users : Nat → PlayerUser ε

/-- What is seen of a player. -/
inductive PlayerEntry (ε : Type) where
  | skipped
  | delivered (packet : Packet ε) (newest : Int)

namespace Broadcast

/-- A new stream, and players with the latencies of their applications. -/
def start (latency : Nat → Int) : Broadcast ε where
  users i := { contentLatency := latency i }

def setUser (b : Broadcast ε) (i : Nat) (user : PlayerUser ε) : Broadcast ε :=
  { b with users := fun j => if j = i then user else b.users j }

def step (b : Broadcast ε) : StreamEvent ε → Broadcast ε
  | .addPacket packet => { b with stream := b.stream.addPacket packet }
  | .getFrames i elapsed => b.setUser i (b.stream.getFrames elapsed (b.users i))
  | .clearMeta i => b.setUser i { b.users i with metaData := none }
  | .clearAudioHeader i => b.setUser i { b.users i with audioHeader := none }
  | .clearVideoHeader i => b.setUser i { b.users i with videoHeader := none }
  | .clearOutFrames i => b.setUser i { b.users i with outFrames := [] }

/-- Whether `GetFrames` calls `SkipFrame`, and that moves the player. -/
def skips (s : LiveStream ε) (user : PlayerUser ε) : Bool :=
  s.hasMedia && !LiveStream.pending user && user.outIndex ≥ 0 && s.needSkip user
    && (s.skipFrame user).outIndex != user.outIndex

/-- What is seen of a player in a call of `GetFrames`. -/
def entriesOfGetFrames (s : LiveStream ε) (elapsed : UInt64) (user : PlayerUser ε) :
    List (PlayerEntry ε) :=
  (if skips s user then [.skipped] else []) ++
    ((s.getFrames elapsed user).outFrames.drop user.outFrames.length).map
      fun packet => .delivered packet s.frameIndex

/-- What is seen of the player `i` in a call. -/
def entries (i : Nat) (b : Broadcast ε) : StreamEvent ε → List (PlayerEntry ε)
  | .getFrames j elapsed =>
      if i = j then entriesOfGetFrames b.stream elapsed (b.users i) else []
  | _ => []

/-- What is seen of the player `i` in a run. -/
def log (i : Nat) : Broadcast ε → List (StreamEvent ε) → List (PlayerEntry ε)
  | _, [] => []
  | b, e :: events => b.entries i e ++ log i (b.step e) events

/-- The packet a call adds, as it is put into the ring. -/
def addedBy (b : Broadcast ε) : StreamEvent ε → List (Packet ε)
  | .addPacket packet => [b.stream.stamp packet]
  | _ => []

/-- The packets a run adds. -/
def added : Broadcast ε → List (StreamEvent ε) → List (Packet ε)
  | _, [] => []
  | b, e :: events => b.addedBy e ++ added (b.step e) events

end Broadcast

/-- The indices of the frames delivered. -/
def deliveredIndices (es : List (PlayerEntry ε)) : List Int :=
  es.filterMap fun
    | .skipped => none
    | .delivered packet _ => some packet.index

/-- A frame is delivered after the one before it, and next to it unless the player was skipped
in between or the slot of the next index had been used again. -/
def InOrder (es : List (PlayerEntry ε)) : Prop :=
  ∀ (before : List (PlayerEntry ε)) (a : Packet ε) (m : Int) (between : List (PlayerEntry ε))
      (c : Packet ε) (n : Int) (after : List (PlayerEntry ε)),
    es = before ++ .delivered a m :: (between ++ .delivered c n :: after) →
    (∀ e ∈ between, e = .skipped) →
    a.index < c.index ∧
      (c.index = a.index + 1 ∨ .skipped ∈ between ∨ a.index + 1 + packetBufferSize ≤ n)

/-! ### Positions -/

/-- Entries lead a player from one position to another. The packets are among those added, and
a player that has not got a position is located. -/
inductive Leads (packets : List (Packet ε)) : Int → List (PlayerEntry ε) → Int → Prop where
  | refl (a : Int) : Leads packets a [] a
  | located {a b c : Int} {es : List (PlayerEntry ε)} (ha : a < 0) (rest : Leads packets b es c) :
      Leads packets a es c
  | skipped {a b c : Int} {es : List (PlayerEntry ε)} (hab : a ≤ b) (rest : Leads packets b es c) :
      Leads packets a (.skipped :: es) c
  | delivered {a c newest : Int} {es : List (PlayerEntry ε)} {packet : Packet ε} {k : Nat}
      (hk : packets[k]? = some packet) (hindex : packet.index = k) (hlt : a < packet.index)
      (hnext : packet.index = a + 1 ∨ a + 1 + packetBufferSize ≤ newest)
      (rest : Leads packets packet.index es c) :
      Leads packets a (.delivered packet newest :: es) c

namespace Leads

variable {packets : List (Packet ε)} {a b c : Int} {es es' : List (PlayerEntry ε)}

theorem append (h : Leads packets a es b) (h' : Leads packets b es' c) :
  Leads packets a (es ++ es') c
  := by
  induction h with
  | refl => exact h'
  | located ha _ ih => exact .located ha (ih h')
  | skipped hab _ ih => exact .skipped hab (ih h')
  | delivered hk hindex hlt hnext _ ih => exact .delivered hk hindex hlt hnext (ih h')

theorem split (h : Leads packets a (es ++ es') c) :
  ∃ b, Leads packets a es b ∧ Leads packets b es' c
  := by
  generalize hall : es ++ es' = all at h
  induction h generalizing es with
  | refl a =>
      obtain ⟨rfl, rfl⟩ := List.append_eq_nil_iff.mp hall
      exact ⟨a, .refl a, .refl a⟩
  | located ha _ ih =>
      obtain ⟨b, hb, hb'⟩ := ih hall
      exact ⟨b, .located ha hb, hb'⟩
  | skipped hab rest ih =>
      cases es with
      | nil =>
          change es' = _ at hall
          subst hall
          exact ⟨_, .refl _, .skipped hab rest⟩
      | cons e es =>
          cases hall
          obtain ⟨b, hb, hb'⟩ := ih rfl
          exact ⟨b, .skipped hab hb, hb'⟩
  | delivered hk hindex hlt hnext rest ih =>
      cases es with
      | nil =>
          change es' = _ at hall
          subst hall
          exact ⟨_, .refl _, .delivered hk hindex hlt hnext rest⟩
      | cons e es =>
          cases hall
          obtain ⟨b, hb, hb'⟩ := ih rfl
          exact ⟨b, .delivered hk hindex hlt hnext hb, hb'⟩

/-- Between frames a player is only moved forward, and only by `SkipFrame`. -/
theorem of_skips (h : Leads packets a es b) (ha : 0 ≤ a) (hes : ∀ e ∈ es, e = .skipped) :
  a ≤ b ∧ (.skipped ∈ es ∨ a = b)
  := by
  induction h with
  | refl => exact ⟨Int.le_refl _, .inr rfl⟩
  | located hneg => omega
  | skipped hab _ ih =>
      obtain ⟨hle, _⟩ := ih (by omega) (fun e he => hes e (List.mem_cons_of_mem _ he))
      exact ⟨Int.le_trans hab hle, .inl List.mem_cons_self⟩
  | delivered => cases hes _ List.mem_cons_self

/-- The frame delivered next to a player that has a position. -/
theorem next {packet : Packet ε} {newest : Int}
    (h : Leads packets a (.delivered packet newest :: es) c) (ha : 0 ≤ a) :
  a < packet.index ∧ (packet.index = a + 1 ∨ a + 1 + packetBufferSize ≤ newest)
  := by
  cases h with
  | located hneg => omega
  | delivered _ _ hlt hnext => exact ⟨hlt, hnext⟩

/-- After a frame its index is the position of the player. -/
theorem after {packet : Packet ε} {newest : Int}
    (h : Leads packets a (.delivered packet newest :: es) c) :
  (∃ k : Nat, packets[k]? = some packet ∧ packet.index = k) ∧ Leads packets packet.index es c
  := by
  generalize hall : PlayerEntry.delivered packet newest :: es = all at h
  induction h with
  | refl => cases hall
  | located _ _ ih => exact ih hall
  | skipped => cases hall
  | delivered hk hindex _ _ rest =>
      cases hall
      exact ⟨⟨_, hk, hindex⟩, rest⟩

theorem inOrder (h : Leads packets a es c) :
  InOrder es
  := by
  intro before p m between q n rest hes hbetween
  subst hes
  obtain ⟨_, _, hp⟩ := h.split
  obtain ⟨⟨k, _, hindex⟩, hp⟩ := hp.after
  obtain ⟨b, hskips, hq⟩ := hp.split
  obtain ⟨hle, hmoved⟩ := hskips.of_skips (by omega) hbetween
  obtain ⟨hlt, hnext⟩ := hq.next (by omega)
  refine ⟨by omega, ?_⟩
  rcases hmoved with hskipped | heq
  · exact .inr (.inl hskipped)
  · rcases hnext with hone | hpast
    · exact .inl (by omega)
    · exact .inr (.inr (by omega))

theorem lt_of_mem (h : Leads packets a es c) (ha : 0 ≤ a) :
  ∀ i ∈ deliveredIndices es, a < i
  := by
  induction h with
  | refl =>
      intro i hi
      cases hi
  | located hneg => omega
  | skipped hab _ ih =>
      intro i hi
      exact Int.lt_of_le_of_lt hab (ih (by omega) i hi)
  | delivered _ hindex hlt _ _ ih =>
      intro i hi
      rcases List.mem_cons.mp hi with rfl | hi
      · exact hlt
      · exact Int.lt_trans hlt (ih (by omega) i hi)

theorem increasing (h : Leads packets a es c) :
  (deliveredIndices es).Pairwise (· < ·)
  := by
  induction h with
  | refl => exact List.Pairwise.nil
  | located _ _ ih => exact ih
  | skipped _ _ ih => exact ih
  | delivered _ hindex _ _ rest ih =>
      exact List.Pairwise.cons (rest.lt_of_mem (by omega)) ih

theorem mem_added (h : Leads packets a es c) {packet : Packet ε} {newest : Int}
    (hmem : .delivered packet newest ∈ es) :
  ∃ k : Nat, packets[k]? = some packet ∧ packet.index = k
  := by
  obtain ⟨before, rest, rfl⟩ := List.append_of_mem hmem
  obtain ⟨_, _, hp⟩ := h.split
  exact hp.after.1

end Leads

/-! ### The stream -/

/-- The stream after the packets `past` have been added. -/
structure Numbered (past : List (Packet ε)) (s : LiveStream ε) : Prop where
  frameIndex_eq : s.frameIndex = past.length - 1
  holds : RingBuffer.Holds 0 past s.packetBuffer
  index_eq : ∀ {k : Nat} {packet : Packet ε}, past[k]? = some packet → packet.index = k
  gops : ∀ item ∈ s.gopMgr.gops, 0 ≤ item.index

theorem numbered_start :
  Numbered [] ({} : LiveStream ε)
  where
  frameIndex_eq := rfl
  holds := RingBuffer.holds_empty 0
  index_eq h := absurd h (by simp)
  gops _ h := absurd h (by simp)

theorem Numbered.addPacket {past : List (Packet ε)} {s : LiveStream ε} (h : Numbered past s)
    (packet : Packet ε) (hlen : past.length < 2 ^ 31) :
  Numbered (past ++ [s.stamp packet]) (s.addPacket packet)
  := by
  obtain ⟨hframe, hbuffer, hgops⟩ := s.addPacket_frame packet
  have hnext : s.frameIndex + 1 = (past.length : Int)
    := by
    rw [h.frameIndex_eq]
    omega
  have hstamp : (s.stamp packet).index = past.length
    := by
    rw [s.stamp_index, hnext]
    apply toInt32_of_fits
    · omega
    · omega
  constructor
  · rw [hframe, hnext, List.length_append, List.length_singleton]
    omega
  · have hput := h.holds.put (s.stamp packet)
    rw [hbuffer, hnext, Int.toNat_natCast]
    rwa [Nat.zero_add] at hput
  · intro k p hk
    by_cases hlt : k < past.length
    · rw [List.getElem?_append_left hlt] at hk
      exact h.index_eq hk
    · rw [List.getElem?_append_right (Nat.le_of_not_lt hlt)] at hk
      obtain ⟨hzero, hp⟩ := List.getElem?_eq_some_iff.mp hk
      rw [List.length_singleton] at hzero
      have hkey : k = past.length := by omega
      rw [List.getElem_singleton] at hp
      rw [← hp, hstamp, hkey]
  · intro item hitem
    rcases hgops item hitem with hold | hnew
    · exact h.gops item hold
    · rw [hnew, hstamp]
      exact Int.natCast_nonneg _

/-- The frames `GetNextFrame` adds lead the player on. -/
theorem Numbered.getNextFrameLoop {past packets : List (Packet ε)} {s : LiveStream ε}
    (h : Numbered past s) (hpast : past <+: packets) (hlen : past.length < 2 ^ 31) (n : Nat)
    (user : PlayerUser ε) (hlow : -1 ≤ user.outIndex) :
  ∃ frames,
    (s.getNextFrameLoop n (user.outIndex + 1) user).outFrames = user.outFrames ++ frames ∧
      -1 ≤ (s.getNextFrameLoop n (user.outIndex + 1) user).outIndex ∧
      Leads packets user.outIndex (frames.map fun packet => .delivered packet s.frameIndex)
        (s.getNextFrameLoop n (user.outIndex + 1) user).outIndex
  := by
  induction n generalizing user with
  | zero => exact ⟨[], (List.append_nil _).symm, hlow, .refl _⟩
  | succ n ih =>
      rw [LiveStream.getNextFrameLoop]
      by_cases hmax : user.outIndex + 1 > s.frameIndex
      · rw [if_pos hmax]
        exact ⟨[], (List.append_nil _).symm, hlow, .refl _⟩
      · have hlast := h.frameIndex_eq
        obtain ⟨i, hi⟩ := Int.eq_ofNat_of_zero_le (show 0 ≤ user.outIndex + 1 by omega)
        have hslot : (UInt32.ofInt (user.outIndex + 1)).toNat = i
          := by
          rw [hi, uint32_ofInt (by omega), UInt32.toNat_ofNat']
          exact Nat.mod_eq_of_lt (by omega)
        obtain ⟨k, packet, hk, hget, hle, hfresh⟩ :=
          h.holds.get_past (show i < past.length by omega)
        rw [Nat.zero_add] at hget
        have hindex := h.index_eq hk
        rw [if_neg hmax, hslot, hget]
        dsimp only
        obtain ⟨frames, hframes, hlow', hleads⟩ := ih
          { user with
            outFrames := user.outFrames ++ [packet]
            outIndex := packet.index
            outFrameTimestamp := toInt32 (TimeCorrector.time packet) }
          (by dsimp only; omega)
        refine ⟨packet :: frames, ?_, hlow', ?_⟩
        · rw [hframes]
          exact List.append_assoc _ _ _
        · have hadded : packets[k]? = some packet
            := by
            obtain ⟨rest, rfl⟩ := hpast
            rw [List.getElem?_append_left (List.getElem?_eq_some_iff.mp hk).1, hk]
          apply Leads.delivered hadded hindex
          · omega
          · rcases hfresh with rfl | hpastRing
            · left
              omega
            · right
              omega
          · exact hleads

/-- The player that `GetNextFrame` is called for where a player has a position. -/
theorem leads_skip (packets : List (Packet ε)) (s : LiveStream ε) (user : PlayerUser ε)
    (hmedia : s.hasMedia = true) (hpending : LiveStream.pending user = false)
    (hlow : user.outIndex ≥ 0) :
  (if s.needSkip user then s.skipFrame user else user).outFrames = user.outFrames ∧
    -1 ≤ (if s.needSkip user then s.skipFrame user else user).outIndex ∧
    Leads packets user.outIndex (if Broadcast.skips s user then [.skipped] else [])
      (if s.needSkip user then s.skipFrame user else user).outIndex
  := by
  obtain ⟨hframes, hle⟩ := s.skipFrame_frame user
  have hskips : Broadcast.skips s user =
      (s.needSkip user && (s.skipFrame user).outIndex != user.outIndex)
    := by simp [Broadcast.skips, hmedia, hpending, hlow]
  rw [hskips]
  cases hneed : s.needSkip user with
  | false => exact ⟨rfl, by simp only [Bool.false_eq_true, if_false]; omega, .refl _⟩
  | true =>
      refine ⟨hframes, by simp only [if_true]; omega, ?_⟩
      by_cases hmoved : (s.skipFrame user).outIndex = user.outIndex
      · simp only [hmoved, if_true, bne_self_eq_false, Bool.and_false, Bool.false_eq_true,
          if_false]
        exact .refl _
      · simp only [Bool.true_and, bne_iff_ne, ne_eq, hmoved, not_false_eq_true, if_true]
        exact .skipped hle (.refl _)

/-- What is seen of a player in a call of `GetFrames` leads it from its position to the one it
has afterwards. -/
theorem Numbered.getFrames {past packets : List (Packet ε)} {s : LiveStream ε}
    (h : Numbered past s) (hpast : past <+: packets) (hlen : past.length < 2 ^ 31)
    (elapsed : UInt64) (user : PlayerUser ε) (hlow : -1 ≤ user.outIndex) :
  -1 ≤ (s.getFrames elapsed user).outIndex ∧
    Leads packets user.outIndex (Broadcast.entriesOfGetFrames s elapsed user)
      (s.getFrames elapsed user).outIndex
  := by
  rw [Broadcast.entriesOfGetFrames]
  cases hmedia : s.hasMedia with
  | false =>
      have hskips : Broadcast.skips s user = false := by simp [Broadcast.skips, hmedia]
      have hsame : s.getFrames elapsed user = user := by simp [LiveStream.getFrames, hmedia]
      rw [hskips, hsame, List.drop_length]
      exact ⟨hlow, .refl _⟩
  | true =>
      cases hpending : LiveStream.pending user with
      | true =>
          have hskips : Broadcast.skips s user = false := by simp [Broadcast.skips, hpending]
          have hsame : s.getFrames elapsed user = user
            := by simp [LiveStream.getFrames, hmedia, hpending]
          rw [hskips, hsame, List.drop_length]
          exact ⟨hlow, .refl _⟩
      | false =>
          by_cases hposition : user.outIndex ≥ 0
          · obtain ⟨hkept, hlow', hskip⟩ := leads_skip packets s user hmedia hpending hposition
            have hcall : s.getFrames elapsed user =
                s.getNextFrame (if s.needSkip user then s.skipFrame user else user)
              := by simp only [LiveStream.getFrames, hmedia, hpending, hposition, Bool.not_true,
                Bool.false_eq_true, if_false, if_true]
            obtain ⟨frames, hframes, hlow'', hnext⟩ :=
              h.getNextFrameLoop hpast hlen 10 _ hlow'
            rw [hcall, LiveStream.getNextFrame, hframes, hkept, List.drop_left]
            exact ⟨hlow'', hskip.append hnext⟩
          · have hskips : Broadcast.skips s user = false := by simp [Broadcast.skips, hposition]
            obtain ⟨hkept, hmoved⟩ := s.locateGop_frame elapsed user
            have hlow' : -1 ≤ (s.locateGop elapsed user).2.outIndex
              := by
              rcases hmoved with hstay | ⟨item, hitem, hbefore⟩
              · omega
              · have := h.gops item hitem
                omega
            rw [hskips]
            cases hfound : (s.locateGop elapsed user).1 with
            | false =>
                have hcall : s.getFrames elapsed user = (s.locateGop elapsed user).2
                  := by
                  rw [LiveStream.getFrames, hmedia, hpending, if_neg hposition,
                    ← Prod.eta (s.locateGop elapsed user), hfound]
                  rfl
                rw [hcall, hkept, List.drop_length]
                exact ⟨hlow', .located (by omega) (.refl _)⟩
            | true =>
                have hcall : s.getFrames elapsed user =
                    s.getNextFrame (s.locateGop elapsed user).2
                  := by
                  rw [LiveStream.getFrames, hmedia, hpending, if_neg hposition,
                    ← Prod.eta (s.locateGop elapsed user), hfound]
                  rfl
                obtain ⟨frames, hframes, hlow'', hnext⟩ :=
                  h.getNextFrameLoop hpast hlen 10 _ hlow'
                rw [hcall, LiveStream.getNextFrame, hframes, hkept, List.drop_left]
                exact ⟨hlow'', .located (by omega) hnext⟩

/-! ### Runs -/

namespace Broadcast

/-- A call numbers the packet it adds, and what is seen of a player leads it on. -/
theorem leads_step (i : Nat) (b : Broadcast ε) (e : StreamEvent ε) {past : List (Packet ε)}
    (h : Numbered past b.stream) (hlow : -1 ≤ (b.users i).outIndex)
    (hlen : past.length < 2 ^ 31) :
  Numbered (past ++ b.addedBy e) (b.step e).stream ∧
    -1 ≤ ((b.step e).users i).outIndex ∧
    ∀ packets, past <+: packets →
      Leads packets (b.users i).outIndex (b.entries i e) ((b.step e).users i).outIndex
  := by
  -- a player that takes what it got stays where it is
  have htake : ∀ (j : Nat) (user : PlayerUser ε), user.outIndex = (b.users j).outIndex →
      Numbered (past ++ []) (b.setUser j user).stream ∧
        -1 ≤ ((b.setUser j user).users i).outIndex ∧
        ∀ packets, past <+: packets →
          Leads packets (b.users i).outIndex [] ((b.setUser j user).users i).outIndex
    := by
    intro j user huser
    have hstay : ((b.setUser j user).users i).outIndex = (b.users i).outIndex
      := by
      rw [setUser]
      dsimp only
      split
      · rename_i hij
        rw [huser, hij]
      · rfl
    rw [List.append_nil, hstay]
    exact ⟨h, hlow, fun _ _ => .refl _⟩
  cases e with
  | addPacket packet =>
      exact ⟨h.addPacket packet hlen, hlow, fun _ _ => .refl _⟩
  | getFrames j elapsed =>
      have hadded : past ++ b.addedBy (.getFrames j elapsed) = past := List.append_nil past
      rw [hadded, entries]
      by_cases hij : i = j
      · subst hij
        have huser : (b.step (.getFrames i elapsed)).users i =
            b.stream.getFrames elapsed (b.users i)
          := if_pos rfl
        rw [huser, if_pos rfl]
        refine ⟨h, (h.getFrames List.prefix_rfl hlen elapsed _ hlow).1, ?_⟩
        intro packets hpast
        exact (h.getFrames hpast hlen elapsed _ hlow).2
      · have huser : (b.step (.getFrames j elapsed)).users i = b.users i := if_neg hij
        rw [huser, if_neg hij]
        exact ⟨h, hlow, fun _ _ => .refl _⟩
  | clearMeta j => exact htake j _ rfl
  | clearAudioHeader j => exact htake j _ rfl
  | clearVideoHeader j => exact htake j _ rfl
  | clearOutFrames j => exact htake j _ rfl

/-- What is seen of a player in a run leads it on from its position. -/
theorem leads_log (i : Nat) (events : List (StreamEvent ε)) (b : Broadcast ε)
    (past : List (Packet ε)) (h : Numbered past b.stream) (hlow : -1 ≤ (b.users i).outIndex)
    (hlen : (past ++ added b events).length < 2 ^ 31) :
  ∃ position, Leads (past ++ added b events) (b.users i).outIndex (log i b events) position
  := by
  induction events generalizing b past with
  | nil => exact ⟨_, .refl _⟩
  | cons e events ih =>
      have hshort : past.length < 2 ^ 31
        := by
        rw [List.length_append] at hlen
        omega
      obtain ⟨hnumbered, hlow', hleads⟩ := leads_step i b e h hlow hshort
      rw [added, ← List.append_assoc] at hlen ⊢
      obtain ⟨position, hrest⟩ := ih (b.step e) _ hnumbered hlow' hlen
      use position
      apply Leads.append (hleads _ _) hrest
      rw [List.append_assoc]
      apply List.prefix_append

/-- The frames delivered to a player are in order: with increasing indices, each under the
index it was added with, and one after the other unless the player was skipped or the next
frame was no longer in the ring. -/
theorem delivered_in_order (latency : Nat → Int) (events : List (StreamEvent ε))
    (h : (added (start latency) events).length < 2 ^ 31) (i : Nat) :
  (deliveredIndices (log i (start latency) events)).Pairwise (· < ·) ∧
    InOrder (log i (start latency) events) ∧
    ∀ packet newest, .delivered packet newest ∈ log i (start latency) events →
      ∃ k : Nat, (added (start latency) events)[k]? = some packet ∧ packet.index = k
  := by
  obtain ⟨_, hleads⟩ := leads_log i events (start latency) [] numbered_start (Int.le_refl _) h
  exact ⟨hleads.increasing, hleads.inOrder, fun _ _ hmem => hleads.mem_added hmem⟩

/-- An audio header, a key frame and a frame, got by two players one of which is late. -/
def joinLate : List (StreamEvent Unit) :=
  [.addPacket { type := kPacketTypeAudio, size := 2, capacity := 2, data := [0xaf, 0], ext := () },
    .addPacket { type := kPacketTypeVideo, size := 2, capacity := 2, data := [0x17, 1], ext := () },
    .getFrames 0 0,
    .addPacket { type := kPacketTypeVideo, size := 2, capacity := 2, data := [0x27, 1], ext := () },
    .getFrames 1 0,
    .clearAudioHeader 0,
    .clearOutFrames 0,
    .getFrames 0 0]

theorem delivered_in_order_joinLate :
  deliveredIndices (log 0 (start fun _ => 3000) joinLate) = [1, 2] ∧
    (deliveredIndices (log 0 (start fun _ => 3000) joinLate)).Pairwise (· < ·) ∧
    InOrder (log 0 (start fun _ => 3000) joinLate) ∧
    ∀ packet newest, .delivered packet newest ∈ log 0 (start fun _ => 3000) joinLate →
      ∃ k : Nat, (added (start fun _ => 3000) joinLate)[k]? = some packet ∧ packet.index = k
  := by
  constructor
  · decide +kernel
  · apply delivered_in_order (fun _ => 3000) joinLate (by decide +kernel) 0

end Broadcast
