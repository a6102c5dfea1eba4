import Tmms.Network.TcpConnection

/-!
# The loop of `OnWrite`

`OnWrite` calls `writev` again until the list of vectors is empty or there is an error.  Vectors
are taken off the list for bytes that are accepted, so one of length zero goes only when bytes
behind it do.  As the last of the list it stays, and `writev` is called for ever.

The results of `writev` are a sequence without an end, of which the loop takes as many as it
needs.
-/

open Pipe

/-- What is left of a vector. -/
theorem IoVec.toNat_len_advance (v : IoVec) {ret : ℕ} (h : ret ≤ v.len.toNat) :
  (v.advance ret).len.toNat = v.len.toNat - ret
  := by
  have hleft := congrArg List.length (v.bytes_advance (fun _ => 0) h)
  rw [List.length_drop, IoVec.length_bytes, IoVec.length_bytes] at hleft
  exact hleft

namespace TcpConnection

/-- How `OnWrite` returns. -/
inductive WriteEnd where
  | complete
  | waiting
  | closed
  deriving DecidableEq, Repr

/-- How the loop is left with some results, if it is. -/
def loopEnd : List IoVec → List WriteOutcome → Option WriteEnd
  | _, [] => none
  | vs, .wrote n :: outcomes =>
    if trim n vs = [] then some .complete else loopEnd (trim n vs) outcomes
  | _, .again :: _ => some .waiting
  | _, .failed :: _ => some .closed

/-- How `OnWrite` returns with some results, if it does. -/
def onWriteEnd (vs : List IoVec) (outcomes : List WriteOutcome) : Option WriteEnd :=
  if vs = [] then some .complete else loopEnd vs outcomes

/-- What is true when `OnWrite` returns: the list is empty and `write_complete_cb_` ran once, or
there is more to write and write events are as they were, or the connection is closed. -/
def WriteEnd.Holds (c : TcpConnection) (r : TcpConnection × List (Obs UInt8)) : WriteEnd → Prop
  | .complete =>
      r.1.ioVecList = [] ∧ r.1.closed = false ∧ r.1.writing = false ∧ r.2.count .done = 1
  | .waiting =>
      r.1.ioVecList ≠ [] ∧ r.1.closed = false ∧ r.1.writing = c.writing ∧ r.2.count .done = 0
  | .closed => r.1.closed = true ∧ r.2.count .done = 0

/-- The first results of a sequence. -/
def results (writev : ℕ → WriteOutcome) (k : ℕ) : List WriteOutcome := (List.range k).map writev

/-- Results that `writev` may give: it accepts no more than there is, and nothing only when
there is nothing. -/
def Possible : List IoVec → List WriteOutcome → Prop
  | _, [] => True
  | vs, .wrote n :: outcomes =>
    (n ≤ pendingSize vs ∧ (n = 0 → pendingSize vs = 0)) ∧
      (trim n vs = [] ∨ Possible (trim n vs) outcomes)
  | _, .again :: _ => True
  | _, .failed :: _ => True

/-- The last vector of a list has length zero. -/
def EmptyLast (vs : List IoVec) : Prop := ∃ v ∈ vs.getLast?, v.len = 0

/-! ### Vectors that are taken off -/

theorem pendingSize_cons (v : IoVec) (vs : List IoVec) :
  pendingSize (v :: vs) = v.len.toNat + pendingSize vs
  := by
  rw [pendingSize, List.map_cons, List.sum_cons, pendingSize]

/-- The bytes that are accepted are no longer pending. -/
theorem pendingSize_trim (n : ℕ) (vs : List IoVec) :
  pendingSize (trim n vs) = pendingSize vs - n
  := by
  have hlength (vs : List IoVec) : (pendingBytes (fun _ => 0) vs).length = pendingSize vs
    := by
    induction vs with
    | nil => rfl
    | cons v vs ih =>
        rw [pendingBytes, List.flatMap_cons, List.length_append, v.length_bytes, ← pendingBytes,
          ih, pendingSize_cons]
  rw [← hlength, pendingBytes_trim, List.length_drop, hlength]

theorem emptyLast_cons {v : IoVec} {vs : List IoVec} (hmore : vs ≠ []) :
  EmptyLast (v :: vs) ↔ EmptyLast vs
  := by
  rw [EmptyLast, List.getLast?_cons_of_ne_nil hmore, EmptyLast]

theorem emptyLast_singleton {v : IoVec} :
  EmptyLast [v] ↔ v.len = 0
  := by
  simp [EmptyLast]

/-- A last vector of length zero stays. The induction is on the vectors. -/
theorem emptyLast_trim {vs : List IoVec} (h : EmptyLast vs) {n : ℕ} (hn : n ≤ pendingSize vs) :
  EmptyLast (trim n vs)
  := by
  induction vs generalizing n with
  | nil => exact h
  | cons v vs ih =>
      rw [trim]
      by_cases h0 : n = 0
      · rw [if_pos h0]
        exact h
      rw [if_neg h0]
      rw [pendingSize_cons] at hn
      by_cases hlast : vs = []
      · subst hlast
        have hzero := emptyLast_singleton.mp h
        rw [hzero] at hn
        exact absurd (Nat.le_zero.mp hn) h0
      · have hmore := (emptyLast_cons hlast).mp h
        split
        · exact (emptyLast_cons hlast).mpr hmore
        · apply ih hmore
          omega

/-- A last vector of another length does not become one of length zero. -/
theorem not_emptyLast_trim {vs : List IoVec} (h : ¬ EmptyLast vs) (n : ℕ) :
  ¬ EmptyLast (trim n vs)
  := by
  induction vs generalizing n with
  | nil => exact h
  | cons v vs ih =>
      rw [trim]
      by_cases h0 : n = 0
      · rw [if_pos h0]
        exact h
      rw [if_neg h0]
      by_cases hlast : vs = []
      · subst hlast
        split
        next hlt =>
          rw [emptyLast_singleton]
          intro hzero
          have hleft := v.toNat_len_advance (Nat.le_of_lt hlt)
          rw [hzero, UInt64.toNat_zero] at hleft
          omega
        · rintro ⟨v, hv, -⟩
          cases hv
      · rw [emptyLast_cons hlast] at h
        split
        · rw [emptyLast_cons hlast]
          exact h
        · apply ih h

/-- As long as the last vector is not empty, something is pending. -/
theorem pendingSize_pos {vs : List IoVec} (hmore : vs ≠ []) (hlast : ¬ EmptyLast vs) :
  0 < pendingSize vs
  := by
  induction vs with
  | nil => contradiction
  | cons v vs ih =>
      rw [pendingSize_cons]
      by_cases hnone : vs = []
      · subst hnone
        rw [emptyLast_singleton, ← UInt64.toNat_inj] at hlast
        exact Nat.add_pos_left (Nat.pos_of_ne_zero hlast) _
      · rw [emptyLast_cons hnone] at hlast
        exact Nat.add_pos_right _ (ih hnone hlast)

/-! ### How the loop is left -/

theorem results_succ (writev : ℕ → WriteOutcome) (k : ℕ) :
  results writev (k + 1) = writev 0 :: results (fun i => writev (i + 1)) k
  := by
  rw [results, List.range_succ_eq_map, List.map_cons, List.map_map]
  rfl

theorem count_done_passed (xs : List UInt8) (h : List (Obs UInt8)) :
  (Obs.passed xs :: h).count .done = h.count .done
  := by
  apply List.count_cons_of_ne
  rintro ⟨⟩

/-- Bytes that are accepted before do not change how `OnWrite` returns. -/
theorem WriteEnd.Holds.passed {c : TcpConnection} {vs : List IoVec}
    {r : TcpConnection × List (Obs UInt8)} {e : WriteEnd} (xs : List UInt8)
    (h : e.Holds { c with ioVecList := vs } r) :
  e.Holds c (r.1, .passed xs :: r.2)
  := by
  cases e with
  | complete => exact ⟨h.1, h.2.1, h.2.2.1, (count_done_passed xs r.2).trans h.2.2.2⟩
  | waiting => exact ⟨h.1, h.2.1, h.2.2.1, (count_done_passed xs r.2).trans h.2.2.2⟩
  | closed => exact ⟨h.1, (count_done_passed xs r.2).trans h.2⟩

/-- What is true when the loop is left. The induction is on the results. -/
theorem holds_of_loopEnd (mem : UInt64 → UInt8) {c : TcpConnection} (hopen : c.closed = false)
    (hmore : c.ioVecList ≠ []) {outcomes : List WriteOutcome} {e : WriteEnd}
    (he : loopEnd c.ioVecList outcomes = some e) :
  e.Holds c (c.onWriteLoop mem outcomes)
  := by
  induction outcomes generalizing c with
  | nil => cases he
  | cons outcome outcomes ih =>
      cases outcome with
      | again =>
          cases he
          exact ⟨hmore, hopen, rfl, rfl⟩
      | failed =>
          cases he
          exact ⟨rfl, rfl⟩
      | wrote n =>
          rw [loopEnd] at he
          rw [onWriteLoop]
          split at he
          next hall =>
            cases he
            rw [if_pos hall]
            exact ⟨rfl, hopen, rfl, count_done_passed _ _⟩
          next hleft =>
            rw [if_neg hleft]
            apply WriteEnd.Holds.passed
            apply @ih { c with ioVecList := trim n c.ioVecList } hopen hleft he

/-- What is true when `OnWrite` returns. -/
theorem holds_of_onWriteEnd (mem : UInt64 → UInt8) {c : TcpConnection} (hopen : c.closed = false)
    {outcomes : List WriteOutcome} {e : WriteEnd}
    (he : onWriteEnd c.ioVecList outcomes = some e) :
  e.Holds c (c.onWrite mem outcomes)
  := by
  rw [onWrite, if_neg (by rw [hopen]; exact Bool.false_ne_true)]
  rw [onWriteEnd] at he
  split at he
  next hnone =>
    cases he
    rw [if_pos hnone]
    exact ⟨hnone, hopen, rfl, rfl⟩
  next hmore =>
    rw [if_neg hmore]
    apply holds_of_loopEnd mem hopen hmore he

/-- An error ends the loop, if nothing did before. The induction is on the place of the error. -/
theorem loopEnd_of_error {vs : List IoVec} {writev : ℕ → WriteOutcome} {k : ℕ}
    (herror : ∀ n, writev k ≠ .wrote n) :
  ∃ k e, loopEnd vs (results writev k) = some e
  := by
  induction k generalizing vs writev with
  | zero =>
      use 1
      rw [results_succ]
      cases hfirst : writev 0 with
      | wrote n => exact absurd hfirst (herror n)
      | again => exact ⟨.waiting, rfl⟩
      | failed => exact ⟨.closed, rfl⟩
  | succ k ih =>
      cases hfirst : writev 0 with
      | wrote n =>
          obtain ⟨k, e, he⟩ := @ih (trim n vs) (fun i => writev (i + 1)) herror
          use k + 1
          rw [results_succ, hfirst, loopEnd]
          split
          · use .complete
          · use e, he
      | again =>
          use 1, .waiting
          rw [results_succ, hfirst, loopEnd]
      | failed =>
          use 1, .closed
          rw [results_succ, hfirst, loopEnd]

theorem possible_succ {vs : List IoVec} {writev : ℕ → WriteOutcome}
    (h : ∀ k, Possible vs (results writev k)) {n : ℕ} (hfirst : writev 0 = .wrote n) :
  (n ≤ pendingSize vs ∧ (n = 0 → pendingSize vs = 0)) ∧
    (trim n vs = [] ∨ ∀ k, Possible (trim n vs) (results (fun i => writev (i + 1)) k))
  := by
  have hstep (k : ℕ) := h (k + 1)
  simp only [results_succ, hfirst, Possible] at hstep
  use (hstep 0).1
  by_cases hall : trim n vs = []
  · left
    exact hall
  · right
    intro k
    apply (hstep k).2.resolve_left hall

/-- The loop ends when the last vector is not empty: every byte count is positive as long as
something is pending, and when nothing is, nothing is left. The induction is on the number of
pending bytes. -/
theorem loopEnd_of_not_emptyLast {vs : List IoVec} (hmore : vs ≠ []) (hlast : ¬ EmptyLast vs)
    {writev : ℕ → WriteOutcome} (hpossible : ∀ k, Possible vs (results writev k)) :
  ∃ k e, loopEnd vs (results writev k) = some e
  := by
  induction hsize : pendingSize vs using Nat.strong_induction_on generalizing vs writev with
  | _ size ih =>
      subst hsize
      cases hfirst : writev 0 with
      | again => exact loopEnd_of_error (k := 0) (by rw [hfirst]; rintro n ⟨⟩)
      | failed => exact loopEnd_of_error (k := 0) (by rw [hfirst]; rintro n ⟨⟩)
      | wrote n =>
          obtain ⟨⟨hn, hzero⟩, hrest⟩ := possible_succ hpossible hfirst
          by_cases hall : trim n vs = []
          · use 1, .complete
            rw [results_succ, hfirst, loopEnd, if_pos hall]
          · have hpending := pendingSize_pos hmore hlast
            have hless : pendingSize (trim n vs) < pendingSize vs
              := by
              rw [pendingSize_trim]
              omega
            obtain ⟨k, e, he⟩ := ih _ hless hall (not_emptyLast_trim hlast n)
              (hrest.resolve_left hall) rfl
            use k + 1, e
            rw [results_succ, hfirst, loopEnd, if_neg hall]
            exact he

/-- The loop does not end when the last vector is empty and there is no error. -/
theorem loopEnd_of_emptyLast {vs : List IoVec} (hlast : EmptyLast vs)
    {writev : ℕ → WriteOutcome} (hpossible : ∀ k, Possible vs (results writev k))
    (hwrote : ∀ k, ∃ n, writev k = .wrote n) (k : ℕ) :
  loopEnd vs (results writev k) = none
  := by
  induction k generalizing vs writev with
  | zero => rfl
  | succ k ih =>
      obtain ⟨n, hfirst⟩ := hwrote 0
      obtain ⟨⟨hn, -⟩, hrest⟩ := possible_succ hpossible hfirst
      have hstays := emptyLast_trim hlast hn
      have hleft : trim n vs ≠ []
        := by
        intro hall
        rw [hall] at hstays
        obtain ⟨v, hv, -⟩ := hstays
        cases hv
      rw [results_succ, hfirst, loopEnd, if_neg hleft]
      apply ih hstays (hrest.resolve_left hleft)
      intro k
      apply hwrote

/-- `OnWrite` of an open connection returns, in one of the three ways, exactly when the last
pending vector is not of length zero or one of the results of `writev` is an error. -/
theorem onWrite_returns_iff (mem : UInt64 → UInt8) {c : TcpConnection} (hopen : c.closed = false)
    {writev : ℕ → WriteOutcome} (hpossible : ∀ k, Possible c.ioVecList (results writev k)) :
  (∃ k e, onWriteEnd c.ioVecList (results writev k) = some e ∧
      e.Holds c (c.onWrite mem (results writev k))) ↔
    ¬ EmptyLast c.ioVecList ∨ ∃ k, ∀ n, writev k ≠ .wrote n
  := by
  have hholds :
      (∃ k e, onWriteEnd c.ioVecList (results writev k) = some e ∧
          e.Holds c (c.onWrite mem (results writev k))) ↔
        ∃ k e, onWriteEnd c.ioVecList (results writev k) = some e
    := by
    constructor
    · rintro ⟨k, e, he, -⟩
      use k, e
    · rintro ⟨k, e, he⟩
      use k, e, he, holds_of_onWriteEnd mem hopen he
  rw [hholds]
  by_cases hnone : c.ioVecList = []
  · rw [hnone]
    constructor
    · intro _
      left
      rintro ⟨v, hv, -⟩
      cases hv
    · intro _
      use 0, .complete
      apply if_pos rfl
  · simp only [onWriteEnd, if_neg hnone]
    constructor
    · rintro ⟨k, e, he⟩
      by_contra hstall
      push Not at hstall
      rw [loopEnd_of_emptyLast hstall.1 hpossible hstall.2] at he
      cases he
    · rintro (hlast | ⟨k, herror⟩)
      · apply loopEnd_of_not_emptyLast hnone hlast hpossible
      · apply loopEnd_of_error herror

/-- The results when everything is written and the last vector is empty. -/
def stalled : ℕ → WriteOutcome
  | 0 => .wrote 12
  | _ + 1 => .wrote 0

/-- The header and the body of a message without a body. -/
def emptyMessage : List IoVec := [⟨4096, 12⟩, ⟨8192, 0⟩]

/-- As long as nothing is pending, nothing may be accepted. -/
theorem possible_nothing {vs : List IoVec} (h : pendingSize vs = 0) (k : ℕ) :
  Possible vs (results (fun _ => .wrote 0) k)
  := by
  induction k with
  | zero => trivial
  | succ k ih =>
      have htrim : trim 0 vs = vs
        := by cases vs <;> rfl
      rw [results_succ, Possible, htrim]
      exact ⟨⟨Nat.zero_le _, fun _ => h⟩, .inr ih⟩

theorem possible_stalled (k : ℕ) : Possible emptyMessage (results stalled k) := by
  cases k with
  | zero => trivial
  | succ k =>
      rw [results_succ, stalled, Possible]
      refine ⟨by decide, .inr ?_⟩
      apply possible_nothing
      decide

/-- A message without a body is written and `OnWrite` does not return. -/
theorem not_onWrite_returns :
  ¬ ∀ (mem : UInt64 → UInt8) (c : TcpConnection), c.closed = false →
    ∀ writev : ℕ → WriteOutcome, (∀ k, Possible c.ioVecList (results writev k)) →
      ∃ k e, onWriteEnd c.ioVecList (results writev k) = some e ∧
        e.Holds c (c.onWrite mem (results writev k))
  := by
  intro h
  obtain ⟨k, e, he, -⟩ := h (fun _ => 0) { ioVecList := emptyMessage, writing := true } rfl stalled
    possible_stalled
  have hempty : EmptyLast emptyMessage := ⟨⟨8192, 0⟩, rfl, rfl⟩
  have hwrote (k : ℕ) : ∃ n, stalled k = .wrote n
    := by cases k <;> exact ⟨_, rfl⟩
  have hnone := loopEnd_of_emptyLast hempty possible_stalled hwrote k
  cases hnone.symm.trans he

/-- A vector of length zero in front of the last one is taken off with it. -/
theorem onWrite_returns_front :
  ∃ k e, onWriteEnd [⟨8192, 0⟩, ⟨4096, 12⟩] (results (fun _ => .wrote 12) k) = some e ∧
    e.Holds { ioVecList := [⟨8192, 0⟩, ⟨4096, 12⟩] }
      (onWrite (fun _ => 0) { ioVecList := [⟨8192, 0⟩, ⟨4096, 12⟩] }
        (results (fun _ => .wrote 12) k))
  := by
  apply (@onWrite_returns_iff (fun _ => 0) { ioVecList := [⟨8192, 0⟩, ⟨4096, 12⟩] } rfl
    (fun _ => .wrote 12) _).mpr
  · left
    rintro ⟨v, hv, hzero⟩
    cases hv
    revert hzero
    decide
  · rintro (_ | k)
    · trivial
    · rw [results_succ, Possible]
      exact ⟨by decide, .inl (by decide)⟩

end TcpConnection
