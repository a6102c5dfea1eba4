import Tmms.Library.Runs
import Tmms.Live.PullerRelay

/-!
# How often a target is tried

`SelectTarget` takes the current target once more, or the next one, or closes the session.  It
is called for a pull that fails and for a player that comes while nobody publishes, and it does
not ask whether a pull is pending.  Sessions share the counters of the targets, so a run is one
of all relays, and `Budget` is what one session has done in it.
-/

open Runs

/-! ### Selecting -/

/-- Bounds stay, and counters do not go back. -/
structure Counts (targets targets' : Nat → Target) : Prop where
  maxRetry : ∀ t, (targets' t).maxRetry = (targets t).maxRetry
  retry : ∀ t, (targets t).retry ≤ (targets' t).retry

theorem Counts.refl (targets : Nat → Target) :
  Counts targets targets
  where
  maxRetry _ := rfl
  retry _ := Int.le_refl _

/-- A change of one target. -/
theorem counts_update {targets : Nat → Target} {t : Nat} {target : Target}
    (hmax : target.maxRetry = (targets t).maxRetry) (hretry : (targets t).retry ≤ target.retry) :
  Counts targets (Function.update targets t target)
  := by
  constructor
  · intro u
    rcases eq_or_ne u t with rfl | hne
    · rw [Function.update_self, hmax]
    · rw [Function.update_of_ne hne]
  · intro u
    rcases eq_or_ne u t with rfl | hne
    · rwa [Function.update_self]
    · rw [Function.update_of_ne hne]

namespace PullerRelay

theorem fillStreamName_frame (sessionName : List UInt8) (t : Target) :
  (fillStreamName sessionName t).maxRetry = t.maxRetry ∧
    (fillStreamName sessionName t).retry = t.retry
  := by
  rw [fillStreamName]
  split
  · split
    · exact ⟨rfl, rfl⟩
    · exact ⟨rfl, rfl⟩
  · exact ⟨rfl, rfl⟩

/-- What `SelectTarget` does: it counts, it goes on, or it closes the session. -/
theorem selectTarget_cases (sessionName : List UInt8) (targets : Nat → Target)
    (r : PullerRelay) :
  (∃ t, r.currentTarget = some t ∧ (targets t).retry < (targets t).maxRetry ∧
    r.selectTarget sessionName targets =
      (Function.update targets t { targets t with retry := (targets t).retry + 1 }, r, [])) ∨
  (r.retries targets = none ∧ ∃ t, r.targets[(r.curTargetIndex + 1).toNat]? = some t ∧
    r.selectTarget sessionName targets =
      (Function.update targets t (fillStreamName sessionName (targets t)),
        { r with
          curTargetIndex := r.curTargetIndex + 1
          currentTarget := some t
          puller := getPuller (targets t) }, [])) ∨
  (r.retries targets = none ∧ r.targets[(r.curTargetIndex + 1).toNat]? = none ∧
    r.selectTarget sessionName targets =
      (targets, { r with curTargetIndex := r.curTargetIndex + 1, puller := false },
        [.closeSession sessionName]))
  := by
  rw [selectTarget]
  rcases hretries : r.retries targets with _ | t
  · right
    dsimp only
    rcases r.targets[(r.curTargetIndex + 1).toNat]? with _ | t
    · exact .inr ⟨rfl, rfl, rfl⟩
    · exact .inl ⟨rfl, t, rfl, rfl⟩
  · left
    obtain ⟨hcurrent, hlt⟩ := Option.filter_eq_some_iff.mp hretries
    exact ⟨t, hcurrent, of_decide_eq_true hlt, rfl⟩

theorem counts_selectTarget (sessionName : List UInt8) (targets : Nat → Target)
    (r : PullerRelay) :
  Counts targets (r.selectTarget sessionName targets).1
  := by
  obtain ⟨t, -, -, heq⟩ | ⟨-, t, -, heq⟩ | ⟨-, -, heq⟩ := r.selectTarget_cases sessionName targets
  · rw [heq]
    apply counts_update
    · rfl
    · dsimp only
      omega
  · rw [heq]
    obtain ⟨hmax, hretry⟩ := fillStreamName_frame sessionName (targets t)
    apply counts_update hmax
    rw [hretry]
  · rw [heq]
    apply Counts.refl

theorem not_closeSession_request (sessionName : List UInt8) (t : Target) :
  .closeSession sessionName ∉ request t
  := by
  rw [request]
  split
  · exact fun h => absurd (List.mem_singleton.mp h) (by simp)
  · exact List.not_mem_nil

end PullerRelay

namespace Relays

variable {ι : Type} [DecidableEq ι] (name : ι → List UInt8) (pulls : List Nat)

/-- A pull selects a target, and asks for a stream or leaves a task. -/
theorem pullTarget_select (w : Relays ι) (i : ι) (r : PullerRelay) :
  (w.pullTarget name i r false).1.targets = (r.selectTarget (name i) w.targets).1 ∧
    (w.pullTarget name i r false).1.pull =
      Function.update w.pull i (some (r.selectTarget (name i) w.targets).2.1) ∧
    (.closeSession (name i) ∈ (w.pullTarget name i r false).2 ↔
      .closeSession (name i) ∈ (r.selectTarget (name i) w.targets).2.2)
  := by
  rw [pullTarget, if_neg Bool.false_ne_true]
  dsimp only
  split
  · exact ⟨rfl, rfl, Iff.rfl⟩
  next t _ =>
    split
    · refine ⟨rfl, rfl, ?_⟩
      dsimp only
      rw [List.mem_append, or_iff_left]
      split
      · apply PullerRelay.not_closeSession_request
      · exact List.not_mem_nil
    · exact ⟨rfl, rfl, Iff.rfl⟩

/-- The counters of the targets in a run. -/
theorem counts_pullTarget (w : Relays ι) (i : ι) (r : PullerRelay) (publishing : Bool) :
  Counts w.targets (w.pullTarget name i r publishing).1.targets
  := by
  cases publishing with
  | true =>
      rw [pullTarget, if_pos rfl]
      apply Counts.refl
  | false =>
      rw [(w.pullTarget_select name i r).1]
      apply PullerRelay.counts_selectTarget

theorem counts_step (w : Relays ι) (e : Event ι) :
  Counts w.targets (w.step name pulls e).1.targets
  := by
  cases e with
  | startPullStream i publishing =>
      rw [step, startPullStream]
      dsimp only
      split
      · apply Counts.refl
      · apply counts_pullTarget
  | onPullClose i publishing =>
      rw [step, onPullClose]
      dsimp only
      split
      · apply Counts.refl
      · apply counts_pullTarget
  | runTimer k =>
      rw [step, runTimer]
      split
      · apply Counts.refl
      · apply Counts.refl
  | destroy i => apply Counts.refl

/-- A pull leaves the relays of other sessions. -/
theorem pullTarget_other {w : Relays ι} {i j : ι} (hne : j ≠ i) (r : PullerRelay)
    (publishing : Bool) :
  (w.pullTarget name j r publishing).1.pull i = w.pull i
  := by
  cases publishing with
  | true =>
      rw [pullTarget, if_pos rfl]
      apply Function.update_of_ne hne.symm
  | false =>
      rw [(w.pullTarget_select name j r).2.1]
      apply Function.update_of_ne hne.symm

omit [DecidableEq ι] in
theorem not_mem_map_of_ne {i j : ι} (hne : j ≠ i) (outputs : List RelayOutput)
    (output : RelayOutput) :
  (i, output) ∉ outputs.map (j, ·)
  := by
  intro h
  obtain ⟨_, -, heq⟩ := List.mem_map.mp h
  exact hne (Prod.mk.inj heq).1

/-- An event that is not one of a session leaves its relay, and does not close it. -/
theorem step_other {w : Relays ι} {i : ι} {e : Event ι} (he : e.session ≠ some i) :
  (w.step name pulls e).1.pull i = w.pull i ∧
    (i, .closeSession (name i)) ∉ (w.step name pulls e).2
  := by
  cases e with
  | startPullStream j publishing =>
      have hne : j ≠ i := fun h => he (congrArg some h)
      refine ⟨?_, not_mem_map_of_ne hne _ _⟩
      rw [step, startPullStream]
      dsimp only
      split
      · apply Function.update_of_ne hne.symm
      · apply pullTarget_other name hne
  | onPullClose j publishing =>
      have hne : j ≠ i := fun h => he (congrArg some h)
      refine ⟨?_, not_mem_map_of_ne hne _ _⟩
      rw [step, onPullClose]
      dsimp only
      split
      · rfl
      · apply pullTarget_other name hne
  | runTimer k =>
      rw [step, runTimer]
      split
      · exact ⟨rfl, List.not_mem_nil⟩
      next task _ =>
        refine ⟨rfl, ?_⟩
        dsimp only
        split
        · intro h
          obtain ⟨output, houtput, heq⟩ := List.mem_map.mp h
          rw [(Prod.mk.inj heq).2] at houtput
          exact PullerRelay.not_closeSession_request (name i) _ houtput
        · exact List.not_mem_nil
  | destroy j =>
      have hne : j ≠ i := fun h => he (congrArg some h)
      exact ⟨Function.update_of_ne hne.symm _ _, List.not_mem_nil⟩

/-- Without targets a player that comes closes the session. -/
theorem step_startPullStream_nil (w : Relays ι) (i : ι) (publishing : Bool) :
  (w.step name [] (.startPullStream i publishing)).1.targets = w.targets ∧
    (w.step name [] (.startPullStream i publishing)).1.pull i =
      some (((w.pull i).getD {}).getTargets []) ∧
    (i, .closeSession (name i)) ∈ (w.step name [] (.startPullStream i publishing)).2
  := ⟨rfl, Function.update_self _ _ _, List.mem_cons_self⟩

/-- With targets the relay pulls. -/
theorem step_startPullStream (w : Relays ι) (i : ι) (publishing : Bool) {pulls : List Nat}
    (hne : pulls ≠ []) :
  w.step name pulls (.startPullStream i publishing) =
    ((w.pullTarget name i (((w.pull i).getD {}).getTargets pulls) publishing).1,
      (w.pullTarget name i (((w.pull i).getD {}).getTargets pulls) publishing).2.map (i, ·))
  := by
  rw [step, startPullStream, if_neg]
  exact hne

end Relays

/-! ### What a session has done -/

/-- The relays with what one session has done: the positions of the targets it tried in the
order of its tries, the number of its pulls that failed, and whether it was closed.  `inVain`
says that it asked for a target when none was left. -/
structure Budget (ι : Type) where
  relays : Relays ι
  tried : List Nat := []
  failures : Nat := 0
  closed : Bool := false
  inVain : Bool := false

namespace Budget

variable {ι : Type}

/-- All targets have their counters at zero. -/
def start (targets : Nat → Target) : Budget ι where
  relays := { targets := fun t => { targets t with retry := 0 } }

variable (name : ι → List UInt8) (pulls : List Nat) (i : ι)

/-- A player comes or a pull fails while nobody publishes. Without targets it does not matter
who publishes. -/
def asks [DecidableEq ι] (s : Budget ι) : Relays.Event ι → Bool
  | .startPullStream j publishing => j = i && (!publishing || pulls.isEmpty)
  | .onPullClose j publishing => j = i && !publishing && (s.relays.pull i).isSome
  | _ => false

/-- A pull of the session fails. -/
def fails [DecidableEq ι] (s : Budget ι) : Relays.Event ι → Bool
  | .onPullClose j _ => j = i && (s.relays.pull i).isSome
  | _ => false

/-- The position a relay has selected, if it is that of a target. -/
def tries (r : PullerRelay) : List Nat :=
  if r.curTargetIndex.toNat < r.targets.length then [r.curTargetIndex.toNat] else []

def selected (w : Relays ι) : List Nat := ((w.pull i).map tries).getD []

/-- No pull is pending, every target was tried, and their retries are used up. -/
def Exhausted (s : Budget ι) (failures : Nat) : Prop :=
  s.tried.length ≤ failures ∧ (∀ j < pulls.length, j ∈ s.tried) ∧
    ∀ t ∈ pulls, (s.relays.targets t).maxRetry ≤ (s.relays.targets t).retry

instance (s : Budget ι) (failures : Nat) : Decidable (s.Exhausted pulls failures) :=
  inferInstanceAs (Decidable (_ ∧ _ ∧ _))

def step [DecidableEq ι] (s : Budget ι) (e : Relays.Event ι) : Budget ι :=
  let next := s.relays.step name pulls e
  if e = .destroy i then
    { relays := next.1 }
  else
    let failures := s.failures + if s.fails i e then 1 else 0
    { relays := next.1
      tried := s.tried ++ if s.asks pulls i e then selected i next.1 else []
      failures := failures
      closed := s.closed || decide ((i, .closeSession (name i)) ∈ next.2)
      inVain := s.inVain || s.asks pulls i e && decide (s.Exhausted pulls failures) }

/-- Each target is tried once and at most `max_retry` times again, the first time or for a pull
that failed, in the order of the list; and the session is closed when it asks for a target and
none is left. -/
structure Kept (s : Budget ι) : Prop where
  budget : ∀ j ∈ s.tried, ∀ t ∈ pulls[j]?,
    (s.tried.count j : Int) ≤ (s.relays.targets t).maxRetry + 1
  failed : s.tried.length ≤ s.failures + 1
  sorted : s.tried.Pairwise (· ≤ ·)
  inOrder : ∀ j ∈ s.tried, ∀ k < j, k ∈ s.tried
  closed_eq : s.closed = s.inVain

/-- A player that comes finds no pull pending, or the session closed; and a target that is
tried for the first time has no negative bound. -/
def Sound [DecidableEq ι] (s : Budget ι) (e : Relays.Event ι) : Prop :=
  (e = .startPullStream i false → pulls ≠ [] →
    s.closed = true ∨ s.tried.length ≤ s.failures) ∧
  (s.asks pulls i e = true → ((s.relays.pull i).getD {}).retries s.relays.targets = none →
    ∀ t ∈ pulls[(((s.relays.pull i).getD {}).curTargetIndex + 1).toNat]?,
      0 ≤ (s.relays.targets t).maxRetry)

/-! ### One selection -/

/-- A relay that has gone to `n` targets, or beyond the last one. -/
structure Reaches (targets : Nat → Target) (tried : List Nat) (r : PullerRelay) (n : Nat) :
    Prop where
  targets_eq : r.targets = pulls
  index_eq : r.curTargetIndex = n - 1
  current_eq : r.currentTarget = (pulls.take n).getLast?
  mem_tried : ∀ j, j ∈ tried ↔ j < n ∧ j < pulls.length
  used : ∀ t ∈ pulls.take (n - 1), (targets t).maxRetry ≤ (targets t).retry
  count_le : ∀ t, n ≤ pulls.length → r.currentTarget = some t →
    (tried.count (n - 1) : Int) ≤ (targets t).retry + 1

section Select

variable {pulls} {targets : Nat → Target} {tried : List Nat} {r : PullerRelay} {n : Nat}

theorem reaches_start (targets : Nat → Target) (r : PullerRelay)
    (h : r = ({} : PullerRelay).getTargets pulls) :
  Reaches pulls targets [] r 0
  := by
  rw [h]
  refine ⟨rfl, rfl, rfl, ?_, ?_, ?_⟩
  · intro j
    exact iff_of_false List.not_mem_nil (by omega)
  · intro t ht
    rw [List.take_zero] at ht
    cases ht
  · intro t _ ht
    cases ht

/-- Other sessions may count too. -/
theorem Reaches.mono (h : Reaches pulls targets tried r n) {targets' : Nat → Target}
    (hcounts : Counts targets targets') :
  Reaches pulls targets' tried r n
  := by
  refine { h with used := ?_, count_le := ?_ }
  · intro t ht
    have hused := h.used t ht
    have hretry := hcounts.retry t
    rw [hcounts.maxRetry]
    omega
  · intro t hn ht
    have hcount := h.count_le t hn ht
    have hretry := hcounts.retry t
    omega

/-- When the current target is not tried again, the targets gone to are used up. -/
theorem Reaches.used_of_retries (h : Reaches pulls targets tried r n)
    (hretries : r.retries targets = none) :
  ∀ t ∈ pulls.take n, (targets t).maxRetry ≤ (targets t).retry
  := by
  rcases n with _ | n
  · intro t ht
    rw [List.take_zero] at ht
    cases ht
  · intro t ht
    by_cases hn : n < pulls.length
    · have htake : pulls.take (n + 1) = pulls.take n ++ [pulls[n]]
        := (List.take_append_getElem hn).symm
      have hcurrent := h.current_eq
      rw [htake, List.getLast?_concat] at hcurrent
      rw [htake] at ht
      rcases List.mem_append.mp ht with hold | hlast
      · apply h.used t hold
      · rw [PullerRelay.retries, hcurrent, Option.filter_some] at hretries
        rw [List.mem_singleton.mp hlast]
        by_contra hlt
        rw [if_pos (decide_eq_true (by omega))] at hretries
        cases hretries
    · rw [List.take_of_length_le (by omega)] at ht
      apply h.used t
      rwa [Nat.add_sub_cancel, List.take_of_length_le (by omega)]

/-- A target that is tried again is the last one gone to. -/
theorem Reaches.getElem?_of_retry (h : Reaches pulls targets tried r n) {t : Nat}
    (hcurrent : r.currentTarget = some t) (hlt : (targets t).retry < (targets t).maxRetry) :
  0 < n ∧ pulls[n - 1]? = some t
  := by
  rw [h.current_eq, List.getLast?_take] at hcurrent
  split at hcurrent
  · cases hcurrent
  next hn =>
    refine ⟨by omega, ?_⟩
    rcases Option.or_eq_some_iff.mp hcurrent with hlast | ⟨hnone, hlast⟩
    · exact hlast
    · have hlength := List.getElem?_eq_none_iff.mp hnone
      have hused := h.used t
      rw [List.take_of_length_le hlength] at hused
      have := hused (List.mem_of_getLast? hlast)
      omega

theorem Reaches.toNat_index (h : Reaches pulls targets tried r n) :
  (r.curTargetIndex + 1).toNat = n
  := by
  rw [h.index_eq]
  omega

/-- The last target is tried again. -/
theorem Reaches.again (h : Reaches pulls targets tried r n) {t : Nat}
    (hcurrent : r.currentTarget = some t) (hlt : (targets t).retry < (targets t).maxRetry) :
  Reaches pulls (Function.update targets t { targets t with retry := (targets t).retry + 1 })
    (tried ++ [n - 1]) r n
  := by
  obtain ⟨hpos, hlast⟩ := h.getElem?_of_retry hcurrent hlt
  have hn : n - 1 < pulls.length := (List.getElem?_eq_some_iff.mp hlast).1
  have hcount := h.count_le t (by omega) hcurrent
  have hcounts : Counts targets
      (Function.update targets t { targets t with retry := (targets t).retry + 1 })
    := by
    apply counts_update
    · rfl
    · dsimp only
      omega
  obtain ⟨htargets, hindex, hcurrent', hmem, hused, -⟩ := h.mono hcounts
  refine ⟨htargets, hindex, hcurrent', ?_, hused, ?_⟩
  · intro j
    rw [List.mem_append, hmem, List.mem_singleton]
    omega
  · intro u _ hu
    cases hcurrent.symm.trans hu
    rw [List.count_append, List.count_singleton_self, Function.update_self]
    dsimp only
    omega

/-- The relay goes on to the next target. -/
theorem Reaches.next (h : Reaches pulls targets tried r n) (hpos : ∀ t, 0 ≤ (targets t).retry)
    {t : Nat} (ht : pulls[n]? = some t) (hretries : r.retries targets = none)
    (sessionName : List UInt8) (puller : Bool) :
  Reaches pulls
    (Function.update targets t (PullerRelay.fillStreamName sessionName (targets t)))
    (tried ++ [n])
    { r with
      curTargetIndex := r.curTargetIndex + 1
      currentTarget := some t
      puller := puller } (n + 1)
  := by
  have hn : n < pulls.length := (List.getElem?_eq_some_iff.mp ht).1
  have hindex := h.index_eq
  have hnotin : n ∉ tried
    := by
    rw [h.mem_tried]
    omega
  obtain ⟨hmax, hretry⟩ := PullerRelay.fillStreamName_frame sessionName (targets t)
  have hcounts : Counts targets
      (Function.update targets t (PullerRelay.fillStreamName sessionName (targets t))) :=
    counts_update hmax (Int.le_of_eq hretry.symm)
  refine ⟨h.targets_eq, ?_, ?_, ?_, ?_, ?_⟩
  · dsimp only
    omega
  · rw [List.getLast?_take, if_neg (Nat.succ_ne_zero n), Nat.add_sub_cancel, ht]
    rfl
  · intro j
    rw [List.mem_append, h.mem_tried, List.mem_singleton]
    omega
  · intro u hu
    rw [Nat.add_sub_cancel] at hu
    have hbefore := h.used_of_retries hretries u hu
    have hgrown := hcounts.retry u
    rw [hcounts.maxRetry]
    omega
  · intro u _ hu
    cases hu
    have hzero := hpos t
    rw [Nat.add_sub_cancel, List.count_append, List.count_eq_zero.mpr hnotin,
      List.count_singleton_self, Function.update_self, hretry]
    omega

/-- The relay goes beyond the last target. -/
theorem Reaches.beyond (h : Reaches pulls targets tried r n) (hn : pulls.length ≤ n)
    (hretries : r.retries targets = none) :
  Reaches pulls targets tried
    { r with curTargetIndex := r.curTargetIndex + 1, puller := false } (n + 1)
  := by
  have hindex := h.index_eq
  refine ⟨h.targets_eq, ?_, ?_, ?_, ?_, ?_⟩
  · dsimp only
    omega
  · have hcurrent := h.current_eq
    rwa [List.take_of_length_le hn, ← List.take_of_length_le (Nat.le_succ_of_le hn)] at hcurrent
  · intro j
    rw [h.mem_tried]
    omega
  · rw [Nat.add_sub_cancel]
    apply h.used_of_retries hretries
  · intro u hlength
    omega

/-- A relay gone to `n` targets tries the last of them again, or the next one for the first
time, or closes the session. -/
theorem Reaches.selectTarget (h : Reaches pulls targets tried r n)
    (hpos : ∀ t, 0 ≤ (targets t).retry) (sessionName : List UInt8) :
  ∃ targets' r' outputs, r.selectTarget sessionName targets = (targets', r', outputs) ∧
    ((∃ t, 0 < n ∧ pulls[n - 1]? = some t ∧ r.retries targets ≠ none ∧
        (targets t).retry < (targets t).maxRetry ∧
        (tried.count (n - 1) : Int) ≤ (targets t).maxRetry ∧ tries r' = [n - 1] ∧
        outputs = [] ∧ Reaches pulls targets' (tried ++ [n - 1]) r' n) ∨
      (∃ t, pulls[n]? = some t ∧ r.retries targets = none ∧ tries r' = [n] ∧ outputs = [] ∧
        Reaches pulls targets' (tried ++ [n]) r' (n + 1)) ∨
      (pulls.length ≤ n ∧ r.retries targets = none ∧ tries r' = [] ∧
        outputs = [.closeSession sessionName] ∧ Reaches pulls targets' tried r' (n + 1)))
  := by
  have hindex := h.toNat_index
  obtain ⟨t, hcurrent, hlt, heq⟩ | ⟨hretries, t, ht, heq⟩ | ⟨hretries, hnone, heq⟩ :=
    r.selectTarget_cases sessionName targets
  · obtain ⟨hn, hlast⟩ := h.getElem?_of_retry hcurrent hlt
    have hlength : n - 1 < pulls.length := (List.getElem?_eq_some_iff.mp hlast).1
    have hcount := h.count_le t (by omega) hcurrent
    refine ⟨_, _, _, heq, .inl ⟨t, hn, hlast, ?_, hlt, by omega, ?_, rfl, h.again hcurrent hlt⟩⟩
    · rw [PullerRelay.retries, hcurrent, Option.filter_some, if_pos (decide_eq_true hlt)]
      exact Option.some_ne_none t
    · have hlast : r.curTargetIndex.toNat = n - 1 := by omega
      rw [tries, hlast, h.targets_eq, if_pos hlength]
  · rw [hindex, h.targets_eq] at ht
    have hlength : n < pulls.length := (List.getElem?_eq_some_iff.mp ht).1
    refine ⟨_, _, _, heq, .inr (.inl ⟨t, ht, hretries, ?_, rfl, h.next hpos ht hretries _ _⟩)⟩
    rw [tries, hindex, h.targets_eq, if_pos hlength]
  · rw [hindex, h.targets_eq] at hnone
    have hlength := List.getElem?_eq_none_iff.mp hnone
    refine ⟨_, _, _, heq, .inr (.inr ⟨hlength, hretries, ?_, rfl, h.beyond hlength hretries⟩)⟩
    rw [tries, hindex, h.targets_eq, if_neg (by omega)]

end Select

/-! ### One event -/

/-- The relay of the session, if it has one, has gone to some targets, and the session is closed
once the relay has gone beyond the last. -/
structure Tracks (s : Budget ι) : Prop where
  retry_nonneg : ∀ t, 0 ≤ (s.relays.targets t).retry
  fresh : s.relays.pull i = none → s.tried = [] ∧ s.closed = false
  reaches : ∀ r, s.relays.pull i = some r → ∃ n,
    Reaches pulls s.relays.targets s.tried r n ∧
      (s.closed = true ↔ pulls.length < n ∨ pulls = [])

section Step

variable {pulls i} {s s' : Budget ι} {r : PullerRelay} {n : Nat}

/-- One more try keeps the budget if no pull was pending and a retry was left. -/
theorem kept_concat_iff (hkept : s.Kept pulls) {r' : PullerRelay}
    (h : Reaches pulls s'.relays.targets (s.tried ++ [n]) r' (n + 1)) {t : Nat}
    (ht : pulls[n]? = some t) (hcounts : Counts s.relays.targets s'.relays.targets)
    (htried : s'.tried = s.tried ++ [n]) (hclosed : s'.closed = s'.inVain) :
  s'.Kept pulls ↔ s.tried.length ≤ s'.failures ∧
    (s.tried.count n : Int) ≤ (s.relays.targets t).maxRetry
  := by
  have hcount : ∀ j, s'.tried.count j = s.tried.count j + if n = j then 1 else 0
    := by
    intro j
    rw [htried, List.count_append, List.count_singleton]
    simp only [beq_iff_eq]
  constructor
  · intro hkept'
    have hmem : n ∈ s'.tried := htried ▸ List.mem_append_right s.tried List.mem_cons_self
    have hbudget := hkept'.budget n hmem t ht
    have hfailed := hkept'.failed
    rw [hcount, if_pos rfl, hcounts.maxRetry] at hbudget
    rw [htried, List.length_append, List.length_singleton] at hfailed
    constructor
    · omega
    · omega
  · rintro ⟨hpending, hleft⟩
    have hmem := h.mem_tried
    rw [← htried] at hmem
    refine ⟨?_, ?_, ?_, ?_, hclosed⟩
    · intro j hj u hu
      rw [hcount, hcounts.maxRetry]
      by_cases hsame : n = j
      · rw [if_pos hsame]
        rw [hsame] at ht hleft
        cases ht.symm.trans hu
        omega
      · rw [if_neg hsame]
        rw [htried, List.mem_append, List.mem_singleton, or_iff_left (Ne.symm hsame)] at hj
        exact hkept.budget j hj u hu
    · rw [htried, List.length_append, List.length_singleton]
      omega
    · rw [htried, List.pairwise_append]
      refine ⟨hkept.sorted, List.pairwise_singleton _ _, ?_⟩
      intro j hj k hk
      have hle := (hmem j).mp (htried ▸ List.mem_append_left [n] hj)
      rw [List.mem_singleton.mp hk]
      omega
    · intro j hj k hk
      have hle := (hmem j).mp hj
      rw [hmem]
      omega

/-- While the relay is at a target, the session is open. -/
theorem closed_eq_false {m : Nat} (hclosed : s.closed = true ↔ pulls.length < n ∨ pulls = [])
    (hm : m < pulls.length) (hn : n ≤ pulls.length) :
  s.closed = false
  := by
  rw [Bool.eq_false_iff, ne_eq, hclosed]
  rintro (hbeyond | rfl)
  · omega
  · cases hm

/-- What a selection of the relay makes of the session. -/
structure Selects (pulls : List Nat) (i : ι) (s s' : Budget ι) (sessionName : List UInt8)
    (result : (Nat → Target) × PullerRelay × List RelayOutput) : Prop where
  targets : s'.relays.targets = result.1
  pull : s'.relays.pull i = some result.2.1
  tried : s'.tried = s.tried ++ tries result.2.1
  failures : s.failures ≤ s'.failures
  closed : s'.closed = (s.closed || decide (.closeSession sessionName ∈ result.2.2))
  inVain : s'.inVain = (s.inVain || decide (s.Exhausted pulls s'.failures))

section Selects

variable {sessionName : List UInt8} {targets' : Nat → Target} {r' : PullerRelay}

theorem Selects.tracks {outputs : List RelayOutput}
    (hs : Selects pulls i s s' sessionName (targets', r', outputs))
    (hpos : ∀ t, 0 ≤ (s.relays.targets t).retry) (hcounts : Counts s.relays.targets targets')
    (h : Reaches pulls targets' s'.tried r' n)
    (hclosed : s'.closed = true ↔ pulls.length < n ∨ pulls = []) :
  s'.Tracks pulls i
  := by
  refine ⟨fun t => ?_, fun hnone => ?_, fun q hq => ⟨n, ?_, hclosed⟩⟩
  · have hzero := hpos t
    have hretry := hcounts.retry t
    rw [hs.targets]
    dsimp only
    omega
  · cases hs.pull.symm.trans hnone
  · cases hs.pull.symm.trans hq
    rwa [hs.targets]

/-- A try while a target is left. -/
theorem Selects.try_iff (hs : Selects pulls i s s' sessionName (targets', r', []))
    (hkept : s.Kept pulls) (hcounts : Counts s.relays.targets targets')
    (hopen : s.closed = false) (hleft : ¬ s.Exhausted pulls s'.failures)
    (htries : tries r' = [n]) (h : Reaches pulls targets' (s.tried ++ [n]) r' (n + 1)) {t : Nat}
    (ht : pulls[n]? = some t) :
  s'.closed = false ∧ s'.tried = s.tried ++ [n] ∧
    (s'.Kept pulls ↔ (s.closed = true ∨ s.tried.length ≤ s'.failures) ∧
      (s.tried.count n : Int) ≤ (s.relays.targets t).maxRetry)
  := by
  have htried := hs.tried
  have hcloses := hs.closed
  have hinVain := hs.inVain
  rw [htries] at htried
  rw [decide_eq_false List.not_mem_nil, Bool.or_false] at hcloses
  rw [decide_eq_false hleft, Bool.or_false] at hinVain
  refine ⟨hcloses.trans hopen, htried, ?_⟩
  rw [kept_concat_iff hkept (by rwa [hs.targets]) ht (by rwa [hs.targets]) htried
    (by rw [hcloses, hinVain, hkept.closed_eq]), hopen, or_iff_right Bool.false_ne_true]

/-- A selection when no target is left. -/
theorem Selects.beyond_iff
    (hs : Selects pulls i s s' sessionName (targets', r', [.closeSession sessionName]))
    (hkept : s.Kept pulls) (hcounts : Counts s.relays.targets targets')
    (htries : tries r' = []) (h : Reaches pulls s.relays.targets s.tried r n)
    (hn : pulls.length ≤ n) (hretries : r.retries s.relays.targets = none) :
  s'.closed = true ∧ s'.tried = s.tried ∧
    (s'.Kept pulls ↔ s.closed = true ∨ s.tried.length ≤ s'.failures)
  := by
  have htried := hs.tried
  have hcloses := hs.closed
  have hall : s.Exhausted pulls s'.failures ↔ s.tried.length ≤ s'.failures
    := by
    apply and_iff_left_of_imp
    intro _
    constructor
    · intro j hj
      rw [h.mem_tried]
      omega
    · intro t ht
      apply h.used_of_retries hretries
      rwa [List.take_of_length_le hn]
  rw [htries, List.append_nil] at htried
  rw [decide_eq_true List.mem_cons_self, Bool.or_true] at hcloses
  have hsame : s'.Kept pulls ↔ s'.inVain = true
    := by
    constructor
    · intro hkept'
      rw [← hkept'.closed_eq, hcloses]
    · intro hvain
      refine ⟨?_, ?_, ?_, ?_, ?_⟩
      · intro j hj u hu
        rw [htried] at hj ⊢
        rw [hs.targets, hcounts.maxRetry]
        apply hkept.budget j hj u hu
      · have hfailed := hkept.failed
        have hfailures := hs.failures
        rw [htried]
        omega
      · rw [htried]
        apply hkept.sorted
      · rw [htried]
        apply hkept.inOrder
      · rw [hcloses, hvain]
  refine ⟨hcloses, htried, ?_⟩
  rw [hsame, hs.inVain, Bool.or_eq_true, decide_eq_true_eq, hall, ← hkept.closed_eq]

end Selects

/-- A relay that selects a target keeps the budget if no pull is pending or the session is
closed, and the next target, if it goes on, has no negative bound. -/
theorem kept_select_iff (sessionName : List UInt8)
    (hs : Selects pulls i s s' sessionName (r.selectTarget sessionName s.relays.targets))
    (hkept : s.Kept pulls) (hpos : ∀ t, 0 ≤ (s.relays.targets t).retry)
    (h : Reaches pulls s.relays.targets s.tried r n)
    (hclosed : s.closed = true ↔ pulls.length < n ∨ pulls = []) :
  s'.Tracks pulls i ∧
    (s'.Kept pulls ↔ (s.closed = true ∨ s.tried.length ≤ s'.failures) ∧
      (r.retries s.relays.targets = none → ∀ t ∈ pulls[n]?, 0 ≤ (s.relays.targets t).maxRetry))
  := by
  have hcounts := PullerRelay.counts_selectTarget sessionName s.relays.targets r
  obtain ⟨targets', r', outputs, heq, hselect⟩ := h.selectTarget hpos sessionName
  rw [heq] at hs hcounts
  dsimp only at hcounts
  obtain ⟨t, hn, ht, hretries, hlt, hcount, htries, rfl, hreaches⟩ |
    ⟨t, ht, hretries, htries, rfl, hreaches⟩ | ⟨hn, hretries, htries, rfl, hreaches⟩ := hselect
  · -- the current target is tried again
    have hm : n - 1 < pulls.length := (List.getElem?_eq_some_iff.mp ht).1
    have hopen := closed_eq_false hclosed hm (by omega)
    have hleft : ¬ s.Exhausted pulls s'.failures
      := by
      intro hexhausted
      have := hexhausted.2.2 t (List.mem_of_getElem? ht)
      omega
    have hnext : n - 1 + 1 = n := by omega
    obtain ⟨hopen', htried, hiff⟩ :=
      hs.try_iff hkept hcounts hopen hleft htries (by rwa [hnext]) ht
    constructor
    · apply hs.tracks hpos hcounts (htried ▸ hreaches)
      rw [hopen', ← hopen, hclosed]
    · rw [hiff, and_iff_left hcount]
      exact (and_iff_left fun hnone => absurd hnone hretries).symm
  · -- the relay goes on
    have hm : n < pulls.length := (List.getElem?_eq_some_iff.mp ht).1
    have hopen := closed_eq_false hclosed hm (by omega)
    have hnotin : n ∉ s.tried
      := by
      rw [h.mem_tried]
      omega
    have hleft : ¬ s.Exhausted pulls s'.failures
      := by
      intro hexhausted
      exact hnotin (hexhausted.2.1 n hm)
    obtain ⟨hopen', htried, hiff⟩ := hs.try_iff hkept hcounts hopen hleft htries hreaches ht
    constructor
    · apply hs.tracks hpos hcounts (htried ▸ hreaches)
      rw [hopen']
      apply iff_of_false Bool.false_ne_true
      rintro (hbeyond | rfl)
      · omega
      · cases hm
    · rw [hiff, List.count_eq_zero.mpr hnotin, ht]
      apply and_congr_right
      intro _
      constructor
      · intro hbound _ u hu
        cases hu
        exact hbound
      · intro hbound
        exact hbound hretries t rfl
  · -- no target is left
    obtain ⟨hclosed', htried, hiff⟩ := hs.beyond_iff hkept hcounts htries h hn hretries
    constructor
    · apply hs.tracks hpos hcounts (htried ▸ hreaches)
      rw [hclosed']
      exact iff_of_true rfl (.inl (by omega))
    · rw [hiff, List.getElem?_eq_none hn]
      refine (and_iff_left ?_).symm
      intro _ u hu
      cases hu

/-- Where the session neither asks nor fails it stays as it is. -/
theorem Tracks.idle (h : s.Tracks pulls i) (hkept : s.Kept pulls)
    (hcounts : Counts s.relays.targets s'.relays.targets)
    (hfresh : s'.relays.pull i = none → s.relays.pull i = none)
    (hreaches : ∀ r, s'.relays.pull i = some r → ∃ n,
      Reaches pulls s.relays.targets s.tried r n ∧
        (s.closed = true ↔ pulls.length < n ∨ pulls = []))
    (htried : s'.tried = s.tried) (hfailures : s.failures ≤ s'.failures)
    (hclosed : s'.closed = s.closed) (hinVain : s'.inVain = s.inVain) :
  s'.Tracks pulls i ∧ s'.Kept pulls
  := by
  constructor
  · refine ⟨?_, ?_, ?_⟩
    · intro t
      have hzero := h.retry_nonneg t
      have hretry := hcounts.retry t
      omega
    · intro hnone
      rw [htried, hclosed]
      apply h.fresh (hfresh hnone)
    · intro r hr
      obtain ⟨n, hn, hiff⟩ := hreaches r hr
      rw [htried, hclosed]
      exact ⟨n, hn.mono hcounts, hiff⟩
  · refine ⟨?_, ?_, ?_, ?_, ?_⟩
    · intro j hj t ht
      rw [htried] at hj ⊢
      rw [hcounts.maxRetry]
      apply hkept.budget j hj t ht
    · have hfailed := hkept.failed
      rw [htried]
      omega
    · rw [htried]
      apply hkept.sorted
    · rw [htried]
      apply hkept.inOrder
    · rw [hclosed, hinVain, hkept.closed_eq]

/-- The relay a player finds or makes. -/
theorem Tracks.relay (h : s.Tracks pulls i) :
  ∃ n, Reaches pulls s.relays.targets s.tried (((s.relays.pull i).getD {}).getTargets pulls) n ∧
    (pulls ≠ [] → (s.closed = true ↔ pulls.length < n ∨ pulls = []))
  := by
  rcases hr : s.relays.pull i with _ | r
  · obtain ⟨htried, hclosed⟩ := h.fresh hr
    refine ⟨0, ?_, ?_⟩
    · rw [htried]
      apply reaches_start _ _ rfl
    · intro hne
      rw [hclosed]
      apply iff_of_false Bool.false_ne_true
      rintro (hbeyond | hnil)
      · omega
      · exact hne hnil
  · obtain ⟨n, hreaches, hclosed⟩ := h.reaches r hr
    have hsame : r.getTargets pulls = r
      := by
      rw [PullerRelay.getTargets, ← hreaches.targets_eq]
    refine ⟨n, ?_, fun _ => hclosed⟩
    rw [Option.getD_some, hsame]
    exact hreaches

/-- A session that has done nothing yet. -/
theorem kept_fresh (w : Relays ι) :
  ({ relays := w } : Budget ι).Kept pulls
  where
  budget _ hj := absurd hj List.not_mem_nil
  failed := Nat.zero_le _
  sorted := .nil
  inOrder _ hj := absurd hj List.not_mem_nil
  closed_eq := rfl

variable [DecidableEq ι]

section Frame

variable {e : Relays.Event ι} (he : e ≠ .destroy i) (name : ι → List UInt8)

include he

/-- What an event does to a session that it does not destroy. -/
theorem step_eq :
  s.step name pulls i e =
    { relays := (s.relays.step name pulls e).1
      tried := s.tried ++ if s.asks pulls i e then
        selected i (s.relays.step name pulls e).1 else []
      failures := s.failures + if s.fails i e then 1 else 0
      closed := s.closed || decide ((i, .closeSession (name i)) ∈ (s.relays.step name pulls e).2)
      inVain := s.inVain || s.asks pulls i e &&
        decide (s.Exhausted pulls (s.failures + if s.fails i e then 1 else 0)) }
  := by
  rw [Budget.step, if_neg he]

/-- An event with which the session neither asks for a target nor is closed. -/
theorem Tracks.step_idle (h : s.Tracks pulls i) (hkept : s.Kept pulls)
    (hasks : s.asks pulls i e = false)
    (hfresh : (s.relays.step name pulls e).1.pull i = none → s.relays.pull i = none)
    (hreaches : ∀ r, (s.relays.step name pulls e).1.pull i = some r → ∃ n,
      Reaches pulls s.relays.targets s.tried r n ∧
        (s.closed = true ↔ pulls.length < n ∨ pulls = []))
    (hcloses : (i, .closeSession (name i)) ∉ (s.relays.step name pulls e).2) :
  (s.step name pulls i e).Tracks pulls i ∧ (s.step name pulls i e).Kept pulls
  := by
  have hcounts := s.relays.counts_step name pulls e
  rw [step_eq he, hasks, if_neg Bool.false_ne_true, decide_eq_false hcloses]
  apply h.idle hkept hcounts hfresh hreaches
  · apply List.append_nil
  · apply Nat.le_add_right
  · apply Bool.or_false
  · apply Bool.or_false

end Frame

/-- An event that is not one of the session. -/
theorem Tracks.step_other (h : s.Tracks pulls i) (hkept : s.Kept pulls) {e : Relays.Event ι}
    (he : e.session ≠ some i) (name : ι → List UInt8) :
  (s.step name pulls i e).Tracks pulls i ∧
    ((s.step name pulls i e).Kept pulls ↔ s.Sound pulls i e)
  := by
  obtain ⟨hpull, hcloses⟩ := s.relays.step_other name pulls he
  have hreset : e ≠ .destroy i
    := by
    rintro rfl
    exact he rfl
  have hasks : s.asks pulls i e = false
    := by
    cases e with
    | startPullStream j publishing =>
        have hne : j ≠ i := fun h => he (congrArg some h)
        rw [asks, decide_eq_false hne, Bool.false_and]
    | onPullClose j publishing =>
        have hne : j ≠ i := fun h => he (congrArg some h)
        rw [asks, decide_eq_false hne, Bool.false_and, Bool.false_and]
    | runTimer k => rfl
    | destroy j => rfl
  obtain ⟨htracks', hkept'⟩ := h.step_idle hreset name hkept hasks
    (fun hnone => hpull.symm.trans hnone) (fun r hr => h.reaches r (hpull.symm.trans hr)) hcloses
  refine ⟨htracks', iff_of_true hkept' ⟨?_, ?_⟩⟩
  · rintro rfl
    exact absurd rfl he
  · rw [hasks]
    intro hfalse
    cases hfalse

/-- An event with which the relay of the session selects a target. -/
theorem Tracks.step_select (h : s.Tracks pulls i) (hkept : s.Kept pulls) {e : Relays.Event ι}
    (he : e ≠ .destroy i) {name : ι → List UInt8}
    (hstep : s.relays.step name pulls e =
      ((s.relays.pullTarget name i r false).1,
        (s.relays.pullTarget name i r false).2.map (i, ·)))
    (hasks : s.asks pulls i e = true) (hreaches : Reaches pulls s.relays.targets s.tried r n)
    (hclosed : s.closed = true ↔ pulls.length < n ∨ pulls = []) :
  (s.step name pulls i e).Tracks pulls i ∧
    ((s.step name pulls i e).Kept pulls ↔
      (s.closed = true ∨ s.tried.length ≤ s.failures + if s.fails i e then 1 else 0) ∧
        (r.retries s.relays.targets = none →
          ∀ t ∈ pulls[n]?, 0 ≤ (s.relays.targets t).maxRetry))
  := by
  obtain ⟨htargets, hpull, hcloses⟩ := s.relays.pullTarget_select name i r
  have hselected : (s.relays.pullTarget name i r false).1.pull i =
      some (r.selectTarget (name i) s.relays.targets).2.1
    := by
    rw [hpull, Function.update_self]
  rw [step_eq he, hstep, hasks, if_pos rfl]
  apply kept_select_iff (name i) _ hkept h.retry_nonneg hreaches hclosed
  constructor
  · exact htargets
  · exact hselected
  · dsimp only
    rw [selected, hselected]
    rfl
  · apply Nat.le_add_right
  · dsimp only
    congr 1
    rw [decide_eq_decide, List.mem_map_of_injective (Prod.mk_right_injective i), hcloses]
  · rfl

/-- A player comes, and there are no targets. -/
theorem Tracks.step_startPullStream_nil (h : s.Tracks [] i)
    (name : ι → List UInt8) (publishing : Bool) :
  (s.step name [] i (.startPullStream i publishing)).Tracks [] i ∧
    (s.step name [] i (.startPullStream i publishing)).Kept []
  := by
  have he : (.startPullStream i publishing : Relays.Event ι) ≠ .destroy i := by simp
  obtain ⟨n, hreaches, -⟩ := h.relay
  have hnone : s.tried = []
    := by
    rw [List.eq_nil_iff_forall_not_mem]
    intro j hj
    exact absurd ((hreaches.mem_tried j).mp hj).2 (Nat.not_lt_zero j)
  have hasks : s.asks [] i (.startPullStream i publishing) = true
    := by
    rw [asks, decide_eq_true rfl, List.isEmpty_nil, Bool.or_true, Bool.and_true]
  obtain ⟨htargets, hpull, hcloses⟩ := s.relays.step_startPullStream_nil name i publishing
  have hselected : selected i (s.relays.step name [] (.startPullStream i publishing)).1 = []
    := by
    rw [selected, hpull]
    rfl
  have hexhausted : s.Exhausted [] (s.failures +
      if s.fails i (.startPullStream i publishing) then 1 else 0)
    := by
    refine ⟨?_, ?_, ?_⟩
    · rw [hnone]
      apply Nat.zero_le
    · intro j hj
      exact absurd hj (Nat.not_lt_zero j)
    · intro t ht
      cases ht
  rw [step_eq he, hasks, if_pos rfl, hselected, decide_eq_true hcloses,
    decide_eq_true hexhausted, hnone]
  constructor
  · refine ⟨fun t => ?_, fun hfresh => ?_, fun r hr => ⟨n, ?_, ?_⟩⟩
    · dsimp only
      rw [htargets]
      apply h.retry_nonneg
    · cases hpull.symm.trans hfresh
    · rw [hnone] at hreaches
      dsimp only
      rw [htargets]
      exact Option.some.inj (hpull.symm.trans hr) ▸ hreaches
    · exact iff_of_true (Bool.or_true _) (.inr rfl)
  · refine ⟨fun j hj => ?_, Nat.zero_le _, .nil, fun j hj => ?_, ?_⟩
    · cases hj
    · cases hj
    · exact (Bool.or_true _).trans (Bool.or_true _).symm

/-- A player comes. -/
theorem Tracks.step_startPullStream (h : s.Tracks pulls i) (hkept : s.Kept pulls)
    (name : ι → List UInt8) (publishing : Bool) :
  (s.step name pulls i (.startPullStream i publishing)).Tracks pulls i ∧
    ((s.step name pulls i (.startPullStream i publishing)).Kept pulls ↔
      s.Sound pulls i (.startPullStream i publishing))
  := by
  have he : (.startPullStream i publishing : Relays.Event ι) ≠ .destroy i := by simp
  rcases eq_or_ne pulls [] with rfl | hne
  · obtain ⟨htracks', hkept'⟩ := h.step_startPullStream_nil name publishing
    refine ⟨htracks', iff_of_true hkept' ⟨fun _ hnil => absurd rfl hnil, fun _ _ t ht => ?_⟩⟩
    cases ht
  · obtain ⟨n, hreaches, hclosed⟩ := h.relay
    have hstep := s.relays.step_startPullStream name i publishing hne
    cases publishing with
    | true =>
        have hasks : s.asks pulls i (.startPullStream i true) = false
          := by
          rw [asks, Bool.not_true, Bool.false_or, List.isEmpty_eq_false_iff.mpr hne,
            Bool.and_false]
        rw [Relays.pullTarget, if_pos rfl, List.map_nil] at hstep
        have hpull : (s.relays.step name pulls (.startPullStream i true)).1.pull i =
            some (((s.relays.pull i).getD {}).getTargets pulls)
          := by
          rw [hstep]
          apply Function.update_self
        obtain ⟨htracks', hkept'⟩ := h.step_idle he name hkept hasks
          (fun hnone => absurd (hpull.symm.trans hnone) (Option.some_ne_none _))
          (fun q hq => ⟨n, Option.some.inj (hpull.symm.trans hq) ▸ hreaches, hclosed hne⟩)
          (by rw [hstep]; exact List.not_mem_nil)
        refine ⟨htracks', iff_of_true hkept' ⟨fun heq => ?_, ?_⟩⟩
        · cases heq
        · rw [hasks]
          intro hfalse
          cases hfalse
    | false =>
        have hasks : s.asks pulls i (.startPullStream i false) = true
          := by
          rw [asks, decide_eq_true rfl]
          rfl
        obtain ⟨htracks', hiff⟩ := h.step_select hkept he hstep hasks hreaches (hclosed hne)
        refine ⟨htracks', hiff.trans ?_⟩
        have hindex := hreaches.toNat_index
        rw [Sound, ← hindex]
        constructor
        · rintro ⟨hpending, hbound⟩
          exact ⟨fun _ _ => hpending, fun _ => hbound⟩
        · rintro ⟨hpending, hbound⟩
          exact ⟨hpending rfl hne, hbound hasks⟩

/-- A pull fails. -/
theorem Tracks.step_onPullClose (h : s.Tracks pulls i) (hkept : s.Kept pulls)
    (name : ι → List UInt8) (publishing : Bool) :
  (s.step name pulls i (.onPullClose i publishing)).Tracks pulls i ∧
    ((s.step name pulls i (.onPullClose i publishing)).Kept pulls ↔
      s.Sound pulls i (.onPullClose i publishing))
  := by
  have he : (.onPullClose i publishing : Relays.Event ι) ≠ .destroy i := by simp
  have hnoplayer : ∀ p, (.onPullClose i publishing : Relays.Event ι) ≠ .startPullStream i p
    := by simp
  rcases hr : s.relays.pull i with _ | r
  · have hasks : s.asks pulls i (.onPullClose i publishing) = false
      := by
      rw [asks, hr, Option.isSome_none, Bool.and_false]
    have hstep : s.relays.step name pulls (.onPullClose i publishing) = (s.relays, [])
      := by
      rw [Relays.step, Relays.onPullClose, hr]
      rfl
    obtain ⟨htracks', hkept'⟩ := h.step_idle he name hkept hasks (by rw [hstep]; exact id)
      (by rw [hstep]; exact h.reaches) (by rw [hstep]; exact List.not_mem_nil)
    refine ⟨htracks', iff_of_true hkept' ⟨fun heq => absurd heq (hnoplayer _), ?_⟩⟩
    rw [hasks]
    intro hfalse
    cases hfalse
  · obtain ⟨n, hreaches, hclosed⟩ := h.reaches r hr
    have hstep : s.relays.step name pulls (.onPullClose i publishing) =
        ((s.relays.pullTarget name i r publishing).1,
          (s.relays.pullTarget name i r publishing).2.map (i, ·))
      := by
      rw [Relays.step, Relays.onPullClose, hr]
    cases publishing with
    | true =>
        have hasks : s.asks pulls i (.onPullClose i true) = false
          := by
          rw [asks, Bool.not_true, Bool.and_false, Bool.false_and]
        rw [Relays.pullTarget, if_pos rfl, List.map_nil] at hstep
        have hpull : (s.relays.step name pulls (.onPullClose i true)).1.pull i = some r
          := by
          rw [hstep]
          apply Function.update_self
        obtain ⟨htracks', hkept'⟩ := h.step_idle he name hkept hasks
          (fun hnone => absurd (hpull.symm.trans hnone) (Option.some_ne_none r))
          (fun q hq => ⟨n, Option.some.inj (hpull.symm.trans hq) ▸ hreaches, hclosed⟩)
          (by rw [hstep]; exact List.not_mem_nil)
        refine ⟨htracks', iff_of_true hkept' ⟨fun heq => absurd heq (hnoplayer _), ?_⟩⟩
        rw [hasks]
        intro hfalse
        cases hfalse
    | false =>
        have hasks : s.asks pulls i (.onPullClose i false) = true
          := by
          rw [asks, hr, decide_eq_true rfl]
          rfl
        have hfails : s.fails i (.onPullClose i false) = true
          := by
          rw [fails, hr, decide_eq_true rfl]
          rfl
        obtain ⟨htracks', hiff⟩ := h.step_select hkept he hstep hasks hreaches hclosed
        refine ⟨htracks', hiff.trans ?_⟩
        rw [Sound, hfails, if_pos rfl, hr, Option.getD_some, hreaches.toNat_index]
        have hfailed := hkept.failed
        constructor
        · rintro ⟨-, hbound⟩
          exact ⟨fun heq => absurd heq (hnoplayer _), fun _ => hbound⟩
        · rintro ⟨-, hbound⟩
          exact ⟨.inr hfailed, hbound hasks⟩

/-- One event keeps the budget exactly if it is sound. -/
theorem Tracks.step (h : s.Tracks pulls i) (hkept : s.Kept pulls) (e : Relays.Event ι)
    (name : ι → List UInt8) :
  (s.step name pulls i e).Tracks pulls i ∧
    ((s.step name pulls i e).Kept pulls ↔ s.Sound pulls i e)
  := by
  by_cases he : e.session = some i
  · cases e with
    | startPullStream j publishing =>
        obtain rfl := Option.some.inj he
        exact h.step_startPullStream hkept name publishing
    | onPullClose j publishing =>
        obtain rfl := Option.some.inj he
        exact h.step_onPullClose hkept name publishing
    | runTimer k => cases he
    | destroy j =>
        obtain rfl := Option.some.inj he
        rw [Budget.step, if_pos rfl]
        refine ⟨⟨h.retry_nonneg, fun _ => ⟨rfl, rfl⟩, ?_⟩,
          iff_of_true (kept_fresh _) ⟨?_, ?_⟩⟩
        · intro r hr
          dsimp only [Relays.step] at hr
          rw [Function.update_self] at hr
          cases hr
        · intro heq
          cases heq
        · intro hasks
          cases hasks
  · exact h.step_other hkept he name

end Step

/-- In every run each target is tried in its turn and as often as it may be, and the session is
closed when no target is left, exactly if every event is sound. -/
theorem kept_iff_sound [DecidableEq ι] (name : ι → List UInt8) (pulls : List Nat) (i : ι)
    (targets : Nat → Target) (events : List (Relays.Event ι)) :
  Throughout (step name pulls i) (Kept pulls) (start targets) events ↔
    Steps (step name pulls i) (Sound pulls i) (start targets) events
  := by
  have hall : Steps (step name pulls i) (fun _ _ => True) (start targets) events := steps_true
  apply throughout_iff_steps (I := Tracks pulls i) hall
  · refine ⟨fun t => Int.le_refl 0, fun _ => ⟨rfl, rfl⟩, ?_⟩
    intro r hr
    cases hr
  · apply kept_fresh
  · intro s e h hkept _
    exact h.step hkept e name

/-- The budget is not always kept: two players come to a session with one target that is not to
be tried again, and the second one closes it. -/
theorem not_kept_secondPlayer :
  ¬ ∀ (name : Unit → List UInt8) (pulls : List Nat) (targets : Nat → Target)
      (events : List (Relays.Event Unit)), (∀ t ∈ pulls, 0 ≤ (targets t).maxRetry) →
    Throughout (step name pulls ()) (Kept pulls) (start targets) events
  := by
  intro h
  have hlast := (h (fun _ => []) [0] (fun _ => { remotePort := 1935, protocol := ascii "rtmp" })
    [.startPullStream () false, .startPullStream () false] (by decide)).last
  have hclosed := hlast.closed_eq
  revert hclosed
  decide

end Budget
