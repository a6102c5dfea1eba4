import Mathlib.Data.List.Range
import Tmms.Live.PullerRelay

/-!
# Isolation of the relays of an application

Sessions of one application share its targets.  A target has the stream name of the first
session that selects it, so the sessions are isolated as long as none selects a target that
has the name of another stream.
-/

/-- An application with its targets. The names come from between two slashes of the name of a
session. -/
structure Application where
  domainName : List UInt8
  appName : List UInt8
  pulls : List Target
  noSlash : 47 ∉ domainName ∧ 47 ∉ appName
  parsed : ∃ objs, parsePulls domainName appName objs = some pulls

/-- What is behind the last slash of the name of a session. -/
structure StreamName where
  bytes : List UInt8
  noSlash : 47 ∉ bytes
  ne_nil : bytes ≠ []
  deriving DecidableEq

namespace Application

variable (a : Application)

/-- The name of a session. -/
def sessionName (s : StreamName) : List UInt8 :=
  a.domainName ++ ascii "/" ++ a.appName ++ ascii "/" ++ s.bytes

/-- The URL that asks a target for the stream of a session. -/
def requestUrl (s : StreamName) (t : Target) : List UInt8 :=
  ascii "rtmp://" ++ t.remoteHost ++ ascii ":" ++ ascii (toString t.remotePort) ++ ascii "/" ++
    a.sessionName s

/-- The targets on the heap. -/
def heap (k : Nat) : Target := a.pulls.getD k { remotePort := 0 }

/-- `AppInfo::pulls`. -/
def pointers : List Nat := List.range a.pulls.length

theorem split_sessionName (s : StreamName) :
  StringUtils.splitString (a.sessionName s) (ascii "/") = [a.domainName, a.appName, s.bytes]
  := by
  have hslash : ascii "/" = [47] := by decide
  have happ : StringUtils.splitString (a.appName ++ 47 :: ([] ++ s.bytes)) [47] =
      a.appName :: StringUtils.splitString s.bytes [47] :=
    StringUtils.splitString_append a.noSlash.2 s.bytes
  have hdomain : StringUtils.splitString
      (a.domainName ++ 47 :: ([] ++ (a.appName ++ 47 :: ([] ++ s.bytes)))) [47] =
        a.domainName :: StringUtils.splitString (a.appName ++ 47 :: ([] ++ s.bytes)) [47] :=
    StringUtils.splitString_append a.noSlash.1 _
  rw [happ, StringUtils.splitString_of_notMem s.noSlash s.ne_nil] at hdomain
  rw [sessionName, hslash]
  simpa using hdomain

/-- A target of an application has its names and no stream name. -/
theorem names_of_mem {t : Target} (ht : t ∈ a.pulls) :
  t.domainName = a.domainName ∧ t.appName = a.appName ∧ t.streamName = []
  := by
  obtain ⟨objs, hparsed⟩ := a.parsed
  have hall : ∀ (objs : List (UInt16 × TargetConfig)) (pulls : List Target),
      parsePulls a.domainName a.appName objs = some pulls → t ∈ pulls →
        t.domainName = a.domainName ∧ t.appName = a.appName ∧ t.streamName = [] := by
    intro objs
    induction objs with
    | nil =>
        rintro pulls ⟨⟩ hmem
        cases hmem
    | cons obj objs ih =>
        intro pulls h hmem
        rw [parsePulls, List.mapM_cons] at h
        obtain ⟨u, hu, h⟩ := Option.bind_eq_some_iff.mp h
        obtain ⟨us, hus, h⟩ := Option.bind_eq_some_iff.mp h
        cases h
        obtain ⟨hdomain, happ, hstream, -⟩ := Target.parseTarget_names hu
        rcases hmem with _ | ⟨_, hmem⟩
        · exact ⟨hdomain, happ, hstream⟩
        · apply ih us hus hmem
  apply hall objs a.pulls hparsed ht

end Application

/-! ### What selecting changes -/

/-- Two targets differ in the stream name and the counter at most. -/
def SameConfig (t t' : Target) : Prop :=
  t' = { t with streamName := t'.streamName, retry := t'.retry }

theorem SameConfig.trans {t t' t'' : Target} (h : SameConfig t t') (h' : SameConfig t' t'') :
  SameConfig t t''
  := by
  rw [SameConfig] at *
  rw [h', h]

/-- What one session does to the targets: it fills its stream name `s` into some that have
none, and counts on some that have it. -/
structure Touches (s : StreamName) (targets targets' : Nat → Target) : Prop where
  config : ∀ k, SameConfig (targets k) (targets' k)
  filled : ∀ k, (targets k).streamName ≠ [] → (targets' k).streamName = (targets k).streamName
  counted : ∀ k, (targets k).streamName ≠ [] → (targets k).streamName ≠ s.bytes →
    (targets' k).retry = (targets k).retry

theorem Touches.refl (s : StreamName) (targets : Nat → Target) :
  Touches s targets targets
  := by
  constructor
  · intro k
    rfl
  · intro k _
    rfl
  · intro k _ _
    rfl

/-- A change of one target. -/
theorem touches_update {s : StreamName} {targets : Nat → Target} {k : Nat} {t : Target}
    (hconfig : SameConfig (targets k) t)
    (hfilled : (targets k).streamName ≠ [] → t.streamName = (targets k).streamName)
    (hcounted : (targets k).streamName ≠ s.bytes → t.retry = (targets k).retry) :
  Touches s targets (Function.update targets k t)
  := by
  constructor
  · intro j
    rcases eq_or_ne j k with rfl | hne
    · rw [Function.update_self]
      apply hconfig
    · rw [Function.update_of_ne hne]
      rfl
  · intro j hj
    rcases eq_or_ne j k with rfl | hne
    · rw [Function.update_self, hfilled hj]
    · rw [Function.update_of_ne hne]
  · intro j _ hother
    rcases eq_or_ne j k with rfl | hne
    · rw [Function.update_self, hcounted hother]
    · rw [Function.update_of_ne hne]

/-- A relay of session `s` points to the targets of the application, and its current one has
the name of the stream. -/
structure Aims (a : Application) (s : StreamName) (targets : Nat → Target) (r : PullerRelay) :
    Prop where
  targets_eq : r.targets = a.pointers
  current : ∀ k, r.currentTarget = some k → (targets k).streamName = s.bytes ∧ k ∈ a.pointers

/-- What a relay takes as its next target has no stream name yet or that of the session. -/
def NextOwn (a : Application) (s : StreamName) (targets : Nat → Target) (r : PullerRelay) : Prop :=
  r.retries targets = none → ∀ k, a.pointers[(r.curTargetIndex + 1).toNat]? = some k →
    (targets k).streamName = [] ∨ (targets k).streamName = s.bytes

instance (a : Application) (s : StreamName) (targets : Nat → Target) (r : PullerRelay) :
    Decidable (NextOwn a s targets r) :=
  inferInstanceAs (Decidable (r.retries targets = none →
    ∀ k ∈ a.pointers[(r.curTargetIndex + 1).toNat]?,
      (targets k).streamName = [] ∨ (targets k).streamName = s.bytes))

section Select

variable {a : Application} {s : StreamName} {targets : Nat → Target} {r : PullerRelay}

theorem retries_current {k : Nat} (h : r.retries targets = some k) :
  r.currentTarget = some k
  := by
  rw [PullerRelay.retries, Option.filter_eq_some_iff] at h
  apply h.1

/-- A selected target gets the stream name of the session. -/
theorem streamName_fillStreamName {t : Target}
    (h : t.streamName = [] ∨ t.streamName = s.bytes) :
  (PullerRelay.fillStreamName (a.sessionName s) t).streamName = s.bytes
  := by
  rw [PullerRelay.fillStreamName, a.split_sessionName]
  split
  · rfl
  next hne =>
    rcases h with h | h
    · exact absurd h hne
    · apply h

/-- Nothing else of it changes. -/
theorem touches_fillStreamName (k : Nat) :
  Touches s targets
    (Function.update targets k (PullerRelay.fillStreamName (a.sessionName s) (targets k)))
  := by
  rw [PullerRelay.fillStreamName, a.split_sessionName]
  split
  next hnil =>
    apply touches_update
    · rfl
    · intro hne
      exact absurd hnil hne
    · intro _
      rfl
  next =>
    apply touches_update
    · rfl
    · intro _
      rfl
    · intro _
      rfl

/-- Selecting a target keeps a relay aiming and touches targets for its session only. -/
theorem aims_selectTarget (haims : Aims a s targets r) (hnext : NextOwn a s targets r) :
  Aims a s (r.selectTarget (a.sessionName s) targets).1
      (r.selectTarget (a.sessionName s) targets).2.1 ∧
    Touches s targets (r.selectTarget (a.sessionName s) targets).1 ∧
    ∀ url, .play url ∉ (r.selectTarget (a.sessionName s) targets).2.2
  := by
  rw [PullerRelay.selectTarget]
  rcases hretries : r.retries targets with _ | k
  · dsimp only
    rw [haims.targets_eq]
    rcases hk : a.pointers[(r.curTargetIndex + 1).toNat]? with _ | k
    · dsimp only
      refine ⟨⟨rfl, haims.current⟩, .refl s targets, ?_⟩
      simp
    · dsimp only
      refine ⟨⟨rfl, ?_⟩, touches_fillStreamName k, ?_⟩
      · rintro j ⟨⟩
        rw [Function.update_self]
        exact ⟨streamName_fillStreamName (hnext hretries k hk), List.mem_of_getElem? hk⟩
      · intro url hmem
        cases hmem
  · obtain ⟨hname, hmem⟩ := haims.current k (retries_current hretries)
    have htouches : Touches s targets
        (Function.update targets k { targets k with retry := (targets k).retry + 1 }) := by
      apply touches_update
      · rfl
      · intro _
        rfl
      · intro hother
        exact absurd hname hother
    refine ⟨⟨haims.targets_eq, ?_⟩, htouches, ?_⟩
    · intro j hj
      obtain ⟨hj, hjmem⟩ := haims.current j hj
      refine ⟨?_, hjmem⟩
      dsimp only
      rw [htouches.filled j, hj]
      rw [hj]
      apply s.ne_nil
    · intro url hmem
      cases hmem

end Select

theorem Aims.touched {a : Application} {s s' : StreamName} {targets targets' : Nat → Target}
    {r : PullerRelay} (h : Aims a s targets r) (ht : Touches s' targets targets') :
  Aims a s targets' r
  := by
  use h.targets_eq
  intro k hk
  obtain ⟨hname, hmem⟩ := h.current k hk
  refine ⟨?_, hmem⟩
  rw [ht.filled k, hname]
  rw [hname]
  apply s.ne_nil

/-- The request to a target of the application that has the name of the stream. -/
theorem mem_request {a : Application} {s : StreamName} {k : Nat} {t : Target}
    (hk : k ∈ a.pointers) (hconfig : SameConfig (a.heap k) t) (hname : t.streamName = s.bytes)
    {url : List UInt8} (hurl : .play url ∈ PullerRelay.request t) :
  ∃ u ∈ a.pulls, url = a.requestUrl s u
  := by
  rw [PullerRelay.request] at hurl
  split at hurl
  · rw [Application.pointers, List.mem_range] at hk
    have hmem : a.heap k ∈ a.pulls := by
      rw [Application.heap, List.getD_eq_getElem?_getD, List.getElem?_eq_getElem hk]
      apply List.getElem_mem
    obtain ⟨hdomain, happ, -⟩ := a.names_of_mem hmem
    use a.heap k, hmem
    cases List.mem_singleton.mp hurl
    rw [hconfig, Target.pullUrl, Application.requestUrl, Application.sessionName]
    simp only [hdomain, happ, hname, List.append_assoc]
  · cases hurl

/-! ### Runs -/

namespace Relays

variable {ι : Type} (a : Application) (stream : ι → StreamName)

/-- The names of the session objects. -/
def names (i : ι) : List UInt8 := a.sessionName (stream i)

/-- Nothing was pulled yet. -/
def start : Relays ι := { targets := a.heap }

/-- The sessions are separate: what they point to has the names of their streams. -/
structure Separate (w : Relays ι) : Prop where
  config : ∀ k, SameConfig (a.heap k) (w.targets k)
  aims : ∀ i r, w.pull i = some r → Aims a (stream i) w.targets r
  timers : ∀ task ∈ w.timers,
    (w.targets task.target).streamName = (stream task.session).bytes ∧ task.target ∈ a.pointers

theorem separate_start :
  Separate a stream (start a)
  := by
  refine ⟨?_, nofun, nofun⟩
  intro k
  rfl

variable [DecidableEq ι]

/-- A session that takes another target takes one without a stream name or with its own. -/
def TakesOwn (w : Relays ι) : Event ι → Prop
  | .startPullStream i publishing =>
    publishing = false → NextOwn a (stream i) w.targets ((w.pull i).getD {})
  | .onPullClose i publishing =>
    publishing = false → NextOwn a (stream i) w.targets ((w.pull i).getD {})
  | .runTimer _ => True
  | .destroy _ => True

instance (w : Relays ι) : (e : Event ι) → Decidable (TakesOwn a stream w e)
  | .startPullStream i publishing =>
    inferInstanceAs (Decidable (publishing = false →
      NextOwn a (stream i) w.targets ((w.pull i).getD {})))
  | .onPullClose i publishing =>
    inferInstanceAs (Decidable (publishing = false →
      NextOwn a (stream i) w.targets ((w.pull i).getD {})))
  | .runTimer _ => isTrue trivial
  | .destroy _ => isTrue trivial

/-- The steps of a run are all such. -/
def AllTakeOwn : Relays ι → List (Event ι) → Prop
  | _, [] => True
  | w, e :: es =>
    TakesOwn a stream w e ∧ AllTakeOwn (w.step (names a stream) a.pointers e).1 es

instance allTakeOwnDecidable : (w : Relays ι) → (events : List (Event ι)) →
    Decidable (AllTakeOwn a stream w events)
  | _, [] => isTrue trivial
  | w, e :: es =>
    have := allTakeOwnDecidable (w.step (names a stream) a.pointers e).1 es
    inferInstanceAs (Decidable (TakesOwn a stream w e ∧
      AllTakeOwn a stream (w.step (names a stream) a.pointers e).1 es))

variable {a stream}

/-- A change of the targets for one session leaves the others separate. -/
theorem Separate.touched {w : Relays ι} (h : Separate a stream w) {s : StreamName}
    {targets : Nat → Target} (ht : Touches s w.targets targets) {i : ι} {r : PullerRelay}
    (hr : Aims a (stream i) targets r) :
  Separate a stream { w with targets := targets, pull := Function.update w.pull i (some r) }
  := by
  constructor
  · intro k
    apply (h.config k).trans (ht.config k)
  · intro j r' hj
    dsimp only at hj
    rcases eq_or_ne j i with rfl | hne
    · rw [Function.update_self] at hj
      cases hj
      apply hr
    · rw [Function.update_of_ne hne] at hj
      exact (h.aims j r' hj).touched ht
  · intro task htask
    obtain ⟨hname, hmem⟩ := h.timers task htask
    refine ⟨?_, hmem⟩
    dsimp only
    rw [ht.filled, hname]
    rw [hname]
    apply (stream task.session).ne_nil

/-- `Pull` keeps the sessions separate, touches the targets of its session only, and asks for
its stream. -/
theorem separate_pullTarget {w : Relays ι} (h : Separate a stream w) {i : ι} {r : PullerRelay}
    (haims : Aims a (stream i) w.targets r) {publishing : Bool}
    (hnext : publishing = false → NextOwn a (stream i) w.targets r) :
  Separate a stream (w.pullTarget (names a stream) i r publishing).1 ∧
    Touches (stream i) w.targets (w.pullTarget (names a stream) i r publishing).1.targets ∧
    ∀ url, .play url ∈ (w.pullTarget (names a stream) i r publishing).2 →
      ∃ t ∈ a.pulls, url = a.requestUrl (stream i) t
  := by
  cases publishing with
  | true =>
      refine ⟨?_, .refl _ _, nofun⟩
      exact h.touched (.refl (stream i) _) haims
  | false =>
      obtain ⟨haims', htouches, hplay⟩ := aims_selectTarget haims (hnext rfl)
      have hsep := h.touched htouches haims'
      rw [pullTarget, if_neg Bool.false_ne_true]
      dsimp only [names] at hsep ⊢
      rcases hcur : (r.selectTarget (a.sessionName (stream i)) w.targets).2.1.currentTarget
        with _ | k
      · refine ⟨hsep, htouches, ?_⟩
        intro url hurl
        exact absurd hurl (hplay url)
      obtain ⟨hname, hmem⟩ := haims'.current k hcur
      dsimp only
      split
      · refine ⟨hsep, htouches, ?_⟩
        intro url hurl
        rcases List.mem_append.mp hurl with hurl | hurl
        · exact absurd hurl (hplay url)
        split at hurl
        · apply mem_request hmem (hsep.config k) hname hurl
        · cases hurl
      · refine ⟨⟨hsep.config, hsep.aims, ?_⟩, htouches, ?_⟩
        · intro task htask
          rcases List.mem_append.mp htask with htask | htask
          · apply hsep.timers task htask
          · cases List.mem_singleton.mp htask
            exact ⟨hname, hmem⟩
        · intro url hurl
          exact absurd hurl (hplay url)

omit [DecidableEq ι] in
/-- A relay that `AddPlayer` makes or that is there. -/
theorem Separate.getTargets {w : Relays ι} (h : Separate a stream w) (i : ι) :
  Aims a (stream i) w.targets (((w.pull i).getD {}).getTargets a.pointers)
  := by
  use rfl
  intro k hk
  rcases hr : w.pull i with _ | r
  · rw [hr] at hk
    cases hk
  · rw [hr] at hk
    apply (h.aims i r hr).current k hk

/-- The outputs of a run ask for the streams of the sessions they are of. -/
def AsksOwn (a : Application) (stream : ι → StreamName) (outputs : List (ι × RelayOutput)) :
    Prop :=
  ∀ i url, (i, .play url) ∈ outputs → ∃ t ∈ a.pulls, url = a.requestUrl (stream i) t

/-- What an event about a session, or about none, may do. -/
structure Allowed (a : Application) (stream : ι → StreamName) (session : Option ι)
    (w : Relays ι) (result : Relays ι × List (ι × RelayOutput)) : Prop where
  separate : Separate a stream result.1
  counts : ∀ k, (w.targets k).streamName ≠ [] →
    (∀ i, session = some i → (w.targets k).streamName ≠ (stream i).bytes) →
    (result.1.targets k).retry = (w.targets k).retry
  asks : AsksOwn a stream result.2

omit [DecidableEq ι] in
theorem allowed_of_pull {w : Relays ι} {i : ι} {result : Relays ι × List RelayOutput}
    (h : Separate a stream result.1 ∧ Touches (stream i) w.targets result.1.targets ∧
      ∀ url, .play url ∈ result.2 → ∃ t ∈ a.pulls, url = a.requestUrl (stream i) t) :
  Allowed a stream (some i) w (result.1, result.2.map (i, ·))
  := by
  obtain ⟨hsep, htouches, hplay⟩ := h
  refine ⟨hsep, ?_, ?_⟩
  · intro k hk hother
    apply htouches.counted k hk (hother i rfl)
  · intro j url hmem
    obtain ⟨output, houtput, hpair⟩ := List.mem_map.mp hmem
    cases hpair
    apply hplay url houtput

/-- Every event at which a session takes its own targets keeps the sessions separate. -/
theorem allowed_step {w : Relays ι} (h : Separate a stream w) {e : Event ι}
    (hown : TakesOwn a stream w e) :
  Allowed a stream e.session w (w.step (names a stream) a.pointers e)
  := by
  cases e with
  | startPullStream i publishing =>
      apply allowed_of_pull
      rw [startPullStream]
      split
      next =>
        refine ⟨h.touched (.refl (stream i) w.targets) (h.getTargets i), .refl _ _, ?_⟩
        intro url hmem
        cases List.mem_singleton.mp hmem
      next => apply separate_pullTarget h (h.getTargets i) hown
  | onPullClose i publishing =>
      apply allowed_of_pull
      rw [onPullClose]
      rcases hr : w.pull i with _ | r
      · exact ⟨h, .refl _ _, by rintro _ ⟨⟩⟩
      · rw [TakesOwn, hr] at hown
        apply separate_pullTarget h (h.aims i r hr) hown
  | runTimer k =>
      rw [step, runTimer]
      rcases hk : w.timers[k]? with _ | task
      · exact ⟨h, fun k _ _ => rfl, fun _ _ hmem => absurd hmem List.not_mem_nil⟩
      obtain ⟨hname, hmem⟩ := h.timers task (List.mem_of_getElem? hk)
      refine ⟨⟨h.config, h.aims, ?_⟩, fun k _ _ => rfl, ?_⟩
      · intro task' htask'
        apply h.timers task' (List.mem_of_mem_eraseIdx htask')
      · intro i url hurl
        dsimp only at hurl
        split at hurl
        · obtain ⟨output, houtput, hpair⟩ := List.mem_map.mp hurl
          cases hpair
          apply mem_request hmem (h.config _) hname houtput
        · cases hurl
  | destroy i =>
      refine ⟨⟨h.config, ?_, h.timers⟩, fun k _ _ => rfl,
        fun _ _ hmem => absurd hmem List.not_mem_nil⟩
      intro j r hj
      rw [step] at hj
      dsimp only at hj
      rcases eq_or_ne j i with rfl | hne
      · rw [Function.update_self] at hj
        cases hj
      · rw [Function.update_of_ne hne] at hj
        apply h.aims j r hj

/-- Runs whose steps take their own targets keep the sessions separate, and ask for their
streams. -/
theorem separate_run {w : Relays ι} {events : List (Event ι)} (h : Separate a stream w)
    (hown : AllTakeOwn a stream w events) :
  Separate a stream (w.run (names a stream) a.pointers events).1 ∧
    AsksOwn a stream (w.run (names a stream) a.pointers events).2
  := by
  induction events generalizing w with
  | nil => exact ⟨h, nofun⟩
  | cons e es ih =>
      have hstep := allowed_step h hown.1
      obtain ⟨hsep, hasks⟩ := ih hstep.separate hown.2
      use hsep
      intro i url hmem
      rcases List.mem_append.mp hmem with hmem | hmem
      · apply hstep.asks i url hmem
      · apply hasks i url hmem

omit [DecidableEq ι] in
theorem allTakeOwn_append [DecidableEq ι] {w : Relays ι} {es es' : List (Event ι)} :
  AllTakeOwn a stream w (es ++ es') ↔
    AllTakeOwn a stream w es ∧
      AllTakeOwn a stream (w.run (names a stream) a.pointers es).1 es'
  := by
  induction es generalizing w with
  | nil => simp [AllTakeOwn, run]
  | cons e es ih => rw [List.cons_append, AllTakeOwn, AllTakeOwn, ih, and_assoc, run]

theorem run_append_single (w : Relays ι) (es : List (Event ι)) (e : Event ι) :
  (w.run (names a stream) a.pointers (es ++ [e])).1 =
    ((w.run (names a stream) a.pointers es).1.step (names a stream) a.pointers e).1
  := by
  induction es generalizing w with
  | nil => rfl
  | cons e' es ih => rw [List.cons_append, run, ih, run]

/-- In a run the sessions are isolated: each asks for its stream, and an event about a session
does not change the counter of the current target of another. -/
structure Isolated (a : Application) (stream : ι → StreamName) (events : List (Event ι)) :
    Prop where
  asks : AsksOwn a stream ((start a).run (names a stream) a.pointers events).2
  counts : ∀ before e after, events = before ++ e :: after → ∀ i r k,
    ((start a).run (names a stream) a.pointers before).1.pull i = some r →
    r.currentTarget = some k → (∀ j, e.session = some j → stream j ≠ stream i) →
    (((start a).run (names a stream) a.pointers (before ++ [e])).1.targets k).retry =
      (((start a).run (names a stream) a.pointers before).1.targets k).retry

/-- The sessions of an application are isolated in every run in which each takes targets that
have no stream name yet or its own. -/
theorem isolated_of_takesOwn {events : List (Event ι)}
    (hown : AllTakeOwn a stream (start a) events) :
  Isolated a stream events
  := by
  constructor
  · apply (separate_run (separate_start a stream) hown).2
  · rintro before e after rfl i r k hr hk hother
    obtain ⟨hbefore, hrest⟩ := allTakeOwn_append.mp hown
    obtain ⟨hsep, -⟩ := separate_run (separate_start a stream) hbefore
    obtain ⟨hname, -⟩ := (hsep.aims i r hr).current k hk
    have hne : ∀ j, e.session = some j → (stream i).bytes ≠ (stream j).bytes := by
      intro j hj hbytes
      apply hother j hj
      rcases hi : stream i with ⟨bytes⟩
      rcases hj : stream j with ⟨bytes'⟩
      rw [hi, hj] at hbytes
      cases hbytes
      rfl
    rw [run_append_single]
    apply (allowed_step hsep hrest.1).counts k
    · rw [hname]
      apply (stream i).ne_nil
    · rw [hname]
      apply hne

/-- The object of an RTMP target on the host `h` that is tried twice. -/
def rtmpTarget : UInt16 × TargetConfig :=
  (0, { protocol := some (ascii "rtmp"), host := some (ascii "h"), maxRetry := some 1 })

/-- The application `d/a` with one such target. -/
def oneTarget : Application where
  domainName := ascii "d"
  appName := ascii "a"
  pulls := ((parsePulls (ascii "d") (ascii "a") [rtmpTarget]).getD [])
  noSlash := by decide
  parsed := ⟨[rtmpTarget], by decide +kernel⟩

/-- The streams `0` and `1`. -/
def twoStreams (b : Bool) : StreamName where
  bytes := if b then ascii "1" else ascii "0"
  noSlash := by
    cases b with
    | false => decide
    | true => decide
  ne_nil := by
    cases b with
    | false => decide
    | true => decide

/-- One session pulls, fails, tries again and gives up, while the other has a publisher. -/
theorem isolated_onePulls :
  Isolated oneTarget twoStreams [.startPullStream false false, .onPullClose false false,
    .startPullStream true true, .runTimer 0, .onPullClose true true, .onPullClose false false,
    .destroy true]
  := by
  apply isolated_of_takesOwn
  decide +kernel

/-- Two sessions pull: the second asks for the stream of the first. -/
theorem not_isolated_bothPull :
  ¬Isolated oneTarget twoStreams [.startPullStream false false, .startPullStream true false]
  := by
  intro h
  have hwrong : (true, .play (oneTarget.requestUrl (twoStreams false) (oneTarget.heap 0))) ∈
      ((start oneTarget).run (names oneTarget twoStreams) oneTarget.pointers
        [.startPullStream false false, .startPullStream true false]).2 := by
    decide +kernel
  obtain ⟨t, ht, hurl⟩ := h.asks true _ hwrong
  have hother : ∀ t ∈ oneTarget.pulls,
      oneTarget.requestUrl (twoStreams false) (oneTarget.heap 0) ≠
        oneTarget.requestUrl (twoStreams true) t := by
    decide +kernel
  apply hother t ht hurl

end Relays
