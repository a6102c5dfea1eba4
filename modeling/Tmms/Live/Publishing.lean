import Mathlib.Data.Fintype.Basic
import Tmms.Live.LiveSession

/-!
# Publishing

A session says that it is publishing exactly while the connection of its publisher is open, in
runs in which no pulled publisher loses its connection and no connection changes its user while
that is the publisher.
-/

namespace LiveSession

variable {κ : Type} [DecidableEq κ]

/-- No close callback is pending. -/
def Settled (s : LiveSession κ) : Prop :=
  s.closing = [] ∧ ∀ c, s.stage c = .opened ∨ s.stage c = .finished

/-- There is a current publisher and its connection is open. -/
def PublisherOpen (s : LiveSession κ) : Prop :=
  ∃ u, s.current = some u ∧ s.stage u.connection = .opened

/-- The publishing state follows the publisher, and a player starts a pull exactly when there
is none. -/
def Follows (handler : κ → Handler) (s : LiveSession κ) : Prop :=
  s.Settled →
    (s.isPublishing = true ↔ s.PublisherOpen) ∧
    ∀ c kind, handler c ≠ .puller →
      (.startPullStream ∈ (s.step handler (.play c kind)).2 ↔ ¬s.PublisherOpen)

/-- The user of a connection is not the publisher, so it may be replaced. (If the publisher
were replaced by one on the same connection, `SetPublisher` would close that under the lock its
callback takes.) -/
def Free (s : LiveSession κ) (c : κ) : Prop :=
  ∀ u ∈ s.publisher, s.context c ≠ some (.here u)

/-- A user may become the publisher: its connection is open, and no publisher is in
`CloseUser`, before the lock. -/
def MaySet (s : LiveSession κ) (c : κ) : Prop :=
  s.stage c = .opened ∧ ∀ d, (s.stage d).releases = false

/-- A connection may close: it is not that of a pulled publisher. -/
def MayClose (s : LiveSession κ) (c : κ) : Prop :=
  ∀ u ∈ s.publisher, u.connection = c → u.publishes = true

/-- A step that the publishing state follows. -/
def Orderly (s : LiveSession κ) : Event κ → Prop
  | .publish c => s.Free c ∧ s.MaySet c
  | .play c _ => s.Free c
  | .playElsewhere c => s.Free c
  | .pullPlay c _ => s.MaySet c
  | .close c => s.MayClose c
  | .runClose c => s.MayClose c
  | .callback _ => True
  | .clear => True

instance [Fintype κ] (s : LiveSession κ) : (e : Event κ) → Decidable (s.Orderly e)
  | .publish _ => inferInstanceAs (Decidable ((∀ _ ∈ _, _) ∧ _ ∧ ∀ _, _))
  | .play _ _ => inferInstanceAs (Decidable (∀ _ ∈ _, _))
  | .playElsewhere _ => inferInstanceAs (Decidable (∀ _ ∈ _, _))
  | .pullPlay _ _ => inferInstanceAs (Decidable (_ ∧ ∀ _, _))
  | .close _ => inferInstanceAs (Decidable (∀ _ ∈ _, _))
  | .runClose _ => inferInstanceAs (Decidable (∀ _ ∈ _, _))
  | .callback _ => isTrue trivial
  | .clear => isTrue trivial

/-- The steps of a run are all such. -/
def AllOrderly (handler : κ → Handler) : LiveSession κ → List (Event κ) → Prop
  | _, [] => True
  | s, e :: es => s.Orderly e ∧ AllOrderly handler (s.step handler e).1 es

instance allOrderlyDecidable [Fintype κ] (handler : κ → Handler) :
    (s : LiveSession κ) → (events : List (Event κ)) → Decidable (AllOrderly handler s events)
  | _, [] => isTrue trivial
  | s, e :: es =>
    have := allOrderlyDecidable handler (s.step handler e).1 es
    inferInstanceAs (Decidable (s.Orderly e ∧ AllOrderly handler (s.step handler e).1 es))

/-! ### The invariant -/

/-- A session in which the publishing state follows the publisher. `new` is a user that was
just made and is not the publisher yet. -/
structure Sound (handler : κ → Handler) (new : Option (User κ)) (s : LiveSession κ) : Prop where
  fresh : ∀ u, s.destroyed u = true → u.id < s.count
  known : ∀ c u, s.context c = some (.here u) → u.connection = c ∧ u.id < s.count
  numbered : ∀ u, s.publisher = some u → u.id < s.count
  puller : ∀ c u, handler c = .puller → s.context c = some (.here u) → u.publishes = false
  current_eq : ∀ u, s.publisher = some u → s.current = some u
  only : ∀ c u, s.context c = some (.here u) → u.publishes = true → s.destroyed u = false →
    s.publisher = some u ∨ new = some u
  client : ∀ u, s.publisher = some u → u.publishes = true →
    handler u.connection = .live ∧ s.context u.connection = some (.here u) ∧
      (s.destroyed u = false ∧ (s.stage u.connection = .opened ∨ s.stage u.connection = .begun) ∨
        s.destroyed u = true ∧ s.stage u.connection = .exchanged u)
  pulled : ∀ u, s.publisher = some u → u.publishes = false → s.stage u.connection = .opened
  released : ∀ c u, s.stage c = .exchanged u → u.publishes = true →
    s.publisher = some u ∧ u.connection = c
  players : ∀ u ∈ s.players, u.publishes = false ∧ u.id < s.count
  gone : ∀ u, s.publisher = none → s.current = some u →
    s.stage u.connection ≠ .opened ∨ u.connection ∈ s.closing

omit [DecidableEq κ] in
theorem sound_init (handler : κ → Handler) :
  Sound handler none ({} : LiveSession κ)
  := by
  constructor
  all_goals nofun

section Steps

variable {handler : κ → Handler} {s : LiveSession κ} {c : κ} {u : User κ}

/-- In a sound session the publishing state follows the publisher. -/
theorem Sound.follows (h : Sound handler none s) :
  Follows handler s
  := by
  rintro ⟨hclosing, hstage⟩
  have hiff : s.isPublishing = true ↔ s.PublisherOpen := by
    rw [isPublishing, Option.isSome_iff_exists]
    constructor
    · rintro ⟨u, hu⟩
      use u, h.current_eq u hu
      cases hp : u.publishes with
      | false => apply h.pulled u hu hp
      | true =>
          obtain ⟨-, -, ⟨-, hopen | hbegun⟩ | ⟨-, hexchanged⟩⟩ := h.client u hu hp
          · apply hopen
          · rcases hstage u.connection with hs | hs
            · apply hs
            · simp [hbegun] at hs
          · rcases hstage u.connection with hs | hs
            · apply hs
            · simp [hexchanged] at hs
    · rintro ⟨u, hu, hopen⟩
      rw [← Option.isSome_iff_exists, ← Option.not_isNone, Bool.not_eq_true',
        ← Bool.not_eq_true, Option.isNone_iff_eq_none]
      intro hnone
      rcases h.gone u hnone hu with hs | hs
      · apply hs hopen
      · rw [hclosing] at hs
        cases hs
  use hiff
  intro c kind hc
  have hplay : (s.step handler (.play c kind)).2 =
      if !s.isPublishing then [.startPullStream] else [] := by
    rw [step, if_neg hc]
    rfl
  rw [hplay, ← hiff]
  cases s.isPublishing with
  | false => simp
  | true => simp

omit [DecidableEq κ] in
/-- A publisher whose user is replaced on its connection is not there. -/
theorem Sound.connection_ne (h : Sound handler none s) (hfree : s.Free c)
    (hu : s.publisher = some u) (hp : u.publishes = true) :
  u.connection ≠ c
  := by
  rintro rfl
  apply hfree u hu (h.client u hu hp).2.1

/-- A new user. -/
theorem Sound.createUser (h : Sound handler none s) (hfree : s.Free c) {type : UserType}
    (htype : handler c = .puller → (s.createUser c type).2.publishes = false) :
  Sound handler (some (s.createUser c type).2) (s.createUser c type).1
  := by
  have hlt : ∀ {n}, n < s.count → n < s.count + 1 := Nat.lt_succ_of_lt
  have hcontext : ∀ {d v}, (s.createUser c type).1.context d = some (.here v) →
      d = c ∧ v = (s.createUser c type).2 ∨ s.context d = some (.here v) := by
    intro d v hv
    rw [LiveSession.createUser] at hv
    dsimp only at hv
    rcases eq_or_ne d c with rfl | hne
    · rw [Function.update_self] at hv
      cases hv
      left
      exact ⟨rfl, rfl⟩
    · rw [Function.update_of_ne hne] at hv
      right
      apply hv
  constructor
  · intro v hv
    apply hlt (h.fresh v hv)
  · intro d v hv
    rcases hcontext hv with ⟨rfl, rfl⟩ | hv
    · exact ⟨rfl, Nat.lt_succ_self _⟩
    · obtain ⟨hd, hid⟩ := h.known d v hv
      exact ⟨hd, hlt hid⟩
  · intro v hv
    apply hlt (h.numbered v hv)
  · intro d v hd hv
    rcases hcontext hv with ⟨rfl, rfl⟩ | hv
    · apply htype hd
    · apply h.puller d v hd hv
  · apply h.current_eq
  · intro d v hv hp hdestroyed
    rcases hcontext hv with ⟨rfl, rfl⟩ | hv
    · right
      rfl
    · left
      rcases h.only d v hv hp hdestroyed with hv | hv
      · apply hv
      · cases hv
  · intro v hv hp
    obtain ⟨hlive, hctx, hstate⟩ := h.client v hv hp
    refine ⟨hlive, ?_, hstate⟩
    rw [LiveSession.createUser]
    dsimp only
    rw [Function.update_of_ne (h.connection_ne hfree hv hp)]
    apply hctx
  · apply h.pulled
  · apply h.released
  · intro v hv
    obtain ⟨hp, hid⟩ := h.players v hv
    exact ⟨hp, hlt hid⟩
  · apply h.gone

omit [DecidableEq κ] in
/-- A user that is no publisher need not become it. -/
theorem Sound.old (h : Sound handler (some u) s) (hp : u.publishes = false) :
  Sound handler none s
  := by
  refine ⟨h.fresh, h.known, h.numbered, h.puller, h.current_eq, ?_, h.client, h.pulled,
    h.released, h.players, h.gone⟩
  intro d v hv hvp hnot
  left
  rcases h.only d v hv hvp hnot with hv | hv
  · apply hv
  · cases hv
    simp [hp] at hvp

omit [DecidableEq κ] in
theorem Sound.weaken (h : Sound handler none s) :
  Sound handler (some u) s
  := by
  refine ⟨h.fresh, h.known, h.numbered, h.puller, h.current_eq, ?_, h.client, h.pulled,
    h.released, h.players, h.gone⟩
  intro d v hv hvp hnot
  left
  rcases h.only d v hv hvp hnot with hv | hv
  · apply hv
  · cases hv

/-- The numbers of destroyed users stay below the count. -/
theorem Sound.fresh_destroy (h : Sound handler none s) (hid : u.id < s.count) (v : User κ)
    (hv : (s.destroy u).destroyed v = true) :
  v.id < s.count
  := by
  rcases eq_or_ne v u with rfl | hne
  · apply hid
  · rw [destroy_of_ne hne] at hv
    apply h.fresh v hv

/-- A new user is not destroyed. -/
theorem Sound.not_destroyed (h : Sound handler none s) (c : κ) (type : UserType) :
  s.destroyed (s.createUser c type).2 = false
  := by
  rw [← Bool.not_eq_true]
  intro hdestroyed
  apply Nat.lt_irrefl s.count (h.fresh _ hdestroyed)

/-- What closing the publisher changes. -/
theorem closePublisher_spec (s : LiveSession κ) :
  s.closePublisher.publisher = s.publisher ∧ s.closePublisher.players = s.players ∧
    s.closePublisher.count = s.count ∧ s.closePublisher.context = s.context ∧
    s.closePublisher.stage = s.stage ∧
    ∀ v, s.closePublisher.destroyed v = true ↔ s.destroyed v = true ∨ s.publisher = some v
  := by
  rw [closePublisher]
  split
  next old hold =>
    split
    next hdestroyed =>
      refine ⟨rfl, rfl, rfl, rfl, rfl, ?_⟩
      intro v
      constructor
      · apply Or.inl
      · rintro (hv | hv)
        · apply hv
        · rw [hold] at hv
          cases hv
          apply hdestroyed
    next =>
      refine ⟨rfl, rfl, rfl, rfl, rfl, ?_⟩
      intro v
      rw [closeConnection]
      dsimp only
      rcases eq_or_ne v old with rfl | hne
      · simp [hold]
      · rw [destroy_of_ne hne, hold]
        simp [hne.symm]
  next hnone =>
    refine ⟨rfl, rfl, rfl, rfl, rfl, ?_⟩
    intro v
    simp [hnone]

/-- A user becomes the publisher. -/
theorem Sound.setPublisher (h : Sound handler (some u) s) (hset : s.MaySet u.connection)
    (hid : u.id < s.count)
    (hclient : u.publishes = true → handler u.connection = .live ∧
      s.context u.connection = some (.here u) ∧ s.destroyed u = false) :
  Sound handler none (s.setPublisher u)
  := by
  obtain ⟨hopen, hreleased⟩ := hset
  rw [LiveSession.setPublisher]
  split
  next hu =>
    refine ⟨h.fresh, h.known, h.numbered, h.puller, ?_, ?_, h.client, h.pulled, h.released,
      h.players, ?_⟩
    · intro v hv
      rw [← hv, hu]
    · intro d v hv hp hdestroyed
      left
      rcases h.only d v hv hp hdestroyed with hv | hv
      · apply hv
      · cases hv
        apply hu
    · intro v hv
      dsimp only at hv
      rw [hu] at hv
      cases hv
  next hu =>
    obtain ⟨-, hplayers, hcount, hcontext, hstage, hdestroyed⟩ := closePublisher_spec s
    constructor
    · intro v hv
      dsimp only at hv ⊢
      rw [hcount]
      rcases (hdestroyed v).mp hv with hv | hv
      · apply h.fresh v hv
      · apply h.numbered v hv
    · dsimp only
      rw [hcontext, hcount]
      apply h.known
    · rintro v ⟨⟩
      dsimp only
      rw [hcount]
      apply hid
    · dsimp only
      rw [hcontext]
      apply h.puller
    · intro v hv
      apply hv
    · dsimp only
      rw [hcontext]
      intro d v hv hp hnot
      have hnew : ¬(s.destroyed v = true ∨ s.publisher = some v) := by
        rw [← hdestroyed v, hnot]
        apply Bool.false_ne_true
      rw [not_or, Bool.not_eq_true] at hnew
      left
      rcases h.only d v hv hp hnew.1 with hv | hv
      · exact absurd hv hnew.2
      · apply hv
    · rintro v ⟨⟩ hp
      dsimp only
      obtain ⟨hlive, hctx, hnot⟩ := hclient hp
      rw [hcontext, hstage]
      refine ⟨hlive, hctx, Or.inl ⟨?_, Or.inl hopen⟩⟩
      rw [← Bool.not_eq_true, hdestroyed u, hnot]
      simp [hu]
    · rintro v ⟨⟩ _
      dsimp only
      rw [hstage]
      apply hopen
    · dsimp only
      rw [hstage]
      intro d v hv hp
      have hnone := hreleased d
      rw [hv, CloseStage.releases, hp] at hnone
      cases hnone
    · dsimp only
      rw [hplayers, hcount]
      apply h.players
    · nofun

/-- A user that is no publisher is closed. -/
theorem Sound.closePlayer (h : Sound handler none s) (hp : u.publishes = false)
    (hid : u.id < s.count) :
  Sound handler none (s.closeUserNoLock u)
  := by
  rw [closeUserNoLock]
  split
  · apply h
  rw [hp, if_neg Bool.false_ne_true]
  have hdestroyed : ∀ {v}, v.publishes = true → (s.destroy u).destroyed v = s.destroyed v := by
    intro v hv
    apply destroy_of_ne
    rintro rfl
    simp [hp] at hv
  refine ⟨h.fresh_destroy hid, h.known, h.numbered, h.puller, h.current_eq, ?_, ?_, h.pulled,
    h.released, h.players, ?_⟩
  · intro d v hv hvp hnot
    apply h.only d v hv hvp
    rw [← hdestroyed hvp]
    apply hnot
  · intro v hv hvp
    obtain ⟨hlive, hctx, hstate⟩ := h.client v hv hvp
    refine ⟨hlive, hctx, ?_⟩
    rw [← hdestroyed hvp] at hstate
    apply hstate
  · intro v hnone hv
    rcases h.gone v hnone hv with hs | hs
    · left
      apply hs
    · right
      apply List.mem_append_left _ hs

/-- The publisher is closed. -/
theorem Sound.closePublishing (h : Sound handler none s) (hu : s.publisher = some u) :
  Sound handler none (s.closeUserNoLock u)
  := by
  cases hp : u.publishes with
  | false => apply h.closePlayer hp (h.numbered u hu)
  | true =>
      rw [closeUserNoLock]
      split
      · apply h
      next hnot =>
        have hdestroyed : s.destroyed u = false := Bool.not_eq_true _ ▸ hnot
        have hpublishing : (s.destroy u).isPublishing = true := by
          rw [isPublishing, destroy]
          dsimp only
          rw [hu]
          rfl
        dsimp only
        rw [if_pos hpublishing]
        refine ⟨h.fresh_destroy (h.numbered u hu), h.known, nofun, h.puller, nofun, ?_, nofun,
          nofun, ?_, h.players, ?_⟩
        · intro d v hv hvp hvnot
          rw [closeConnection] at hvnot
          dsimp only at hvnot
          rcases eq_or_ne v u with rfl | hne
          · rw [destroy_self] at hvnot
            cases hvnot
          · rw [destroy_of_ne hne] at hvnot
            rcases h.only d v hv hvp hvnot with hv' | hv'
            · rw [hu] at hv'
              cases hv'
              exact absurd rfl hne
            · cases hv'
        · intro d v hv hvp
          obtain ⟨hpub, hconn⟩ := h.released d v hv hvp
          rw [hu] at hpub
          cases hpub
          have hstage : s.stage u.connection = .exchanged u := by
            rw [hconn]
            apply hv
          obtain ⟨-, -, ⟨-, hs | hs⟩ | ⟨hs, -⟩⟩ := h.client u hu hp
          · simp [hstage] at hs
          · simp [hstage] at hs
          · simp [hdestroyed] at hs
        · intro v _ hv
          right
          have hcurrent := h.current_eq u hu
          rw [closeConnection, destroy] at hv ⊢
          dsimp only at hv ⊢
          rw [hcurrent] at hv
          cases hv
          apply List.mem_append_right _ (List.mem_singleton_self _)

theorem count_closeUserNoLock (s : LiveSession κ) (u : User κ) :
  (s.closeUserNoLock u).count = s.count
  := by
  rw [closeUserNoLock]
  split
  · rfl
  dsimp only
  split
  · split
    · rfl
    · rfl
  · rfl

/-- Players are closed. The induction is on them. -/
theorem Sound.closePlayers {players : List (User κ)} (h : Sound handler none s)
    (hplayers : ∀ u ∈ players, u.publishes = false ∧ u.id < s.count) :
  Sound handler none (players.foldl closeUserNoLock s)
  := by
  induction players generalizing s with
  | nil => apply h
  | cons u players ih =>
      obtain ⟨hp, hid⟩ := hplayers u (List.mem_cons_self ..)
      apply ih (h.closePlayer hp hid)
      intro v hv
      rw [count_closeUserNoLock]
      apply hplayers v (List.mem_cons_of_mem u hv)

/-- `Clear` closes them all. -/
theorem Sound.clear (h : Sound handler none s) :
  Sound handler none s.clear
  := by
  have hclosed : ∀ t : LiveSession κ, Sound handler none t →
      Sound handler none { t.players.foldl closeUserNoLock t with players := [] } := by
    intro t ht
    have hsound := ht.closePlayers ht.players
    exact ⟨hsound.fresh, hsound.known, hsound.numbered, hsound.puller, hsound.current_eq,
      hsound.only, hsound.client, hsound.pulled, hsound.released, nofun, hsound.gone⟩
  rw [LiveSession.clear]
  rcases hu : s.publisher with _ | u
  · apply hclosed s h
  · apply hclosed _ (h.closePublishing hu)

omit [DecidableEq κ] in
/-- The connection of a publisher in its close callback is the one its user is on. -/
theorem Sound.not_begun (h : Sound handler none s) (hstage : s.stage c = .begun)
    (hu : s.publisher = some u) (hconn : u.connection = c) :
  u.publishes = true ∧ handler c = .live ∧ s.context c = some (.here u) ∧
    s.destroyed u = false
  := by
  subst hconn
  cases hp : u.publishes with
  | false => simp [h.pulled u hu hp] at hstage
  | true =>
      obtain ⟨hlive, hctx, ⟨hnot, -⟩ | ⟨-, hs⟩⟩ := h.client u hu hp
      · exact ⟨rfl, hlive, hctx, hnot⟩
      · simp [hstage] at hs

/-- A user that is somewhere after a connection lost its own was there before. -/
theorem context_of_update {x : Option (UserContext κ)} (hx : ∀ u, x ≠ some (.here u)) {d : κ}
    {v : User κ} (hv : Function.update s.context c x d = some (.here v)) :
  s.context d = some (.here v)
  := by
  rcases eq_or_ne d c with rfl | hne
  · rw [Function.update_self] at hv
    exact absurd hv (hx v)
  · rw [Function.update_of_ne hne] at hv
    apply hv

/-- The user of a connection that is not the publisher's goes. -/
theorem Sound.setContext (h : Sound handler none s) (hfree : s.Free c)
    {x : Option (UserContext κ)} (hx : ∀ u, x ≠ some (.here u)) :
  Sound handler none { s with context := Function.update s.context c x }
  := by
  refine ⟨h.fresh, ?_, h.numbered, ?_, h.current_eq, ?_, ?_, h.pulled, h.released, h.players,
    h.gone⟩
  · intro d v hv
    apply h.known d v (context_of_update hx hv)
  · intro d v hd hv
    apply h.puller d v hd (context_of_update hx hv)
  · intro d v hv
    apply h.only d v (context_of_update hx hv)
  · intro v hv hp
    obtain ⟨hlive, hctx, hstate⟩ := h.client v hv hp
    refine ⟨hlive, ?_, hstate⟩
    dsimp only
    rw [Function.update_of_ne (h.connection_ne hfree hv hp)]
    apply hctx

/-- A connection that is not the publisher's comes to a stage in which no user is released. -/
theorem Sound.setStage (h : Sound handler none s)
    (hother : ∀ u, s.publisher = some u → u.connection ≠ c) {x : CloseStage κ}
    (hopened : x ≠ .opened) (hx : ∀ u, x = .exchanged u → u.publishes = false) :
  Sound handler none { s with stage := Function.update s.stage c x }
  := by
  refine ⟨h.fresh, h.known, h.numbered, h.puller, h.current_eq, h.only, ?_, ?_, ?_, h.players,
    ?_⟩
  · intro v hv hp
    dsimp only
    rw [Function.update_of_ne (hother v hv)]
    apply h.client v hv hp
  · intro v hv hp
    dsimp only
    rw [Function.update_of_ne (hother v hv)]
    apply h.pulled v hv hp
  · intro d v hv hp
    dsimp only at hv
    rcases eq_or_ne d c with rfl | hne
    · rw [Function.update_self] at hv
      simp [hx v hv] at hp
    · rw [Function.update_of_ne hne] at hv
      apply h.released d v hv hp
  · intro v hnone hv
    dsimp only
    rcases eq_or_ne v.connection c with heq | hne
    · left
      rw [heq, Function.update_self]
      apply hopened
    · rw [Function.update_of_ne hne]
      apply h.gone v hnone hv

/-- A close callback returns. -/
theorem Sound.finish (h : Sound handler none s)
    (hother : ∀ u, s.publisher = some u → u.connection ≠ c) :
  Sound handler none (s.finish c)
  := by
  have hfree : s.Free c := by
    intro u hpub hu
    apply hother u hpub (h.known c u hu).1
  have hcontext := h.setContext hfree (x := none) nofun
  exact hcontext.setStage hother (x := .finished) nofun nofun

/-- A connection begins to close. -/
theorem Sound.onClose (h : Sound handler none s) (hclose : s.MayClose c) :
  Sound handler none (s.onClose c)
  := by
  rw [LiveSession.onClose]
  split
  next hopened =>
    refine ⟨h.fresh, h.known, h.numbered, h.puller, h.current_eq, h.only, ?_, ?_, ?_, h.players,
      ?_⟩
    · intro v hv hp
      obtain ⟨hlive, hctx, hstate⟩ := h.client v hv hp
      refine ⟨hlive, hctx, ?_⟩
      dsimp only
      rcases eq_or_ne v.connection c with heq | hne
      · rw [heq, Function.update_self]
        rw [heq, hopened] at hstate
        rcases hstate with ⟨hnot, -⟩ | ⟨-, hs⟩
        · left
          exact ⟨hnot, Or.inr rfl⟩
        · cases hs
      · rw [Function.update_of_ne hne]
        apply hstate
    · intro v hv hp
      dsimp only
      rw [Function.update_of_ne]
      · apply h.pulled v hv hp
      · intro heq
        simp [hclose v hv heq] at hp
    · intro d v hv hp
      dsimp only at hv
      rcases eq_or_ne d c with rfl | hne
      · rw [Function.update_self] at hv
        cases hv
      · rw [Function.update_of_ne hne] at hv
        apply h.released d v hv hp
    · intro v hnone hv
      dsimp only
      rcases eq_or_ne v.connection c with heq | hne
      · left
        rw [heq, Function.update_self]
        nofun
      · rw [Function.update_of_ne hne]
        apply h.gone v hnone hv
  next => apply h

/-- A task of `ForceClose` runs. -/
theorem Sound.runClose (h : Sound handler none s) (hclose : s.MayClose c) :
  Sound handler none ({ s with closing := s.closing.erase c }.onClose c)
  := by
  have hsound := h.onClose hclose
  have herase : { s with closing := s.closing.erase c }.onClose c =
      { s.onClose c with closing := s.closing.erase c } := by
    rw [LiveSession.onClose, LiveSession.onClose]
    dsimp only
    split
    · rfl
    · rfl
  have hstage : (s.onClose c).stage c ≠ .opened := by
    rw [LiveSession.onClose]
    split
    · dsimp only
      rw [Function.update_self]
      nofun
    next hne => apply hne
  have hclosing : (s.onClose c).closing = s.closing := by
    rw [LiveSession.onClose]
    split
    · rfl
    · rfl
  rw [herase]
  refine ⟨hsound.fresh, hsound.known, hsound.numbered, hsound.puller, hsound.current_eq,
    hsound.only, hsound.client, hsound.pulled, hsound.released, hsound.players, ?_⟩
  intro v hnone hv
  dsimp only
  rcases eq_or_ne v.connection c with heq | hne
  · left
    rw [heq]
    apply hstage
  · rcases hsound.gone v hnone hv with hs | hs
    · left
      apply hs
    · right
      rw [hclosing] at hs
      rw [List.mem_erase_of_ne hne]
      apply hs

/-- `OnConnectionDestroy` of `LiveService` comes to the lock of `CloseUser`. -/
theorem Sound.onConnectionDestroy (h : Sound handler none s) (hstage : s.stage c = .begun) :
  Sound handler none (s.onConnectionDestroy c)
  := by
  have hfinish : (∀ u, s.context c = some (.here u) → s.destroyed u = true) →
      Sound handler none (s.finish c) := by
    intro hgone
    apply h.finish
    intro v hv hconn
    obtain ⟨-, -, hctx, hnot⟩ := h.not_begun hstage hv hconn
    simp [hgone v hctx] at hnot
  rw [LiveSession.onConnectionDestroy]
  rcases hctx : s.context c with _ | u | _
  · apply hfinish
    simp [hctx]
  · dsimp only
    split
    next hdestroyed =>
      apply hfinish
      intro v hv
      rw [hctx] at hv
      cases hv
      apply hdestroyed
    next hnot =>
      obtain ⟨hconn, hid⟩ := h.known c u hctx
      refine ⟨h.fresh_destroy hid, h.known, h.numbered, h.puller, h.current_eq, ?_, ?_, ?_, ?_,
        h.players, ?_⟩
      · intro d v hv hvp hvnot
        dsimp only at hvnot
        rcases eq_or_ne v u with rfl | hne
        · rw [destroy_self] at hvnot
          cases hvnot
        · rw [destroy_of_ne hne] at hvnot
          apply h.only d v hv hvp hvnot
      · intro v hv hvp
        obtain ⟨hlive, hvctx, hstate⟩ := h.client v hv hvp
        refine ⟨hlive, hvctx, ?_⟩
        dsimp only
        rcases eq_or_ne v u with rfl | hne
        · right
          rw [destroy_self, hconn, Function.update_self]
          exact ⟨rfl, rfl⟩
        · have hother : v.connection ≠ c := by
            rintro rfl
            rw [hctx] at hvctx
            cases hvctx
            exact absurd rfl hne
          rw [destroy_of_ne hne, Function.update_of_ne hother]
          apply hstate
      · intro v hv hvp
        dsimp only
        rw [Function.update_of_ne]
        · apply h.pulled v hv hvp
        · intro heq
          simp [(h.not_begun hstage hv heq).1] at hvp
      · intro d v hv hvp
        dsimp only at hv
        rcases eq_or_ne d c with rfl | hne
        · rw [Function.update_self] at hv
          cases hv
          rcases h.only d u hctx hvp (Bool.not_eq_true _ ▸ hnot) with hv | hv
          · exact ⟨hv, hconn⟩
          · cases hv
        · rw [Function.update_of_ne hne] at hv
          apply h.released d v hv hvp
      · intro v hnone hv
        dsimp only
        rcases eq_or_ne v.connection c with heq | hne
        · left
          rw [heq, Function.update_self]
          nofun
        · rw [Function.update_of_ne hne]
          apply h.gone v hnone hv
  · apply hfinish
    simp [hctx]

omit [DecidableEq κ] in
/-- The publisher of a connection in `CloseUser` is the user there. -/
theorem Sound.eq_of_exchanged (h : Sound handler none s) (hstage : s.stage c = .exchanged u)
    {v : User κ} (hv : s.publisher = some v) (hconn : v.connection = c) :
  v = u ∧ s.destroyed v = true ∧ v.publishes = true
  := by
  subst hconn
  cases hp : v.publishes with
  | false => simp [h.pulled v hv hp] at hstage
  | true =>
      obtain ⟨-, -, ⟨-, hs | hs⟩ | ⟨hdestroyed, hs⟩⟩ := h.client v hv hp
      · simp [hstage] at hs
      · simp [hstage] at hs
      · rw [hstage] at hs
        cases hs
        exact ⟨rfl, hdestroyed, rfl⟩

/-- `CloseUser` goes on with the lock. -/
theorem Sound.removeUser (h : Sound handler none s) (hstage : s.stage c = .exchanged u) :
  Sound handler none ((s.removeUser u).finish c)
  := by
  rw [LiveSession.removeUser]
  cases hp : u.publishes with
  | true =>
      obtain ⟨hu, hconn⟩ := h.released c u hstage hp
      obtain ⟨-, hdestroyed, -⟩ := h.eq_of_exchanged hstage hu hconn
      have hcontext : ∀ {d v}, Function.update s.context c none d = some (.here v) →
          s.context d = some (.here v) := context_of_update (by simp)
      refine ⟨h.fresh, ?_, nofun, ?_, nofun, ?_, nofun, nofun, ?_, h.players, ?_⟩
      · intro d v hv
        apply h.known d v (hcontext hv)
      · intro d v hd hv
        apply h.puller d v hd (hcontext hv)
      · intro d v hv hvp hnot
        rcases h.only d v (hcontext hv) hvp hnot with hv | hv
        · rw [hu] at hv
          cases hv
          exact absurd hdestroyed (Bool.not_eq_true _ ▸ hnot)
        · cases hv
      · intro d v hv hvp
        rw [LiveSession.finish] at hv
        dsimp only at hv
        rcases eq_or_ne d c with rfl | hne
        · rw [Function.update_self] at hv
          cases hv
        · rw [Function.update_of_ne hne] at hv
          obtain ⟨hpub, hd⟩ := h.released d v hv hvp
          rw [hu] at hpub
          cases hpub
          exact absurd (hd.symm.trans hconn) hne
      · intro v _ hv
        have hcurrent := h.current_eq u hu
        rw [LiveSession.finish, closeConnection] at hv
        dsimp only at hv
        rw [if_pos rfl, hcurrent] at hv
        cases hv
        left
        rw [LiveSession.finish]
        dsimp only
        rw [hconn, Function.update_self]
        nofun
  | false =>
      apply Sound.finish
      · refine ⟨h.fresh, h.known, h.numbered, h.puller, h.current_eq, h.only, h.client, h.pulled,
          h.released, ?_, ?_⟩
        · intro v hv
          apply h.players v (List.mem_of_mem_erase hv)
        · intro v hnone hv
          rcases h.gone v hnone hv with hs | hs
          · left
            apply hs
          · right
            apply List.mem_append_left _ hs
      · intro v hv hconn
        obtain ⟨rfl, -, hvp⟩ := h.eq_of_exchanged hstage hv hconn
        simp [hp] at hvp

/-- Every orderly event keeps a session sound. -/
theorem Sound.step (h : Sound handler none s) {e : Event κ} (horderly : s.Orderly e) :
  Sound handler none (s.step handler e).1
  := by
  cases e with
  | publish c =>
      obtain ⟨hfree, hset⟩ := horderly
      rw [LiveSession.step]
      split
      next hlive =>
        have hnew : Sound handler (some (s.createUser c .publishRtmp).2)
            (s.createUser c .publishRtmp).1 := by
          apply h.createUser hfree
          simp [hlive]
        apply hnew.setPublisher hset (Nat.lt_succ_self _)
        intro _
        refine ⟨hlive, ?_, h.not_destroyed c .publishRtmp⟩
        apply Function.update_self
      next => apply h
  | play c kind =>
      have hplayer : (s.createUser c kind.type).2.publishes = false := by
        cases kind with
        | rtmp => rfl
        | flv => rfl
        | webrtc => rfl
      rw [LiveSession.step]
      split
      · apply h
      · have hnew := (h.createUser horderly fun _ => hplayer).old hplayer
        refine ⟨hnew.fresh, hnew.known, hnew.numbered, hnew.puller, hnew.current_eq, hnew.only,
          hnew.client, hnew.pulled, hnew.released, ?_, hnew.gone⟩
        intro v hv
        rcases List.mem_append.mp hv with hv | hv
        · apply hnew.players v hv
        · cases List.mem_singleton.mp hv
          exact ⟨hplayer, Nat.lt_succ_self _⟩
  | playElsewhere c =>
      rw [LiveSession.step]
      split
      · apply h
      · apply h.setContext horderly
        simp
  | pullPlay c named =>
      rw [LiveSession.step]
      split
      next hpuller =>
        rcases hctx : s.context c with _ | u | _
        · dsimp only
          split
          · have hfree : s.Free c := by
              intro v _ hv
              rw [hctx] at hv
              cases hv
            have hnew : Sound handler (some (s.createUser c .playerRtmp).2)
                (s.createUser c .playerRtmp).1 := h.createUser hfree fun _ => rfl
            apply hnew.setPublisher horderly (Nat.lt_succ_self _)
            nofun
          · apply h
        · obtain ⟨rfl, hid⟩ := h.known c u hctx
          apply h.weaken.setPublisher horderly hid
          simp [h.puller _ u hpuller hctx]
        · apply h
      next => apply h
  | close c => apply h.onClose horderly
  | runClose c =>
      rw [LiveSession.step]
      split
      · apply h.runClose horderly
      · apply h
  | callback c =>
      rw [LiveSession.step]
      rcases hstage : s.stage c with _ | _ | u | _
      · apply h
      · dsimp only
        have hother : handler c ≠ .live → ∀ u, s.publisher = some u → u.connection ≠ c := by
          intro hlive v hv hconn
          apply hlive (h.not_begun hstage hv hconn).2.1
        rcases hc : handler c with _ | _ | _
        · apply h.onConnectionDestroy hstage
        · exact h.setStage (hother (by simp [hc])) (x := .finished) nofun nofun
        · exact h.setStage (hother (by simp [hc])) (x := .finished) nofun nofun
      · apply h.removeUser hstage
      · apply h
  | clear => apply h.clear

end Steps

/-! ### Runs -/

section Runs

variable {handler : κ → Handler}

/-- Orderly runs keep a session sound. -/
theorem Sound.run {s : LiveSession κ} {events : List (Event κ)} (h : Sound handler none s)
    (horderly : AllOrderly handler s events) :
  Sound handler none (s.run handler events)
  := by
  induction events generalizing s with
  | nil => apply h
  | cons e es ih => apply ih (h.step horderly.1) horderly.2

/-- The beginning of an orderly run is one. -/
theorem allOrderly_before {s : LiveSession κ} {before after : List (Event κ)}
    (h : AllOrderly handler s (before ++ after)) :
  AllOrderly handler s before
  := by
  induction before generalizing s with
  | nil => trivial
  | cons e es ih => exact ⟨h.1, ih h.2⟩

/-- In every state of a run the publishing state follows the publisher. -/
def FollowsThroughout (handler : κ → Handler) (events : List (Event κ)) : Prop :=
  ∀ before, before <+: events → Follows handler (({} : LiveSession κ).run handler before)

/-- It does in orderly runs. -/
theorem follows_of_orderly {events : List (Event κ)} (horderly : AllOrderly handler {} events) :
  FollowsThroughout handler events
  := by
  rintro before ⟨after, rfl⟩
  have hsound := (sound_init handler).run (allOrderly_before horderly)
  apply hsound.follows

end Runs

/-- A player comes before there is a publisher, and a second publisher takes over from the first one
and is closed; another player comes, and the session is cleared. -/
theorem follows_takeOver :
  FollowsThroughout (fun _ : Fin 4 => .live) [.play 0 .rtmp, .publish 1, .publish 2, .runClose 1,
    .callback 1, .close 2, .callback 2, .callback 2, .close 0, .callback 0, .callback 0,
    .play 3 .flv, .clear]
  := by
  apply follows_of_orderly
  decide +kernel

/-- A publishing connection plays the session too and closes. Its user is the player by then, so
the session goes on publishing. -/
theorem not_follows_playsToo :
  ¬FollowsThroughout (fun _ : Unit => .live)
    [.publish (), .play () .rtmp, .close (), .callback (), .callback (), .runClose ()]
  := by
  intro hrun
  have h := hrun _ List.prefix_rfl
  have hsettled : (({} : LiveSession Unit).run (fun _ => .live)
      [.publish (), .play () .rtmp, .close (), .callback (), .callback (), .runClose ()]).Settled
    := ⟨rfl, fun _ => .inr rfl⟩
  obtain ⟨u, hu, hopen⟩ := (h hsettled).1.mp rfl
  cases hu
  cases hopen

end LiveSession
