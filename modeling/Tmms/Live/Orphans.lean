import Tmms.Library.Runs
import Tmms.Live.LiveService
import Tmms.Live.Publishing

/-!
# Orphans

A user that was let in and is not destroyed should be a user of the session that the service has
for the name (`NoOrphans`).  A session that is taken out of the map is cleared, which destroys the
users that it holds.  So there are no orphans in every run in which users are let in while the
session will be cleared again before it is gone, and `CloseUser` resets no publisher that is not
destroyed (`noOrphans_of_keepsUsers`).  Nothing in the service sees to that: a timer can clear the
session between the two steps of `OnPlay` (`not_noOrphans_timer`).
-/

namespace LiveSession

variable {κ : Type} [DecidableEq κ] {s : LiveSession κ} {u v : User κ}

/-! ### What is destroyed -/

/-- A session holds a user. -/
def Holds (s : LiveSession κ) (u : User κ) : Prop := s.publisher = some u ∨ u ∈ s.players

theorem destroy_iff : (s.destroy u).destroyed v = true ↔ v = u ∨ s.destroyed v = true
  := by
  rcases eq_or_ne v u with rfl | hne
  · exact iff_of_true (destroy_self s v) (.inl rfl)
  · rw [destroy_of_ne hne, or_iff_right hne]

theorem closeUserNoLock_spec (s : LiveSession κ) (u : User κ) :
  (s.closeUserNoLock u).players = s.players ∧
    ∀ v, (s.closeUserNoLock u).destroyed v = true ↔ v = u ∨ s.destroyed v = true
  := by
  rw [closeUserNoLock]
  split
  · rename_i hdestroyed
    refine ⟨rfl, fun v => ⟨.inr, ?_⟩⟩
    rintro (rfl | hv)
    · exact hdestroyed
    · exact hv
  · dsimp only
    split
    · split
      · exact ⟨rfl, fun v => destroy_iff⟩
      · exact ⟨rfl, fun v => destroy_iff⟩
    · exact ⟨rfl, fun v => destroy_iff⟩

theorem closePlayers_spec (players : List (User κ)) (s : LiveSession κ) (v : User κ) :
  (players.foldl closeUserNoLock s).destroyed v = true ↔ v ∈ players ∨ s.destroyed v = true
  := by
  induction players generalizing s with
  | nil => exact (or_iff_right List.not_mem_nil).symm
  | cons u players ih =>
      rw [List.foldl_cons, ih, (closeUserNoLock_spec s u).2, List.mem_cons, or_left_comm, or_assoc]

/-- `Clear` destroys the users that the session holds. -/
theorem clear_spec (s : LiveSession κ) (v : User κ) :
  s.clear.destroyed v = true ↔ s.Holds v ∨ s.destroyed v = true
  := by
  rw [clear, Holds]
  dsimp only
  split
  · rename_i u hu
    obtain ⟨hplayers, hdestroyed⟩ := closeUserNoLock_spec s u
    rw [closePlayers_spec, hplayers, hdestroyed, hu, Option.some_inj, or_assoc, or_left_comm,
      eq_comm (a := u)]
  · rename_i hnone
    rw [closePlayers_spec, hnone, or_iff_right (a := none = some v) (Option.some_ne_none v).symm]

/-- The publisher that there was is destroyed, and the users that are not are still held. -/
theorem setPublisher_spec (s : LiveSession κ) (u : User κ) :
  (s.setPublisher u).Holds u ∧
    ∀ v, (s.setPublisher u).destroyed v = false → s.destroyed v = false ∧
      (s.Holds v → (s.setPublisher u).Holds v)
  := by
  rw [setPublisher]
  split
  · rename_i hsame
    exact ⟨.inl hsame, fun v hv => ⟨hv, id⟩⟩
  · obtain ⟨-, hplayers, -, -, -, hdestroyed⟩ := closePublisher_spec s
    refine ⟨.inl rfl, fun v hv => ?_⟩
    have hnot := mt (hdestroyed v).mpr (Bool.not_eq_true _ ▸ hv)
    rw [not_or, Bool.not_eq_true] at hnot
    refine ⟨hnot.1, ?_⟩
    rintro (hpublisher | hplayer)
    · exact absurd hpublisher hnot.2
    · exact .inr (hplayers ▸ hplayer)

/-- When the publisher that there is is destroyed, and the user too, `CloseUser` leaves those that
are not destroyed. -/
theorem removeUser_spec (hu : s.destroyed u = true)
    (hpublisher : u.publishes = true → ∀ v ∈ s.publisher, s.destroyed v = true) :
  ∀ v, (s.removeUser u).destroyed v = s.destroyed v ∧
    (s.destroyed v = false → s.Holds v → (s.removeUser u).Holds v)
  := by
  intro v
  rw [removeUser]
  split
  · rename_i hpublishes
    refine ⟨rfl, fun hv hholds => ?_⟩
    rcases hholds with hold | hplayer
    · cases (hpublisher hpublishes v hold).symm.trans hv
    · exact .inr hplayer
  · refine ⟨rfl, fun hv hholds => ?_⟩
    have hne : v ≠ u
      := by
      rintro rfl
      cases hu.symm.trans hv
    rcases hholds with hold | hplayer
    · exact .inl hold
    · exact .inr ((List.mem_erase_of_ne hne).mpr hplayer)

end LiveSession

namespace LiveService

variable {κ : Type} [DecidableEq κ]

/-! ### Runs -/

/-- Nothing is in the middle of anything. -/
def Quiescent (s : LiveService κ) : Prop :=
  (∀ c, s.stage c = .idle) ∧ s.closing = [] ∧ s.timer = .idle

/-- When nothing is in the middle of anything, the users that were let in and are not destroyed are
users of the sessions that the service has, so that those of a name have one session and its
stream. -/
structure NoOrphans (s : LiveService κ) : Prop where
  belongs : s.Quiescent → ∀ x ∈ s.accepted, s.destroyed x = false →
    s.sessions x.session.name = some x.session
  shared : s.Quiescent → ∀ x ∈ s.accepted, s.destroyed x = false → ∀ y ∈ s.accepted,
    s.destroyed y = false → x.session.name = y.session.name → x.session = y.session

/-- A session will be cleared before it is gone: the service has it, and `OnTimer` is not between
`Clear` and the erasing, or `CloseSession` is before `Clear`. -/
def WillBeCleared (s : LiveService κ) (p : SessionPtr) : Prop :=
  s.sessions p.name = some p ∧ s.timer ≠ .cleared p ∨ p ∈ s.closing

instance (s : LiveService κ) (p : SessionPtr) : Decidable (s.WillBeCleared p) :=
  inferInstanceAs (Decidable (s.sessions p.name = some p ∧ s.timer ≠ .cleared p ∨ p ∈ s.closing))

/-- The session that was found for a connection. -/
def foundSession (s : LiveService κ) (c : κ) : Option SessionPtr :=
  match s.stage c with
  | .found _ p _ => some p
  | _ => none

/-- The user of a connection that is in `CloseUser`. -/
def exchangedUser (s : LiveService κ) (c : κ) : Option (SessionUser κ) :=
  match s.stage c with
  | .exchanged x => some x
  | _ => none

/-- A user is added to a session that will be cleared before it is gone, and when `CloseUser` of a
publisher has the lock, the publisher of the session is destroyed. -/
def KeepsUsers (s : LiveService κ) : Event κ → Prop
  | .addUser c => ∀ p ∈ s.foundSession c, s.WillBeCleared p
  | .closeUser c => ∀ x ∈ s.exchangedUser c, x.user.publishes = true →
      ∀ v ∈ (s.objects x.session).publisher, (s.objects x.session).destroyed v = true
  | _ => True

instance (s : LiveService κ) : ∀ e, Decidable (s.KeepsUsers e)
  | .publish .. => isTrue trivial
  | .play .. => isTrue trivial
  | .request .. => isTrue trivial
  | .addUser c => inferInstanceAs (Decidable (∀ p ∈ s.foundSession c, s.WillBeCleared p))
  | .destroy _ => isTrue trivial
  | .closeUser c =>
      inferInstanceAs (Decidable (∀ x ∈ s.exchangedUser c, x.user.publishes = true →
        ∀ v ∈ (s.objects x.session).publisher, (s.objects x.session).destroyed v = true))
  | .closeSession _ => isTrue trivial
  | .clearSession _ => isTrue trivial
  | .timerVisit .. => isTrue trivial
  | .timerNext => isTrue trivial

/-! ### The invariant -/

/-- The users that were let in and are not destroyed are held by sessions that will be cleared. -/
structure Kept (s : LiveService κ) : Prop where
  named : ∀ sessionName p, s.sessions sessionName = some p → p.name = sessionName
  visited : ∀ p, s.timer = .timedOut p ∨ s.timer = .cleared p → s.sessions p.name = some p
  exchanged : ∀ c x, s.stage c = .exchanged x → s.destroyed x = true
  users : ∀ x ∈ s.accepted, s.destroyed x = false →
    s.WillBeCleared x.session ∧ (s.objects x.session).Holds x.user

omit [DecidableEq κ] in
theorem kept_new : Kept ({} : LiveService κ)
  := by
  refine ⟨?_, ?_, ?_, ?_⟩
  · intro sessionName p h
    cases h
  · rintro p (h | h)
    · cases h
    · cases h
  · intro c x h
    cases h
  · intro x hx
    cases hx

variable {s s' : LiveService κ}

omit [DecidableEq κ] in
theorem Kept.noOrphans (h : s.Kept) :
  s.NoOrphans
  := by
  have hbelongs : s.Quiescent → ∀ x ∈ s.accepted, s.destroyed x = false →
      s.sessions x.session.name = some x.session
    := by
    rintro ⟨-, hclosing, -⟩ x hx hlives
    rcases (h.users x hx hlives).1 with ⟨hsession, -⟩ | hclosed
    · exact hsession
    · rw [hclosing] at hclosed
      cases hclosed
  refine ⟨hbelongs, ?_⟩
  intro hquiescent x hx hxlives y hy hylives hname
  have hsession := hbelongs hquiescent x hx hxlives
  rw [hname, hbelongs hquiescent y hy hylives] at hsession
  exact (Option.some.inj hsession).symm

omit [DecidableEq κ] in
/-- The map and the timer change, and the sessions that have users will be cleared as before. -/
theorem Kept.sessions (h : s.Kept) {sessions : List UInt8 → Option SessionPtr} {count : Nat}
    {closing : List SessionPtr} {timer : TimerStage}
    (hnamed : ∀ sessionName p, sessions sessionName = some p → p.name = sessionName)
    (hvisited : ∀ p, timer = .timedOut p ∨ timer = .cleared p → sessions p.name = some p)
    (hcleared : ∀ x ∈ s.accepted, s.destroyed x = false → s.WillBeCleared x.session →
      sessions x.session.name = some x.session ∧ timer ≠ .cleared x.session ∨
        x.session ∈ closing) :
  Kept { s with sessions := sessions, count := count, closing := closing, timer := timer }
  := by
  refine ⟨hnamed, hvisited, h.exchanged, ?_⟩
  intro x hx hlives
  obtain ⟨hwill, hholds⟩ := h.users x hx hlives
  exact ⟨hcleared x hx hlives hwill, hholds⟩

omit [DecidableEq κ] in
/-- A session changes, and still holds its users that are not destroyed. -/
theorem Kept.setObject (h : s.Kept) {p : SessionPtr} {session : LiveSession κ}
    (hsession : ∀ v, session.destroyed v = false → (s.objects p).destroyed v = false ∧
      ((s.objects p).Holds v → session.Holds v)) :
  (s.setObject p session).Kept
  := by
  have hobject : ∀ x : SessionUser κ, (s.setObject p session).destroyed x = false →
      s.destroyed x = false ∧ ((s.objects x.session).Holds x.user →
        ((s.setObject p session).objects x.session).Holds x.user)
    := by
    intro x hlives
    rw [destroyed, LiveService.setObject] at hlives
    rw [LiveService.setObject]
    dsimp only at hlives ⊢
    rcases eq_or_ne x.session p with heq | hne
    · rw [heq, Function.update_self] at hlives ⊢
      rw [destroyed, heq]
      exact hsession x.user hlives
    · rw [Function.update_of_ne hne] at hlives ⊢
      exact ⟨hlives, id⟩
  refine ⟨h.named, h.visited, ?_, ?_⟩
  · intro c x hstage
    by_contra hlives
    have hold := (hobject x (Bool.not_eq_true _ ▸ hlives)).1
    cases (h.exchanged c x hstage).symm.trans hold
  · intro x hx hlives
    obtain ⟨hold, hkeeps⟩ := hobject x hlives
    obtain ⟨hwill, hholds⟩ := h.users x hx hold
    exact ⟨hwill, hkeeps hholds⟩

/-- The handling of a connection goes on. -/
theorem Kept.setStage (h : s.Kept) {c : κ} {stage : HandlerStage κ}
    (hstage : ∀ x, stage = .exchanged x → s.destroyed x = true) :
  (s.setStage c stage).Kept
  := by
  refine ⟨h.named, h.visited, ?_, h.users⟩
  intro d x hd
  rw [LiveService.setStage] at hd
  dsimp only at hd
  rcases eq_or_ne d c with rfl | hne
  · rw [Function.update_self] at hd
    exact hstage x hd
  · rw [Function.update_of_ne hne] at hd
    exact h.exchanged d x hd

omit [DecidableEq κ] in
/-- The context of a connection has no part in this. -/
theorem Kept.setContext (h : s.Kept) (context : κ → Option (SessionUser κ)) :
  Kept { s with context := context }
  := ⟨h.named, h.visited, h.exchanged, h.users⟩

/-! ### The steps -/

omit [DecidableEq κ] in
theorem Kept.createSession (h : s.Kept) (htimer : s.timer = .idle)
    (hasApp : List UInt8 → List UInt8 → Bool) (sessionName : List UInt8) :
  (s.createSession hasApp sessionName).1.Kept
  := by
  rw [LiveService.createSession]
  split
  · exact h
  · rename_i hnone
    split
    · split
      · apply h.sessions
        · intro other p hp
          rcases eq_or_ne other sessionName with rfl | hne
          · rw [Function.update_self] at hp
            rw [← Option.some.inj hp]
          · rw [Function.update_of_ne hne] at hp
            exact h.named other p hp
        · rw [htimer]
          rintro p (hp | hp)
          · cases hp
          · cases hp
        · rintro x - - (⟨hsession, hwill⟩ | hclosing)
          · have hne : x.session.name ≠ sessionName
              := by
              intro heq
              rw [heq, hnone] at hsession
              cases hsession
            rw [Function.update_of_ne hne]
            exact .inl ⟨hsession, hwill⟩
          · exact .inr hclosing
      · exact h
    · exact h

theorem Kept.findSession (h : s.Kept) (htimer : s.timer = .idle)
    (hasApp : List UInt8 → List UInt8 → Bool) (c : κ) (sessionName : List UInt8)
    (type : UserType) :
  (s.findSession hasApp c sessionName type).Kept
  := by
  have hcreated := h.createSession htimer hasApp sessionName
  rw [LiveService.findSession]
  generalize s.createSession hasApp sessionName = r at hcreated
  obtain ⟨s₁, p⟩ := r
  cases p with
  | none => exact hcreated
  | some p => exact hcreated.setStage fun x hx => (nomatch hx)

theorem Kept.onRequest (h : s.Kept) (htimer : s.timer = .idle)
    (hasApp : List UInt8 → List UInt8 → Bool) (c : κ) (path : List UInt8) :
  (s.onRequest hasApp c path).Kept
  := by
  rw [LiveService.onRequest]
  split
  · split
    · exact h.findSession htimer hasApp c _ _
    · exact h.createSession htimer hasApp _
  · exact h

/-- A user is held by the session that it is added to. -/
theorem Kept.letIn (h : s.Kept) {p : SessionPtr} (hwill : s.WillBeCleared p) (u : User κ) :
  (s.letIn p u).Kept
  := by
  rw [LiveService.letIn]
  generalize hsession : (if u.publishes = true then (s.objects p).setPublisher u
    else ((s.objects p).addPlayer u).1) = session
  have hspec : session.Holds u ∧ ∀ v, session.destroyed v = false →
      (s.objects p).destroyed v = false ∧ ((s.objects p).Holds v → session.Holds v)
    := by
    rw [← hsession]
    split
    · exact LiveSession.setPublisher_spec _ u
    · refine ⟨.inr (List.mem_append_right _ (List.mem_singleton_self u)), fun v hv => ⟨hv, ?_⟩⟩
      rintro (hpublisher | hplayer)
      · exact .inl hpublisher
      · exact .inr (List.mem_append_left _ hplayer)
  have hkept := h.setObject hspec.2
  refine ⟨hkept.named, hkept.visited, hkept.exchanged, ?_⟩
  intro x hx hlives
  rcases List.mem_append.mp hx with hold | hnew
  · exact hkept.users x hold hlives
  · rw [List.mem_singleton.mp hnew]
    refine ⟨hwill, ?_⟩
    rw [LiveService.setObject]
    dsimp only
    rw [Function.update_self]
    exact hspec.1

theorem Kept.addUser (h : s.Kept) {c : κ} (hkeeps : s.KeepsUsers (.addUser c)) :
  (s.addUser c).Kept
  := by
  rw [LiveService.addUser]
  split
  · rename_i sessionName p type hstage
    have hwill : s.WillBeCleared p
      := by
      apply hkeeps p
      rw [foundSession, hstage]
      rfl
    have hidle : (s.setStage c .idle).Kept := h.setStage fun x hx => (nomatch hx)
    dsimp only
    rw [createUser]
    by_cases hname : sessionName ≠ p.name
    · rw [if_pos hname]
      exact hidle
    · rw [if_neg hname]
      by_cases hsize : (StringUtils.splitString sessionName (ascii "/")).length ≠ 3
      · rw [if_pos hsize]
        exact hidle
      · rw [if_neg hsize]
        have hcreated : ((s.setStage c .idle).setObject p
            (((s.setStage c .idle).objects p).createUser c type).1).Kept
          := hidle.setObject fun v hv => ⟨hv, id⟩
        apply (hcreated.setContext _).letIn
        exact hwill
  · exact h

theorem Kept.onConnectionDestroy (h : s.Kept) (c : κ) :
  (s.onConnectionDestroy c).Kept
  := by
  rw [LiveService.onConnectionDestroy]
  split
  · exact h
  · rename_i x hx
    split
    · exact h.setContext _
    · have hkept : (s.setObject x.session ((s.objects x.session).destroy x.user)).Kept
        := by
        apply h.setObject
        intro v hv
        have hnot := mt LiveSession.destroy_iff.mpr (Bool.not_eq_true _ ▸ hv)
        rw [not_or, Bool.not_eq_true] at hnot
        exact ⟨hnot.2, id⟩
      apply hkept.setStage
      intro y hy
      cases hy
      rw [destroyed, LiveService.setObject]
      dsimp only
      rw [Function.update_self, LiveSession.destroy_self]

theorem Kept.closeUser (h : s.Kept) {c : κ} (hkeeps : s.KeepsUsers (.closeUser c)) :
  (s.closeUser c).Kept
  := by
  rw [LiveService.closeUser]
  split
  · rename_i x hstage
    have hx : x ∈ s.exchangedUser c
      := by
      rw [exchangedUser, hstage]
      rfl
    have hremoved := LiveSession.removeUser_spec (h.exchanged c x hstage) (hkeeps x hx)
    have hkept : (s.setObject x.session ((s.objects x.session).removeUser x.user)).Kept
      := by
      apply h.setObject
      intro v hv
      obtain ⟨hsame, hholds⟩ := hremoved v
      rw [hsame] at hv
      exact ⟨hv, hholds hv⟩
    have hidle : ((s.setObject x.session
        ((s.objects x.session).removeUser x.user)).setStage c .idle).Kept
      := hkept.setStage fun y hy => (nomatch hy)
    exact hidle.setContext _
  · exact h

omit [DecidableEq κ] in
theorem Kept.closeSession (h : s.Kept) (htimer : s.timer = .idle) (sessionName : List UInt8) :
  (s.closeSession sessionName).Kept
  := by
  rw [LiveService.closeSession]
  split
  · rename_i p hp
    apply h.sessions
    · intro other q hq
      rcases eq_or_ne other sessionName with rfl | hne
      · rw [Function.update_self] at hq
        cases hq
      · rw [Function.update_of_ne hne] at hq
        exact h.named other q hq
    · rw [htimer]
      rintro q (hq | hq)
      · cases hq
      · cases hq
    · rintro x - - (⟨hsession, hwill⟩ | hclosing)
      · rcases eq_or_ne x.session.name sessionName with heq | hne
        · rw [heq, hp] at hsession
          rw [Option.some.inj hsession]
          exact .inr List.mem_cons_self
        · rw [Function.update_of_ne hne]
          exact .inl ⟨hsession, hwill⟩
      · exact .inr (List.mem_cons_of_mem _ hclosing)
  · exact h

/-- A session that is cleared has no users that are not destroyed. -/
theorem Kept.clear (h : s.Kept) (p : SessionPtr) :
  (s.setObject p (s.objects p).clear).Kept ∧
    ∀ x ∈ s.accepted, (s.setObject p (s.objects p).clear).destroyed x = false → x.session ≠ p
  := by
  have hnot : ∀ v, (s.objects p).clear.destroyed v = false →
      ¬ (s.objects p).Holds v ∧ (s.objects p).destroyed v = false
    := by
    intro v hv
    have hnot := mt (LiveSession.clear_spec (s.objects p) v).mpr (Bool.not_eq_true _ ▸ hv)
    rw [not_or, Bool.not_eq_true] at hnot
    exact hnot
  constructor
  · apply h.setObject
    intro v hv
    obtain ⟨hholds, hlives⟩ := hnot v hv
    exact ⟨hlives, fun hold => absurd hold hholds⟩
  · rintro x hx hlives rfl
    rw [destroyed, LiveService.setObject] at hlives
    dsimp only at hlives
    rw [Function.update_self] at hlives
    obtain ⟨hholds, hold⟩ := hnot x.user hlives
    exact hholds (h.users x hx hold).2

theorem Kept.clearSession (h : s.Kept) (p : SessionPtr) :
  (s.clearSession p).Kept
  := by
  rw [LiveService.clearSession]
  split
  · obtain ⟨hkept, hne⟩ := h.clear p
    apply hkept.sessions hkept.named hkept.visited
    rintro x hx hlives (hsession | hclosing)
    · exact .inl hsession
    · exact .inr ((List.mem_erase_of_ne (hne x hx hlives)).mpr hclosing)
  · exact h

omit [DecidableEq κ] in
theorem Kept.timerVisit (h : s.Kept) (sessionName : List UInt8) (streamTimeout idle : Bool) :
  (s.timerVisit sessionName streamTimeout idle).Kept
  := by
  rw [LiveService.timerVisit]
  split
  · rename_i p htimer hp
    split
    · apply h.sessions h.named
      · rintro q (hq | hq)
        · cases hq
          rw [h.named sessionName p hp]
          exact hp
        · cases hq
      · rintro x - - (⟨hsession, -⟩ | hclosing)
        · exact .inl ⟨hsession, fun hcleared => (nomatch hcleared)⟩
        · exact .inr hclosing
    · exact h
  · exact h

theorem Kept.timerNext (h : s.Kept) :
  s.timerNext.Kept
  := by
  have hfree : ∀ timer : TimerStage, (∀ p, timer ≠ .timedOut p) → (∀ p, timer ≠ .cleared p) →
      Kept { s with timer := timer }
    := by
    intro timer htimedOut hcleared
    apply h.sessions h.named
    · rintro p (hp | hp)
      · exact absurd hp (htimedOut p)
      · exact absurd hp (hcleared p)
    · rintro x - - (⟨hsession, -⟩ | hclosing)
      · exact .inl ⟨hsession, hcleared x.session⟩
      · exact .inr hclosing
  rw [LiveService.timerNext]
  split
  · exact hfree .locked (fun p hp => nomatch hp) (fun p hp => nomatch hp)
  · exact hfree .idle (fun p hp => nomatch hp) (fun p hp => nomatch hp)
  · rename_i p htimer
    obtain ⟨hkept, hne⟩ := h.clear p
    apply hkept.sessions hkept.named
    · rintro q (hq | hq)
      · cases hq
      · cases hq
        exact h.visited p (.inl htimer)
    · rintro x hx hlives (⟨hsession, -⟩ | hclosing)
      · refine .inl ⟨hsession, fun hcleared => ?_⟩
        cases hcleared
        exact hne x hx hlives rfl
      · exact .inr hclosing
  · rename_i p htimer
    have hp := h.visited p (.inr htimer)
    apply h.sessions
    · intro other q hq
      rcases eq_or_ne other p.name with rfl | hne
      · rw [Function.update_self] at hq
        cases hq
      · rw [Function.update_of_ne hne] at hq
        exact h.named other q hq
    · rintro q (hq | hq)
      · cases hq
      · cases hq
    · rintro x - - (⟨hsession, hnot⟩ | hclosing)
      · have hne : x.session.name ≠ p.name
          := by
          intro heq
          rw [heq, hp] at hsession
          rw [htimer, Option.some.inj hsession] at hnot
          exact hnot rfl
        rw [Function.update_of_ne hne]
        exact .inl ⟨hsession, fun hcleared => (nomatch hcleared)⟩
      · exact .inr hclosing

/-- A step that keeps the users of the sessions. -/
theorem Kept.step (h : s.Kept) (hasApp : List UInt8 → List UInt8 → Bool) {e : Event κ}
    (hkeeps : s.KeepsUsers e) :
  (s.step hasApp e).Kept
  := by
  cases e with
  | publish c sessionName =>
      rw [LiveService.step]
      split
      · rename_i hfree
        exact h.findSession hfree.2 hasApp c sessionName .publishRtmp
      · exact h
  | play c sessionName =>
      rw [LiveService.step]
      split
      · rename_i hfree
        exact h.findSession hfree.2 hasApp c sessionName .playerRtmp
      · exact h
  | request c path =>
      rw [LiveService.step]
      split
      · rename_i hfree
        exact h.onRequest hfree.2 hasApp c path
      · exact h
  | addUser c => exact h.addUser hkeeps
  | destroy c =>
      rw [LiveService.step]
      split
      · exact h.onConnectionDestroy c
      · exact h
  | closeUser c => exact h.closeUser hkeeps
  | closeSession sessionName =>
      rw [LiveService.step]
      split
      · rename_i hfree
        exact h.closeSession hfree sessionName
      · exact h
  | clearSession p => exact h.clearSession p
  | timerVisit sessionName streamTimeout idle =>
      exact h.timerVisit sessionName streamTimeout idle
  | timerNext => exact h.timerNext

open Runs

/-- There are no orphans in a run in which users are added to sessions that will be cleared before
they are gone, and `CloseUser` resets no publisher that is not destroyed. -/
theorem noOrphans_of_keepsUsers (hasApp : List UInt8 → List UInt8 → Bool) {events : List (Event κ)}
    (h : Steps (step hasApp) KeepsUsers {} events) :
  Throughout (step hasApp) NoOrphans {} events
  := by
  have hkept : Throughout (step hasApp) Kept {} events
    := h.throughout kept_new fun s e hs hkeeps => hs.step hasApp hkeeps
  exact hkept.mono fun s hs => hs.noOrphans

/-! ### With a timer and without -/

/-- The name of a stream. -/
def streamName : List UInt8 := ascii "d/a/s"

/-- A publisher comes, a player requests the stream, the publisher is replaced, and the session is
closed by its name and made again. -/
def replaced : List (Event (Fin 4)) :=
  [.publish 0 streamName, .addUser 0, .request 1 (ascii "/d/a/s.flv"), .addUser 1,
    .publish 2 streamName, .addUser 2, .destroy 0, .closeSession streamName, .play 3 streamName,
    .addUser 3, .clearSession ⟨0, streamName⟩, .destroy 1]

/-- The users of the session that is closed are destroyed. -/
theorem noOrphans_replaced :
  Throughout (step fun _ _ => true) NoOrphans {} replaced
  := by
  apply noOrphans_of_keepsUsers
  decide +kernel

/-- A player comes and goes. The session is idle for a while, and is found for another player. The
timer clears it, the player is added, and a publisher comes. -/
def idleSession : List (Event (Fin 4)) :=
  [.play 0 streamName, .addUser 0, .destroy 0, .closeUser 0, .play 1 streamName, .timerNext,
    .timerVisit streamName false true, .timerNext, .timerNext, .timerNext, .addUser 1,
    .publish 2 streamName, .addUser 2]

/-- The player is in a session that the service does not have, and the publisher in another. -/
theorem not_noOrphans_timer :
  ¬ ∀ (hasApp : List UInt8 → List UInt8 → Bool) (events : List (Event (Fin 4))),
      Throughout (step hasApp) NoOrphans {} events
  := by
  intro h
  have hlast := (h (fun _ _ => true) idleSession).last
  have hquiescent : (run (step fun _ _ => true) {} idleSession).Quiescent
    := by
    unfold Quiescent
    decide +kernel
  have haccepted : ∃ x ∈ (run (step fun _ _ => true) {} idleSession).accepted,
      (run (step fun _ _ => true) {} idleSession).destroyed x = false ∧
      (run (step fun _ _ => true) {} idleSession).sessions x.session.name ≠ some x.session
    := by decide +kernel
  obtain ⟨x, hx, hlives, horphan⟩ := haccepted
  exact horphan (hlast.belongs hquiescent x hx hlives)

end LiveService
