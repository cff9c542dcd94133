import Seckill.Proof.Login

/-!
# Guesses that cost nothing

`checkLocked` reads the lock through `TTL`, which rounds: in its last half second the
lock counts as open. `onFailure` reads it through `EXISTS`: it is locked to the end, and
a failure under a lock is not counted. A wrong password that is checked and compared
within that half second is a guess for free, and no other one is, when the logins of the
phone come one after another (`wrong_guess_counts`).

On the keys of the guard a healthy step of the service is a command of the guard, or
nothing (`step_guard`), so its invariants hold here.
-/

namespace Seckill.UserService

open Redis Machine

section

variable (cfg : Config) (phone : String)

/-- The guard, as the service configures it. -/
def Config.guard : LoginGuard.Config := ⟨cfg.maxFail, cfg.lockSeconds⟩

/-- A login of the phone is under way. -/
def Pc.LoggingIn : Pc → Prop
  | .loginCheck p _ | .loginSelect p _ | .loginHash p _ _ | .loginUnknown p | .loginWrong p | .loginSave p _ _ _
  | .loginSaved p _ _ => p = phone
  | _ => False

/-- It is past its lock check and not let in. -/
def Pc.Guessing : Pc → Prop
  | .loginSelect p _ | .loginHash p _ _ | .loginUnknown p | .loginWrong p => p = phone
  | _ => False

/-- It is let in, or over. -/
def Pc.Settled : Pc → Prop
  | .loginSave _ _ _ _ | .loginSaved _ _ _ | .done => True
  | _ => False

/-- **The condition of the run**: Redis is healthy, and a login of the phone begins when no
other one is under way. -/
def OneByOne (s : State) (e : Ev) : Prop :=
  e.Healthy ∧ ∀ r password, e = .login r phone password → ∀ r', ¬(s.req r').pc.LoggingIn phone

/-- The step counts a failure, or it sets the lock. -/
def IsCounted (s t : State) : Prop :=
  count t.redis (.loginFail phone) = count s.redis (.loginFail phone) + 1 ∨
    s.redis.find (.loginLock phone) = none ∧ t.redis.find (.loginLock phone) ≠ none

/-- A wrong password whose lock check came in the last half second of a lock, and whose
failure before the lock's end. -/
def FreeGuess (s₀ : State) (es : List Ev) : Prop :=
  ∃ a b c u v r password x until_, es = a ++ .checkLocked r none :: (b ++ .onFailure r none :: c) ∧
    run (step cfg) s₀ a = some u ∧ (u.req r).pc = .loginCheck phone password ∧
    run (step cfg) s₀ (a ++ .checkLocked r none :: b) = some v ∧ (v.req r).pc = .loginWrong phone ∧
    u.redis.find (.loginLock phone) = some x ∧ x.expireAt = some until_ ∧
    until_ < u.redis.now + 500 ∧ v.redis.now ≤ until_

/-- The guard's invariant; a lock ends; and at most one login of the phone is under way. -/
structure Counting (s : State) : Prop where
  guarded : LoginGuard.Guarded cfg.guard phone s.redis
  timed : ∀ x, s.redis.cell (.loginLock phone) = some x → ∃ until_, x.expireAt = some until_
  alone : ∀ r r', (s.req r).pc.LoggingIn phone → (s.req r').pc.LoggingIn phone → r = r'

end

variable {cfg : Config} {phone : String} {s₀ s t u v w : State} {es a b : List Ev} {e : Ev} {r : ℕ}

theorem Pc.Guessing.loggingIn {p : Pc} (h : p.Guessing phone) : p.LoggingIn phone := by
  cases p with
  | loginSelect | loginHash | loginUnknown | loginWrong => exact h
  | _ => exact h.elim

/-! ## Steps -/

/-- **A healthy step is a command of the guard, or leaves its keys alone.** -/
theorem step_guard (phone : String) (he : e.Healthy) (h : step cfg s e = some t) :
    (t.redis.now = s.redis.now ∧ t.redis.cell (.loginLock phone) = s.redis.cell (.loginLock phone) ∧
        t.redis.cell (.loginFail phone) = s.redis.cell (.loginFail phone)) ∨
      ∃ g, LoginGuard.step cfg.guard s.redis g = some t.redis := by
  have hother (hwait : ∀ ms, e ≠ .wait ms) (hlock : ¬e.writes s (.loginLock phone))
      (hfail : ¬e.writes s (.loginFail phone)) :
      (t.redis.now = s.redis.now ∧ t.redis.cell (.loginLock phone) = s.redis.cell (.loginLock phone) ∧
        t.redis.cell (.loginFail phone) = s.redis.cell (.loginFail phone)) ∨
      ∃ g, LoginGuard.step cfg.guard s.redis g = some t.redis :=
    Or.inl ⟨(step_now h).2 hwait, step_frame h hlock, step_frame h hfail⟩
  cases e with
  | onFailure r err =>
    have herr : err = none := he
    subst herr
    obtain ⟨phone', msg, -, rfl⟩ := onFailureStep_cases h
    exact Or.inr ⟨.onFailure phone', rfl⟩
  | onSuccess r err =>
    have herr : err = none := he
    subst herr
    obtain ⟨phone', -, rfl⟩ := onSuccessStep_cases h
    exact Or.inr ⟨.onSuccess phone', rfl⟩
  | wait ms =>
    rw [← Option.some.inj h]
    exact Or.inr ⟨.wait ms, rfl⟩
  | _ => exact hother (fun ms => by simp) (by simp [Ev.writes]) (by simp [Ev.writes])

/-- A login is under way since its call. -/
theorem loggingIn_step (h : step cfg s e = some t) (hr : (t.req r).pc.LoggingIn phone) :
    (s.req r).pc.LoggingIn phone ∨ ∃ password, e = .login r phone password := by
  rcases (step_effect h).req r with heq | hmove
  · rw [heq] at hr
    exact Or.inl hr
  · generalize t.req r = q at hmove hr
    cases hmove with
    | check hpc =>
      obtain rfl : _ = phone := hr
      exact Or.inr ⟨_, rfl⟩
    | pass hpc _ | unknown hpc _ | found hpc _ _ | wrong hpc _ | right hpc _ | save hpc =>
      left
      rw [hpc]
      exact hr
    | reset _ => exact Or.inl hr
    | _ => exact hr.elim

theorem counting_step (hmax : 1 ≤ cfg.maxFail) (hsec : 1 ≤ cfg.lockSeconds) (hs : Counting cfg phone s)
    (hone : OneByOne phone s e) (h : step cfg s e = some t) : Counting cfg phone t := by
  obtain ⟨he, hfirst⟩ := hone
  refine ⟨?_, ?_, fun r r' hr hr' => ?_⟩
  · rcases step_guard phone he h with ⟨hnow, hlock, hfail⟩ | ⟨g, hg⟩
    · exact hs.guarded.congr hnow hlock hfail
    · exact LoginGuard.guarded_step hmax hsec hs.guarded hg
  · rcases step_guard phone he h with ⟨-, hlock, -⟩ | ⟨g, hg⟩
    · rw [hlock]
      exact hs.timed
    · exact fun x hx => LoginGuard.timed_step hmax hsec hs.guarded hs.timed hg hx
  · -- two logins under way are one, as it was called when there was none
    rcases loggingIn_step h hr with hbefore | ⟨password, rfl⟩ <;>
      rcases loggingIn_step h hr' with hbefore' | ⟨password', heq⟩
    · exact hs.alone r r' hbefore hbefore'
    · exact absurd hbefore (hfirst r' password' heq r)
    · exact absurd hbefore' (hfirst r password rfl r')
    · cases heq
      rfl

/-- A guess has passed its lock check. -/
theorem guessing_step (h : step cfg s e = some t) (hr : (t.req r).pc.Guessing phone) :
    (s.req r).pc.Guessing phone ∨ ∃ err password, e = .checkLocked r err ∧
      (s.req r).pc = .loginCheck phone password ∧
      LoginGuard.onCheck (exec err (LoginGuard.kCheckScript (.loginLock phone)) s.redis).1 = none := by
  rcases (step_effect h).req r with heq | hmove
  · rw [heq] at hr
    exact Or.inl hr
  · generalize t.req r = q at hmove hr
    cases hmove with
    | pass hpc hcheck =>
      obtain rfl : _ = phone := hr
      exact Or.inr ⟨_, _, rfl, hpc, hcheck⟩
    | unknown hpc _ | found hpc _ _ | wrong hpc _ =>
      left
      rw [hpc]
      exact hr
    | reset _ => exact Or.inl hr
    | _ => exact hr.elim

/-- What is past its lock check does not come back to it. -/
theorem settles_step (h : step cfg s e = some t) (hr : (s.req r).pc.Guessing phone ∨ (s.req r).pc.Settled) :
    (t.req r).pc.Guessing phone ∧ (s.req r).pc.Guessing phone ∨ (t.req r).pc.Settled := by
  rcases (step_effect h).req r with heq | hmove
  · rw [heq]
    exact hr.imp_left fun hr => ⟨hr, hr⟩
  · generalize t.req r = q at hmove ⊢
    cases hmove with
    | stop _ _ _ | revoked _ _ | authenticated _ | right _ _ | save _ | token _ => exact Or.inr trivial
    | unknown hpc _ | found hpc _ _ | wrong hpc _ =>
      rw [hpc] at hr
      rcases hr with hr | hr
      · rw [hpc]
        exact Or.inl ⟨hr, hr⟩
      · exact hr.elim
    | reset _ => exact hr.imp_left fun hr => ⟨hr, hr⟩
    | check hpc | pass hpc _ | regCheck hpc | regVerify hpc _ | regUnverified hpc _ | regVerified hpc | regHash hpc
    | regInsert _ hpc | created hpc _ | marked hpc | logout hpc _ | authenticate hpc _ =>
      rw [hpc] at hr
      rcases hr with hr | hr <;> exact hr.elim

/-- **While a guess is under way nobody else writes the lock.** -/
theorem lock_kept_step (halone : ∀ r r', (s.req r).pc.LoggingIn phone → (s.req r').pc.LoggingIn phone → r = r')
    (h : step cfg s e = some t) (hs : (s.req r).pc.Guessing phone) (ht : (t.req r).pc.Guessing phone) :
    t.redis.cell (.loginLock phone) = s.redis.cell (.loginLock phone) := by
  by_cases hw : e.writes s (.loginLock phone)
  swap
  · exact step_frame h hw
  cases e with
  | onFailure r' err =>
    obtain ⟨phone', hpc, heq | heq⟩ := hw
    · -- it is the failure of the guess, which is over with it
      injection heq with heq
      subst heq
      have hunder : (s.req r').pc.LoggingIn phone := by
        rcases hpc with hpc | hpc
        · rw [hpc]
          rfl
        · rw [hpc]
          rfl
      obtain rfl := halone r r' hs.loggingIn hunder
      obtain ⟨p, msg, -, rfl⟩ := onFailureStep_cases h
      rw [State.set_req, if_pos rfl] at ht
      exact ht.elim
    · cases heq
  | _ => simp [Ev.writes] at hw

/-! ## Runs -/

theorem counting_run (hmax : 1 ≤ cfg.maxFail) (hsec : 1 ≤ cfg.lockSeconds) (hs : Counting cfg phone s)
    (hone : Meets (step cfg) (OneByOne phone) s es) (h : run (step cfg) s es = some t) : Counting cfg phone t :=
  run_inv_of (C := OneByOne phone) (fun _ _ _ hs hone h => counting_step hmax hsec hs hone h) hs hone h

/-- The lock a guess was checked against is the one its failure finds. -/
theorem lock_kept (hmax : 1 ≤ cfg.maxFail) (hsec : 1 ≤ cfg.lockSeconds) {password : String}
    (hu : Counting cfg phone u) (hpc : (u.req r).pc = .loginCheck phone password)
    (hone : Meets (step cfg) (OneByOne phone) u (.checkLocked r none :: b))
    (h : run (step cfg) u (.checkLocked r none :: b) = some v) (hv : (v.req r).pc = .loginWrong phone) :
    v.redis.cell (.loginLock phone) = u.redis.cell (.loginLock phone) := by
  obtain ⟨w, hw, hb⟩ := run_cons.1 h
  have hcell : w.redis.cell (.loginLock phone) = u.redis.cell (.loginLock phone) := step_frame hw (by simp [Ev.writes])
  -- the check lets it pass, or ends it
  have hbegun : (w.req r).pc.Guessing phone ∨ (w.req r).pc.Settled := by
    obtain ⟨p, pw, hpc', q, -, ⟨-, rfl⟩ | ⟨remain, -, rfl⟩⟩ := checkLockedStep_cases hw
    · rw [hpc] at hpc'
      cases hpc'
      rw [State.set_req, if_pos rfl]
      exact Or.inl rfl
    · rw [State.set_req, if_pos rfl]
      exact Or.inr trivial
  have hall : Counting cfg phone v ∧ ((v.req r).pc.Guessing phone ∧
      v.redis.cell (.loginLock phone) = u.redis.cell (.loginLock phone) ∨ (v.req r).pc.Settled) := by
    refine run_inv_of (C := OneByOne phone) (I := fun v => Counting cfg phone v ∧ ((v.req r).pc.Guessing phone ∧
      v.redis.cell (.loginLock phone) = u.redis.cell (.loginLock phone) ∨ (v.req r).pc.Settled)) ?_ ?_ (hone.2 w hw) hb
    · rintro s e t ⟨hs, hr⟩ hone hst
      refine ⟨counting_step hmax hsec hs hone hst, ?_⟩
      rcases settles_step hst (hr.imp_left And.left) with ⟨ht, hguess⟩ | hsettled
      · rcases hr with ⟨-, hsame⟩ | hsettled
        · exact Or.inl ⟨ht, (lock_kept_step hs.alone hst hguess ht).trans hsame⟩
        · cases hpc : (s.req r).pc <;> rw [hpc] at hguess hsettled <;> first | exact hguess.elim | exact hsettled.elim
      · exact Or.inr hsettled
    · exact ⟨counting_step hmax hsec hu hone.1 hw, hbegun.imp_left fun hg => ⟨hg, hcell⟩⟩
  rcases hall.2 with ⟨-, hsame⟩ | hsettled
  · exact hsame
  · rw [hv] at hsettled
    exact hsettled.elim

theorem counting_init (now : ℕ) (users : List User) (nextId : Int64) : Counting cfg phone (.init now users nextId) := by
  refine ⟨⟨Or.inl rfl, fun x hx => ?_⟩, fun x hx => ?_, fun r r' hr => ?_⟩
  · cases hx
  · cases hx
  · exact hr.elim

theorem now_run (h : run (step cfg) u es = some v) : u.redis.now ≤ v.redis.now :=
  run_inv (I := fun v => u.redis.now ≤ v.redis.now) (fun _ _ _ hle hst => hle.trans (step_now hst).1) le_rfl h

/-- A guess under way has passed its lock check. -/
theorem guess_began {now : ℕ} {users : List User} {nextId : Int64}
    (hone : Meets (step cfg) (OneByOne phone) (.init now users nextId) es)
    (h : run (step cfg) (.init now users nextId) es = some s) (hr : (s.req r).pc.Guessing phone) :
    ∃ a b u password, es = a ++ .checkLocked r none :: b ∧ run (step cfg) (.init now users nextId) a = some u ∧
      (u.req r).pc = .loginCheck phone password ∧
      LoginGuard.onCheck (exec none (LoginGuard.kCheckScript (.loginLock phone)) u.redis).1 = none := by
  refine run_trace_of (C := OneByOne phone) (I := fun es s => (s.req r).pc.Guessing phone →
    ∃ a b u password, es = a ++ .checkLocked r none :: b ∧ run (step cfg) (.init now users nextId) a = some u ∧
      (u.req r).pc = .loginCheck phone password ∧
      LoginGuard.onCheck (exec none (LoginGuard.kCheckScript (.loginLock phone)) u.redis).1 = none) ?_ ?_ hone h hr
  · exact fun hr => hr.elim
  · intro es s e t hrun ih hone hst hr
    rcases guessing_step hst hr with hbefore | ⟨err, password, rfl, hpc, hpass⟩
    · obtain ⟨a, b, u, password, rfl, hu⟩ := ih hbefore
      exact ⟨a, b ++ [e], u, password, by simp, hu⟩
    · have herr : err = none := hone.1
      subst herr
      exact ⟨es, [], s, password, rfl, hrun, hpc, hpass⟩

/-! ## The failure of a guess -/

/-- Under a lock it is not counted. -/
theorem not_counted (hlock : v.redis.find (.loginLock phone) ≠ none) (hpc : (v.req r).pc = .loginWrong phone)
    (h : step cfg v (.onFailure r none) = some w) : ¬IsCounted phone v w := by
  have hsame : w.redis = v.redis := (onFailure_eq h rfl (Or.inr hpc)).trans (failScript_locked hlock)
  rintro (hcount | ⟨hnone, -⟩)
  · rw [hsame] at hcount
    omega
  · exact hlock hnone

/-- Without one it is, or it locks. -/
theorem is_counted (hmax : 1 ≤ cfg.maxFail) (hsec : 1 ≤ cfg.lockSeconds) (hv : Counting cfg phone v)
    (hlock : v.redis.find (.loginLock phone) = none) (hpc : (v.req r).pc = .loginWrong phone)
    (h : step cfg v (.onFailure r none) = some w) : IsCounted phone v w := by
  have hw : w.redis = (LoginGuard.onFailure cfg.guard v.redis phone).2 := onFailure_eq h rfl (Or.inr hpc)
  rcases LoginGuard.onFailure_cases hv.guarded hmax hsec with ⟨hthere, -⟩ | ⟨-, ⟨-, -, hcounts⟩ | ⟨-, -, hlocks⟩⟩
  · exact absurd hlock hthere
  · left
    obtain ⟨at_, hfind, -⟩ := hcounts.find
    rw [hw]
    exact count_of_find hfind
  · right
    refine ⟨hlock, ?_⟩
    have hfind := Store.find_some.2 ⟨hlocks.lock, by rw [hlocks.now]; simp [Entry.alive]⟩
    rw [hw]
    exact Option.ne_none_iff_exists'.2 ⟨_, hfind⟩

/-- A free guess is not counted: the lock it was checked against is still there. -/
theorem FreeGuess.uncounted {now : ℕ} {users : List User} {nextId : Int64} (hmax : 1 ≤ cfg.maxFail)
    (hsec : 1 ≤ cfg.lockSeconds) (hone : Meets (step cfg) (OneByOne phone) (.init now users nextId) es)
    (h : run (step cfg) (.init now users nextId) es = some s) (hfree : FreeGuess cfg phone (.init now users nextId) es) :
    ∃ v r w, Takes (step cfg) (.init now users nextId) es v (.onFailure r none) ∧
      (v.req r).pc = .loginWrong phone ∧ step cfg v (.onFailure r none) = some w ∧ ¬IsCounted phone v w := by
  obtain ⟨a, b, c, u, v, r, password, x, until_, rfl, hu, hpc, hv, hwrong, hx, huntil, -, hle⟩ := hfree
  have hes : a ++ .checkLocked r none :: (b ++ .onFailure r none :: c) =
      (a ++ .checkLocked r none :: b) ++ .onFailure r none :: c := by simp
  have hb := run_rest hv hu
  have hone' := meets_append (hes ▸ hone)
  have hua : Counting cfg phone u := counting_run hmax hsec (counting_init now users nextId) (meets_append hone).1 hu
  have hkept := lock_kept hmax hsec hua hpc ((meets_append hone'.1).2 u hu) hb hwrong
  -- nobody wrote the lock since the check, and its time is not up
  have hthere : v.redis.find (.loginLock phone) ≠ none := by
    rw [Store.find_some.2 ⟨hkept.trans (Store.find_some.1 hx).1, by simpa [Entry.alive, huntil] using hle⟩]
    exact Option.some_ne_none x
  rw [hes] at h
  have hrest := run_rest h hv
  obtain ⟨w, hw, -⟩ := run_cons.1 hrest
  exact ⟨v, r, w, ⟨_, c, hes, hv⟩, hwrong, hw, not_counted hthere hwrong hw⟩

/-- What is not counted is a free guess: its failure found a lock, and that is the one its
check let pass. -/
theorem freeGuess_of_not_counted {now : ℕ} {users : List User} {nextId : Int64} (hmax : 1 ≤ cfg.maxFail)
    (hsec : 1 ≤ cfg.lockSeconds) (hone : Meets (step cfg) (OneByOne phone) (.init now users nextId) es)
    (htakes : Takes (step cfg) (.init now users nextId) es v (.onFailure r none))
    (hwrong : (v.req r).pc = .loginWrong phone) (hw : step cfg v (.onFailure r none) = some w)
    (hnot : ¬IsCounted phone v w) : FreeGuess cfg phone (.init now users nextId) es := by
  obtain ⟨pre, post, rfl, hv⟩ := htakes
  have h₀ : Counting cfg phone (.init now users nextId) := counting_init now users nextId
  have hpre := (meets_append hone).1
  have hcv : Counting cfg phone v := counting_run hmax hsec h₀ hpre hv
  have hlock : v.redis.find (.loginLock phone) ≠ none := fun hnone => hnot (is_counted hmax hsec hcv hnone hwrong hw)
  obtain ⟨x, hx⟩ := Option.ne_none_iff_exists'.1 hlock
  obtain ⟨hcell, halive⟩ := Store.find_some.1 hx
  obtain ⟨until_, huntil⟩ := hcv.timed x hcell
  have hguess : (v.req r).pc.Guessing phone := by
    rw [hwrong]
    rfl
  obtain ⟨a, b, u, password, rfl, hu, hpc, hpass⟩ := guess_began hpre hv hguess
  have hb := run_rest hv hu
  have hua : Counting cfg phone u := counting_run hmax hsec h₀ (meets_append hpre).1 hu
  have hkept := lock_kept hmax hsec hua hpc ((meets_append hpre).2 u hu) hb hwrong
  have hle : v.redis.now ≤ until_ := by simpa [Entry.alive, huntil] using halive
  have hxu : u.redis.find (.loginLock phone) = some x :=
    Store.find_some.2 ⟨hkept.symm.trans hcell, Entry.alive_mono (now_run hb) halive⟩
  refine ⟨a, b, post, u, v, r, password, x, until_, by simp, hu, hpc, hv, hwrong, hxu, huntil, ?_, hle⟩
  -- the `TTL` of the check was `0`
  by_contra hlate
  have hnone := lockCheck_passes rfl hpass fun x' hx' => ?_
  · rw [hxu] at hnone
    cases hnone
  · rw [hxu] at hx'
    obtain rfl := Option.some.inj hx'
    exact ⟨until_, huntil, by omega⟩

/-- **No free guess.** When the logins of a phone come one after another and Redis is
healthy: every login whose password was compared and found wrong is counted, or sets the
lock, exactly if no wrong password was checked in the last half second of a lock and
reported before its end. -/
theorem wrong_guess_counts (cfg : Config) (hmax : 1 ≤ cfg.maxFail) (hsec : 1 ≤ cfg.lockSeconds) (phone : String)
    (now : ℕ) (users : List User) (nextId : Int64) (es : List Ev) (s : State)
    (hone : Meets (step cfg) (OneByOne phone) (.init now users nextId) es)
    (h : run (step cfg) (.init now users nextId) es = some s) :
    (∀ v r w, Takes (step cfg) (.init now users nextId) es v (.onFailure r none) →
        (v.req r).pc = .loginWrong phone → step cfg v (.onFailure r none) = some w → IsCounted phone v w) ↔
      ¬FreeGuess cfg phone (.init now users nextId) es := by
  constructor
  · intro hall hfree
    obtain ⟨v, r, w, htakes, hwrong, hw, hnot⟩ := hfree.uncounted hmax hsec hone h
    exact hnot (hall v r w htakes hwrong hw)
  · intro hfree v r w htakes hwrong hw
    by_contra hnot
    exact hfree (freeGuess_of_not_counted hmax hsec hone htakes hwrong hw hnot)

/-! ## Guesses -/

instance : DecidablePred (Pc.LoggingIn phone)
  | .loginCheck p _ | .loginSelect p _ | .loginHash p _ _ | .loginUnknown p | .loginWrong p | .loginSave p _ _ _
  | .loginSaved p _ _ => inferInstanceAs (Decidable (p = phone))
  | .idle | .regCheck _ _ _ _ | .regVerify _ _ _ _ | .regSelect _ _ _ | .regHash _ _ _ _ | .regInsert _ _ _ _
  | .regMark _ _ | .regMarked _ _ | .logoutRevoke _ | .authExists _ _ | .done => isFalse id

/-- The event begins a login of the phone. -/
def Ev.begins (phone : String) : Ev → Bool
  | .login _ p _ => p = phone
  | _ => false

/-- `OneByOne`, looked up for the requests `rs`. -/
def OneByOneAmong (phone : String) (rs : List ℕ) (s : State) (e : Ev) : Prop :=
  e.Healthy ∧ (e.begins phone = true → ∀ r ∈ rs, ¬(s.req r).pc.LoggingIn phone)

instance (rs : List ℕ) : DecidableRel (OneByOneAmong phone rs) := fun _ e =>
  inferInstanceAs (Decidable (e.Healthy ∧ (_ → ∀ r ∈ rs, ¬_)))

theorem oneByOne_among {rs : List ℕ} (hs : Among rs s) (h : OneByOneAmong phone rs s e) : OneByOne phone s e := by
  refine ⟨h.1, fun r password heq r' hr => ?_⟩
  subst heq
  by_cases hmem : r' ∈ rs
  · exact h.2 (decide_eq_true rfl) r' hmem hr
  · rw [hs r' hmem] at hr
    exact hr

/-- Where every lock has half a second left, there is no guess for free. -/
theorem not_freeGuess (h : Meets (step cfg) (fun s _ =>
      ∀ x ∈ s.redis.find (.loginLock phone), ∀ u ∈ x.expireAt, s.redis.now + 500 ≤ u) s es) :
    ¬FreeGuess cfg phone s es := by
  rintro ⟨a, b, c, u, v, r, password, x, until_, rfl, hu, -, -, -, hx, hexpire, hlate, -⟩
  have hhalf := ((meets_append h).2 u hu).1 x hx until_ hexpire
  omega

/-- A wrong login, reported. -/
def wrongLogin (r : ℕ) : List Ev := loginUpTo r "wrongpw" ++ [.onFailure r none]

/-- Five wrong logins, one that finds the lock, and two more after it. -/
def wrongLogins : List Ev :=
  [0, 1, 2, 3, 4].flatMap wrongLogin ++ [.wait 1000, .login 5 "13800000000" "wrongpw", .checkLocked 5 none,
    .wait 600001] ++ [6, 7].flatMap wrongLogin

/-- Every comparison is counted, or sets the lock. -/
theorem wrong_guess_counts_eight :
    ∃ s, run (step unsignedConfig) (.init 0 [onlyUser] 2) wrongLogins = some s ∧
      (s.req 4).answer = some (.login false [] "ACCOUNT_LOCKED:600") ∧
      (s.req 5).answer = some (.login false [] "ACCOUNT_LOCKED:599") ∧
      (s.req 7).answer = some (.login false [] "WRONG_PASSWORD:2") ∧
      ∀ v r w, Takes (step unsignedConfig) (.init 0 [onlyUser] 2) wrongLogins v (.onFailure r none) →
        (v.req r).pc = .loginWrong "13800000000" → step unsignedConfig v (.onFailure r none) = some w →
          IsCounted "13800000000" v w := by
  have hrun : ((run (step unsignedConfig) (.init 0 [onlyUser] 2) wrongLogins).map fun s =>
      ((s.req 4).answer, (s.req 5).answer, (s.req 7).answer)) =
      some (some (.login false [] "ACCOUNT_LOCKED:600"), some (.login false [] "ACCOUNT_LOCKED:599"),
        some (.login false [] "WRONG_PASSWORD:2")) := by decide +kernel
  obtain ⟨s, hs, hanswers⟩ := Option.map_eq_some_iff.1 hrun
  simp only [Prod.mk.injEq] at hanswers
  obtain ⟨hlocked, hrefused, hsecond⟩ := hanswers
  have hone : Meets (step unsignedConfig) (OneByOne "13800000000") (.init 0 [onlyUser] 2) wrongLogins :=
    meets_among (List.range 8) (by decide) (fun _ _ => oneByOne_among) (by decide +kernel)
  exact ⟨s, hs, hlocked, hrefused, hsecond, (wrong_guess_counts unsignedConfig (by decide) (by decide) "13800000000" 0
    [onlyUser] 2 wrongLogins s hone hs).2 (not_freeGuess (by decide +kernel))⟩

/-- A lock of one second at the first failure. -/
def briefConfig : Config := { unsignedConfig with maxFail := 1, lockSeconds := 1 }

/-- A wrong login locks, and 600 ms later another one passes the lock check. -/
def freeGuess : List Ev := wrongLogin 0 ++ [.wait 600] ++ loginUpTo 1 "wrongpw"

/-- Its password is compared, and counts for nothing. -/
theorem wrong_guess_free :
    ∃ v w, Meets (step briefConfig) (OneByOne "13800000000") (.init 0 [onlyUser] 2) (freeGuess ++ [.onFailure 1 none]) ∧
      run (step briefConfig) (.init 0 [onlyUser] 2) freeGuess = some v ∧ (v.req 1).pc = .loginWrong "13800000000" ∧
      step briefConfig v (.onFailure 1 none) = some w ∧ ¬IsCounted "13800000000" v w := by
  have hrun : ((run (step briefConfig) (.init 0 [onlyUser] 2) freeGuess).map fun s =>
      ((s.req 1).pc, s.redis.find (.loginLock "13800000000"), (step briefConfig s (.onFailure 1 none)).isSome)) =
      some (.loginWrong "13800000000", some ⟨.raw "1", some 1000⟩, true) := by rfl
  obtain ⟨v, hv, hall⟩ := Option.map_eq_some_iff.1 hrun
  simp only [Prod.mk.injEq] at hall
  obtain ⟨hpc, hlock, hsome⟩ := hall
  obtain ⟨w, hw⟩ := Option.isSome_iff_exists.1 hsome
  exact ⟨v, w, meets_among [0, 1] (by decide) (fun _ _ => oneByOne_among) (by decide +kernel), hv, hpc, hw,
    not_counted (by rw [hlock]; exact Option.some_ne_none _) hpc hw⟩

end Seckill.UserService
