import Seckill.Lib.Crowd
import Seckill.Proof.UserService

/-!
# The login lock against concurrent logins

`UserService::login` looks at `login:lock:{phone}` once, before the SELECT and the
hash. Two things go wrong when logins of a phone overlap:

* a login that passed the check finishes under a lock created meanwhile;
* more than `maxFail` passwords are compared before the failures are counted.

`Timely` is the condition, on the state before each step, under which neither
happens, and `login_lock` is that they then do not. `login_lock_passed` is a run
of the default configuration in which the first does.
-/

namespace Seckill.UserService

open Redis Crowd

section

variable (cfg : Config) (phone : String)

/-- The event is a step of the success branch of a login of the phone: the right
password is found (and the token signed), the counter is reset, the session is
saved, the token is handed out. -/
def Succeeds (s : State) : Ev → Prop
  | .loginHash r fails _ _ => fails = false ∧ ∃ password user, (s.req r).pc = .loginHash phone password user ∧
      cfg.verdict password user = some true
  | .onSuccess r _ => (s.req r).reset = some phone
  | .save r _ => ∃ userId jti token, (s.req r).pc = .loginSave phone userId jti token
  | .saved r => ∃ token, (s.req r).pc = .loginSaved phone token true
  | _ => False

/-- The event compares a wrong password of the phone. -/
def comparesWrong (s : State) : Ev → Bool
  | .loginHash r false _ _ =>
    match (s.req r).pc with
    | .loginHash p password user => p = phone && cfg.verdict password user = some false
    | _ => false
  | _ => false

/-- The event counts a failed login. -/
def Ev.isOnFailure : Ev → Bool
  | .onFailure _ _ => true
  | _ => false

/-- The event creates the phone's lock. -/
def CreatesLock (s : State) (e : Ev) : Prop :=
  s.redis.find (.loginLock phone) = none ∧
    ∃ t, step cfg s e = some t ∧ t.redis.find (.loginLock phone) ≠ none

/-- The event neither creates the phone's lock nor ends the life of its counter. -/
def KeepsCounting (s : State) (e : Ev) : Prop :=
  ¬CreatesLock cfg phone s e ∧ ∀ t, step cfg s e = some t →
    s.redis.find (.loginFail phone) ≠ none → t.redis.find (.loginFail phone) ≠ none

instance (s : State) (e : Ev) : Decidable (CreatesLock cfg phone s e) :=
  inferInstanceAs (Decidable (s.redis.find (.loginLock phone) = none ∧
    ∃ t ∈ step cfg s e, t.redis.find (.loginLock phone) ≠ none))

instance (s : State) (e : Ev) : Decidable (KeepsCounting cfg phone s e) :=
  inferInstanceAs (Decidable (¬CreatesLock cfg phone s e ∧ ∀ t ∈ step cfg s e,
    s.redis.find (.loginFail phone) ≠ none → t.redis.find (.loginFail phone) ≠ none))

/-- A login of the phone, past its lock check, that will find the right password
if it goes on. -/
def Pc.Hot (s : State) : Pc → Prop
  | .loginSelect p password => p = phone ∧
      ∀ user, s.userOf phone = some user → user.status = 1 ∧ cfg.verdict password user = some true
  | .loginHash p password user => p = phone ∧ cfg.verdict password user = some true
  | .loginSave p _ _ _ => p = phone
  | .loginSaved p _ ok => p = phone ∧ ok = true
  | _ => False

instance (s : State) : DecidablePred (Pc.Hot cfg phone s)
  | .loginSelect p password => inferInstanceAs (Decidable (p = phone ∧
      ∀ user ∈ s.userOf phone, user.status = 1 ∧ cfg.verdict password user = some true))
  | .loginHash p password user => inferInstanceAs (Decidable (p = phone ∧ cfg.verdict password user = some true))
  | .loginSave p _ _ _ => inferInstanceAs (Decidable (p = phone))
  | .loginSaved p _ ok => inferInstanceAs (Decidable (p = phone ∧ ok = true))
  | .idle | .loginCheck _ _ | .loginUnknown _ | .loginWrong _ | .regCheck _ _ _ _ | .regVerify _ _ _ _
  | .regSelect _ _ _ | .regHash _ _ _ _ | .regInsert _ _ _ _ | .regMark _ _ | .regMarked _ _ | .logoutRevoke _
  | .authExists _ _ | .done => isFalse id

/-- The same of a request, or its counter reset is still outstanding. -/
def Hot (s : State) (q : Req) : Prop := q.reset = some phone ∨ q.pc.Hot cfg phone s

instance (s : State) : DecidablePred (Hot cfg phone s) := fun q =>
  inferInstanceAs (Decidable (q.reset = some phone ∨ q.pc.Hot cfg phone s))

/-- The request waits for a wrong password of the phone to be counted. -/
def Uncounted (s : State) (r : ℕ) : Prop := (s.req r).pc = .loginWrong phone

instance (s : State) : DecidablePred (Uncounted phone s) := fun r =>
  inferInstanceAs (Decidable ((s.req r).pc = .loginWrong phone))

/-- **The condition on a step.**
* Redis is healthy;
* no lock check falls into the last half second of a lock, which `TTL` rounds to 0;
* when a failure is about to create the lock, no login past its check is going to
  succeed;
* a wrong password is compared only while there is no lock and, if others are not
  counted yet, the counter and those leave room. -/
structure Timely (s : State) (e : Ev) : Prop where
  healthy : e.Healthy
  check : ∀ r err password, e = .checkLocked r err → (s.req r).pc = .loginCheck phone password →
    ∀ x, s.redis.find (.loginLock phone) = some x → ∃ u, x.expireAt = some u ∧ s.redis.now + 500 ≤ u
  lock : ∀ r err, e = .onFailure r err → ((s.req r).pc = .loginUnknown phone ∨ (s.req r).pc = .loginWrong phone) →
    s.redis.find (.loginLock phone) = none → cfg.maxFail ≤ count s.redis (.loginFail phone) + 1 →
    0 < cfg.lockSeconds → ∀ r', ¬Hot cfg phone s (s.req r')
  compare : comparesWrong cfg phone s e = true → s.redis.find (.loginLock phone) = none ∧
    ((∃ r, Uncounted phone s r) →
      AtMost (Uncounted phone s) (cfg.maxFail - count s.redis (.loginFail phone) - 1))

end

variable {cfg : Config} {phone : String} {s t : State} {e : Ev}

/-! ## The scripts -/

/-- A lock that a check lets pass is in its last half second. -/
theorem lockCheck_passes {err : Option String} {st : Store Key} (herr : err = none)
    (h : LoginGuard.onCheck (exec err (LoginGuard.kCheckScript (.loginLock phone)) st).1 = none)
    (hx : ∀ x, st.find (.loginLock phone) = some x → ∃ u, x.expireAt = some u ∧ st.now + 500 ≤ u) :
    st.find (.loginLock phone) = none := by
  subst herr
  cases hfind : st.find (.loginLock phone) with
  | none => rfl
  | some x =>
    obtain ⟨u, hu, hle⟩ := hx x hfind
    have hreply : (exec none (LoginGuard.kCheckScript (.loginLock phone)) st).1 =
        .ok (((u - st.now + 500) / 1000 : ℕ) : ℤ) := by
      unfold exec LoginGuard.kCheckScript
      simp only [exists_bind, hfind, Option.isSome_some, if_true, ttl, hu]
    rw [hreply] at h
    have hpos : ((u - st.now + 500) / 1000 : ℕ) ≠ 0 := by omega
    simp only [LoginGuard.onCheck] at h
    split at h
    · cases h
    · rename_i hle'
      omega

/-- Under a lock, `onFailure` does nothing. -/
theorem failScript_locked {st : Store Key} (h : st.find (.loginLock phone) ≠ none) :
    (failScript cfg phone st).2 = st := by
  unfold failScript LoginGuard.kOnFailureScript
  cases hfind : st.find (.loginLock phone) with
  | none => exact absurd hfind h
  | some x =>
    rw [exists_bind, hfind]
    rfl

/-- Without a lock, `onFailure` counts, and the failure number `maxFail` locks. -/
theorem failScript_unlocked {st : Store Key} (hs : SmsService.Counters st) (h : st.find (.loginLock phone) = none) :
    (failScript cfg phone st).2.find (.loginLock phone) = none ∧ (0 < cfg.lockSeconds →
        count st (.loginFail phone) + 1 < cfg.maxFail ∧
        count (failScript cfg phone st).2 (.loginFail phone) = count st (.loginFail phone) + 1) ∨
      0 < cfg.lockSeconds ∧ cfg.maxFail ≤ count st (.loginFail phone) + 1 ∧
        (failScript cfg phone st).2.find (.loginLock phone) ≠ none ∧
        count (failScript cfg phone st).2 (.loginFail phone) = 0 := by
  unfold failScript LoginGuard.kOnFailureScript
  rw [exists_bind, h]
  simp only [Option.isSome_none, Bool.false_eq_true, if_false]
  obtain ⟨s', hs', hsame, hcounted⟩ := hs.counted (k := Key.loginFail phone) trivial cfg.lockSeconds fun n =>
    if n ≥ cfg.maxFail then do
      setex (.loginLock phone) cfg.lockSeconds (.raw "1")
      let _ ← del (.loginFail phone)
      return (-2, cfg.lockSeconds)
    else return (n, 0)
  rw [hs']
  have hlock : s'.find (.loginLock phone) = none := by
    unfold Store.find at h ⊢
    rw [hsame.2 _ (by simp), hsame.1]
    exact h
  by_cases hmax : cfg.maxFail ≤ count st (.loginFail phone) + 1
  · rw [if_pos hmax]
    by_cases hsec : 0 < cfg.lockSeconds
    · right
      rw [setex_bind _ _ hsec, del_bind]
      refine ⟨hsec, hmax, ?_, ?_⟩
      · simp [Store.find_put, Entry.alive, Option.filter]
      · apply count_none
        simp
    · -- the SETEX of the lock fails
      left
      rw [Script.bind_run, setex, if_pos (by omega)]
      exact ⟨hlock, fun hpos => absurd hpos hsec⟩
  · left
    rw [if_neg hmax]
    refine ⟨hlock, fun hsec => ⟨by omega, ?_⟩⟩
    rcases hcounted with ⟨-, hc⟩ | ⟨hle, -⟩
    · exact hc
    · omega

/-! ## Nobody succeeds under the lock -/

theorem Pc.Hot.before {p : Pc} (hu : ∀ user, s.userOf phone = some user → t.userOf phone = some user)
    (h : p.Hot cfg phone t) : p.Hot cfg phone s := by
  cases p with
  | loginSelect p password => exact ⟨h.1, fun user huser => h.2 user (hu user huser)⟩
  | loginHash | loginSave | loginSaved => exact h
  | _ => exact h

/-- A login gets hot when it passes its lock check, at no other time. -/
theorem hot_step (h : step cfg s e = some t) {r : ℕ} (hr : Hot cfg phone t (t.req r)) :
    Hot cfg phone s (s.req r) ∨ ∃ err password, e = .checkLocked r err ∧
      (s.req r).pc = .loginCheck phone password ∧
      LoginGuard.onCheck (exec err (LoginGuard.kCheckScript (.loginLock phone)) s.redis).1 = none := by
  have hu : ∀ user, s.userOf phone = some user → t.userOf phone = some user := fun user => step_userOf h
  rcases (step_effect h).req r with heq | hmove
  · rw [heq] at hr
    exact Or.inl (hr.imp_right fun hpc => hpc.before hu)
  · generalize t.req r = q at hmove hr
    -- its counter is to be reset, or it may still get there
    rcases hr with hreset | hpc'
    · cases hmove with
      | right hpc hv =>
        left; right
        rw [hpc]
        exact ⟨Option.some.inj hreset, hv⟩
      | reset _ => cases hreset
      | _ => exact Or.inl (Or.inl hreset)
    · cases hmove with
      | pass hpc hcheck =>
        obtain ⟨rfl, -⟩ := hpc'
        exact Or.inr ⟨_, _, rfl, hpc, hcheck⟩
      | found hpc huser hstatus =>
        obtain ⟨rfl, hv⟩ := hpc'
        left; right
        rw [hpc]
        refine ⟨rfl, fun user huser' => ?_⟩
        rw [huser] at huser'
        rw [← Option.some.inj huser']
        exact ⟨hstatus, hv⟩
      | right hpc hv =>
        left; right
        rw [hpc]
        exact ⟨hpc', hv⟩
      | reset _ => exact Or.inl (Or.inr (hpc'.before hu))
      | save hpc =>
        left; right
        rw [hpc]
        exact hpc'.1
      | _ => exact hpc'.elim

/-- While the lock is there, no login of the phone is hot. -/
def Shut (cfg : Config) (phone : String) (s : State) : Prop :=
  s.redis.find (.loginLock phone) ≠ none → ∀ r, ¬Hot cfg phone s (s.req r)

/-- The step of a request that waits for its failure to be counted. -/
theorem onFailure_eq {r : ℕ} {err : Option String} (h : onFailureStep cfg s r err = some t) (herr : err = none)
    (hpc : (s.req r).pc = .loginUnknown phone ∨ (s.req r).pc = .loginWrong phone) :
    t.redis = (failScript cfg phone s.redis).2 := by
  subst herr
  obtain ⟨phone', msg, hcases, rfl⟩ := onFailureStep_cases h
  have hpc' := hcases.imp And.left And.left
  have hphone : phone = phone' := by
    rcases hpc with hpc | hpc
    · rw [hpc] at hpc'
      simpa using hpc'
    · rw [hpc] at hpc'
      simpa using hpc'
  rw [hphone]
  rfl

/-- Only a failure that reaches `maxFail` creates the lock. -/
theorem lock_step (hs : SmsService.Counters s.redis) (h : step cfg s e = some t) (he : e.Healthy)
    (hlock : s.redis.find (.loginLock phone) = none) (hlock' : t.redis.find (.loginLock phone) ≠ none) :
    0 < cfg.lockSeconds ∧ ∃ r err, e = .onFailure r err ∧
      ((s.req r).pc = .loginUnknown phone ∨ (s.req r).pc = .loginWrong phone) ∧
      cfg.maxFail ≤ count s.redis (.loginFail phone) + 1 := by
  by_cases hw : e.writes s (.loginLock phone)
  · cases e with
    | onFailure r err =>
      obtain ⟨phone', hpc, heq | heq⟩ := hw
      · injection heq with heq
        subst heq
        rw [onFailure_eq h he hpc] at hlock'
        rcases failScript_unlocked hs hlock with ⟨hnone, -⟩ | ⟨hsec, hmax, -, -⟩
        · exact absurd hnone hlock'
        · exact ⟨hsec, r, err, rfl, hpc, hmax⟩
      · cases heq
    | _ => simp [Ev.writes] at hw
  · obtain ⟨x, hx⟩ := Option.ne_none_iff_exists'.1 hlock'
    rw [find_step h hw hx] at hlock
    cases hlock

/-- **A timely step keeps the door shut.** -/
theorem shut_step (hs : SmsService.Counters s.redis) (hshut : Shut cfg phone s) (ht : Timely cfg phone s e)
    (h : step cfg s e = some t) : Shut cfg phone t := by
  intro hlock' r hhot
  by_cases hlock : s.redis.find (.loginLock phone) = none
  · obtain ⟨hsec, r', err, rfl, hpc, hmax⟩ := lock_step hs h ht.healthy hlock hlock'
    have hcold := ht.lock r' err rfl hpc hlock hmax hsec
    rcases hot_step h hhot with hbefore | ⟨err', password, he, -, -⟩
    · exact hcold r hbefore
    · cases he
  · rcases hot_step h hhot with hbefore | ⟨err, password, rfl, hpc, hpass⟩
    · exact hshut hlock r hbefore
    · have herr : err = none := ht.healthy
      exact hlock (lockCheck_passes herr hpass (ht.check r err password rfl hpc))

theorem shut_run {s₀ : State} {es : List Ev} (hs : SmsService.Counters s₀.redis) (hshut : Shut cfg phone s₀)
    (hm : Machine.Meets (step cfg) (Timely cfg phone) s₀ es) (h : Machine.run (step cfg) s₀ es = some s) :
    SmsService.Counters s.redis ∧ Shut cfg phone s := by
  refine Machine.run_inv_of (C := Timely cfg phone)
    (I := fun u => SmsService.Counters u.redis ∧ Shut cfg phone u) ?_ ⟨hs, hshut⟩ hm h
  rintro u e v ⟨hu, hshut⟩ ht huv
  exact ⟨step_counters u e v hu huv, shut_step hu hshut ht huv⟩

/-- A login in its success branch is hot. -/
theorem Succeeds.hot (h : Succeeds cfg phone s e) : ∃ r, Hot cfg phone s (s.req r) := by
  cases e with
  | loginHash r fails jti clock =>
    obtain ⟨-, password, user, hpc, hv⟩ := h
    refine ⟨r, Or.inr ?_⟩
    rw [hpc]
    exact ⟨rfl, hv⟩
  | onSuccess r err => exact ⟨r, Or.inl h⟩
  | save r err =>
    obtain ⟨userId, jti, token, hpc⟩ := h
    refine ⟨r, Or.inr ?_⟩
    rw [hpc]
    rfl
  | saved r =>
    obtain ⟨token, hpc⟩ := h
    refine ⟨r, Or.inr ?_⟩
    rw [hpc]
    exact ⟨rfl, rfl⟩
  | _ => exact h.elim

/-! ## Every comparison is counted before the lock -/

/-- What happens to the counter: a failure counts or locks, or nothing happens to it
but that it may go away. -/
theorem counter_step (phone : String) (hs : SmsService.Counters s.redis) (h : step cfg s e = some t) (he : e.Healthy)
    (hsec : 0 < cfg.lockSeconds) :
    (∃ r err, e = .onFailure r err ∧ s.redis.find (.loginLock phone) = none ∧
        (count s.redis (.loginFail phone) + 1 < cfg.maxFail ∧
            count t.redis (.loginFail phone) = count s.redis (.loginFail phone) + 1 ∨
          t.redis.find (.loginLock phone) ≠ none ∧ count t.redis (.loginFail phone) = 0)) ∨
      (count t.redis (.loginFail phone) = count s.redis (.loginFail phone) ∨
          t.redis.find (.loginFail phone) = none) ∧
        ∀ r err, e = .onFailure r err → Uncounted phone s r → s.redis.find (.loginLock phone) ≠ none := by
  by_cases hw : e.writes s (.loginFail phone)
  · cases e with
    | onFailure r err =>
      obtain ⟨phone', hpc, heq | heq⟩ := hw
      · cases heq
      injection heq with heq
      subst heq
      have ht : t.redis = (failScript cfg phone s.redis).2 := onFailure_eq h he hpc
      rw [ht]
      by_cases hlock : s.redis.find (.loginLock phone) = none
      · left
        refine ⟨r, err, rfl, hlock, ?_⟩
        rcases failScript_unlocked hs hlock with ⟨-, hc⟩ | ⟨-, -, hl, hc⟩
        · exact Or.inl (hc hsec)
        · exact Or.inr ⟨hl, hc⟩
      · right
        rw [failScript_locked hlock]
        exact ⟨Or.inl rfl, fun _ _ _ _ => hlock⟩
    | onSuccess r err =>
      right
      refine ⟨Or.inr ?_, fun r' err' heq => by cases heq⟩
      obtain ⟨phone', hreset', heq⟩ := hw
      injection heq with heq
      subst heq
      obtain ⟨phone', hreset, rfl⟩ := onSuccessStep_cases h
      rw [hreset', Option.some.injEq] at hreset
      have herr : err = none := he
      subst herr
      rw [hreset]
      exact Store.find_put_self s.redis (.loginFail phone') none
    | _ => simp [Ev.writes] at hw
  · -- the key is not written: it lives on or expires
    right
    constructor
    · cases hfind : t.redis.find (.loginFail phone) with
      | none => exact Or.inr rfl
      | some x =>
        have hbefore : s.redis.find (.loginFail phone) = some x := find_step h hw hfind
        exact Or.inl (count_congr (hfind.trans hbefore.symm))
    · rintro r err rfl hr
      exact absurd ⟨phone, Or.inr hr, Or.inr rfl⟩ hw

/-- The counter stays below `maxFail`. -/
theorem counter_lt (hs : SmsService.Counters s.redis) (h : step cfg s e = some t) (he : e.Healthy)
    (hsec : 0 < cfg.lockSeconds) (hmax : 1 ≤ cfg.maxFail)
    (hlt : count s.redis (.loginFail phone) < cfg.maxFail) : count t.redis (.loginFail phone) < cfg.maxFail := by
  rcases counter_step phone hs h he hsec with ⟨r, err, -, -, ⟨hnext, hc⟩ | ⟨-, hc⟩⟩ | ⟨hc | hnone, -⟩
  · omega
  · omega
  · omega
  · rw [count_none hnone]
    omega

/-- A login waits until its failure is counted. -/
theorem uncounted_step (h : step cfg s e = some t) {r : ℕ} (hr : Uncounted phone s r) :
    Uncounted phone t r ∨ ∃ err, e = .onFailure r err := by
  rcases (step_effect h).req r with heq | hmove
  · left
    unfold Uncounted
    rw [heq]
    exact hr
  · unfold Uncounted at hr ⊢
    generalize t.req r = q at hmove ⊢
    cases hmove with
    | stop a ha hends =>
      right
      rw [hr] at hends
      cases e with
      | onFailure r' err =>
        have hreq : r' = r := hends
        rw [hreq]
        exact ⟨err, rfl⟩
      | _ => exact hends.elim
    | reset _ => exact Or.inl hr
    | _ => simp_all

/-- A comparison that fails makes one more login wait. -/
theorem comparesWrong_step (h : step cfg s e = some t) (hw : comparesWrong cfg phone s e = true) :
    t.redis = s.redis ∧ ∃ r, ¬Uncounted phone s r ∧ Uncounted phone t r := by
  cases e with
  | loginHash r fails jti clock =>
    obtain ⟨phone', password, user, hpc, hor⟩ := loginHashStep_cases h
    unfold comparesWrong at hw
    cases fails with
    | true => cases hw
    | false =>
      simp only [hpc, Bool.and_eq_true, decide_eq_true_eq] at hw
      obtain ⟨rfl, hv⟩ := hw
      have hnot : ¬Uncounted phone' s r := by
        unfold Uncounted
        rw [hpc]
        exact fun hpc' => by cases hpc'
      rcases hor with ⟨hf | hnone, -⟩ | ⟨-, -, rfl⟩ | ⟨-, hv', -⟩
      · cases hf
      · rw [hv] at hnone
        cases hnone
      · refine ⟨rfl, r, hnot, ?_⟩
        unfold Uncounted
        rw [State.set_req, if_pos rfl]
        rfl
      · rw [hv] at hv'
        cases hv'
  | _ => cases hw

/-- `n` comparisons so far: the counter has them, or logins that wait while there is
no lock. -/
structure Tallied (cfg : Config) (phone : String) (n : ℕ) (s : State) : Prop where
  counters : SmsService.Counters s.redis
  below : count s.redis (.loginFail phone) < cfg.maxFail
  le : (n : ℤ) ≤ cfg.maxFail
  waits : (n : ℤ) ≤ count s.redis (.loginFail phone) ∨
    s.redis.find (.loginLock phone) = none ∧ AtLeast (Uncounted phone s) (n - count s.redis (.loginFail phone))

/-- No lock is created in a step that keeps counting. -/
theorem unlocked_step (hk : KeepsCounting cfg phone s e) (h : step cfg s e = some t)
    (hnone : s.redis.find (.loginLock phone) = none) : t.redis.find (.loginLock phone) = none := by
  by_contra hsome
  exact hk.1 ⟨hnone, t, h, hsome⟩

/-- A wrong comparison adds one login that has yet to count its failure. -/
theorem tallied_compare {n : ℕ} (hn : Tallied cfg phone n s) (ht : Timely cfg phone s e)
    (hk : KeepsCounting cfg phone s e) (h : step cfg s e = some t)
    (hbelow : count t.redis (.loginFail phone) < cfg.maxFail) (hw : comparesWrong cfg phone s e = true) :
    Tallied cfg phone (n + 1) t := by
  obtain ⟨hredis, r, hnot, hr⟩ := comparesWrong_step h hw
  obtain ⟨hnone, hroom⟩ := ht.compare hw
  have hleast : AtLeast (Uncounted phone s) (n - count s.redis (.loginFail phone)) := by
    rcases hn.waits with hle | ⟨-, hleast⟩
    · exact AtLeast.zero (by omega)
    · exact hleast
  have hkept : ∀ i, Uncounted phone s i → Uncounted phone t i := by
    intro i hi
    rcases uncounted_step h hi with hi' | ⟨err, rfl⟩
    · exact hi'
    · cases hw
  refine ⟨step_counters s e t hn.counters h, hbelow, ?_, Or.inr ⟨unlocked_step hk h hnone, ?_⟩⟩
  · -- the room the condition leaves
    have hbelow' := hn.below
    by_cases hpos : (n : ℤ) ≤ count s.redis (.loginFail phone)
    · push_cast
      omega
    · have hle := hleast.le (hroom (hleast.exists (by omega)))
      push_cast
      omega
  · rw [hredis]
    refine (hleast.enter hnot hr hkept).mono (fun _ hi => hi) ?_
    push_cast
    omega

/-- Any other step counts one of the waiting failures, or changes neither side. -/
theorem tallied_other (hsec : 0 < cfg.lockSeconds) {n : ℕ} (hn : Tallied cfg phone n s)
    (ht : Timely cfg phone s e) (hk : KeepsCounting cfg phone s e) (h : step cfg s e = some t)
    (hbelow : count t.redis (.loginFail phone) < cfg.maxFail) : Tallied cfg phone n t := by
  refine ⟨step_counters s e t hn.counters h, hbelow, hn.le, ?_⟩
  rcases counter_step phone hn.counters h ht.healthy hsec with
    ⟨r, err, rfl, hnone, ⟨-, hc⟩ | ⟨hl, -⟩⟩ | ⟨hc, hfail⟩
  · -- a failure is counted
    rw [hc]
    rcases hn.waits with hle | ⟨-, hleast⟩
    · left
      omega
    · right
      refine ⟨unlocked_step hk h hnone, (hleast.leave r fun i hi hne => ?_).mono (fun _ hi => hi) (by omega)⟩
      rcases uncounted_step h hi with hi' | ⟨err', heq⟩
      · exact hi'
      · injection heq with heq
        exact absurd heq.symm hne
  · exact absurd (unlocked_step hk h hnone) hl
  · -- the counter stays
    have hsame : count t.redis (.loginFail phone) = count s.redis (.loginFail phone) := by
      rcases hc with hc | hnone
      · exact hc
      · have hnone' : s.redis.find (.loginFail phone) = none := by
          by_contra hsome
          exact hk.2 t h hsome hnone
        rw [count_none hnone, count_none hnone']
    rw [hsame]
    rcases hn.waits with hle | ⟨hnone, hleast⟩
    · exact Or.inl hle
    · right
      refine ⟨unlocked_step hk h hnone, hleast.mono (fun i hi => ?_) (by omega)⟩
      rcases uncounted_step h hi with hi' | ⟨err, rfl⟩
      · exact hi'
      · exact absurd hnone (hfail i err rfl hi)

/-- **A timely step that keeps counting keeps the tally.** -/
theorem tallied_step (hsec : 0 < cfg.lockSeconds) (hmax : 1 ≤ cfg.maxFail) {n : ℕ} (hn : Tallied cfg phone n s)
    (ht : Timely cfg phone s e) (hk : KeepsCounting cfg phone s e) (h : step cfg s e = some t) :
    Tallied cfg phone (n + if comparesWrong cfg phone s e then 1 else 0) t := by
  have hbelow := counter_lt hn.counters h ht.healthy hsec hmax hn.below
  by_cases hw : comparesWrong cfg phone s e = true
  · rw [if_pos hw]
    exact tallied_compare hn ht hk h hbelow hw
  · rw [if_neg hw, Nat.add_zero]
    exact tallied_other hsec hn ht hk h hbelow

theorem tallied_run (hsec : 0 < cfg.lockSeconds) (hmax : 1 ≤ cfg.maxFail) {u : State}
    (hu : Tallied cfg phone 0 u) {mid : List Ev} (h : Machine.run (step cfg) u mid = some s)
    (ht : Machine.Meets (step cfg) (Timely cfg phone) u mid)
    (hk : Machine.Meets (step cfg) (KeepsCounting cfg phone) u mid) :
    Tallied cfg phone (Machine.tally (step cfg) (comparesWrong cfg phone) u mid) s := by
  have hrun := Machine.run_trace (I := fun es v => Machine.Meets (step cfg) (Timely cfg phone) u es →
    Machine.Meets (step cfg) (KeepsCounting cfg phone) u es →
    Tallied cfg phone (Machine.tally (step cfg) (comparesWrong cfg phone) u es) v) (fun _ _ => hu) ?_ h
  · exact hrun ht hk
  · intro es v e w hv hI hvw ht hk
    obtain ⟨ht, ht'⟩ := Machine.meets_append ht
    obtain ⟨hk, hk'⟩ := Machine.meets_append hk
    rw [Machine.tally_snoc e hv]
    exact tallied_step hsec hmax (hI ht hk) (ht' v hv).1 (hk' v hv).1 hvw

/-- **The login lock.** In a run whose steps are timely: no step of a login's
success branch is taken while the phone is locked; and from a state without a
counter to the creation of the lock, the counter living on, at most `maxFail` wrong
passwords are compared. -/
theorem login_lock (cfg : Config) (hmax : 1 ≤ cfg.maxFail) (phone : String) (now : ℕ) (users : List User)
    (nextId : Int64) (es : List Ev)
    (ht : Machine.Meets (step cfg) (Timely cfg phone) (.init now users nextId) es) :
    (∀ u e, Machine.Takes (step cfg) (.init now users nextId) es u e → Succeeds cfg phone u e →
        u.redis.find (.loginLock phone) = none) ∧
      ∀ pre mid e post u v, es = pre ++ mid ++ e :: post →
        Machine.run (step cfg) (.init now users nextId) pre = some u → u.redis.find (.loginFail phone) = none →
        Machine.run (step cfg) u mid = some v → Machine.Meets (step cfg) (KeepsCounting cfg phone) u mid →
        CreatesLock cfg phone v e →
        (Machine.tally (step cfg) (comparesWrong cfg phone) u mid : ℤ) ≤ cfg.maxFail := by
  have hinit : SmsService.Counters (State.init now users nextId).redis := Ints.empty now
  have hempty : (State.init now users nextId).redis.find (.loginFail phone) = none := rfl
  constructor
  · -- a login that succeeds is hot, and a locked phone has none
    rintro u e ⟨pre, post, rfl, hpre⟩ hsucc
    have hshut : Shut cfg phone u := (shut_run hinit (fun h => absurd rfl h) (Machine.meets_append ht).1 hpre).2
    by_contra hlock
    obtain ⟨r, hr⟩ := hsucc.hot
    exact hshut hlock r hr
  · rintro pre mid e post u v rfl hpre hfail hmid hk ⟨hnone, w, hvw, hlock⟩
    obtain ⟨htboth, hlast⟩ := Machine.meets_append ht
    obtain ⟨htpre, htmid⟩ := Machine.meets_append htboth
    have hv : Machine.run (step cfg) (.init now users nextId) (pre ++ mid) = some v :=
      Machine.run_append.2 ⟨u, hpre, hmid⟩
    have hcv : SmsService.Counters v.redis := Machine.run_inv (I := fun u => SmsService.Counters u.redis)
      step_counters hinit hv
    -- the lock is created, so it has a time to live
    have hsec : 0 < cfg.lockSeconds := (lock_step hcv hvw (hlast v hv).1.healthy hnone hlock).1
    have hcu : SmsService.Counters u.redis := Machine.run_inv (I := fun u => SmsService.Counters u.redis)
      step_counters hinit hpre
    have hcount : count u.redis (.loginFail phone) = 0 := count_none hfail
    -- without a counter, nothing is tallied
    have hu : Tallied cfg phone 0 u := by
      refine ⟨hcu, ?_, ?_, Or.inl ?_⟩
      · omega
      · push_cast
        omega
      · rw [hcount]
        rfl
    exact (tallied_run hsec hmax hu hmid (htmid u hpre) hk).le

/-! ## Runs -/

/-- A login up to its comparison, and the count of its failure. -/
def loginUpTo (r : ℕ) (password : String) : List Ev :=
  [.login r "13800000000" password, .checkLocked r none, .loginSelect r none, .loginHash r false [] 1700000000]

/-- The right login passes its check, five wrong ones fail one after the other, and
the right one goes on. -/
def overtaken : List Ev :=
  [.login 0 "13800000000" "rightpw", .checkLocked 0 none] ++
    [1, 2, 3, 4, 5].flatMap (fun r => loginUpTo r "wrongpw" ++ [.onFailure r none]) ++ [.loginSelect 0 none]

/-- Six wrong logins are compared, then five of them counted. -/
def overlapping : List Ev :=
  [0, 1, 2, 3, 4, 5].flatMap (fun r => loginUpTo r "wrongpw") ++ [0, 1, 2, 3].map fun r => .onFailure r none

/-- With the default limits and a healthy Redis: a login finds the right password
under a lock, and six wrong passwords are compared before the lock. -/
theorem login_lock_passed :
    (∀ e ∈ overtaken ++ overlapping, e.Healthy) ∧
      (∃ s, Machine.run (step unsignedConfig) (.init 0 [onlyUser] 2) overtaken = some s ∧
        Succeeds unsignedConfig "13800000000" s (.loginHash 0 false [] 1700000000) ∧
        s.redis.find (.loginLock "13800000000") ≠ none) ∧
      ∃ s, Machine.run (step unsignedConfig) (.init 0 [onlyUser] 2) overlapping = some s ∧
        CreatesLock unsignedConfig "13800000000" s (.onFailure 4 none) ∧
        Machine.Meets (step unsignedConfig) (KeepsCounting unsignedConfig "13800000000")
          (.init 0 [onlyUser] 2) overlapping ∧
        Machine.tally (step unsignedConfig) (comparesWrong unsignedConfig "13800000000")
          (.init 0 [onlyUser] 2) overlapping = 6 := by
  refine ⟨by decide +kernel, ?_, ?_⟩
  · have hrun : ((Machine.run (step unsignedConfig) (.init 0 [onlyUser] 2) overtaken).map fun s =>
        ((s.req 0).pc, s.redis.find (.loginLock "13800000000"))) =
        some (.loginHash "13800000000" "rightpw" onlyUser, some ⟨.raw "1", some 600000⟩) := by rfl
    obtain ⟨s, hs, hv⟩ := Option.map_eq_some_iff.1 hrun
    obtain ⟨hpc, hlock⟩ := Prod.mk.inj hv
    refine ⟨s, hs, ⟨rfl, "rightpw", onlyUser, hpc, by decide +kernel⟩, ?_⟩
    rw [hlock]
    exact Option.some_ne_none _
  · have hrun : ((Machine.run (step unsignedConfig) (.init 0 [onlyUser] 2) overlapping).map fun s =>
        decide (CreatesLock unsignedConfig "13800000000" s (.onFailure 4 none))) = some true := by decide +kernel
    obtain ⟨s, hs, hv⟩ := Option.map_eq_some_iff.1 hrun
    exact ⟨s, hs, of_decide_eq_true hv, by decide +kernel, by decide +kernel⟩

/-- What makes a step timely, looked up for the requests `rs`; a lock is not about to
expire. -/
def TimelyAmong (cfg : Config) (phone : String) (rs : List ℕ) (s : State) (e : Ev) : Prop :=
  e.Healthy ∧ (∀ x ∈ s.redis.find (.loginLock phone), ∃ u ∈ x.expireAt, s.redis.now + 500 ≤ u) ∧
    (e.isOnFailure = true → s.redis.find (.loginLock phone) = none →
      cfg.maxFail ≤ count s.redis (.loginFail phone) + 1 → ∀ r ∈ rs, ¬Hot cfg phone s (s.req r)) ∧
    (comparesWrong cfg phone s e = true → s.redis.find (.loginLock phone) = none ∧
      ((rs.filter fun r => Uncounted phone s r).length : ℤ) ≤
        cfg.maxFail - count s.redis (.loginFail phone) - 1)

instance (rs : List ℕ) : DecidableRel (TimelyAmong cfg phone rs) := fun _ e =>
  inferInstanceAs (Decidable (e.Healthy ∧ _ ∧ (_ → _ → _ ≤ _ → ∀ r ∈ rs, ¬_) ∧ (_ → _ ∧ _ ≤ _)))

/-- A request that was never called is not on its way. -/
theorem among_hot {rs : List ℕ} (hs : Among rs s) {r : ℕ} (hr : Hot cfg phone s (s.req r)) : r ∈ rs := by
  by_contra hnot
  rw [hs r hnot] at hr
  exact hr.elim (fun h => by cases h) id

theorem timely_among {rs : List ℕ} (hs : Among rs s) (h : TimelyAmong cfg phone rs s e) : Timely cfg phone s e where
  healthy := h.1
  check _ _ _ _ _ x hx := by
    obtain ⟨u, hu, hle⟩ := h.2.1 x hx
    exact ⟨u, hu, hle⟩
  lock r err heq _ hnone hmax _ r' hhot := by
    subst heq
    exact h.2.2.1 rfl hnone hmax r' (among_hot hs hhot) hhot
  compare hw := by
    obtain ⟨hnone, hroom⟩ := h.2.2.2 hw
    refine ⟨hnone, fun _ => AtMost.of_list (fun r hr => ?_) hroom⟩
    refine List.mem_filter.2 ⟨?_, decide_eq_true hr⟩
    by_contra hnot
    unfold Uncounted at hr
    rw [hs r hnot] at hr
    cases hr

/-- A login with the right password, after its comparison. -/
def letIn (r : ℕ) : List Ev := [.onSuccess r none, .save r none, .saved r]

/-- Five wrong logins, some of them at the same time; the last one is not counted yet. -/
def fiveWrong : List Ev :=
  [1, 2].flatMap (fun r => loginUpTo r "wrongpw") ++ [.onFailure 1 none, .onFailure 2 none, .wait 1000] ++
    [3, 4, 5].flatMap (fun r => loginUpTo r "wrongpw") ++ [.onFailure 3 none, .onFailure 4 none]

/-- After the lock: the right password while it lasts, and once more later. -/
def afterLock : List Ev :=
  [.login 6 "13800000000" "rightpw", .checkLocked 6 none, .wait 600001] ++ loginUpTo 7 "rightpw" ++ letIn 7

/-- The phone's owner, five wrong logins, the lock, and the owner again. -/
def lockRun : List Ev := loginUpTo 0 "rightpw" ++ letIn 0 ++ fiveWrong ++ .onFailure 5 none :: afterLock

theorem lockRun_timely : Machine.Meets (step unsignedConfig) (Timely unsignedConfig "13800000000")
    (.init 0 [onlyUser] 2) lockRun :=
  meets_among (List.range 8) (by decide) (fun _ _ => timely_among) (by decide +kernel)

/-- The lock comes after five comparisons, and the owner is let in before and after it. -/
theorem login_lock_five :
    (∀ u e, Machine.Takes (step unsignedConfig) (.init 0 [onlyUser] 2) lockRun u e →
      Succeeds unsignedConfig "13800000000" u e → u.redis.find (.loginLock "13800000000") = none) ∧
    (∃ s, Machine.run (step unsignedConfig) (.init 0 [onlyUser] 2) lockRun = some s ∧
      (s.req 6).answer = some (.login false [] "ACCOUNT_LOCKED:600") ∧ (s.req 7).answer.isSome = true) ∧
    ∃ u v, Machine.run (step unsignedConfig) (.init 0 [onlyUser] 2) (loginUpTo 0 "rightpw" ++ letIn 0) = some u ∧
      Machine.run (step unsignedConfig) u fiveWrong = some v ∧
      CreatesLock unsignedConfig "13800000000" v (.onFailure 5 none) ∧
      Machine.tally (step unsignedConfig) (comparesWrong unsignedConfig "13800000000") u fiveWrong = 5 ∧
      (Machine.tally (step unsignedConfig) (comparesWrong unsignedConfig "13800000000") u fiveWrong : ℤ) ≤
        unsignedConfig.maxFail := by
  obtain ⟨hopen, hle⟩ := login_lock unsignedConfig (by decide) "13800000000" 0 [onlyUser] 2 lockRun lockRun_timely
  have hall : ((Machine.run (step unsignedConfig) (.init 0 [onlyUser] 2) lockRun).map fun s =>
      ((s.req 6).answer, (s.req 7).answer.isSome)) = some (some (.login false [] "ACCOUNT_LOCKED:600"), true) := by
    decide +kernel
  obtain ⟨s, hs, hanswers⟩ := Option.map_eq_some_iff.1 hall
  have hbefore : ((Machine.run (step unsignedConfig) (.init 0 [onlyUser] 2) (loginUpTo 0 "rightpw" ++ letIn 0)).map
      fun u => (u.redis.find (.loginFail "13800000000"),
        Machine.tally (step unsignedConfig) (comparesWrong unsignedConfig "13800000000") u fiveWrong,
        decide (Machine.Meets (step unsignedConfig) (KeepsCounting unsignedConfig "13800000000") u fiveWrong),
        (Machine.run (step unsignedConfig) u fiveWrong).map fun v =>
          decide (CreatesLock unsignedConfig "13800000000" v (.onFailure 5 none)))) =
      some (none, 5, true, some true) := by decide +kernel
  obtain ⟨u, hu, hfacts⟩ := Option.map_eq_some_iff.1 hbefore
  simp only [Prod.mk.injEq, decide_eq_true_eq] at hfacts
  obtain ⟨hnone, htally, hkeeps, hv⟩ := hfacts
  obtain ⟨v, hv, hlock⟩ := Option.map_eq_some_iff.1 hv
  have hlock := of_decide_eq_true hlock
  exact ⟨hopen, ⟨s, hs, Prod.mk.inj hanswers⟩, u, v, hu, hv, hlock, htally,
    hle _ fiveWrong _ afterLock u v rfl hu hnone hv hkeeps hlock⟩

end Seckill.UserService
