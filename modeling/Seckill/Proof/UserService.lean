import Seckill.Proof.LoginGuard
import Seckill.Proof.Sms
import Seckill.Spec.UserService

/-!
# What every step of a login, registration, logout or authentication does

One lemma a step (`*_cases`): which operation the request waited for, and what it
waits for or was answered afterwards. `step_does` says the same of Redis: a step
writes the keys of its command (`Ev.writes`), and nothing else:

* `step_frame`: the entry under any other key stays, `find_step` with time passing;
* `step_counters`: the counters stay integers.
-/

namespace Seckill.UserService

open Redis

variable {cfg : Config} {s t : State} {r : ℕ} {err : Option String}

@[simp] theorem State.set_req (s : State) (r r' : ℕ) (q : Req) :
    (s.set r q).req r' = if r' = r then q else s.req r' := by
  simp only [State.set, Function.update_apply]

@[simp] theorem State.set_redis (s : State) (r : ℕ) (q : Req) : (s.set r q).redis = s.redis := rfl

@[simp] theorem State.set_users (s : State) (r : ℕ) (q : Req) : (s.set r q).users = s.users := rfl

/-- A command that fails has no effect. -/
theorem exec_does {α : Type} {R : Store Key → Store Key → Prop} [IsPreorder (Store Key) R] {x : Script Key α}
    (h : x.Does R) (err : Option String) (s : Store Key) : R s (exec err x s).2 := by
  cases err with
  | some what => exact refl_of R s
  | none => exact h s

/-! ## Login -/

theorem loginStep_cases {phone password : String} (h : loginStep s r phone password = some t) :
    (s.req r).pc = .idle ∧
      (SmsService.isValidPhone phone = true ∧ t = s.set r ((s.req r).at (.loginCheck phone password)) ∨
        SmsService.isValidPhone phone = false ∧ t = s.set r ((s.req r).finish (.login false [] "INVALID_PHONE"))) := by
  unfold loginStep at h
  split at h
  · rename_i hpc
    refine ⟨hpc, ?_⟩
    split at h
    · rename_i hp
      exact Or.inr ⟨by simpa using hp, (Option.some.inj h).symm⟩
    · rename_i hp
      exact Or.inl ⟨by simpa using hp, (Option.some.inj h).symm⟩
  · cases h

theorem checkLockedStep_cases (h : checkLockedStep s r err = some t) :
    ∃ phone password, (s.req r).pc = .loginCheck phone password ∧
      ∃ p, p = exec err (LoginGuard.kCheckScript (.loginLock phone)) s.redis ∧
        (LoginGuard.onCheck p.1 = none ∧
            t = { s with redis := p.2 }.set r ((s.req r).at (.loginSelect phone password)) ∨
          ∃ remain, LoginGuard.onCheck p.1 = some remain ∧ t = { s with redis := p.2 }.set r
            ((s.req r).finish (.login false [] ("ACCOUNT_LOCKED:" ++ toString remain)))) := by
  unfold checkLockedStep at h
  split at h
  · rename_i phone password hpc
    refine ⟨phone, password, hpc, _, rfl, ?_⟩
    have ht := (Option.some.inj h).symm
    split at ht
    · rename_i remain hr
      exact Or.inr ⟨remain, hr, ht⟩
    · rename_i hr
      exact Or.inl ⟨hr, ht⟩
  · cases h

theorem loginSelectStep_cases (h : loginSelectStep s r err = some t) :
    ∃ phone password, (s.req r).pc = .loginSelect phone password ∧
      ((∃ msg, ((∃ what, err = some what ∧ msg = "DB_ERROR:" ++ what) ∨
            err = none ∧ (∃ user, s.userOf phone = some user ∧ user.status ≠ 1) ∧ msg = "ACCOUNT_DISABLED") ∧
          t = s.set r ((s.req r).finish (.login false [] msg))) ∨
        err = none ∧ s.userOf phone = none ∧ t = s.set r ((s.req r).at (.loginUnknown phone)) ∨
        err = none ∧ ∃ user, s.userOf phone = some user ∧ user.status = 1 ∧
          t = s.set r ((s.req r).at (.loginHash phone password user))) := by
  unfold loginSelectStep at h
  split at h
  · rename_i phone password hpc
    refine ⟨phone, password, hpc, ?_⟩
    split at h
    · rename_i what
      exact Or.inl ⟨_, Or.inl ⟨what, rfl, rfl⟩, (Option.some.inj h).symm⟩
    · split at h
      · rename_i hu
        exact Or.inr (Or.inl ⟨rfl, hu, (Option.some.inj h).symm⟩)
      · rename_i user hu
        split at h
        · rename_i hstatus
          exact Or.inl ⟨_, Or.inr ⟨rfl, ⟨user, hu, hstatus⟩, rfl⟩, (Option.some.inj h).symm⟩
        · rename_i hstatus
          exact Or.inr (Or.inr ⟨rfl, user, hu, by simpa using hstatus, (Option.some.inj h).symm⟩)
  · cases h

/-- What comparing a password with a row gives; `none` when there is no hash to compare. -/
def Config.verdict (cfg : Config) (password : String) (user : User) : Option Bool :=
  if cfg.pbkdf2Hex password user.salt = [] then none
  else some (constantTimeEquals (cfg.pbkdf2Hex password user.salt) user.passwordHash)

theorem loginHashStep_cases {fails : Bool} {jti : Bytes} {clock : ℤ}
    (h : loginHashStep cfg s r fails jti clock = some t) :
    ∃ phone password user, (s.req r).pc = .loginHash phone password user ∧
      ((fails = true ∨ cfg.verdict password user = none) ∧
          t = s.set r ((s.req r).finish (.login false [] "HASH_FAILED")) ∨
        fails = false ∧ cfg.verdict password user = some false ∧ t = s.set r ((s.req r).at (.loginWrong phone)) ∨
        fails = false ∧ cfg.verdict password user = some true ∧ t = s.set r ⟨.loginSave phone user.id jti
          (cfg.jwt.sign user.id jti 0 clock), some phone, (s.req r).answer⟩) := by
  unfold loginHashStep at h
  split at h
  · rename_i phone password user hpc
    refine ⟨phone, password, user, hpc, ?_⟩
    cases fails with
    | true => exact Or.inl ⟨Or.inl rfl, (Option.some.inj h).symm⟩
    | false =>
      simp only [Bool.false_eq_true, if_false] at h
      unfold Config.verdict
      split at h
      · rename_i hnone
        exact Or.inl ⟨Or.inr (if_pos hnone), (Option.some.inj h).symm⟩
      · rename_i hsome
        rw [if_neg hsome]
        split at h
        · rename_i heq
          exact Or.inr (Or.inl ⟨rfl, by simpa using heq, (Option.some.inj h).symm⟩)
        · rename_i heq
          exact Or.inr (Or.inr ⟨rfl, by simpa using heq, (Option.some.inj h).symm⟩)
  · cases h

/-- The script of `onFailure`. -/
def failScript (cfg : Config) (phone : String) : Script Key (ℤ × ℤ) :=
  LoginGuard.kOnFailureScript (.loginLock phone) (.loginFail phone) cfg.maxFail cfg.lockSeconds

theorem onFailureStep_cases (h : onFailureStep cfg s r err = some t) :
    ∃ phone msg, ((s.req r).pc = .loginUnknown phone ∧ msg = "USER_NOT_FOUND" ∨
        (s.req r).pc = .loginWrong phone ∧
          msg = failMsg (LoginGuard.onReply (exec err (failScript cfg phone) s.redis).1)) ∧
      t = { s with redis := (exec err (failScript cfg phone) s.redis).2 }.set r
        ((s.req r).finish (.login false [] msg)) := by
  unfold onFailureStep at h
  simp only at h
  split at h
  · rename_i phone hpc
    exact ⟨phone, _, Or.inl ⟨hpc, rfl⟩, (Option.some.inj h).symm⟩
  · rename_i phone hpc
    exact ⟨phone, _, Or.inr ⟨hpc, rfl⟩, (Option.some.inj h).symm⟩
  · cases h

theorem onSuccessStep_cases (h : onSuccessStep s r err = some t) :
    ∃ phone, (s.req r).reset = some phone ∧
      t = { s with redis := (exec err (del (.loginFail phone)) s.redis).2 }.set r
        { (s.req r) with reset := none } := by
  unfold onSuccessStep at h
  obtain ⟨phone, hr, ht⟩ := Option.map_eq_some_iff.1 h
  exact ⟨phone, hr, ht.symm⟩

theorem saveStep_cases (h : saveStep cfg s r err = some t) :
    ∃ phone userId jti token, (s.req r).pc = .loginSave phone userId jti token ∧
      ∃ p, p = exec err (SessionStore.save jti cfg.sessionTtl userId) s.redis ∧
        t = { s with redis := p.2 }.set r ((s.req r).at (.loginSaved phone token p.1.toBool)) := by
  unfold saveStep at h
  split at h
  · rename_i phone userId jti token hpc
    exact ⟨phone, userId, jti, token, hpc, _, rfl, (Option.some.inj h).symm⟩
  · cases h

theorem savedStep_cases (h : savedStep s r = some t) :
    ∃ phone token ok, (s.req r).pc = .loginSaved phone token ok ∧
      t = s.set r ((s.req r).finish
        (if ok then .login true token "OK" else .login false [] "REDIS_ERROR:session save failed")) := by
  unfold savedStep at h
  split at h
  · rename_i phone token ok hpc
    exact ⟨phone, token, ok, hpc, (Option.some.inj h).symm⟩
  · cases h

/-! ## Registration -/

theorem registerUserStep_cases {phone password code ip : String}
    (h : registerUserStep s r phone password code ip = some t) :
    (s.req r).pc = .idle ∧ t = s.set r ((s.req r).at (.regCheck phone password code ip)) := by
  unfold registerUserStep at h
  split at h
  · rename_i hpc
    exact ⟨hpc, (Option.some.inj h).symm⟩
  · cases h

theorem regCheckStep_cases (h : regCheckStep cfg s r err = some t) :
    ∃ phone password code ip, (s.req r).pc = .regCheck phone password code ip ∧
      ∃ p, p = exec err (RegisterGuard.kCheckScript (.regIp ip) cfg.maxPerIp) s.redis ∧
        ((∃ msg, (RegisterGuard.onCheck p.1 = false ∧ msg = "REGISTER_IP_LIMITED" ∨
              SmsService.isValidPhone phone = false ∧ msg = "INVALID_PHONE" ∨
              password.utf8ByteSize < cfg.minPasswordLength ∧ msg = "WEAK_PASSWORD") ∧
            t = { s with redis := p.2 }.set r ((s.req r).finish (.register false msg))) ∨
          RegisterGuard.onCheck p.1 = true ∧ SmsService.isValidPhone phone = true ∧
            (t = { s with redis := p.2 }.set r ((s.req r).at (.regVerify phone password code ip)) ∨
              cfg.requireSmsOnRegister = false ∧
                t = { s with redis := p.2 }.set r ((s.req r).at (.regSelect phone password ip)))) := by
  unfold regCheckStep at h
  split at h
  · rename_i phone password code ip hpc
    refine ⟨phone, password, code, ip, hpc, _, rfl, ?_⟩
    have ht := (Option.some.inj h).symm
    split at ht
    · rename_i hcheck
      exact Or.inl ⟨_, Or.inl ⟨by simpa using hcheck, rfl⟩, ht⟩
    · rename_i hcheck
      split at ht
      · rename_i hphone
        exact Or.inl ⟨_, Or.inr (Or.inl ⟨by simpa using hphone, rfl⟩), ht⟩
      · rename_i hphone
        split at ht
        · rename_i hweak
          exact Or.inl ⟨_, Or.inr (Or.inr ⟨hweak, rfl⟩), ht⟩
        · refine Or.inr ⟨by simpa using hcheck, by simpa using hphone, ?_⟩
          split at ht
          · exact Or.inl ht
          · rename_i hsms
            exact Or.inr ⟨by simpa using hsms, ht⟩
  · cases h

theorem regVerifyStep_cases (h : regVerifyStep cfg s r err = some t) :
    ∃ phone password code ip, (s.req r).pc = .regVerify phone password code ip ∧
      ∃ p, p = exec err (SmsService.verifyScript cfg.sms phone code) s.redis ∧
        ((∃ msg, verifyMsg (SmsService.onVerify p.1) = some msg ∧
            t = { s with redis := p.2 }.set r ((s.req r).finish (.register false msg))) ∨
          SmsService.onVerify p.1 = .ok ∧
            t = { s with redis := p.2 }.set r ((s.req r).at (.regSelect phone password ip))) := by
  unfold regVerifyStep at h
  split at h
  · rename_i phone password code ip hpc
    refine ⟨phone, password, code, ip, hpc, _, rfl, ?_⟩
    have ht := (Option.some.inj h).symm
    split at ht
    · rename_i msg hmsg
      exact Or.inl ⟨msg, hmsg, ht⟩
    · rename_i hmsg
      refine Or.inr ⟨?_, ht⟩
      unfold verifyMsg at hmsg
      split at hmsg
      · rename_i hok; exact hok
      all_goals cases hmsg
  · cases h

theorem regSelectStep_cases {salt : Bytes} (h : regSelectStep s r err salt = some t) :
    ∃ phone password ip, (s.req r).pc = .regSelect phone password ip ∧
      ((∃ msg, ((∃ what, err = some what ∧ msg = "DB_ERROR:" ++ what) ∨
            err = none ∧ (s.userOf phone).isSome = true ∧ msg = "PHONE_REGISTERED" ∨ msg = "HASH_FAILED") ∧
          t = s.set r ((s.req r).finish (.register false msg))) ∨
        s.userOf phone = none ∧ salt ≠ [] ∧ t = s.set r ((s.req r).at (.regHash phone password ip salt))) := by
  unfold regSelectStep at h
  split at h
  · rename_i phone password ip hpc
    refine ⟨phone, password, ip, hpc, ?_⟩
    have ht := (Option.some.inj h).symm
    split at ht
    · rename_i what
      exact Or.inl ⟨_, Or.inl ⟨what, rfl, rfl⟩, ht⟩
    · split at ht
      · rename_i hu
        exact Or.inl ⟨_, Or.inr (Or.inl ⟨rfl, hu, rfl⟩), ht⟩
      · rename_i hu
        split at ht
        · exact Or.inl ⟨_, Or.inr (Or.inr rfl), ht⟩
        · rename_i hsalt
          exact Or.inr ⟨by simpa using hu, hsalt, ht⟩
  · cases h

theorem regHashStep_cases {fails : Bool} (h : regHashStep cfg s r fails = some t) :
    ∃ phone password ip salt, (s.req r).pc = .regHash phone password ip salt ∧
      (t = s.set r ((s.req r).finish (.register false "HASH_FAILED")) ∨
        ∃ hash, hash ≠ [] ∧ t = s.set r ((s.req r).at (.regInsert phone ip hash salt))) := by
  unfold regHashStep at h
  split at h
  · rename_i phone password ip salt hpc
    refine ⟨phone, password, ip, salt, hpc, ?_⟩
    simp only at h
    generalize (if fails = true then [] else cfg.pbkdf2Hex password salt) = hash at h
    split at h
    · exact Or.inl (Option.some.inj h).symm
    · rename_i hne
      exact Or.inr ⟨_, hne, (Option.some.inj h).symm⟩
  · cases h

/-- The row of a new account. -/
def State.newUser (s : State) (phone : String) (hash salt : Bytes) : User := ⟨s.nextId, phone, hash, salt, 1⟩

theorem regInsertStep_cases (h : regInsertStep s r err = some t) :
    ∃ phone ip hash salt, (s.req r).pc = .regInsert phone ip hash salt ∧
      ((∃ what, (err = some what ∨ err = none ∧ (s.userOf phone).isSome = true ∧ what = duplicateEntry phone) ∧
          t = s.set r ((s.req r).finish (.register false (insertMsg what)))) ∨
        err = none ∧ s.userOf phone = none ∧
          t = { s with users := s.users ++ [s.newUser phone hash salt], nextId := s.nextId + 1 }.set r
            ⟨.regMark ip s.users.length, (s.req r).reset, some (.register true "OK")⟩) := by
  unfold regInsertStep at h
  split at h
  · rename_i phone ip hash salt hpc
    refine ⟨phone, ip, hash, salt, hpc, ?_⟩
    split at h
    · rename_i what
      exact Or.inl ⟨what, Or.inl rfl, (Option.some.inj h).symm⟩
    · split at h
      · rename_i hu
        exact Or.inl ⟨_, Or.inr ⟨rfl, hu, rfl⟩, (Option.some.inj h).symm⟩
      · rename_i hu
        exact Or.inr ⟨rfl, by simpa using hu, (Option.some.inj h).symm⟩
  · cases h

/-- The script of `markSuccess`. -/
def markScript (cfg : Config) (ip : String) : Script Key ℤ :=
  RegisterGuard.kMarkScript (.regIp ip) cfg.windowSeconds

theorem markSuccessStep_cases (h : markSuccessStep cfg s r err = some t) :
    ∃ ip row, (s.req r).pc = .regMark ip row ∧
      t = { s with redis := (exec err (markScript cfg ip) s.redis).2 }.set r
        ((s.req r).at (.regMarked ip row)) := by
  unfold markSuccessStep at h
  split at h
  · rename_i ip row hpc
    exact ⟨ip, row, hpc, (Option.some.inj h).symm⟩
  · cases h

/-! ## Sessions -/

/-- An answer that promises nothing: no token, no closed session, no user. -/
def Answer.Plain : Answer → Prop
  | .login ok _ _ | .logout ok _ => ok = false
  | .register ok _ => ok = false
  | .authenticate userId => userId = 0
  | .threw => True

theorem logoutStep_cases {token : Bytes} {clock : ℤ} (h : logoutStep cfg s r token clock = some t) :
    (s.req r).pc = .idle ∧
      ((∃ a, (a = .threw ∨ a = .logout false "TOKEN_INVALID") ∧ t = s.set r ((s.req r).finish a)) ∨
        ∃ claims, cfg.jwt.verify token 0 clock = .ok (some claims) ∧
          t = s.set r ((s.req r).at (.logoutRevoke claims.jti))) := by
  unfold logoutStep at h
  split at h
  · rename_i hpc
    refine ⟨hpc, ?_⟩
    have ht := (Option.some.inj h).symm
    split at ht
    · exact Or.inl ⟨_, Or.inl rfl, ht⟩
    · exact Or.inl ⟨_, Or.inr rfl, ht⟩
    · rename_i claims hv
      exact Or.inr ⟨claims, hv, ht⟩
  · cases h

theorem revokeStep_cases (h : revokeStep s r err = some t) :
    ∃ jti, (s.req r).pc = .logoutRevoke jti ∧
      ∃ p, p = exec err (del (.sess jti)) s.redis ∧
        t = { s with redis := p.2 }.set r ((s.req r).finish
          (.logout true (if SessionStore.onReply p.1 then "OK" else "ALREADY_LOGGED_OUT"))) := by
  unfold revokeStep at h
  split at h
  · rename_i jti hpc
    exact ⟨jti, hpc, _, rfl, (Option.some.inj h).symm⟩
  · cases h

theorem authenticateStep_cases {token : Bytes} {clock : ℤ} (h : authenticateStep cfg s r token clock = some t) :
    (s.req r).pc = .idle ∧
      ((∃ what, cfg.jwt.verify token 0 clock = .error what ∧ t = s.set r ((s.req r).finish .threw)) ∨
        cfg.jwt.verify token 0 clock = .ok none ∧ t = s.set r ((s.req r).finish (.authenticate 0)) ∨
        ∃ claims, cfg.jwt.verify token 0 clock = .ok (some claims) ∧
          t = s.set r ((s.req r).at (.authExists claims.jti claims.userId))) := by
  unfold authenticateStep at h
  split at h
  · rename_i hpc
    refine ⟨hpc, ?_⟩
    have ht := (Option.some.inj h).symm
    split at ht
    · rename_i what hv
      exact Or.inl ⟨what, hv, ht⟩
    · rename_i hv
      exact Or.inr (Or.inl ⟨hv, ht⟩)
    · rename_i claims hv
      exact Or.inr (Or.inr ⟨claims, hv, ht⟩)
  · cases h

theorem existsStep_cases (h : existsStep s r err = some t) :
    ∃ jti userId, (s.req r).pc = .authExists jti userId ∧
      ∃ p, p = exec err (exists_ (.sess jti)) s.redis ∧
        t = { s with redis := p.2 }.set r ((s.req r).finish
          (.authenticate (if SessionStore.onReply p.1 then userId else 0))) := by
  unfold existsStep at h
  split at h
  · rename_i jti userId hpc
    exact ⟨jti, userId, hpc, _, rfl, (Option.some.inj h).symm⟩
  · cases h

/-! ## What a step does to a request -/

/-- The event is one that a request `r` at this point waits for (those that can end it). -/
def Ev.Ends (r : ℕ) : Ev → Pc → Prop
  | .login r' _ _, .idle | .logout r' _ _, .idle | .authenticate r' _ _, .idle => r' = r
  | .checkLocked r' _, .loginCheck _ _ => r' = r
  | .loginSelect r' _, .loginSelect _ _ => r' = r
  | .loginHash r' _ _ _, .loginHash _ _ _ => r' = r
  | .onFailure r' _, .loginUnknown _ | .onFailure r' _, .loginWrong _ => r' = r
  | .saved r', .loginSaved _ _ _ => r' = r
  | .regCheck r' _, .regCheck _ _ _ _ => r' = r
  | .regVerify r' _, .regVerify _ _ _ _ => r' = r
  | .regSelect r' _ _, .regSelect _ _ _ => r' = r
  | .regHash r' _, .regHash _ _ _ _ => r' = r
  | .regInsert r' _, .regInsert _ _ _ _ => r' = r
  | _, _ => False

/-- `Move cfg s r e q`: event `e` in state `s` makes `q` of the request `r`. -/
inductive Move (cfg : Config) (s : State) (r : ℕ) : Ev → Req → Prop
  | stop {e : Ev} (a : Answer) (ha : a.Plain) (hpc : e.Ends r (s.req r).pc) : Move cfg s r e ((s.req r).finish a)
  | check {phone password : String} (hpc : (s.req r).pc = .idle) :
    Move cfg s r (.login r phone password) ((s.req r).at (.loginCheck phone password))
  | pass {err : Option String} {phone password : String} (hpc : (s.req r).pc = .loginCheck phone password)
      (hcheck : LoginGuard.onCheck (exec err (LoginGuard.kCheckScript (.loginLock phone)) s.redis).1 = none) :
    Move cfg s r (.checkLocked r err) ((s.req r).at (.loginSelect phone password))
  | unknown {phone password : String} (hpc : (s.req r).pc = .loginSelect phone password)
      (huser : s.userOf phone = none) :
    Move cfg s r (.loginSelect r none) ((s.req r).at (.loginUnknown phone))
  | found {phone password : String} {user : User} (hpc : (s.req r).pc = .loginSelect phone password)
      (huser : s.userOf phone = some user) (hstatus : user.status = 1) :
    Move cfg s r (.loginSelect r none) ((s.req r).at (.loginHash phone password user))
  | wrong {jti : Bytes} {clock : ℤ} {phone password : String} {user : User}
      (hpc : (s.req r).pc = .loginHash phone password user) (hv : cfg.verdict password user = some false) :
    Move cfg s r (.loginHash r false jti clock) ((s.req r).at (.loginWrong phone))
  | right {jti : Bytes} {clock : ℤ} {phone password : String} {user : User}
      (hpc : (s.req r).pc = .loginHash phone password user) (hv : cfg.verdict password user = some true) :
    Move cfg s r (.loginHash r false jti clock)
      ⟨.loginSave phone user.id jti (cfg.jwt.sign user.id jti 0 clock), some phone, (s.req r).answer⟩
  | reset {err : Option String} {phone : String} (hreset : (s.req r).reset = some phone) :
    Move cfg s r (.onSuccess r err) { (s.req r) with reset := none }
  | save {err : Option String} {phone : String} {userId : Int64} {jti token : Bytes}
      (hpc : (s.req r).pc = .loginSave phone userId jti token) :
    Move cfg s r (.save r err) ((s.req r).at (.loginSaved phone token
      (exec err (SessionStore.save jti cfg.sessionTtl userId) s.redis).1.toBool))
  | token {phone : String} {token : Bytes} (hpc : (s.req r).pc = .loginSaved phone token true) :
    Move cfg s r (.saved r) ((s.req r).finish (.login true token "OK"))
  | regCheck {phone password code ip : String} (hpc : (s.req r).pc = .idle) :
    Move cfg s r (.registerUser r phone password code ip) ((s.req r).at (.regCheck phone password code ip))
  | regVerify {err : Option String} {phone password code ip : String}
      (hpc : (s.req r).pc = .regCheck phone password code ip)
      (hcheck : RegisterGuard.onCheck (exec err (RegisterGuard.kCheckScript (.regIp ip) cfg.maxPerIp) s.redis).1 = true) :
    Move cfg s r (.regCheck r err) ((s.req r).at (.regVerify phone password code ip))
  | regUnverified {err : Option String} {phone password code ip : String}
      (hpc : (s.req r).pc = .regCheck phone password code ip)
      (hcheck : RegisterGuard.onCheck (exec err (RegisterGuard.kCheckScript (.regIp ip) cfg.maxPerIp) s.redis).1 = true) :
    Move cfg s r (.regCheck r err) ((s.req r).at (.regSelect phone password ip))
  | regVerified {err : Option String} {phone password code ip : String}
      (hpc : (s.req r).pc = .regVerify phone password code ip) :
    Move cfg s r (.regVerify r err) ((s.req r).at (.regSelect phone password ip))
  | regHash {err : Option String} {salt : Bytes} {phone password ip : String}
      (hpc : (s.req r).pc = .regSelect phone password ip) :
    Move cfg s r (.regSelect r err salt) ((s.req r).at (.regHash phone password ip salt))
  | regInsert {fails : Bool} {phone password ip : String} {salt : Bytes} (hash : Bytes)
      (hpc : (s.req r).pc = .regHash phone password ip salt) :
    Move cfg s r (.regHash r fails) ((s.req r).at (.regInsert phone ip hash salt))
  | created {phone ip : String} {hash salt : Bytes} (hpc : (s.req r).pc = .regInsert phone ip hash salt)
      (huser : s.userOf phone = none) :
    Move cfg s r (.regInsert r none) ⟨.regMark ip s.users.length, (s.req r).reset, some (.register true "OK")⟩
  | marked {err : Option String} {ip : String} {row : ℕ} (hpc : (s.req r).pc = .regMark ip row) :
    Move cfg s r (.markSuccess r err) ((s.req r).at (.regMarked ip row))
  | logout {token : Bytes} {clock : ℤ} {claims : JwtClaims} (hpc : (s.req r).pc = .idle)
      (hv : cfg.jwt.verify token 0 clock = .ok (some claims)) :
    Move cfg s r (.logout r token clock) ((s.req r).at (.logoutRevoke claims.jti))
  | revoked {err : Option String} {jti : Bytes} (msg : String) (hpc : (s.req r).pc = .logoutRevoke jti) :
    Move cfg s r (.revoke r err) ((s.req r).finish (.logout true msg))
  | authenticate {token : Bytes} {clock : ℤ} {claims : JwtClaims} (hpc : (s.req r).pc = .idle)
      (hv : cfg.jwt.verify token 0 clock = .ok (some claims)) :
    Move cfg s r (.authenticate r token clock) ((s.req r).at (.authExists claims.jti claims.userId))
  | authenticated {err : Option String} {jti : Bytes} {userId : Int64} (hpc : (s.req r).pc = .authExists jti userId) :
    Move cfg s r (.sessionExists r err) ((s.req r).finish
      (.authenticate (if SessionStore.onReply (exec err (exists_ (.sess jti)) s.redis).1 then userId else 0)))

/-- What a step does to the requests, nothing or one move, and to the table. -/
structure Effect (cfg : Config) (s : State) (e : Ev) (t : State) : Prop where
  req : ∀ r, t.req r = s.req r ∨ Move cfg s r e (t.req r)
  users : s.users <+: t.users

theorem Move.effect {e : Ev} {q : Req} (hq : Move cfg s r e q) {u : State} (hu : u.req = s.req)
    (husers : s.users <+: u.users) : Effect cfg s e (u.set r q) := by
  refine ⟨fun r' => ?_, husers⟩
  rw [State.set_req]
  by_cases hr : r' = r
  · rw [if_pos hr, hr]
    exact Or.inr hq
  · rw [if_neg hr, hu]
    exact Or.inl rfl

theorem effect_stop {e : Ev} (a : Answer) (ha : a.Plain) {p : Pc} (hpc : (s.req r).pc = p) (he : e.Ends r p)
    {u : State} (hu : u.req = s.req) (husers : s.users <+: u.users) :
    Effect cfg s e (u.set r ((s.req r).finish a)) := by
  have hends : e.Ends r (s.req r).pc := by
    rw [hpc]
    exact he
  exact (Move.stop a ha hends).effect hu husers

/-- **What a step does.** -/
theorem step_effect {e : Ev} (h : step cfg s e = some t) : Effect cfg s e t := by
  have hrfl : s.users <+: s.users := List.prefix_rfl
  cases e with
  | login r phone password =>
    obtain ⟨hpc, ⟨-, rfl⟩ | ⟨-, rfl⟩⟩ := loginStep_cases h
    · exact (Move.check hpc).effect rfl hrfl
    · exact effect_stop (.login false [] _) rfl hpc (by exact rfl) rfl hrfl
  | checkLocked r err =>
    obtain ⟨phone, password, hpc, p, rfl, ⟨hcheck, rfl⟩ | ⟨remain, -, rfl⟩⟩ := checkLockedStep_cases h
    · exact (Move.pass hpc hcheck).effect rfl hrfl
    · exact effect_stop (.login false [] _) rfl hpc (by exact rfl) rfl hrfl
  | loginSelect r err =>
    obtain ⟨phone, password, hpc, ⟨msg, -, rfl⟩ | ⟨rfl, hu, rfl⟩ | ⟨rfl, user, hu, hstatus, rfl⟩⟩ := loginSelectStep_cases h
    · exact effect_stop (.login false [] _) rfl hpc (by exact rfl) rfl hrfl
    · exact (Move.unknown hpc hu).effect rfl hrfl
    · exact (Move.found hpc hu hstatus).effect rfl hrfl
  | loginHash r fails jti clock =>
    obtain ⟨phone, password, user, hpc, ⟨-, rfl⟩ | ⟨rfl, hv, rfl⟩ | ⟨rfl, hv, rfl⟩⟩ := loginHashStep_cases h
    · exact effect_stop (.login false [] _) rfl hpc (by exact rfl) rfl hrfl
    · exact (Move.wrong hpc hv).effect rfl hrfl
    · exact (Move.right hpc hv).effect rfl hrfl
  | onFailure r err =>
    obtain ⟨phone, msg, ⟨hpc, -⟩ | ⟨hpc, -⟩, rfl⟩ := onFailureStep_cases h
    · exact effect_stop (.login false [] _) rfl hpc (by exact rfl) rfl hrfl
    · exact effect_stop (.login false [] _) rfl hpc (by exact rfl) rfl hrfl
  | onSuccess r err =>
    obtain ⟨phone, hreset, rfl⟩ := onSuccessStep_cases h
    exact (Move.reset hreset).effect rfl hrfl
  | save r err =>
    obtain ⟨phone, userId, jti, token, hpc, p, rfl, rfl⟩ := saveStep_cases h
    exact (Move.save hpc).effect rfl hrfl
  | saved r =>
    obtain ⟨phone, token, ok, hpc, rfl⟩ := savedStep_cases h
    cases ok with
    | true => exact (Move.token hpc).effect rfl hrfl
    | false => exact effect_stop (.login false [] _) rfl hpc (by exact rfl) rfl hrfl
  | registerUser r phone password code ip =>
    obtain ⟨hpc, rfl⟩ := registerUserStep_cases h
    exact (Move.regCheck hpc).effect rfl hrfl
  | regCheck r err =>
    obtain ⟨phone, password, code, ip, hpc, p, rfl, ⟨msg, -, rfl⟩ | ⟨hcheck, -, rfl | ⟨-, rfl⟩⟩⟩ := regCheckStep_cases h
    · exact effect_stop (.register false _) rfl hpc (by exact rfl) rfl hrfl
    · exact (Move.regVerify hpc hcheck).effect rfl hrfl
    · exact (Move.regUnverified hpc hcheck).effect rfl hrfl
  | regVerify r err =>
    obtain ⟨phone, password, code, ip, hpc, p, rfl, ⟨msg, -, rfl⟩ | ⟨-, rfl⟩⟩ := regVerifyStep_cases h
    · exact effect_stop (.register false _) rfl hpc (by exact rfl) rfl hrfl
    · exact (Move.regVerified hpc).effect rfl hrfl
  | regSelect r err salt =>
    obtain ⟨phone, password, ip, hpc, ⟨msg, -, rfl⟩ | ⟨-, -, rfl⟩⟩ := regSelectStep_cases h
    · exact effect_stop (.register false _) rfl hpc (by exact rfl) rfl hrfl
    · exact (Move.regHash hpc).effect rfl hrfl
  | regHash r fails =>
    obtain ⟨phone, password, ip, salt, hpc, rfl | ⟨hash, -, rfl⟩⟩ := regHashStep_cases h
    · exact effect_stop (.register false _) rfl hpc (by exact rfl) rfl hrfl
    · exact (Move.regInsert hash hpc).effect rfl hrfl
  | regInsert r err =>
    obtain ⟨phone, ip, hash, salt, hpc, ⟨what, -, rfl⟩ | ⟨rfl, hu, rfl⟩⟩ := regInsertStep_cases h
    · exact effect_stop (.register false _) rfl hpc (by exact rfl) rfl hrfl
    · -- the only write to the table
      exact (Move.created hpc hu).effect rfl (List.prefix_append _ _)
  | markSuccess r err =>
    obtain ⟨ip, row, hpc, rfl⟩ := markSuccessStep_cases h
    exact (Move.marked hpc).effect rfl hrfl
  | logout r token clock =>
    obtain ⟨hpc, ⟨a, rfl | rfl, rfl⟩ | ⟨claims, hv, rfl⟩⟩ := logoutStep_cases h
    · exact effect_stop .threw trivial hpc (by exact rfl) rfl hrfl
    · exact effect_stop (.logout false _) rfl hpc (by exact rfl) rfl hrfl
    · exact (Move.logout hpc hv).effect rfl hrfl
  | revoke r err =>
    obtain ⟨jti, hpc, p, rfl, rfl⟩ := revokeStep_cases h
    exact (Move.revoked _ hpc).effect rfl hrfl
  | authenticate r token clock =>
    obtain ⟨hpc, ⟨what, -, rfl⟩ | ⟨-, rfl⟩ | ⟨claims, hv, rfl⟩⟩ := authenticateStep_cases h
    · exact effect_stop .threw trivial hpc (by exact rfl) rfl hrfl
    · exact effect_stop (.authenticate 0) rfl hpc (by exact rfl) rfl hrfl
    · exact (Move.authenticate hpc hv).effect rfl hrfl
  | sessionExists r err =>
    obtain ⟨jti, userId, hpc, p, rfl, rfl⟩ := existsStep_cases h
    exact (Move.authenticated hpc).effect rfl hrfl
  | sendCode phone code day dailyTtl delivered =>
    rw [← Option.some.inj h]
    exact ⟨fun _ => Or.inl rfl, hrfl⟩
  | wait ms =>
    rw [← Option.some.inj h]
    exact ⟨fun _ => Or.inl rfl, hrfl⟩

/-- **Only an INSERT writes the table**: it appends the row of the new account. -/
theorem step_users {e : Ev} (h : step cfg s e = some t) :
    t.users = s.users ∨ ∃ r phone ip hash salt, e = .regInsert r none ∧ (s.req r).pc = .regInsert phone ip hash salt ∧
      s.userOf phone = none ∧ t.users = s.users ++ [s.newUser phone hash salt] := by
  cases e with
  | regInsert r err =>
    obtain ⟨phone, ip, hash, salt, hpc, ⟨what, -, rfl⟩ | ⟨rfl, hu, rfl⟩⟩ := regInsertStep_cases h
    · exact Or.inl rfl
    · exact Or.inr ⟨r, phone, ip, hash, salt, rfl, hpc, hu, rfl⟩
  | login r phone password => obtain ⟨-, ⟨-, rfl⟩ | ⟨-, rfl⟩⟩ := loginStep_cases h <;> exact Or.inl rfl
  | checkLocked r err =>
    obtain ⟨phone, password, -, p, -, ⟨-, rfl⟩ | ⟨remain, -, rfl⟩⟩ := checkLockedStep_cases h <;> exact Or.inl rfl
  | loginSelect r err =>
    obtain ⟨phone, password, -, ⟨msg, -, rfl⟩ | ⟨-, -, rfl⟩ | ⟨-, user, -, -, rfl⟩⟩ := loginSelectStep_cases h <;>
      exact Or.inl rfl
  | loginHash r fails jti clock =>
    obtain ⟨phone, password, user, -, ⟨-, rfl⟩ | ⟨-, -, rfl⟩ | ⟨-, -, rfl⟩⟩ := loginHashStep_cases h <;>
      exact Or.inl rfl
  | onFailure r err => obtain ⟨phone, msg, -, rfl⟩ := onFailureStep_cases h; exact Or.inl rfl
  | onSuccess r err => obtain ⟨phone, -, rfl⟩ := onSuccessStep_cases h; exact Or.inl rfl
  | save r err => obtain ⟨phone, userId, jti, token, -, p, -, rfl⟩ := saveStep_cases h; exact Or.inl rfl
  | saved r => obtain ⟨phone, token, ok, -, rfl⟩ := savedStep_cases h; exact Or.inl rfl
  | registerUser r phone password code ip => obtain ⟨-, rfl⟩ := registerUserStep_cases h; exact Or.inl rfl
  | regCheck r err =>
    obtain ⟨phone, password, code, ip, -, p, -, ⟨msg, -, rfl⟩ | ⟨-, -, rfl | ⟨-, rfl⟩⟩⟩ := regCheckStep_cases h <;>
      exact Or.inl rfl
  | regVerify r err =>
    obtain ⟨phone, password, code, ip, -, p, -, ⟨msg, -, rfl⟩ | ⟨-, rfl⟩⟩ := regVerifyStep_cases h <;> exact Or.inl rfl
  | regSelect r err salt =>
    obtain ⟨phone, password, ip, -, ⟨msg, -, rfl⟩ | ⟨-, -, rfl⟩⟩ := regSelectStep_cases h <;> exact Or.inl rfl
  | regHash r fails =>
    obtain ⟨phone, password, ip, salt, -, rfl | ⟨hash, -, rfl⟩⟩ := regHashStep_cases h <;> exact Or.inl rfl
  | markSuccess r err => obtain ⟨ip, row, -, rfl⟩ := markSuccessStep_cases h; exact Or.inl rfl
  | logout r token clock =>
    obtain ⟨-, ⟨a, -, rfl⟩ | ⟨claims, -, rfl⟩⟩ := logoutStep_cases h <;> exact Or.inl rfl
  | revoke r err => obtain ⟨jti, -, p, -, rfl⟩ := revokeStep_cases h; exact Or.inl rfl
  | authenticate r token clock =>
    obtain ⟨-, ⟨what, -, rfl⟩ | ⟨-, rfl⟩ | ⟨claims, -, rfl⟩⟩ := authenticateStep_cases h <;> exact Or.inl rfl
  | sessionExists r err => obtain ⟨jti, userId, -, p, -, rfl⟩ := existsStep_cases h; exact Or.inl rfl
  | sendCode phone code day dailyTtl delivered => rw [← Option.some.inj h]; exact Or.inl rfl
  | wait ms => rw [← Option.some.inj h]; exact Or.inl rfl

/-- A row of the table is never changed or removed. -/
theorem step_userOf {e : Ev} (h : step cfg s e = some t) {phone : String} {user : User}
    (hu : s.userOf phone = some user) : t.userOf phone = some user := by
  obtain ⟨new, hnew⟩ := (step_effect h).users
  unfold State.userOf at hu ⊢
  rw [← hnew, List.find?_append, hu, Option.some_or]

/-! ## What a step writes to Redis -/

/-- The error of the event's Redis command, if it fails. -/
def Ev.redisError : Ev → Option String
  | .checkLocked _ err | .onFailure _ err | .onSuccess _ err | .save _ err | .regCheck _ err | .regVerify _ err
  | .markSuccess _ err | .revoke _ err | .sessionExists _ err => err
  | _ => none

/-- No Redis command of the event fails. -/
abbrev Ev.Healthy (e : Ev) : Prop := e.redisError = none

/-- The keys a step may write. -/
def Ev.writes (s : State) : Ev → Key → Prop
  | .onFailure r _, k => ∃ phone, ((s.req r).pc = .loginUnknown phone ∨ (s.req r).pc = .loginWrong phone) ∧
      (k = .loginLock phone ∨ k = .loginFail phone)
  | .onSuccess r _, k => ∃ phone, (s.req r).reset = some phone ∧ k = .loginFail phone
  | .save r _, k => ∃ phone userId jti token, (s.req r).pc = .loginSave phone userId jti token ∧ k = .sess jti
  | .regVerify _ _, k => ∃ phone, k = .smsCode phone ∨ k = .smsTry phone
  | .markSuccess r _, k => ∃ ip row, (s.req r).pc = .regMark ip row ∧ k = .regIp ip
  | .revoke r _, k => ∃ jti, (s.req r).pc = .logoutRevoke jti ∧ k = .sess jti
  | .sendCode phone _ day _ _, k => k = .smsCode phone ∨ k = .smsCd phone ∨ k = .smsDay phone day
  | _, _ => False

/-- `R` allows a key to be written: counted if it is a counter, set otherwise. -/
structure Free (R : Store Key → Store Key → Prop) (k : Key) : Prop where
  counts : SmsService.IsCounter k → Counts R k
  put : ¬SmsService.IsCounter k → ∀ s e, R s (s.put k e)

section Does

variable {R : Store Key → Store Key → Prop} [IsPreorder (Store Key) R]

theorem failScript_does {phone : String} (hlock : Free R (.loginLock phone)) (hfail : Free R (.loginFail phone)) :
    (failScript cfg phone).Does R := by
  exact LoginGuard.kOnFailureScript_does (fun s e => hlock.put id s e) (hfail.counts trivial)

theorem markScript_does {ip : String} (h : Free R (.regIp ip)) : (markScript cfg ip).Does R := by
  have hcount : Counts R (.regIp ip) := h.counts trivial
  unfold markScript RegisterGuard.kMarkScript
  exact does_bind (does_incr hcount) fun n => does_bind (does_expireFirst hcount) fun _ => does_pure _

theorem lockCheck_does (lockKey : Key) : (LoginGuard.kCheckScript lockKey).Does R := by
  unfold LoginGuard.kCheckScript
  refine does_bind does_exists fun locked => ?_
  split
  · exact does_ttl
  · exact does_pure _

theorem ipCheck_does (key : Key) (maxPerIp : ℤ) : (RegisterGuard.kCheckScript key maxPerIp).Does R := by
  unfold RegisterGuard.kCheckScript
  refine does_bind does_get fun v => ?_
  split
  · exact does_pure _
  · refine does_bind (does_tonumber _) fun n => ?_
    split
    · exact does_pure _
    · exact does_pure _

/-- **What a step does to Redis**: it writes the keys of its command, or time passes. -/
theorem step_does {e : Ev} (h : step cfg s e = some t) (hfree : ∀ k, e.writes s k → Free R k)
    (hwait : ∀ ms, e = .wait ms → R s.redis (s.redis.wait ms)) : R s.redis t.redis := by
  have hsame : t.redis = s.redis → R s.redis t.redis := by
    intro heq
    rw [heq]
    exact refl_of R s.redis
  cases e with
  | login r phone password =>
    obtain ⟨-, ⟨-, rfl⟩ | ⟨-, rfl⟩⟩ := loginStep_cases h
    · exact hsame rfl
    · exact hsame rfl
  | checkLocked r err =>
    obtain ⟨phone, password, -, p, rfl, ⟨-, rfl⟩ | ⟨remain, -, rfl⟩⟩ := checkLockedStep_cases h
    · exact exec_does (lockCheck_does _) err s.redis
    · exact exec_does (lockCheck_does _) err s.redis
  | loginSelect r err =>
    obtain ⟨phone, password, -, ⟨msg, -, rfl⟩ | ⟨-, -, rfl⟩ | ⟨-, user, -, -, rfl⟩⟩ := loginSelectStep_cases h
    · exact hsame rfl
    · exact hsame rfl
    · exact hsame rfl
  | loginHash r fails jti clock =>
    obtain ⟨phone, password, user, -, ⟨-, rfl⟩ | ⟨-, -, rfl⟩ | ⟨-, -, rfl⟩⟩ := loginHashStep_cases h
    · exact hsame rfl
    · exact hsame rfl
    · exact hsame rfl
  | onFailure r err =>
    obtain ⟨phone, msg, hpc, rfl⟩ := onFailureStep_cases h
    -- the script may set the lock and delete the counter
    have hwaits := hpc.imp And.left And.left
    have hlock : Free R (.loginLock phone) := hfree _ ⟨phone, hwaits, Or.inl rfl⟩
    have hfail : Free R (.loginFail phone) := hfree _ ⟨phone, hwaits, Or.inr rfl⟩
    exact exec_does (failScript_does hlock hfail) err s.redis
  | onSuccess r err =>
    obtain ⟨phone, hreset, rfl⟩ := onSuccessStep_cases h
    have hfail : Free R (.loginFail phone) := hfree _ ⟨phone, hreset, rfl⟩
    exact exec_does (does_del (hfail.counts trivial).del) err s.redis
  | save r err =>
    obtain ⟨phone, userId, jti, token, hpc, p, rfl, rfl⟩ := saveStep_cases h
    have hsess : Free R (.sess jti) := hfree _ ⟨phone, userId, jti, token, hpc, rfl⟩
    exact exec_does (does_setex fun s _ => hsess.put id s _) err s.redis
  | saved r =>
    obtain ⟨phone, token, ok, -, rfl⟩ := savedStep_cases h
    exact hsame rfl
  | registerUser r phone password code ip =>
    obtain ⟨-, rfl⟩ := registerUserStep_cases h
    exact hsame rfl
  | regCheck r err =>
    obtain ⟨phone, password, code, ip, -, p, rfl, ⟨msg, -, rfl⟩ | ⟨-, -, rfl | ⟨-, rfl⟩⟩⟩ := regCheckStep_cases h
    · exact exec_does (ipCheck_does _ _) err s.redis
    · exact exec_does (ipCheck_does _ _) err s.redis
    · exact exec_does (ipCheck_does _ _) err s.redis
  | regVerify r err =>
    obtain ⟨phone, password, code, ip, -, p, rfl, hor⟩ := regVerifyStep_cases h
    have hcode : Free R (.smsCode phone) := hfree _ ⟨phone, Or.inl rfl⟩
    have htry : Free R (.smsTry phone) := hfree _ ⟨phone, Or.inr rfl⟩
    have hdoes : (SmsService.verifyScript cfg.sms phone code).Does R :=
      SmsService.verifyScript_does (fun s => hcode.put id s none) (htry.counts trivial)
    rcases hor with ⟨msg, -, rfl⟩ | ⟨-, rfl⟩
    · exact exec_does hdoes err s.redis
    · exact exec_does hdoes err s.redis
  | regSelect r err salt =>
    obtain ⟨phone, password, ip, -, ⟨msg, -, rfl⟩ | ⟨-, -, rfl⟩⟩ := regSelectStep_cases h
    · exact hsame rfl
    · exact hsame rfl
  | regHash r fails =>
    obtain ⟨phone, password, ip, salt, -, rfl | ⟨hash, -, rfl⟩⟩ := regHashStep_cases h
    · exact hsame rfl
    · exact hsame rfl
  | regInsert r err =>
    obtain ⟨phone, ip, hash, salt, -, ⟨what, -, rfl⟩ | ⟨-, -, rfl⟩⟩ := regInsertStep_cases h
    · exact hsame rfl
    · exact hsame rfl
  | markSuccess r err =>
    obtain ⟨ip, row, hpc, rfl⟩ := markSuccessStep_cases h
    exact exec_does (markScript_does (hfree _ ⟨ip, row, hpc, rfl⟩)) err s.redis
  | logout r token clock =>
    obtain ⟨-, ⟨a, -, rfl⟩ | ⟨claims, -, rfl⟩⟩ := logoutStep_cases h
    · exact hsame rfl
    · exact hsame rfl
  | revoke r err =>
    obtain ⟨jti, hpc, p, rfl, rfl⟩ := revokeStep_cases h
    have hsess : Free R (.sess jti) := hfree _ ⟨jti, hpc, rfl⟩
    exact exec_does (does_del fun s => hsess.put id s none) err s.redis
  | authenticate r token clock =>
    obtain ⟨-, ⟨what, -, rfl⟩ | ⟨-, rfl⟩ | ⟨claims, -, rfl⟩⟩ := authenticateStep_cases h
    · exact hsame rfl
    · exact hsame rfl
    · exact hsame rfl
  | sessionExists r err =>
    obtain ⟨jti, userId, -, p, rfl, rfl⟩ := existsStep_cases h
    exact exec_does does_exists err s.redis
  | sendCode phone code day dailyTtl delivered =>
    rw [← Option.some.inj h]
    have hcode : Free R (.smsCode phone) := hfree _ (Or.inl rfl)
    have hcd : Free R (.smsCd phone) := hfree _ (Or.inr (Or.inl rfl))
    have hday : Free R (.smsDay phone day) := hfree _ (Or.inr (Or.inr rfl))
    exact SmsService.sendCode_does (hcode.put id) (hcd.put id) (hday.counts trivial) s.redis
  | wait ms =>
    rw [← Option.some.inj h]
    exact hwait ms rfl

end Does

theorem free_sameBut {P : Key → Prop} {k : Key} (hk : P k) : Free (SameBut P) k :=
  ⟨fun _ => sameBut_counts hk, fun _ s e => sameBut_put hk s e⟩

/-- A key that a step does not write keeps its entry. -/
theorem step_frame {e : Ev} (h : step cfg s e = some t) {k : Key} (hk : ¬e.writes s k) :
    t.redis.cell k = s.redis.cell k := by
  by_cases hwait : ∃ ms, e = .wait ms
  · obtain ⟨ms, rfl⟩ := hwait
    rw [← Option.some.inj h]
    rfl
  · have hsame : SameBut (e.writes s) s.redis t.redis :=
      step_does h (fun _ hk => free_sameBut hk) fun ms he => absurd ⟨ms, he⟩ hwait
    exact hsame.2 k hk

/-- Time passes in `wait` only. -/
theorem step_now {e : Ev} (h : step cfg s e = some t) :
    s.redis.now ≤ t.redis.now ∧ ((∀ ms, e ≠ .wait ms) → t.redis.now = s.redis.now) := by
  by_cases hwait : ∃ ms, e = .wait ms
  · obtain ⟨ms, rfl⟩ := hwait
    rw [← Option.some.inj h]
    exact ⟨Nat.le_add_right _ _, fun hne => absurd rfl (hne ms)⟩
  · have hsame : SameBut (e.writes s) s.redis t.redis :=
      step_does h (fun _ hk => free_sameBut hk) fun ms he => absurd ⟨ms, he⟩ hwait
    exact ⟨Nat.le_of_eq hsame.1.symm, fun _ => hsame.1⟩

/-- What is under a key that the step does not write was there before. -/
theorem find_step {e : Ev} (h : step cfg s e = some t) {k : Key} (hk : ¬e.writes s k) {x : Entry}
    (hx : t.redis.find k = some x) : s.redis.find k = some x := by
  obtain ⟨hcell, halive⟩ := Store.find_some.1 hx
  rw [step_frame h hk] at hcell
  exact Store.find_some.2 ⟨hcell, Entry.alive_mono (step_now h).1 halive⟩

/-- **The counters stay integers.** -/
theorem step_counters (s : State) (e : Ev) (t : State) (hs : SmsService.Counters s.redis)
    (h : step cfg s e = some t) : SmsService.Counters t.redis := by
  have hfree : ∀ k, e.writes s k → Free (Kept SmsService.Counters) k :=
    fun k _ => ⟨fun _ => ints_counts k, fun hk s e hs => hs.put_of_not hk e⟩
  exact step_does h hfree (fun _ _ hs => hs) hs

/-! ## Runs with few requests -/

/-- The request a step belongs to. -/
def Ev.request : Ev → Option ℕ
  | .login r _ _ | .checkLocked r _ | .loginSelect r _ | .loginHash r _ _ _ | .onFailure r _ | .onSuccess r _
  | .save r _ | .saved r | .registerUser r _ _ _ _ | .regCheck r _ | .regVerify r _ | .regSelect r _ _
  | .regHash r _ | .regInsert r _ | .markSuccess r _ | .logout r _ _ | .revoke r _ | .authenticate r _ _
  | .sessionExists r _ => some r
  | .sendCode _ _ _ _ _ | .wait _ => none

/-- Only requests of the list have been called. -/
def Among (rs : List ℕ) (s : State) : Prop := ∀ r, r ∉ rs → s.req r = .idle

/-- The events that end a request are its own. -/
theorem Ev.Ends.request {e : Ev} {p : Pc} (h : e.Ends r p) : e.request = some r := by
  unfold Ev.Ends at h
  split at h <;> first | exact congrArg some h | exact h.elim

/-- A request is moved by its own steps only. -/
theorem Move.request {e : Ev} {q : Req} (h : Move cfg s r e q) : e.request = some r := by
  cases h with
  | stop a ha hpc => exact hpc.request
  | _ => rfl

theorem among_step {rs : List ℕ} {e : Ev} (hs : Among rs s) (he : ∀ r ∈ e.request, r ∈ rs)
    (h : step cfg s e = some t) : Among rs t := by
  intro r hr
  rcases (step_effect h).req r with heq | hmove
  · rw [heq, hs r hr]
  · exact absurd (he r hmove.request) hr

/-- In a run of few requests a condition need be checked for those only. -/
theorem meets_among {C D : State → Ev → Prop} {now : ℕ} {users : List User} {nextId : Int64} {es : List Ev}
    (rs : List ℕ) (hes : ∀ e ∈ es, ∀ r ∈ e.request, r ∈ rs) (h : ∀ s e, Among rs s → D s e → C s e)
    (hD : Machine.Meets (step cfg) D (.init now users nextId) es) :
    Machine.Meets (step cfg) C (.init now users nextId) es := by
  refine Machine.meets_of_inv (I := Among rs) (fun s e t hs he hst => among_step hs he.1 hst)
    (fun s e hs he => h s e hs he.2) (fun _ _ => rfl) (Machine.meets_and (Machine.meets_of_forall hes _) hD)

/-! ## Fixed inputs -/

/-- A PBKDF2 for runs on fixed inputs: the password before its salt. -/
def saltedHash (password : String) (salt : Bytes) : Bytes := ascii password ++ salt

/-- The default configuration, with a JWT that signs nothing. -/
def unsignedConfig : Config := .default ⟨[], ascii "seckill-cpp", 7200, fun _ _ => [], fun _ => [], fun _ => none⟩ saltedHash

def onlyUser : User := ⟨1, "13800000000", saltedHash "rightpw" [7], [7], 1⟩

end Seckill.UserService
