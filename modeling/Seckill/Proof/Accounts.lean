import Seckill.Proof.Tokens
import Seckill.Proof.UserProgress

/-!
# The password of an account

A registration that was answered `OK` made an account of its phone and its password
(`HasAccount`), for good. From then on a login of the phone succeeds with a password that
hashes like that one and with no other, unless the account is locked or an operation of
the login itself fails (`Hindered`): `registered_login`. It does not matter what other
requests do meanwhile, nor when during its steps the login reads the row.
-/

namespace Seckill.UserService

open Redis Machine

variable {cfg : Config} {s₀ s t : State} {es : List Ev} {e : Ev} {r : ℕ} {phone password : String}

/-! ## The account -/

/-- The user is the account of the phone, with this password. -/
structure AccountOf (cfg : Config) (phone password : String) (user : User) (s : State) : Prop where
  row : s.userOf phone = some user
  valid : SmsService.isValidPhone phone = true
  enabled : user.status = 1
  hash : user.passwordHash = cfg.pbkdf2Hex password user.salt
  hashed : user.passwordHash ≠ []

/-- An account stays as it is. -/
theorem AccountOf.step {user : User} (h : AccountOf cfg phone password user s) (hs : step cfg s e = some t) :
    AccountOf cfg phone password user t :=
  ⟨step_userOf hs h.row, h.valid, h.enabled, h.hash, h.hashed⟩

/-- The registration is on its way to the account of the phone, or was answered. -/
def Pc.Registers (cfg : Config) (phone password : String) (done : Prop) : Pc → Prop
  | .regCheck p x _ _ => p = phone ∧ x = password
  | .regVerify p x _ _ | .regSelect p x _ | .regHash p x _ _ =>
    p = phone ∧ x = password ∧ SmsService.isValidPhone phone = true
  | .regInsert p _ hash salt =>
    p = phone ∧ SmsService.isValidPhone phone = true ∧ hash = cfg.pbkdf2Hex password salt ∧ hash ≠ []
  | .regMark _ _ | .regMarked _ _ | .done => done
  | _ => False

/-- If the registration was answered `OK`, the account is there. -/
def Registered (cfg : Config) (phone password : String) (s : State) (q : Req) : Prop :=
  q.answer = some (.register true "OK") → ∃ user, AccountOf cfg phone password user s

/-- A registration of the phone with the password. -/
def Registering (cfg : Config) (phone password : String) (r : ℕ) (s : State) : Prop :=
  (s.req r).pc.Registers cfg phone password (Registered cfg phone password s (s.req r))

theorem Pc.Registers.mono {done done' : Prop} (h : done → done') {p : Pc} (hp : p.Registers cfg phone password done) :
    p.Registers cfg phone password done' := by
  cases p <;> first | exact hp | exact h hp

/-- The hash a registration inserts is that of its password. -/
theorem regHash_hash {fails : Bool} {ip : String} {salt : Bytes} (h : regHashStep cfg s r fails = some t)
    (hpc : (s.req r).pc = .regHash phone password ip salt) :
    (t.req r).pc = .done ∧ (t.req r).answer = some (.register false "HASH_FAILED") ∨
      (t.req r).pc = .regInsert phone ip (cfg.pbkdf2Hex password salt) salt ∧ cfg.pbkdf2Hex password salt ≠ [] := by
  unfold regHashStep at h
  rw [hpc] at h
  simp only at h
  cases fails with
  | true =>
    obtain rfl := Option.some.inj h
    rw [State.set_req, if_pos rfl]
    exact Or.inl ⟨rfl, rfl⟩
  | false =>
    simp only [Bool.false_eq_true, if_false] at h
    split at h
    · obtain rfl := Option.some.inj h
      rw [State.set_req, if_pos rfl]
      exact Or.inl ⟨rfl, rfl⟩
    · rename_i hne
      obtain rfl := Option.some.inj h
      rw [State.set_req, if_pos rfl]
      exact Or.inr ⟨rfl, hne⟩

/-- **A registration keeps its phone and its password**, whatever the others do. -/
theorem registering_step (s : State) (e : Ev) (t : State) (h : Registering cfg phone password r s)
    (hs : step cfg s e = some t) : Registering cfg phone password r t := by
  have hkeep : Registered cfg phone password s (s.req r) → Registered cfg phone password t (s.req r) := by
    intro hdone ha
    obtain ⟨user, huser⟩ := hdone ha
    exact ⟨user, huser.step hs⟩
  unfold Registering at h ⊢
  rcases (step_effect hs).req r with heq | hmove
  · rw [heq]
    exact h.mono hkeep
  · generalize hq : t.req r = q at hmove ⊢
    cases hmove with
    | stop a ha hends =>
      intro hok
      rw [Option.some.inj hok] at ha
      cases ha
    | reset _ => exact h.mono hkeep
    | regVerify hpc hcheck | regUnverified hpc hcheck =>
      rw [hpc] at h
      obtain ⟨rfl, rfl⟩ := h
      obtain ⟨p', x', c', ip', hpc', p, -, ⟨msg, -, rfl⟩ | ⟨-, hvalid, -⟩⟩ := regCheckStep_cases hs
      · rw [State.set_req, if_pos rfl] at hq
        cases congrArg Req.pc hq
      · obtain ⟨rfl, -⟩ := Pc.regCheck.inj (hpc.symm.trans hpc')
        exact ⟨rfl, rfl, hvalid⟩
    | regVerified hpc | regHash hpc =>
      rw [hpc] at h
      exact h
    | regInsert hash hpc =>
      rw [hpc] at h
      obtain ⟨rfl, rfl, hvalid⟩ := h
      rcases regHash_hash hs hpc with ⟨hdone, -⟩ | ⟨hinsert, hne⟩
      · rw [hq] at hdone
        cases hdone
      · rw [hq] at hinsert
        obtain ⟨-, -, rfl, -⟩ := Pc.regInsert.inj hinsert
        exact ⟨rfl, hvalid, rfl, hne⟩
    | created hpc huser =>
      rename_i p ip hash salt
      rw [hpc] at h
      obtain ⟨rfl, hvalid, hhash, hne⟩ := h
      have hinsert : regInsertStep s r none = some t := hs
      obtain ⟨p', ip', hash', salt', hpc', ⟨what, -, rfl⟩ | ⟨-, -, rfl⟩⟩ := regInsertStep_cases hinsert
      · rw [State.set_req, if_pos rfl] at hq
        cases congrArg Req.pc hq
      · obtain ⟨rfl, -, rfl, rfl⟩ := Pc.regInsert.inj (hpc.symm.trans hpc')
        refine fun _ => ⟨s.newUser p hash salt, ?_, hvalid, rfl, hhash, hne⟩
        unfold State.userOf at huser ⊢
        rw [State.set_users, List.find?_append, huser, Option.none_or]
        simp [State.newUser]
    | marked hpc =>
      rw [hpc] at h
      exact hkeep h
    | check hpc | pass hpc | unknown hpc | found hpc | wrong hpc | right hpc | save hpc | token hpc | regCheck hpc
    | logout hpc | revoked _ hpc | authenticate hpc | authenticated hpc =>
      rw [hpc] at h
      exact h.elim

/-! ## A login of the account -/

/-- What keeps a login from succeeding: the lock, or an operation of its own that fails. -/
inductive Hindered (cfg : Config) (s : State) (r : ℕ) : Ev → Prop
  | locked {err : Option String} {phone password : String} {remain : ℤ} (hpc : (s.req r).pc = .loginCheck phone password)
      (h : LoginGuard.onCheck (exec err (LoginGuard.kCheckScript (.loginLock phone)) s.redis).1 = some remain) :
    Hindered cfg s r (.checkLocked r err)
  | select (what : String) : Hindered cfg s r (.loginSelect r (some what))
  | hash (jti : Bytes) (clock : ℤ) : Hindered cfg s r (.loginHash r true jti clock)
  | save {err : Option String} {jti : Bytes} {u : Int64}
      (h : (exec err (SessionStore.save jti cfg.sessionTtl u) s.redis).1.toBool = false) :
    Hindered cfg s r (.save r err)

/-- The token is one of the user's. -/
def TokenOf (cfg : Config) (user : User) (token : Bytes) : Prop :=
  ∃ jti clock, token = cfg.jwt.sign user.id jti 0 clock

/-- The answer of a login of the account that compared the given password. -/
def LoginSays (cfg : Config) (user : User) (password : String) (hindered : Prop) (a : Option Answer) : Prop :=
  ∃ ok token msg, a = some (.login ok token msg) ∧
    (ok = true → cfg.verdict password user = some true ∧ TokenOf cfg user token) ∧
    (ok = false → cfg.verdict password user ≠ some true ∨ hindered)

/-- The login of the account is on its way, or was answered. -/
def Pc.LogsIn (cfg : Config) (phone password : String) (user : User) (hindered : Prop) (a : Option Answer) : Pc → Prop
  | .loginCheck p x | .loginSelect p x => p = phone ∧ x = password
  | .loginHash _ x u => x = password ∧ u = user
  | .loginWrong _ => cfg.verdict password user = some false
  | .loginSave _ id _ token => id = user.id ∧ cfg.verdict password user = some true ∧ TokenOf cfg user token
  | .loginSaved _ token ok =>
    cfg.verdict password user = some true ∧ TokenOf cfg user token ∧ (ok = false → hindered)
  | .done => LoginSays cfg user password hindered a
  | _ => False

theorem LoginSays.mono {user : User} {hindered hindered' : Prop} (h : hindered → hindered') {a : Option Answer}
    (ha : LoginSays cfg user password hindered a) : LoginSays cfg user password hindered' a := by
  obtain ⟨ok, token, msg, heq, hok, hno⟩ := ha
  exact ⟨ok, token, msg, heq, hok, fun hfalse => (hno hfalse).imp_right h⟩

theorem Pc.LogsIn.mono {user : User} {hindered hindered' : Prop} (h : hindered → hindered') {a : Option Answer} {p : Pc}
    (hp : p.LogsIn cfg phone password user hindered a) : p.LogsIn cfg phone password user hindered' a := by
  cases p <;> first
    | exact hp
    | exact LoginSays.mono h hp
    | exact ⟨hp.1, hp.2.1, fun hfalse => h (hp.2.2 hfalse)⟩

/-- A login that was turned away. -/
theorem loginSays_no {user : User} {hindered : Prop} {msg : String}
    (h : cfg.verdict password user ≠ some true ∨ hindered) :
    LoginSays cfg user password hindered (some (.login false [] msg)) :=
  ⟨false, [], msg, rfl, fun hok => absurd hok Bool.false_ne_true, fun _ => h⟩

/-- An answer that ends a login of the account says what it should. -/
theorem login_stop {user : User} (hacc : AccountOf cfg phone password user s) {w : String} {past past' : Prop}
    (hmono : past → past') (hnow : Hindered cfg s r e → past')
    (h : (s.req r).pc.LogsIn cfg phone w user past (s.req r).answer) {a : Answer} (hends : e.Ends r (s.req r).pc)
    (hs : step cfg s e = some t) (hq : t.req r = (s.req r).finish a) : LoginSays cfg user w past' (some a) := by
  have hanswer : ∀ {u : State} {b : Answer}, t = u.set r ((s.req r).finish b) → a = b := by
    rintro u b rfl
    rw [State.set_req, if_pos rfl] at hq
    exact (Option.some.inj (congrArg Req.answer hq)).symm
  have hgone : ∀ {u : State} {q : Req}, t = u.set r q → q.pc = .done := by
    rintro u q rfl
    rw [State.set_req, if_pos rfl] at hq
    exact congrArg Req.pc hq
  cases hpc : (s.req r).pc <;> rw [hpc] at h hends <;> cases e <;> try exact hends.elim
  case loginCheck.checkLocked p x r' err =>
    obtain rfl : r' = r := hends
    obtain ⟨p', x', hpc', reply, hreply, ⟨-, ht⟩ | ⟨remain, hlocked, ht⟩⟩ := checkLockedStep_cases hs
    · cases hgone ht
    · rw [hanswer ht]
      exact loginSays_no (Or.inr (hnow (.locked hpc' (hreply ▸ hlocked))))
  case loginSelect.loginSelect p x r' err =>
    obtain rfl : r' = r := hends
    obtain ⟨p', x', hpc', ⟨msg, hmsg, ht⟩ | ⟨-, -, ht⟩ | ⟨-, u, -, -, ht⟩⟩ := loginSelectStep_cases hs
    · rw [hanswer ht]
      rcases hmsg with ⟨what, rfl, -⟩ | ⟨-, ⟨u, hu, hstatus⟩, -⟩
      · exact loginSays_no (Or.inr (hnow (.select what)))
      · -- the row is that of the account, which is enabled
        obtain ⟨rfl, -⟩ := h
        obtain ⟨rfl, -⟩ := Pc.loginSelect.inj (hpc.symm.trans hpc')
        obtain rfl := Option.some.inj (hacc.row.symm.trans hu)
        exact absurd hacc.enabled hstatus
    · cases hgone ht
    · cases hgone ht
  case loginHash.loginHash p x u r' fails jti clock =>
    obtain rfl : r' = r := hends
    obtain ⟨p', x', u', hpc', ⟨hnone, ht⟩ | ⟨-, -, ht⟩ | ⟨-, -, ht⟩⟩ := loginHashStep_cases hs
    · rw [hanswer ht]
      obtain ⟨rfl, rfl⟩ := h
      obtain ⟨-, rfl, rfl⟩ := Pc.loginHash.inj (hpc.symm.trans hpc')
      rcases hnone with rfl | hnone
      · exact loginSays_no (Or.inr (hnow (.hash jti clock)))
      · exact loginSays_no (Or.inl (by rw [hnone]; simp))
    · cases hgone ht
    · cases hgone ht
  case loginWrong.onFailure p r' err =>
    obtain rfl : r' = r := hends
    obtain ⟨p', msg, -, ht⟩ := onFailureStep_cases hs
    rw [hanswer ht]
    refine loginSays_no (Or.inl ?_)
    rw [show cfg.verdict w user = some false from h]
    simp
  case loginSaved.saved p token ok r' =>
    obtain rfl : r' = r := hends
    obtain ⟨p', token', ok', hpc', ht⟩ := savedStep_cases hs
    obtain ⟨-, rfl, rfl⟩ := Pc.loginSaved.inj (hpc.symm.trans hpc')
    rw [hanswer ht]
    obtain ⟨hv, htoken, hfail⟩ := h
    cases ok with
    | true => exact ⟨true, _, _, rfl, fun _ => ⟨hv, htoken⟩, fun hfalse => by cases hfalse⟩
    | false => exact loginSays_no (Or.inr (hmono (hfail rfl)))
  all_goals exact h.elim

/-- **A login keeps to its account**, whatever the others do. -/
theorem logsIn_step {user : User} (hacc : AccountOf cfg phone password user s) {w : String} {past past' : Prop}
    (hmono : past → past') (hnow : Hindered cfg s r e → past')
    (h : (s.req r).pc.LogsIn cfg phone w user past (s.req r).answer) (hs : step cfg s e = some t) :
    (t.req r).pc.LogsIn cfg phone w user past' (t.req r).answer := by
  rcases (step_effect hs).req r with heq | hmove
  · rw [heq]
    exact h.mono hmono
  · generalize hq : t.req r = q at hmove ⊢
    cases hmove with
    | stop a ha hends => exact login_stop hacc hmono hnow h hends hs hq
    | reset _ => exact h.mono hmono
    | pass hpc hcheck =>
      rw [hpc] at h
      exact h
    | unknown hpc huser =>
      rw [hpc] at h
      obtain ⟨rfl, -⟩ := h
      rw [hacc.row] at huser
      cases huser
    | found hpc huser hstatus =>
      rw [hpc] at h
      obtain ⟨rfl, rfl⟩ := h
      rw [hacc.row] at huser
      exact ⟨rfl, (Option.some.inj huser).symm⟩
    | wrong hpc hv =>
      rw [hpc] at h
      obtain ⟨rfl, rfl⟩ := h
      exact hv
    | right hpc hv =>
      rw [hpc] at h
      obtain ⟨rfl, rfl⟩ := h
      exact ⟨rfl, hv, _, _, rfl⟩
    | save hpc =>
      rw [hpc] at h
      obtain ⟨rfl, hv, htoken⟩ := h
      exact ⟨hv, htoken, fun hfalse => hnow (.save hfalse)⟩
    | token hpc =>
      rw [hpc] at h
      exact ⟨true, _, _, rfl, fun _ => ⟨h.1, h.2.1⟩, fun hfalse => by cases hfalse⟩
    | check hpc | regCheck hpc | regVerify hpc | regUnverified hpc | regVerified hpc | regHash hpc | regInsert _ hpc
    | created hpc | marked hpc | logout hpc | revoked _ hpc | authenticate hpc | authenticated hpc =>
      rw [hpc] at h
      exact h.elim

/-! ## Registration and login -/

/-- The verdict is that the password hashes like that of the account. -/
theorem AccountOf.verdict_iff {user : User} (h : AccountOf cfg phone password user s) (w : String) :
    cfg.verdict w user = some true ↔ cfg.pbkdf2Hex w user.salt = cfg.pbkdf2Hex password user.salt := by
  have hne := h.hashed
  unfold Config.verdict
  rw [← h.hash]
  split
  next hnone => simp [hnone, Ne.symm hne]
  next => simp [constantTimeEquals_eq]

theorem answers_run {now : ℕ} {users : List User} {nextId : Int64}
    (h : run (step cfg) (.init now users nextId) es = some s) (r : ℕ) : (s.req r).Answers :=
  run_inv (I := fun s => ∀ r, (s.req r).Answers) (fun s e t => step_answers s e t) (fun _ => rfl) h r

/-- **A registration that was answered `OK` made the account.** -/
theorem registered_account {now : ℕ} {users : List User} {nextId : Int64} {code ip : String}
    (hrun : run (step cfg) (.init now users nextId) es = some s)
    (hreg : Past (step cfg) (.init now users nextId) es fun _ e => e = .registerUser r phone password code ip)
    (hok : (s.req r).answer = some (.register true "OK")) : ∃ user, AccountOf cfg phone password user s := by
  obtain ⟨pre, e, post, u, v, rfl, -, rfl, hv, hpost⟩ := hreg.split hrun
  have hfirst : Registering cfg phone password r v := by
    obtain ⟨-, rfl⟩ := registerUserStep_cases hv
    unfold Registering
    rw [State.set_req, if_pos rfl]
    exact ⟨rfl, rfl⟩
  have hlast : Registering cfg phone password r s := run_inv registering_step hfirst hpost
  have hanswers := answers_run hrun r
  unfold Registering at hlast
  unfold Req.Answers at hanswers
  rw [hok] at hanswers
  cases hpc : (s.req r).pc <;> rw [hpc] at hlast hanswers
  case regMark | regMarked | done => exact hlast hok
  all_goals cases hanswers

/-- **The password of an account opens it, and no other.** In every run of logins,
registrations, logouts and authentications: once `registerUser(phone, w)` was answered
`OK`, the phone has an account, and any later `login(phone, w')`, whatever other requests
do between its steps, is answered as follows. With a token only if `w'` hashes like `w`
under the salt of the account, and the token is the account's; without one only if it does
not, or the account was locked, or an operation of this login failed. -/
theorem registered_login (cfg : Config) (now : ℕ) (users : List User) (nextId : Int64) (pre post : List Ev) (r q : ℕ)
    (phone w w' code ip : String) (v s : State) (hv : run (step cfg) (.init now users nextId) pre = some v)
    (hreg : Past (step cfg) (.init now users nextId) pre fun _ e => e = .registerUser r phone w code ip)
    (hok : (v.req r).answer = some (.register true "OK"))
    (hs : run (step cfg) (.init now users nextId) (pre ++ .login q phone w' :: post) = some s) :
    ∃ user, v.userOf phone = some user ∧
      ∀ ok token msg, (s.req q).answer = some (.login ok token msg) →
        (ok = true → cfg.pbkdf2Hex w' user.salt = cfg.pbkdf2Hex w user.salt ∧ TokenOf cfg user token) ∧
        (ok = false → cfg.pbkdf2Hex w' user.salt ≠ cfg.pbkdf2Hex w user.salt ∨
          Past (step cfg) (.init now users nextId) (pre ++ .login q phone w' :: post) fun s e => Hindered cfg s q e) := by
  obtain ⟨user, hacc⟩ := registered_account hv hreg hok
  refine ⟨user, hacc.row, fun ok token msg hanswer => ?_⟩
  obtain ⟨u, hu, hpost⟩ := run_cons.1 (run_rest hs hv)
  have hpre : run (step cfg) (.init now users nextId) (pre ++ [.login q phone w']) = some u := run_snoc.2 ⟨v, hv, hu⟩
  -- the login keeps to the account, from its call on
  have hway : AccountOf cfg phone w user s ∧ (s.req q).pc.LogsIn cfg phone w' user
      (Past (step cfg) (.init now users nextId) (pre ++ .login q phone w' :: post) fun s e => Hindered cfg s q e)
      (s.req q).answer := by
    refine run_trace (I := fun es s => AccountOf cfg phone w user s ∧ (s.req q).pc.LogsIn cfg phone w' user
      (Past (step cfg) (.init now users nextId) (pre ++ .login q phone w' :: es) fun s e => Hindered cfg s q e)
      (s.req q).answer) ?_ ?_ hpost
    · refine ⟨hacc.step hu, ?_⟩
      obtain ⟨-, ⟨-, rfl⟩ | ⟨hinvalid, -⟩⟩ := loginStep_cases hu
      · rw [State.set_req, if_pos rfl]
        exact ⟨rfl, rfl⟩
      · rw [hacc.valid] at hinvalid
        cases hinvalid
    · rintro es x e y hes ⟨haccx, hx⟩ hxy
      have hrun : run (step cfg) (.init now users nextId) (pre ++ .login q phone w' :: es) = some x :=
        run_append.2 ⟨v, hv, run_cons.2 ⟨u, hu, hes⟩⟩
      refine ⟨haccx.step hxy, ?_⟩
      have hsnoc : pre ++ .login q phone w' :: (es ++ [e]) = (pre ++ .login q phone w' :: es) ++ [e] := by simp
      rw [hsnoc]
      exact logsIn_step haccx (fun hpast => hpast.snoc e) (fun hnow => past_last hrun hnow) hx hxy
  obtain ⟨-, hlogs⟩ := hway
  have hanswers := answers_run hs q
  unfold Req.Answers at hanswers
  rw [hanswer] at hanswers hlogs
  cases hpc : (s.req q).pc <;> rw [hpc] at hlogs hanswers
  case done =>
    obtain ⟨ok', token', msg', heq, hyes, hno⟩ := hlogs
    obtain ⟨rfl, rfl, rfl⟩ := Answer.login.inj (Option.some.inj heq)
    refine ⟨fun hok' => ⟨(hacc.verdict_iff w').1 (hyes hok').1, (hyes hok').2⟩, fun hok' => ?_⟩
    exact (hno hok').imp_left fun hne heq => hne ((hacc.verdict_iff w').2 heq)
  case regMark | regMarked => exact hlogs.elim
  all_goals cases hanswers

/-- A configuration without SMS codes. -/
def codelessConfig : Config := { unsignedConfig with requireSmsOnRegister := false }

/-- A registration that succeeds. -/
def registered : List Ev :=
  [.registerUser 0 "13800000000" "secret" "" "10.0.0.1", .regCheck 0 none, .regSelect 0 none [7], .regHash 0 false,
    .regInsert 0 none]

/-- Who registered logs in with the password, while the registration's mark is outstanding. -/
theorem registered_login_secret :
    ∃ v s user token, run (step codelessConfig) (.init 0 [] 1) registered = some v ∧
      (v.req 0).answer = some (.register true "OK") ∧
      run (step codelessConfig) (.init 0 [] 1) (registered ++ .login 1 "13800000000" "secret" ::
        [.checkLocked 1 none, .loginSelect 1 none, .loginHash 1 false [5] 0, .markSuccess 0 none, .save 1 none,
          .saved 1]) = some s ∧
      (s.req 1).answer = some (.login true token "OK") ∧ v.userOf "13800000000" = some user ∧
      TokenOf codelessConfig user token := by
  have hruns : ((run (step codelessConfig) (.init 0 [] 1) registered).map fun v => (v.req 0).answer) =
      some (some (.register true "OK")) := by decide +kernel
  have hlogin : ((run (step codelessConfig) (.init 0 [] 1) (registered ++ .login 1 "13800000000" "secret" ::
      [.checkLocked 1 none, .loginSelect 1 none, .loginHash 1 false [5] 0, .markSuccess 0 none, .save 1 none,
        .saved 1])).map fun s => (s.req 1).answer) =
      some (some (.login true (codelessConfig.jwt.sign 1 [5] 0 0) "OK")) := by decide +kernel
  obtain ⟨v, hv, hok⟩ := Option.map_eq_some_iff.1 hruns
  obtain ⟨s, hs, hanswer⟩ := Option.map_eq_some_iff.1 hlogin
  have hreg : Past (step codelessConfig) (.init 0 [] 1) registered fun _ e =>
      e = .registerUser 0 "13800000000" "secret" "" "10.0.0.1" := ⟨_, _, ⟨[], _, rfl, rfl⟩, rfl⟩
  obtain ⟨user, hrow, htold⟩ := registered_login codelessConfig 0 [] 1 registered _ 0 1 "13800000000" "secret" "secret" ""
    "10.0.0.1" v s hv hreg hok hs
  exact ⟨v, s, user, _, hv, hok, hs, hanswer, hrow, ((htold _ _ _ hanswer).1 rfl).2⟩

end Seckill.UserService
