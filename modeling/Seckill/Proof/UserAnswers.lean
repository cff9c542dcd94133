import Mathlib.Data.List.Infix
import Seckill.Proof.UserService
import Seckill.Spec.Controllers

/-!
# What the answers of `registerUser` and `login` rest on

`Said` lists what one executed operation tells about a request: a reply of Redis, a
SELECT, a hash that was computed. `Rests` says, for each text, which of these the
answer states; a login's later answers rest on earlier steps, which its position
remembers (`Pc.Learned`).

* `answered_accounted`: an answer is a server error, or rests on what was said, or its
  step is `Flattened`: an operation failed, and its callback made a refusal of it.
* `flattened_unfounded`: the answer of such a step does neither.
-/

namespace Seckill.UserService

open Redis Machine

variable {cfg : Config} {s t : State} {e : Ev} {r : ℕ}

/-- The facts an answer can state. -/
inductive Fact
  /-- of the request itself -/
  | malformed | weak
  /-- of a login -/
  | locked (seconds : ℤ) | unknown | disabled | found (user : User) | wrong (user : User) | right (user : User)
  | failure (f : LoginGuard.FailResult) | saved (token : Bytes)
  /-- of a registration -/
  | ipLimited | code (v : SmsService.VerifyResult) | registered | created

section

variable (cfg : Config) (s : State) (r : ℕ)

/-- Executing event `e` in state `s`, the store it consults says this about request `r`. -/
inductive Said : Ev → Fact → Prop
  | malformed {phone password : String} (h : SmsService.isValidPhone phone = false) :
    Said (.login r phone password) .malformed
  | locked {err : Option String} {phone password : String} {seconds : ℤ} (hpc : (s.req r).pc = .loginCheck phone password)
      (h : (exec err (LoginGuard.kCheckScript (.loginLock phone)) s.redis).1 = .ok seconds) (hpos : 0 < seconds) :
    Said (.checkLocked r err) (.locked seconds)
  | unknown {phone password : String} (hpc : (s.req r).pc = .loginSelect phone password) (h : s.userOf phone = none) :
    Said (.loginSelect r none) .unknown
  | disabled {phone password : String} {user : User} (hpc : (s.req r).pc = .loginSelect phone password)
      (h : s.userOf phone = some user) (hstatus : user.status ≠ 1) : Said (.loginSelect r none) .disabled
  | found {phone password : String} {user : User} (hpc : (s.req r).pc = .loginSelect phone password)
      (h : s.userOf phone = some user) : Said (.loginSelect r none) (.found user)
  | wrong {jti : Bytes} {clock : ℤ} {phone password : String} {user : User}
      (hpc : (s.req r).pc = .loginHash phone password user) (h : cfg.verdict password user = some false) :
    Said (.loginHash r false jti clock) (.wrong user)
  | right {jti : Bytes} {clock : ℤ} {phone password : String} {user : User}
      (hpc : (s.req r).pc = .loginHash phone password user) (h : cfg.verdict password user = some true) :
    Said (.loginHash r false jti clock) (.right user)
  | failure {err : Option String} {phone : String} {reply : ℤ × ℤ} (hpc : (s.req r).pc = .loginWrong phone)
      (h : (exec err (failScript cfg phone) s.redis).1 = .ok reply) :
    Said (.onFailure r err) (.failure (LoginGuard.onReply (.ok reply)))
  | saved {err : Option String} {phone : String} {userId : Int64} {jti token : Bytes}
      (hpc : (s.req r).pc = .loginSave phone userId jti token)
      (h : (exec err (SessionStore.save jti cfg.sessionTtl userId) s.redis).1 = .ok ()) :
    Said (.save r err) (.saved token)
  | ipLimited {err : Option String} {phone password code ip : String} {allowed : ℤ}
      (hpc : (s.req r).pc = .regCheck phone password code ip)
      (h : (exec err (RegisterGuard.kCheckScript (.regIp ip) cfg.maxPerIp) s.redis).1 = .ok allowed)
      (hnot : allowed ≠ 1) : Said (.regCheck r err) .ipLimited
  | regMalformed {err : Option String} {phone password code ip : String}
      (hpc : (s.req r).pc = .regCheck phone password code ip) (h : SmsService.isValidPhone phone = false) :
    Said (.regCheck r err) .malformed
  | weak {err : Option String} {phone password code ip : String}
      (hpc : (s.req r).pc = .regCheck phone password code ip)
      (h : password.utf8ByteSize < cfg.minPasswordLength) : Said (.regCheck r err) .weak
  | code {err : Option String} {phone password code ip : String} {reply : ℤ × ℤ}
      (hpc : (s.req r).pc = .regVerify phone password code ip)
      (h : (exec err (SmsService.verifyScript cfg.sms phone code) s.redis).1 = .ok reply) :
    Said (.regVerify r err) (.code (SmsService.onVerify (.ok reply)))
  | registered {phone password ip : String} {salt : Bytes} (hpc : (s.req r).pc = .regSelect phone password ip)
      (h : (s.userOf phone).isSome = true) : Said (.regSelect r none salt) .registered
  /-- refused by the unique key -/
  | duplicate {phone ip : String} {hash salt : Bytes} (hpc : (s.req r).pc = .regInsert phone ip hash salt)
      (h : (s.userOf phone).isSome = true) : Said (.regInsert r none) .registered
  | created {phone ip : String} {hash salt : Bytes} (hpc : (s.req r).pc = .regInsert phone ip hash salt)
      (h : s.userOf phone = none) : Said (.regInsert r none) .created

/-- **A failure that is answered as a fact.** The last case counts only if the number
in `WRONG_PASSWORD` is taken for a fact (`counted`). -/
inductive Flattened (counted : Prop) : Ev → Prop
  /-- the script of `verifyCode` failed: `CODE_INVALID` -/
  | verify {err : Option String} {phone password code ip what : String}
      (hpc : (s.req r).pc = .regVerify phone password code ip)
      (h : (exec err (SmsService.verifyScript cfg.sms phone code) s.redis).1 = .error what) :
    Flattened counted (.regVerify r err)
  /-- the INSERT failed with a text that reads like a duplicate: `PHONE_REGISTERED` -/
  | insert {what phone ip : String} {hash salt : Bytes} (hpc : (s.req r).pc = .regInsert phone ip hash salt)
      (h : isDuplicateEntry what = true) : Flattened counted (.regInsert r (some what))
  /-- the script of `onFailure` failed: `WRONG_PASSWORD:1` -/
  | failure {err : Option String} {phone what : String} (hc : counted) (hpc : (s.req r).pc = .loginWrong phone)
      (h : (exec err (failScript cfg phone) s.redis).1 = .error what) : Flattened counted (.onFailure r err)

end

/-- **What each answer must rest on**: what the answering step says, or an earlier one. -/
inductive Rests (counted : Prop) (now past : Fact → Prop) (a : Answer) : Prop
  | phone (h : now .malformed) (ha : a = .login false [] "INVALID_PHONE")
  | locked {seconds : ℤ} (h : now (.locked seconds)) (ha : a = .login false [] ("ACCOUNT_LOCKED:" ++ toString seconds))
  | disabled (h : now .disabled) (ha : a = .login false [] "ACCOUNT_DISABLED")
  | unknown (h : past .unknown) (ha : a = .login false [] "USER_NOT_FOUND")
  | lockedNow {f : LoginGuard.FailResult} (h : now (.failure f)) (hf : ∀ n, f ≠ .counting n)
      (ha : a = .login false [] (failMsg f))
  | wrong {user : User} {n : ℤ} (hfound : past (.found user)) (hwrong : past (.wrong user))
      (hn : counted → now (.failure (.counting n))) (ha : a = .login false [] (failMsg (.counting n)))
  | login {user : User} {token : Bytes} (hfound : past (.found user)) (hright : past (.right user))
      (hsaved : past (.saved token)) (ha : a = .login true token "OK")
  | ipLimited (h : now .ipLimited) (ha : a = .register false "REGISTER_IP_LIMITED")
  | regPhone (h : now .malformed) (ha : a = .register false "INVALID_PHONE")
  | weak (h : now .weak) (ha : a = .register false "WEAK_PASSWORD")
  | code {v : SmsService.VerifyResult} {msg : String} (h : now (.code v)) (hv : verifyMsg v = some msg)
      (ha : a = .register false msg)
  | registered (h : now .registered) (ha : a = .register false "PHONE_REGISTERED")
  | created (h : now .created) (ha : a = .register true "OK")

/-- What a position remembers. -/
def Pc.Learned (past : Fact → Prop) : Pc → Prop
  | .loginUnknown _ => past .unknown
  | .loginHash _ _ user => past (.found user)
  | .loginWrong _ => ∃ user, past (.found user) ∧ past (.wrong user)
  | .loginSave _ _ _ _ => ∃ user, past (.found user) ∧ past (.right user)
  | .loginSaved _ token ok => ok = true → past (.saved token) ∧ ∃ user, past (.found user) ∧ past (.right user)
  | _ => True

theorem Pc.Learned.mono {past past' : Fact → Prop} (h : ∀ f, past f → past' f) {p : Pc} (hp : p.Learned past) :
    p.Learned past' := by
  cases p with
  | loginUnknown => exact h _ hp
  | loginHash => exact h _ hp
  | loginWrong =>
    obtain ⟨user, hfound, hwrong⟩ := hp
    exact ⟨user, h _ hfound, h _ hwrong⟩
  | loginSave =>
    obtain ⟨user, hfound, hright⟩ := hp
    exact ⟨user, h _ hfound, h _ hright⟩
  | loginSaved phone token ok =>
    intro hok
    obtain ⟨hsaved, user, hfound, hright⟩ := hp hok
    exact ⟨h _ hsaved, user, h _ hfound, h _ hright⟩
  | _ => trivial

/-- **A position remembers** what the steps so far and this one said. -/
theorem learned_step {past past' : Fact → Prop} (hmono : ∀ f, past f → past' f)
    (hnow : ∀ f, Said cfg s r e f → past' f) (hs : step cfg s e = some t) (h : (s.req r).pc.Learned past) :
    (t.req r).pc.Learned past' := by
  rcases (step_effect hs).req r with heq | hmove
  · rw [heq]
    exact h.mono hmono
  · generalize t.req r = q at hmove
    cases hmove with
    | unknown hpc huser => exact hnow _ (.unknown hpc huser)
    | found hpc huser hstatus => exact hnow _ (.found hpc huser)
    | wrong hpc hv =>
      rw [hpc] at h
      exact ⟨_, hmono _ h, hnow _ (.wrong hpc hv)⟩
    | right hpc hv =>
      rw [hpc] at h
      exact ⟨_, hmono _ h, hnow _ (.right hpc hv)⟩
    | reset hreset => exact h.mono hmono
    | save hpc =>
      rw [hpc] at h
      obtain ⟨user, hfound, hright⟩ := h
      intro hok
      refine ⟨hnow _ (.saved hpc ?_), user, hmono _ hfound, hmono _ hright⟩
      generalize (exec _ _ s.redis).1 = reply at hok ⊢
      cases reply with
      | error what => cases hok
      | ok u => rfl
    | _ => trivial

/-- **The memory of a run.** -/
theorem run_learned {s₀ : State} (hidle : ∀ r, s₀.req r = .idle) {es : List Ev} (h : run (step cfg) s₀ es = some s)
    (r : ℕ) : (s.req r).pc.Learned fun f => Past (step cfg) s₀ es fun s e => Said cfg s r e f := by
  refine run_trace (I := fun es s =>
    (s.req r).pc.Learned fun f => Past (step cfg) s₀ es fun s e => Said cfg s r e f) ?_ ?_ h
  · rw [hidle r]
    trivial
  · intro es s e t hrun hlearned hstep
    exact learned_step (fun f hf => hf.snoc e) (fun f hf => past_last hrun hf) hstep hlearned

/-! ## Texts -/

theorem startsWith_append (start what : String) : UserController.startsWith (start ++ what) start = true := by
  unfold UserController.startsWith
  rw [String.toList_append, List.isPrefixOf_iff_prefix]
  exact List.prefix_append _ _

/-- A text that starts like an error of a store is a server error. -/
theorem statusForFailure_error {start : String} (h : start = "DB_ERROR:" ∨ start = "REDIS_ERROR:") (what : String) :
    UserController.statusForFailure (start ++ what) = 500 := by
  have hne : start ++ what ≠ "REGISTER_IP_LIMITED" := by
    intro heq
    have hlist := congrArg String.toList heq
    rcases h with rfl | rfl
    · simp [String.toList_append] at hlist
    · simp [String.toList_append] at hlist
  have hstarts := startsWith_append start what
  unfold UserController.statusForFailure
  rw [if_neg hne, if_pos]
  rcases h with rfl | rfl
  · exact Or.inl hstarts
  · exact Or.inr (Or.inl hstarts)

/-- MySQL's own text is recognised. -/
theorem isDuplicateEntry_duplicateEntry (phone : String) : isDuplicateEntry (duplicateEntry phone) = true := by
  have hstarts : "Duplicate entry".toList.isPrefixOf (duplicateEntry phone).toList = true := by
    rw [List.isPrefixOf_iff_prefix]
    refine ⟨(" '" ++ phone ++ "' for key 'user.uk_phone'").toList, ?_⟩
    unfold duplicateEntry
    simp only [String.toList_append, ← List.append_assoc]
    rfl
  unfold isDuplicateEntry
  rw [List.any_cons, Bool.or_eq_true]
  left
  rw [List.any_eq_true]
  exact ⟨_, (List.mem_tails _ _).2 List.suffix_rfl, hstarts⟩

/-! ## The answers -/

theorem answer_set {u : State} {q : Req} {r₁ : ℕ} {a : Answer} (hu : u.req = s.req) (hnone : (s.req r).answer = none)
    (h : ((u.set r₁ q).req r).answer = some a) : r = r₁ ∧ q.answer = some a := by
  rw [State.set_req] at h
  by_cases hr : r = r₁
  · rw [if_pos hr] at h
    exact ⟨hr, h⟩
  · rw [if_neg hr, hu, hnone] at h
    cases h

/-- A step that is no answer. -/
theorem not_answer_set {u : State} {q : Req} {r₁ : ℕ} {a : Answer} (hu : u.req = s.req)
    (hnone : (s.req r).answer = none) (hq : q.answer = (s.req r₁).answer) : ((u.set r₁ q).req r).answer ≠ some a := by
  intro h
  obtain ⟨rfl, ha⟩ := answer_set hu hnone h
  rw [hq, hnone] at ha
  cases ha

theorem answer_finish {u : State} {b : Answer} {r₁ : ℕ} {a : Answer} (hu : u.req = s.req)
    (hnone : (s.req r).answer = none) (h : ((u.set r₁ ((s.req r₁).finish b)).req r).answer = some a) :
    r = r₁ ∧ b = a := by
  obtain ⟨hr, hq⟩ := answer_set hu hnone h
  exact ⟨hr, Option.some.inj hq⟩

/-- The answer of a step is a server error, rests on what was said, or comes from a
flattened failure. -/
def Accounted (cfg : Config) (s : State) (r : ℕ) (counted : Prop) (past : Fact → Prop) (e : Ev) (a : Answer) : Prop :=
  (∀ response, UserController.respond a = some response → 500 ≤ response.status) ∨
    Rests counted (Said cfg s r e) past a ∨ Flattened cfg s r counted e

section

variable {counted : Prop} {past : Fact → Prop} {a : Answer}

theorem accounted_login {msg : String} (h : UserController.statusForFailure msg = 500) :
    Accounted cfg s r counted past e (.login false [] msg) := by
  left
  rintro response hresponse
  rw [← Option.some.inj hresponse]
  exact h.ge

theorem accounted_register {msg : String} (h : UserController.statusForFailure msg = 500) :
    Accounted cfg s r counted past e (.register false msg) := by
  left
  rintro response hresponse
  rw [← Option.some.inj hresponse]
  exact h.ge

theorem accounted_said (h : Rests counted (Said cfg s r e) past a) : Accounted cfg s r counted past e a :=
  Or.inr (Or.inl h)

theorem accounted_flattened (h : Flattened cfg s r counted e) : Accounted cfg s r counted past e a :=
  Or.inr (Or.inr h)

/-- The answers of the other endpoints. -/
theorem accounted_other (h : UserController.respond a = none) : Accounted cfg s r counted past e a := by
  left
  intro response hresponse
  rw [h] at hresponse
  cases hresponse

variable {r₁ : ℕ} {err : Option String} (hnone : (s.req r).answer = none) (ha : (t.req r).answer = some a)

include hnone ha

/-! ### Login -/

theorem login_accounted {phone password : String} (hs : loginStep s r₁ phone password = some t) :
    Accounted cfg s r counted past (.login r₁ phone password) a := by
  obtain ⟨-, ⟨-, rfl⟩ | ⟨hphone, rfl⟩⟩ := loginStep_cases hs
  · exact absurd ha (not_answer_set rfl hnone rfl)
  · obtain ⟨rfl, rfl⟩ := answer_finish rfl hnone ha
    exact accounted_said (.phone (.malformed hphone) rfl)

theorem checkLocked_accounted (hs : checkLockedStep s r₁ err = some t) :
    Accounted cfg s r counted past (.checkLocked r₁ err) a := by
  obtain ⟨phone, password, hpc, p, rfl, ⟨-, rfl⟩ | ⟨remain, hremain, rfl⟩⟩ := checkLockedStep_cases hs
  · exact absurd ha (not_answer_set rfl hnone rfl)
  · obtain ⟨rfl, rfl⟩ := answer_finish rfl hnone ha
    cases hreply : (exec err (LoginGuard.kCheckScript (.loginLock phone)) s.redis).1 with
    | error what =>
      -- a check that fails lets pass
      rw [hreply] at hremain
      cases hremain
    | ok seconds =>
      rw [hreply, LoginGuard.onCheck] at hremain
      split at hremain
      · rename_i hpos
        cases hremain
        exact accounted_said (.locked (.locked hpc hreply hpos) rfl)
      · cases hremain

theorem loginSelect_accounted (hs : loginSelectStep s r₁ err = some t) :
    Accounted cfg s r counted past (.loginSelect r₁ err) a := by
  obtain ⟨phone, password, hpc, ⟨msg, hmsg, rfl⟩ | ⟨-, -, rfl⟩ | ⟨-, user, -, -, rfl⟩⟩ := loginSelectStep_cases hs
  · obtain ⟨rfl, rfl⟩ := answer_finish rfl hnone ha
    rcases hmsg with ⟨what, -, rfl⟩ | ⟨rfl, ⟨user, huser, hstatus⟩, rfl⟩
    · exact accounted_login (statusForFailure_error (Or.inl rfl) what)
    · exact accounted_said (.disabled (.disabled hpc huser hstatus) rfl)
  · exact absurd ha (not_answer_set rfl hnone rfl)
  · exact absurd ha (not_answer_set rfl hnone rfl)

theorem loginHash_accounted {fails : Bool} {jti : Bytes} {clock : ℤ}
    (hs : loginHashStep cfg s r₁ fails jti clock = some t) :
    Accounted cfg s r counted past (.loginHash r₁ fails jti clock) a := by
  obtain ⟨phone, password, user, -, ⟨-, rfl⟩ | ⟨-, -, rfl⟩ | ⟨-, -, rfl⟩⟩ := loginHashStep_cases hs
  · obtain ⟨rfl, rfl⟩ := answer_finish rfl hnone ha
    exact accounted_login (by decide)
  · exact absurd ha (not_answer_set rfl hnone rfl)
  · exact absurd ha (not_answer_set rfl hnone rfl)

/-- The phone was unknown, or the password wrong; what fails here is the count. -/
theorem onFailure_accounted (hpast : (s.req r).pc.Learned past) (hs : onFailureStep cfg s r₁ err = some t) :
    Accounted cfg s r counted past (.onFailure r₁ err) a := by
  obtain ⟨phone, msg, hpc, rfl⟩ := onFailureStep_cases hs
  obtain ⟨rfl, rfl⟩ := answer_finish rfl hnone ha
  rcases hpc with ⟨hpc, rfl⟩ | ⟨hpc, rfl⟩
  · rw [hpc] at hpast
    exact accounted_said (.unknown hpast rfl)
  · rw [hpc] at hpast
    obtain ⟨user, hfound, hwrong⟩ := hpast
    cases hreply : (exec err (failScript cfg phone) s.redis).1 with
    | error what =>
      by_cases hc : counted
      · exact accounted_flattened (.failure hc hpc hreply)
      · exact accounted_said (.wrong hfound hwrong (fun h => absurd h hc) rfl)
    | ok reply =>
      have hsaid := Said.failure hpc hreply
      cases hf : LoginGuard.onReply (.ok reply) with
      | counting n =>
        rw [hf] at hsaid
        exact accounted_said (.wrong hfound hwrong (fun _ => hsaid) rfl)
      | lockedNow seconds =>
        rw [hf] at hsaid
        exact accounted_said (.lockedNow hsaid (by simp) rfl)
      | alreadyLocked seconds =>
        rw [hf] at hsaid
        exact accounted_said (.lockedNow hsaid (by simp) rfl)

theorem saved_accounted (hpast : (s.req r).pc.Learned past) (hs : savedStep s r₁ = some t) :
    Accounted cfg s r counted past (.saved r₁) a := by
  obtain ⟨phone, token, ok, hpc, rfl⟩ := savedStep_cases hs
  obtain ⟨rfl, rfl⟩ := answer_finish rfl hnone ha
  rw [hpc] at hpast
  cases ok with
  | true =>
    obtain ⟨hsaved, user, hfound, hright⟩ := hpast rfl
    exact accounted_said (.login hfound hright hsaved rfl)
  | false => exact accounted_login (statusForFailure_error (Or.inr rfl) "session save failed")

/-! ### Registration -/

theorem regCheck_accounted (hs : regCheckStep cfg s r₁ err = some t) :
    Accounted cfg s r counted past (.regCheck r₁ err) a := by
  obtain ⟨phone, password, code, ip, hpc, p, rfl, ⟨msg, hmsg, rfl⟩ | ⟨-, -, rfl | ⟨-, rfl⟩⟩⟩ := regCheckStep_cases hs
  · obtain ⟨rfl, rfl⟩ := answer_finish rfl hnone ha
    rcases hmsg with ⟨hcheck, rfl⟩ | ⟨hphone, rfl⟩ | ⟨hweak, rfl⟩
    · cases hreply : (exec err (RegisterGuard.kCheckScript (.regIp ip) cfg.maxPerIp) s.redis).1 with
      | error what =>
        -- a check that fails lets pass
        rw [hreply] at hcheck
        cases hcheck
      | ok allowed =>
        rw [hreply] at hcheck
        have hnot : allowed ≠ 1 := of_decide_eq_false hcheck
        exact accounted_said (.ipLimited (.ipLimited hpc hreply hnot) rfl)
    · exact accounted_said (.regPhone (.regMalformed hpc hphone) rfl)
    · exact accounted_said (.weak (.weak hpc hweak) rfl)
  · exact absurd ha (not_answer_set rfl hnone rfl)
  · exact absurd ha (not_answer_set rfl hnone rfl)

theorem regVerify_accounted (hs : regVerifyStep cfg s r₁ err = some t) :
    Accounted cfg s r counted past (.regVerify r₁ err) a := by
  obtain ⟨phone, password, code, ip, hpc, p, rfl, ⟨msg, hmsg, rfl⟩ | ⟨-, rfl⟩⟩ := regVerifyStep_cases hs
  · obtain ⟨rfl, rfl⟩ := answer_finish rfl hnone ha
    cases hreply : (exec err (SmsService.verifyScript cfg.sms phone code) s.redis).1 with
    | error what => exact accounted_flattened (.verify hpc hreply)
    | ok reply =>
      rw [hreply] at hmsg
      exact accounted_said (.code (.code hpc hreply) hmsg rfl)
  · exact absurd ha (not_answer_set rfl hnone rfl)

theorem regSelect_accounted {salt : Bytes} (hs : regSelectStep s r₁ err salt = some t) :
    Accounted cfg s r counted past (.regSelect r₁ err salt) a := by
  obtain ⟨phone, password, ip, hpc, ⟨msg, hmsg, rfl⟩ | ⟨-, -, rfl⟩⟩ := regSelectStep_cases hs
  · obtain ⟨rfl, rfl⟩ := answer_finish rfl hnone ha
    rcases hmsg with ⟨what, -, rfl⟩ | ⟨rfl, huser, rfl⟩ | rfl
    · exact accounted_register (statusForFailure_error (Or.inl rfl) what)
    · exact accounted_said (.registered (.registered hpc huser) rfl)
    · exact accounted_register (by decide)
  · exact absurd ha (not_answer_set rfl hnone rfl)

theorem regHash_accounted {fails : Bool} (hs : regHashStep cfg s r₁ fails = some t) :
    Accounted cfg s r counted past (.regHash r₁ fails) a := by
  obtain ⟨phone, password, ip, salt, -, rfl | ⟨hash, -, rfl⟩⟩ := regHashStep_cases hs
  · obtain ⟨rfl, rfl⟩ := answer_finish rfl hnone ha
    exact accounted_register (by decide)
  · exact absurd ha (not_answer_set rfl hnone rfl)

/-- A failed INSERT is told from a duplicate by its text. -/
theorem regInsert_accounted (hs : regInsertStep s r₁ err = some t) :
    Accounted cfg s r counted past (.regInsert r₁ err) a := by
  obtain ⟨phone, ip, hash, salt, hpc, ⟨what, hwhat, rfl⟩ | ⟨rfl, huser, rfl⟩⟩ := regInsertStep_cases hs
  · obtain ⟨rfl, rfl⟩ := answer_finish rfl hnone ha
    rcases hwhat with rfl | ⟨rfl, huser, rfl⟩
    · by_cases hdup : isDuplicateEntry what = true
      · exact accounted_flattened (.insert hpc hdup)
      · rw [insertMsg, if_neg hdup]
        exact accounted_register (statusForFailure_error (Or.inl rfl) what)
    · rw [insertMsg, if_pos (isDuplicateEntry_duplicateEntry phone)]
      exact accounted_said (.registered (.duplicate hpc huser) rfl)
  · obtain ⟨rfl, hq⟩ := answer_set rfl hnone ha
    cases hq
    exact accounted_said (.created (.created hpc huser) rfl)

/-! ### Every step -/

/-- **An answer is a server error, rests on what was said, or comes from a flattened failure.** -/
theorem answered_accounted (hpast : (s.req r).pc.Learned past) (hs : step cfg s e = some t) :
    Accounted cfg s r counted past e a := by
  cases e with
  | login r₁ phone password => exact login_accounted hnone ha hs
  | checkLocked r₁ err => exact checkLocked_accounted hnone ha hs
  | loginSelect r₁ err => exact loginSelect_accounted hnone ha hs
  | loginHash r₁ fails jti clock => exact loginHash_accounted hnone ha hs
  | onFailure r₁ err => exact onFailure_accounted hnone ha hpast hs
  | onSuccess r₁ err =>
    obtain ⟨phone, -, rfl⟩ := onSuccessStep_cases hs
    exact absurd ha (not_answer_set rfl hnone rfl)
  | save r₁ err =>
    obtain ⟨phone, userId, jti, token, -, p, -, rfl⟩ := saveStep_cases hs
    exact absurd ha (not_answer_set rfl hnone rfl)
  | saved r₁ => exact saved_accounted hnone ha hpast hs
  | registerUser r₁ phone password code ip =>
    obtain ⟨-, rfl⟩ := registerUserStep_cases hs
    exact absurd ha (not_answer_set rfl hnone rfl)
  | regCheck r₁ err => exact regCheck_accounted hnone ha hs
  | regVerify r₁ err => exact regVerify_accounted hnone ha hs
  | regSelect r₁ err salt => exact regSelect_accounted hnone ha hs
  | regHash r₁ fails => exact regHash_accounted hnone ha hs
  | regInsert r₁ err => exact regInsert_accounted hnone ha hs
  | markSuccess r₁ err =>
    obtain ⟨ip, row, -, rfl⟩ := markSuccessStep_cases hs
    exact absurd ha (not_answer_set rfl hnone rfl)
  | logout r₁ token clock =>
    obtain ⟨-, ⟨b, rfl | rfl, rfl⟩ | ⟨claims, -, rfl⟩⟩ := logoutStep_cases hs
    · obtain ⟨-, rfl⟩ := answer_finish rfl hnone ha
      exact accounted_other rfl
    · obtain ⟨-, rfl⟩ := answer_finish rfl hnone ha
      exact accounted_other rfl
    · exact absurd ha (not_answer_set rfl hnone rfl)
  | revoke r₁ err =>
    obtain ⟨jti, -, p, -, rfl⟩ := revokeStep_cases hs
    obtain ⟨-, rfl⟩ := answer_finish rfl hnone ha
    exact accounted_other rfl
  | authenticate r₁ token clock =>
    obtain ⟨-, ⟨what, -, rfl⟩ | ⟨-, rfl⟩ | ⟨claims, -, rfl⟩⟩ := authenticateStep_cases hs
    · obtain ⟨-, rfl⟩ := answer_finish rfl hnone ha
      exact accounted_other rfl
    · obtain ⟨-, rfl⟩ := answer_finish rfl hnone ha
      exact accounted_other rfl
    · exact absurd ha (not_answer_set rfl hnone rfl)
  | sessionExists r₁ err =>
    obtain ⟨jti, userId, -, p, -, rfl⟩ := existsStep_cases hs
    obtain ⟨-, rfl⟩ := answer_finish rfl hnone ha
    exact accounted_other rfl
  | sendCode phone code day dailyTtl delivered =>
    rw [← Option.some.inj hs] at ha
    exact absurd (hnone.symm.trans ha) (by simp)
  | wait ms =>
    rw [← Option.some.inj hs] at ha
    exact absurd (hnone.symm.trans ha) (by simp)

end

/-! ## Flattened failures -/

/-- An operation that failed says nothing. -/
theorem flattened_silent {counted : Prop} (h : Flattened cfg s r counted e) (f : Fact) : ¬Said cfg s r e f := by
  intro hsaid
  cases h with
  | verify hpc herror =>
    cases hsaid with
    | code hpc' hreply =>
      rw [hpc] at hpc'
      cases hpc'
      rw [herror] at hreply
      cases hreply
  | insert hpc hdup => cases hsaid
  | failure hc hpc herror =>
    cases hsaid with
    | failure hpc' hreply =>
      rw [hpc] at hpc'
      cases hpc'
      rw [herror] at hreply
      cases hreply

theorem flattened_answer {counted : Prop} {a : Answer} (h : Flattened cfg s r counted e)
    (hs : step cfg s e = some t) (hnone : (s.req r).answer = none) (ha : (t.req r).answer = some a) :
    a = .register false "CODE_INVALID" ∨ a = .register false "PHONE_REGISTERED" ∨
      counted ∧ a = .login false [] "WRONG_PASSWORD:1" := by
  cases h with
  | verify hpc herror =>
    obtain ⟨phone, password, code, ip, hpc', p, rfl, ⟨msg, hmsg, rfl⟩ | ⟨-, rfl⟩⟩ := regVerifyStep_cases hs
    · obtain ⟨-, rfl⟩ := answer_finish rfl hnone ha
      rw [hpc] at hpc'
      cases hpc'
      rw [herror] at hmsg
      cases hmsg
      exact Or.inl rfl
    · exact absurd ha (not_answer_set rfl hnone rfl)
  | insert hpc hdup =>
    have hstep : regInsertStep s r (some _) = some t := hs
    obtain ⟨phone, ip, hash, salt, -, ⟨what, hwhat, rfl⟩ | ⟨herr, -, -⟩⟩ := regInsertStep_cases hstep
    · obtain ⟨-, rfl⟩ := answer_finish rfl hnone ha
      rcases hwhat with heq | ⟨herr, -⟩
      · cases heq
        rw [insertMsg, if_pos hdup]
        exact Or.inr (Or.inl rfl)
      · cases herr
    · cases herr
  | failure hc hpc herror =>
    obtain ⟨phone, msg, hwaits, rfl⟩ := onFailureStep_cases hs
    obtain ⟨-, rfl⟩ := answer_finish rfl hnone ha
    rw [hpc] at hwaits
    rcases hwaits with ⟨hpc', -⟩ | ⟨hpc', rfl⟩
    · cases hpc'
    · cases hpc'
      rw [herror]
      exact Or.inr (Or.inr ⟨hc, rfl⟩)

/-- The answers that need nothing from their own step. -/
theorem Rests.of_silent {counted : Prop} {now past : Fact → Prop} {a : Answer} (h : Rests counted now past a)
    (hsilent : ∀ f, ¬now f) :
    a = .login false [] "USER_NOT_FOUND" ∨ (∃ token, a = .login true token "OK") ∨
      ¬counted ∧ ∃ n, a = .login false [] (failMsg (.counting n)) := by
  cases h
  case unknown h ha => exact Or.inl ha
  case login token hfound hright hsaved ha => exact Or.inr (Or.inl ⟨token, ha⟩)
  case wrong n hfound hwrong hn ha => exact Or.inr (Or.inr ⟨fun hc => hsilent _ (hn hc), n, ha⟩)
  all_goals exact absurd (by assumption) (hsilent _)

/-- **A flattened failure is answered with a client error that nothing supports.** -/
theorem flattened_unfounded {counted : Prop} {past : Fact → Prop} {a : Answer} {response : Response}
    (h : Flattened cfg s r counted e) (hs : step cfg s e = some t) (hnone : (s.req r).answer = none)
    (ha : (t.req r).answer = some a) (hresponse : UserController.respond a = some response) :
    response.status = 409 ∧ ¬Rests counted (Said cfg s r e) past a := by
  have hsilent := flattened_silent h
  rcases flattened_answer h hs hnone ha with rfl | rfl | ⟨hc, rfl⟩
  · rw [← Option.some.inj hresponse]
    refine ⟨by decide, fun hrests => ?_⟩
    rcases hrests.of_silent hsilent with ha | ⟨token, ha⟩ | ⟨-, n, ha⟩ <;> cases ha
  · rw [← Option.some.inj hresponse]
    refine ⟨by decide, fun hrests => ?_⟩
    rcases hrests.of_silent hsilent with ha | ⟨token, ha⟩ | ⟨-, n, ha⟩ <;> cases ha
  · rw [← Option.some.inj hresponse]
    refine ⟨by decide, fun hrests => ?_⟩
    rcases hrests.of_silent hsilent with ha | ⟨token, ha⟩ | ⟨hnc, -⟩
    · have hmsg : "WRONG_PASSWORD:1" = "USER_NOT_FOUND" := (Answer.login.inj ha).2.2
      exact absurd hmsg (by decide)
    · cases ha
    · exact hnc hc

end Seckill.UserService
