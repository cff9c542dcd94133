import Seckill.Proof.UserService

/-!
# What login tells about a phone

Two user tables that differ only in the row of a phone `p`: in one it has an enabled
account, in the other one it has none. A caller who does not know the password sends
the same calls to both. `login` counts the failure of an unknown phone so that he
cannot tell them apart, but it answers `USER_NOT_FOUND` on the one path and
`WRONG_PASSWORD` on the other one.

So the answers are the same if and only if no call for `p` gets a row or its absence
from the SELECT (`Stopped`): `login_enumeration`.
-/

namespace Seckill.UserService

open Redis

variable {cfg : Config} {s t : State} {e : Ev} {p : String}

/-! ## Complete calls -/

/-- One call of `login`: its arguments, the milliseconds that pass before each of its
operations (counted down from `6`), and what the operations take from outside. -/
structure LoginCall where
  phone : String
  password : String
  pause : ℕ → ℕ
  checkErr : Option String
  selectErr : Option String
  hashFails : Bool
  failErr : Option String
  delErr : Option String
  saveErr : Option String
  jti : Bytes
  clock : ℤ

namespace LoginCall

/-- The next operation of the call. -/
def next (c : LoginCall) (q : Req) : Option Ev :=
  match q.pc with
  | .idle => some (.login 0 c.phone c.password)
  | .loginCheck _ _ => some (.checkLocked 0 c.checkErr)
  | .loginSelect _ _ => some (.loginSelect 0 c.selectErr)
  | .loginHash _ _ _ => some (.loginHash 0 c.hashFails c.jti c.clock)
  | .loginUnknown _ | .loginWrong _ => some (.onFailure 0 c.failErr)
  | .loginSave _ _ _ _ => if q.reset.isSome then some (.onSuccess 0 c.delErr) else some (.save 0 c.saveErr)
  | .loginSaved _ _ _ => some (.saved 0)
  | _ => none

/-- The state after at most `n` operations of the call. -/
def run (cfg : Config) (c : LoginCall) : ℕ → State → State
  | 0, s => s
  | n + 1, s => match c.next (s.req 0) with
    | none => s
    | some e => match step cfg { s with redis := s.redis.wait (c.pause n) } e with
      | none => s
      | some t => c.run cfg n t

/-- The state after the call, from one without requests. -/
def serve (cfg : Config) (s : State) (c : LoginCall) : State := c.run cfg 7 { s with req := fun _ => .idle }

/-- What the caller is told. -/
def answer (cfg : Config) (s : State) (c : LoginCall) : Option Answer := ((c.serve cfg s).req 0).answer

theorem run_succ {c : LoginCall} {n : ℕ} (he : c.next (s.req 0) = some e)
    (h : step cfg { s with redis := s.redis.wait (c.pause n) } e = some t) : c.run cfg (n + 1) s = c.run cfg n t := by
  rw [run, he]
  simp only
  rw [h]

end LoginCall

/-- The answers to the calls, one after the other. -/
def answers (cfg : Config) (s : State) : List LoginCall → List (Option Answer)
  | [] => []
  | c :: cs => c.answer cfg s :: answers cfg (c.serve cfg s) cs

/-! ## Another table -/

/-- The same state over another user table. -/
def State.withUsers (s : State) (users : List User) (nextId : Int64) : State :=
  { s with users := users, nextId := nextId }

/-- The lock check of the call stops it, in this store. -/
def LoginCall.LockedAt (c : LoginCall) (redis : Store Key) : Prop :=
  LoginGuard.onCheck (exec c.checkErr (LoginGuard.kCheckScript (.loginLock c.phone)) redis).1 ≠ none

/-- The call ends before the SELECT gives it anything: its phone is no phone, or is
locked when the check runs, or the SELECT fails. -/
def LoginCall.Stopped (c : LoginCall) (s : State) : Prop :=
  SmsService.isValidPhone c.phone = false ∨ c.LockedAt ((s.redis.wait (c.pause 6)).wait (c.pause 5)) ∨
    c.selectErr ≠ none

instance LoginCall.stoppedDecidable (c : LoginCall) (s : State) : Decidable (c.Stopped s) :=
  inferInstanceAs (Decidable (_ = false ∨ LoginGuard.onCheck _ ≠ none ∨ _ ≠ none))

/-- With `n` operations to go, the call will not see the row of `p`. -/
def LoginCall.Blind (c : LoginCall) (p : String) (n : ℕ) (s : State) : Prop :=
  match (s.req 0).pc with
  | .idle => c.phone = p → SmsService.isValidPhone c.phone = false ∨
      c.LockedAt ((s.redis.wait (c.pause (n - 1))).wait (c.pause (n - 2))) ∨ c.selectErr ≠ none
  | .loginCheck phone _ =>
    phone = c.phone ∧ (c.phone = p → c.LockedAt (s.redis.wait (c.pause (n - 1))) ∨ c.selectErr ≠ none)
  | .loginSelect phone _ => phone = c.phone ∧ (c.phone = p → c.selectErr ≠ none)
  | _ => True

/-- The request is not past its SELECT. -/
def Pc.early : Pc → Bool
  | .idle | .loginCheck _ _ | .loginSelect _ _ => true
  | _ => false

theorem LoginCall.blind_of {c : LoginCall} {n : ℕ} (h : (s.req 0).pc.early = false) : c.Blind p n s := by
  unfold Blind
  cases hq : (s.req 0).pc <;> rw [hq] at h <;> trivial

/-- **A blind call stays blind.** -/
theorem LoginCall.blind_step {c : LoginCall} {n : ℕ} (hb : c.Blind p (n + 1) s) (he : c.next (s.req 0) = some e)
    (h : step cfg { s with redis := s.redis.wait (c.pause n) } e = some t) : c.Blind p n t := by
  have hself : ∀ (u : State) (q : Req), (u.set 0 q).req 0 = q := fun u q => by rw [State.set_req, if_pos rfl]
  unfold next at he
  split at he
  · rename_i hpc
    cases he
    unfold Blind at hb
    rw [hpc] at hb
    obtain ⟨-, ⟨hvalid, rfl⟩ | ⟨hvalid, rfl⟩⟩ := loginStep_cases h
    · unfold Blind
      rw [hself]
      refine ⟨rfl, fun hp => ?_⟩
      rcases hb hp with hv | hl
      · rw [hvalid] at hv
        cases hv
      · exact hl
    · exact blind_of (by rw [hself]; rfl)
  · rename_i phone password hpc
    cases he
    unfold Blind at hb
    rw [hpc] at hb
    obtain ⟨ph, pw, hpc', x, rfl, ⟨hnone, rfl⟩ | ⟨remain, -, rfl⟩⟩ := checkLockedStep_cases h
    · cases hpc.symm.trans hpc'
      unfold Blind
      rw [hself]
      -- the check passed, so it is not the lock that blinds the call
      refine ⟨hb.1, fun hp => (hb.2 hp).resolve_left fun hl => hl ?_⟩
      rw [← hb.1]
      exact hnone
    · exact blind_of (by rw [hself]; rfl)
  · cases he
    -- from here on there is no SELECT to come
    obtain ⟨ph, pw, -, ⟨msg, -, rfl⟩ | ⟨-, -, rfl⟩ | ⟨-, user, -, -, rfl⟩⟩ := loginSelectStep_cases h <;>
      exact blind_of (by rw [hself]; rfl)
  · cases he
    obtain ⟨ph, pw, user, -, ⟨-, rfl⟩ | ⟨-, -, rfl⟩ | ⟨-, -, rfl⟩⟩ := loginHashStep_cases h <;>
      exact blind_of (by rw [hself]; rfl)
  · cases he
    obtain ⟨ph, msg, -, rfl⟩ := onFailureStep_cases h
    exact blind_of (by rw [hself]; rfl)
  · cases he
    obtain ⟨ph, msg, -, rfl⟩ := onFailureStep_cases h
    exact blind_of (by rw [hself]; rfl)
  · rename_i hpc
    split at he
    · cases he
      obtain ⟨ph, -, rfl⟩ := onSuccessStep_cases h
      exact blind_of (by rw [hself]; simp only; rw [hpc]; rfl)
    · cases he
      obtain ⟨ph, id, jti, token, -, x, -, rfl⟩ := saveStep_cases h
      exact blind_of (by rw [hself]; rfl)
  · cases he
    obtain ⟨ph, token, ok, -, rfl⟩ := savedStep_cases h
    exact blind_of (by rw [hself]; rfl)
  · cases he

/-- **A step that does not look up `p` does the same over the other table.** -/
theorem LoginCall.step_withUsers {c : LoginCall} (cfg : Config) (users : List User) (nextId : Int64)
    (he : c.next (s.req 0) = some e)
    (hrow : ∀ phone password, (s.req 0).pc = .loginSelect phone password → c.selectErr = none →
      (s.withUsers users nextId).userOf phone = s.userOf phone) :
    step cfg (s.withUsers users nextId) e = (step cfg s e).map fun t => t.withUsers users nextId := by
  unfold next at he
  split at he
  · rename_i hpc
    cases he
    simp only [step, loginStep, State.withUsers, hpc]
    split <;> rfl
  · rename_i phone password hpc
    cases he
    simp only [step, checkLockedStep, State.withUsers, hpc]
    rfl
  · rename_i phone password hpc
    cases he
    cases herr : c.selectErr with
    | some what =>
      simp only [step, loginSelectStep, State.withUsers, hpc]
      rfl
    | none =>
      -- the only step that looks at the table
      have hrow := hrow phone password hpc herr
      have hpc' : ((s.withUsers users nextId).req 0).pc = .loginSelect phone password := hpc
      simp only [step, loginSelectStep, hpc, hpc', hrow]
      cases s.userOf phone with
      | none => rfl
      | some user =>
        simp only
        split <;> rfl
  · rename_i phone password user hpc
    cases he
    simp only [step, loginHashStep, State.withUsers, hpc]
    split_ifs <;> rfl
  · rename_i phone hpc
    cases he
    simp only [step, onFailureStep, State.withUsers, hpc]
    rfl
  · rename_i phone hpc
    cases he
    simp only [step, onFailureStep, State.withUsers, hpc]
    rfl
  · rename_i phone userId jti token hpc
    split at he
    · cases he
      simp only [step, onSuccessStep, State.withUsers, Option.map_map]
      rfl
    · cases he
      simp only [step, saveStep, State.withUsers, hpc]
      rfl
  · rename_i phone token ok hpc
    cases he
    simp only [step, savedStep, State.withUsers, hpc]
    rfl
  · cases he

/-- The steps of a call do not write the table. -/
theorem LoginCall.step_users {c : LoginCall} (he : c.next (s.req 0) = some e) (h : step cfg s e = some t) :
    t.users = s.users := by
  have hself := c.step_withUsers cfg s.users s.nextId he fun _ _ _ _ => rfl
  rw [show s.withUsers s.users s.nextId = s from rfl, h] at hself
  rw [Option.some.inj hself]
  rfl

/-- **A blind call does the same over the other table.** -/
theorem LoginCall.run_withUsers {c : LoginCall} {users : List User} {nextId : Int64} :
    ∀ (n : ℕ) (s : State), (∀ q, q ≠ p → (s.withUsers users nextId).userOf q = s.userOf q) → c.Blind p n s →
      c.run cfg n (s.withUsers users nextId) = (c.run cfg n s).withUsers users nextId := by
  intro n
  induction n with
  | zero => exact fun s _ _ => rfl
  | succ n ih =>
    intro s hoff hb
    have hreq : (s.withUsers users nextId).req 0 = s.req 0 := rfl
    rw [run, run, hreq]
    cases he : c.next (s.req 0) with
    | none => rfl
    | some e =>
      have hrow : ∀ phone password, (s.req 0).pc = .loginSelect phone password → c.selectErr = none →
          (s.withUsers users nextId).userOf phone = s.userOf phone := by
        intro phone password hpc herr
        unfold Blind at hb
        rw [hpc] at hb
        refine hoff phone fun hp => ?_
        exact hb.2 (hb.1.symm.trans hp) herr
      have hstep := step_withUsers (s := { s with redis := s.redis.wait (c.pause n) }) cfg users nextId he hrow
      have hwait : ({ s.withUsers users nextId with redis := s.redis.wait (c.pause n) } : State) =
        State.withUsers { s with redis := s.redis.wait (c.pause n) } users nextId := rfl
      simp only
      rw [show (s.withUsers users nextId).redis = s.redis from rfl, hwait, hstep]
      cases ht : step cfg { s with redis := s.redis.wait (c.pause n) } e with
      | none => rfl
      | some t =>
        have husers : t.users = s.users :=
          c.step_users (s := { s with redis := s.redis.wait (c.pause n) }) he ht
        refine ih t (fun q hq => ?_) (blind_step hb he ht)
        have := hoff q hq
        unfold State.userOf at this ⊢
        rw [husers]
        exact this

/-! ## A call that reaches the row -/

/-- A call that is not stopped comes to its SELECT. -/
theorem LoginCall.serve_select {c : LoginCall} (h : ¬c.Stopped s) (cfg : Config) :
    ∃ t, c.serve cfg s = c.run cfg 5 t ∧ t.req 0 = ⟨.loginSelect c.phone c.password, none, none⟩ ∧
      t.users = s.users := by
  unfold Stopped at h
  push Not at h
  obtain ⟨hvalid, hlock, -⟩ := h
  have hvalid : SmsService.isValidPhone c.phone = true := by simpa using hvalid
  set s₀ : State := { s with req := fun _ => .idle }
  set s₁ : State := { s₀ with redis := s.redis.wait (c.pause 6) }
  have hlogin : step cfg s₁ (.login 0 c.phone c.password) =
      some (s₁.set 0 (Req.idle.at (.loginCheck c.phone c.password))) := by
    have hidle : (s₁.req 0).pc = .idle := rfl
    simp only [step, loginStep, hidle, hvalid]
    rfl
  set s₂ : State := s₁.set 0 (Req.idle.at (.loginCheck c.phone c.password))
  set s₃ : State := { s₂ with redis := s₂.redis.wait (c.pause 5) }
  have hcheck : ∃ redis, step cfg s₃ (.checkLocked 0 c.checkErr) = some ({ s₃ with redis := redis }.set 0
      (Req.idle.at (.loginSelect c.phone c.password))) := by
    have hreq : s₃.req 0 = Req.idle.at (.loginCheck c.phone c.password) := by simp [s₃, s₂]
    have hopen : LoginGuard.onCheck
        (exec c.checkErr (LoginGuard.kCheckScript (.loginLock c.phone)) s₃.redis).1 = none := by
      unfold LockedAt at hlock
      exact not_not.1 hlock
    refine ⟨(exec c.checkErr (LoginGuard.kCheckScript (.loginLock c.phone)) s₃.redis).2, ?_⟩
    have hpc : (s₃.req 0).pc = .loginCheck c.phone c.password := by rw [hreq]; rfl
    simp only [step, checkLockedStep, hpc]
    rw [hopen, hreq]
    rfl
  obtain ⟨redis, hcheck⟩ := hcheck
  refine ⟨{ s₃ with redis := redis }.set 0 (Req.idle.at (.loginSelect c.phone c.password)), ?_, ?_, rfl⟩
  · unfold serve
    rw [run_succ (s := s₀) rfl hlogin]
    refine run_succ ?_ hcheck
    have hreq : s₂.req 0 = Req.idle.at (.loginCheck c.phone c.password) := by simp [s₂]
    rw [hreq]
    rfl
  · simp [Req.idle, Req.at]

/-- A call that is over stays as it is. -/
theorem LoginCall.run_done {c : LoginCall} {n : ℕ} (h : (s.req 0).pc = .done) : c.run cfg n s = s := by
  cases n with
  | zero => rfl
  | succ n =>
    have hnext : c.next (s.req 0) = none := by
      unfold next
      rw [h]
    rw [run, hnext]

/-- A call is never stuck. -/
theorem LoginCall.step_next {c : LoginCall} (he : c.next (s.req 0) = some e) (cfg : Config) :
    ∃ t, step cfg s e = some t := by
  unfold next at he
  split at he <;> rename_i hpc
  case h_1 =>
    cases he
    simp only [step, loginStep, hpc]
    split <;> exact ⟨_, rfl⟩
  case h_2 =>
    cases he
    simp only [step, checkLockedStep, hpc]
    exact ⟨_, rfl⟩
  case h_3 =>
    cases he
    simp only [step, loginSelectStep, hpc]
    split
    · exact ⟨_, rfl⟩
    · split
      · exact ⟨_, rfl⟩
      · split <;> exact ⟨_, rfl⟩
  case h_4 =>
    cases he
    simp only [step, loginHashStep, hpc]
    split_ifs <;> exact ⟨_, rfl⟩
  case h_5 | h_6 =>
    cases he
    simp only [step, onFailureStep, hpc]
    exact ⟨_, rfl⟩
  case h_7 =>
    split at he
    · rename_i hreset
      obtain ⟨phone, hphone⟩ := Option.isSome_iff_exists.1 hreset
      cases he
      simp only [step, onSuccessStep, hphone, Option.map_some]
      exact ⟨_, rfl⟩
    · cases he
      simp only [step, saveStep, hpc]
      exact ⟨_, rfl⟩
  case h_8 =>
    cases he
    simp only [step, savedStep, hpc]
    exact ⟨_, rfl⟩
  case h_9 => cases he

/-- The last operation of a call. -/
theorem LoginCall.run_finish {c : LoginCall} {n : ℕ} {a : Answer} (he : c.next (s.req 0) = some e)
    (h : step cfg { s with redis := s.redis.wait (c.pause n) } e = some t) (ht : t.req 0 = (s.req 0).finish a) :
    ((c.run cfg (n + 1) s).req 0).answer = some a := by
  rw [run_succ he h, run_done]
  · rw [ht]; rfl
  · rw [ht]; rfl

/-- The failure of an unknown phone, or of a wrong password, is counted and answered. -/
theorem LoginCall.run_onFailure {c : LoginCall} {n : ℕ} (cfg : Config)
    (he : c.next (s.req 0) = some (.onFailure 0 c.failErr)) :
    ∃ phone msg, ((c.run cfg (n + 1) s).req 0).answer = some (.login false [] msg) ∧
      ((s.req 0).pc = .loginUnknown phone ∧ msg = "USER_NOT_FOUND" ∨
        (s.req 0).pc = .loginWrong phone ∧ ∃ result, msg = failMsg result) := by
  obtain ⟨t, ht⟩ := step_next (s := { s with redis := s.redis.wait (c.pause n) }) he cfg
  obtain ⟨phone, msg, hcases, htset⟩ := onFailureStep_cases ht
  refine ⟨phone, msg, run_finish he ht (by rw [htset, State.set_req, if_pos rfl]), ?_⟩
  rcases hcases with h | ⟨h, hmsg⟩
  · exact Or.inl h
  · exact Or.inr ⟨h, _, hmsg⟩

/-- **What the SELECT makes of a call that is not stopped.** -/
theorem LoginCall.serve_selected {c : LoginCall} (h : ¬c.Stopped s) (cfg : Config) :
    (∃ user, s.userOf c.phone = some user ∧ user.status ≠ 1 ∧
        c.answer cfg s = some (.login false [] "ACCOUNT_DISABLED")) ∨
      (s.userOf c.phone = none ∧ c.answer cfg s = some (.login false [] "USER_NOT_FOUND")) ∨
      ∃ user t, s.userOf c.phone = some user ∧ user.status = 1 ∧ c.serve cfg s = c.run cfg 4 t ∧
        t.req 0 = ⟨.loginHash c.phone c.password user, none, none⟩ := by
  obtain ⟨t, hserve, hreq, husers⟩ := serve_select h cfg
  have hselect : c.selectErr = none := by
    unfold Stopped at h
    push Not at h
    exact h.2.2
  have hnext : c.next (t.req 0) = some (.loginSelect 0 c.selectErr) := by
    unfold next
    rw [hreq]
  have hrow : State.userOf { t with redis := t.redis.wait (c.pause 4) } c.phone = s.userOf c.phone := by
    unfold State.userOf
    simp only [husers]
  obtain ⟨u, hu⟩ := step_next (s := { t with redis := t.redis.wait (c.pause 4) }) hnext cfg
  obtain ⟨phone, password, hpc, hcases⟩ := loginSelectStep_cases hu
  simp only [hreq, Pc.loginSelect.injEq] at hpc
  obtain ⟨rfl, rfl⟩ := hpc
  rw [hrow] at hcases
  unfold answer
  rcases hcases with ⟨msg, ⟨what, hwhat, -⟩ | ⟨-, ⟨user, huser, hstatus⟩, rfl⟩, hset⟩ | ⟨-, hnone, hset⟩ |
    ⟨-, user, huser, hstatus, hset⟩
  · -- a SELECT that fails would have stopped it
    rw [hselect] at hwhat
    cases hwhat
  · refine Or.inl ⟨user, huser, hstatus, ?_⟩
    rw [hserve]
    exact run_finish hnext hu (by rw [hset, State.set_req, if_pos rfl])
  · refine Or.inr (Or.inl ⟨hnone, ?_⟩)
    rw [hserve, run_succ hnext hu]
    have hunknown : (u.req 0).pc = .loginUnknown c.phone := by rw [hset, State.set_req, if_pos rfl]; rfl
    have hfail : c.next (u.req 0) = some (.onFailure 0 c.failErr) := by
      unfold next
      rw [hunknown]
    -- no account: `onFailure`, whose script does not change the message
    obtain ⟨phone, msg, hmsg, ⟨-, rfl⟩ | ⟨hwrong, -⟩⟩ := c.run_onFailure (n := 3) cfg hfail
    · exact hmsg
    · rw [hunknown] at hwrong
      cases hwrong
  · refine Or.inr (Or.inr ⟨user, u, huser, hstatus, ?_, ?_⟩)
    · rw [hserve, run_succ hnext hu]
    · rw [hset, State.set_req, if_pos rfl]
      simp only [hreq]
      rfl

/-- **What a caller without the password is told of an enabled account.** -/
theorem LoginCall.answer_known {c : LoginCall} {user : User} (h : ¬c.Stopped s)
    (huser : s.userOf c.phone = some user) (henabled : user.status = 1)
    (hwrong : cfg.verdict c.password user ≠ some true) :
    ∃ msg, c.answer cfg s = some (.login false [] msg) ∧ (msg = "HASH_FAILED" ∨ ∃ result, msg = failMsg result) := by
  rcases serve_selected h cfg with ⟨user', huser', hdisabled, -⟩ | ⟨hnone, -⟩ | ⟨user', t, huser', -, hserve, hreq⟩
  · rw [huser] at huser'
    cases huser'
    exact absurd henabled hdisabled
  · rw [huser] at hnone
    cases hnone
  rw [huser] at huser'
  cases huser'
  have hnext : c.next (t.req 0) = some (.loginHash 0 c.hashFails c.jti c.clock) := by
    unfold next
    rw [hreq]
  obtain ⟨u, hu⟩ := step_next (s := { t with redis := t.redis.wait (c.pause 3) }) hnext cfg
  obtain ⟨phone, password, user', hpc, hcases⟩ := loginHashStep_cases hu
  simp only [hreq, Pc.loginHash.injEq] at hpc
  obtain ⟨rfl, rfl, rfl⟩ := hpc
  unfold answer
  rw [hserve]
  rcases hcases with ⟨-, hset⟩ | ⟨-, -, hset⟩ | ⟨-, hright, -⟩
  · exact ⟨_, run_finish hnext hu (by rw [hset, State.set_req, if_pos rfl]), Or.inl rfl⟩
  · rw [run_succ hnext hu]
    have hpc : (u.req 0).pc = .loginWrong c.phone := by rw [hset, State.set_req, if_pos rfl]; rfl
    have hfail : c.next (u.req 0) = some (.onFailure 0 c.failErr) := by
      unfold next
      rw [hpc]
    obtain ⟨phone, msg, hmsg, ⟨hunknown, -⟩ | ⟨-, hresult⟩⟩ := c.run_onFailure (n := 2) cfg hfail
    · rw [hpc] at hunknown
      cases hunknown
    · exact ⟨msg, hmsg, Or.inr hresult⟩
  · exact absurd hright hwrong

/-- **What he is told of a phone without one.** -/
theorem LoginCall.answer_unknown {c : LoginCall} (cfg : Config) (h : ¬c.Stopped s)
    (hrow : ∀ user, s.userOf c.phone = some user → user.status ≠ 1) :
    c.answer cfg s = some (.login false [] "USER_NOT_FOUND") ∨
      c.answer cfg s = some (.login false [] "ACCOUNT_DISABLED") := by
  rcases serve_selected h cfg with ⟨-, -, -, hanswer⟩ | ⟨-, hanswer⟩ | ⟨user, t, huser, henabled, -⟩
  · exact Or.inr hanswer
  · exact Or.inl hanswer
  · exact absurd henabled (hrow user huser)

/-! ## Sequences of calls -/

/-- A text is no text without its first part. -/
theorem append_ne {a s : String} (h : ¬a.toList <+: s.toList) (b : String) : a ++ b ≠ s := by
  intro heq
  apply h
  rw [← heq, String.toList_append]
  exact List.prefix_append _ _

/-- The two paths answer differently. -/
theorem failMsg_ne (result : LoginGuard.FailResult) :
    failMsg result ≠ "USER_NOT_FOUND" ∧ failMsg result ≠ "ACCOUNT_DISABLED" := by
  cases result with
  | counting n => exact ⟨append_ne (by decide) _, append_ne (by decide) _⟩
  | lockedNow n => exact ⟨append_ne (by decide) _, append_ne (by decide) _⟩
  | alreadyLocked n => exact ⟨append_ne (by decide) _, append_ne (by decide) _⟩

theorem LoginCall.serve_users {c : LoginCall} (cfg : Config) (s : State) : (c.serve cfg s).users = s.users := by
  have hrun : ∀ (n : ℕ) (s : State), (c.run cfg n s).users = s.users := by
    intro n
    induction n with
    | zero => exact fun s => rfl
    | succ n ih =>
      intro s
      rw [run]
      cases he : c.next (s.req 0) with
      | none => rfl
      | some e =>
        simp only
        cases ht : step cfg { s with redis := s.redis.wait (c.pause n) } e with
        | none => rfl
        | some t => exact (ih t).trans (c.step_users (s := { s with redis := s.redis.wait (c.pause n) }) he ht)
  exact hrun 7 _

theorem LoginCall.serve_withUsers {c : LoginCall} {users : List User} {nextId : Int64} (cfg : Config)
    (hoff : ∀ q, q ≠ p → (s.withUsers users nextId).userOf q = s.userOf q) (h : c.phone = p → c.Stopped s) :
    c.serve cfg (s.withUsers users nextId) = (c.serve cfg s).withUsers users nextId :=
  c.run_withUsers (p := p) 7 { s with req := fun _ => .idle } hoff h

/-- **What login tells about a phone.** Two tables that differ in the row of `p` only: an
enabled account in one, none in the other. Any calls, at any times, none with the
password of `p`, over the same Redis: they are answered alike if and only if every call
for `p` is stopped before the SELECT gives it anything. -/
theorem login_enumeration (cfg : Config) (p : String) (user : User) (users : List User) (nextId : Int64) :
    ∀ (cs : List LoginCall) (s : State), s.userOf p = some user → user.status = 1 →
      (∀ user', (s.withUsers users nextId).userOf p = some user' → user'.status ≠ 1) →
      (∀ q, q ≠ p → (s.withUsers users nextId).userOf q = s.userOf q) →
      (∀ c ∈ cs, c.phone = p → cfg.verdict c.password user ≠ some true) →
      (answers cfg (s.withUsers users nextId) cs = answers cfg s cs ↔
        Machine.Meets (fun s c => some (c.serve cfg s)) (fun s c => c.phone = p → c.Stopped s) s cs) := by
  intro cs
  induction cs with
  | nil => exact fun s _ _ _ _ _ => ⟨fun _ => trivial, fun _ => rfl⟩
  | cons c cs ih =>
    intro s huser henabled hnone hoff hwrong
    have husers := c.serve_users cfg s
    have hrow : ∀ q, (c.serve cfg s).userOf q = s.userOf q := fun q => by unfold State.userOf; rw [husers]
    have htail : answers cfg ((c.serve cfg s).withUsers users nextId) cs = answers cfg (c.serve cfg s) cs ↔
        Machine.Meets (fun s c => some (c.serve cfg s)) (fun s c => c.phone = p → c.Stopped s) (c.serve cfg s) cs :=
      ih (c.serve cfg s) ((hrow p).trans huser) henabled hnone (fun q hq => (hoff q hq).trans (hrow q).symm)
        fun c' hc' => hwrong c' (List.mem_cons_of_mem _ hc')
    by_cases hstop : c.phone = p → c.Stopped s
    · -- the call never sees the row of `p`: the same answer, the same state
      have hserve := c.serve_withUsers cfg hoff hstop
      have hanswer : c.answer cfg (s.withUsers users nextId) = c.answer cfg s := by
        unfold LoginCall.answer
        rw [hserve]
        rfl
      rw [answers, answers, hserve, hanswer, List.cons.injEq, htail]
      constructor
      · rintro ⟨-, hmeets⟩
        exact Machine.meets_cons rfl hstop hmeets
      · rintro ⟨-, hmeets⟩
        exact ⟨rfl, hmeets _ rfl⟩
    · -- a call for `p` that reaches the SELECT: the answers differ
      have hdiffer : c.answer cfg (s.withUsers users nextId) ≠ c.answer cfg s := by
        push Not at hstop
        obtain ⟨rfl, hstop⟩ := hstop
        obtain ⟨msg, hmsg, hkind⟩ := c.answer_known hstop huser henabled
          (hwrong c List.mem_cons_self rfl)
        rw [hmsg]
        have hne : msg ≠ "USER_NOT_FOUND" ∧ msg ≠ "ACCOUNT_DISABLED" := by
          rcases hkind with rfl | ⟨result, rfl⟩
          · decide
          · exact failMsg_ne result
        have hstop' : ¬c.Stopped (s.withUsers users nextId) := hstop
        rcases c.answer_unknown cfg hstop' hnone with ha | ha <;> rw [ha] <;> intro heq <;>
          simp only [Option.some.injEq, Answer.login.injEq, true_and] at heq
        · exact hne.1 heq.symm
        · exact hne.2 heq.symm
      constructor
      · intro heq
        rw [answers, answers, List.cons.injEq] at heq
        exact absurd heq.1 hdiffer
      · intro hmeets
        exact absurd hmeets.1 hstop

/-- A guess at the account of `onlyUser`. -/
def guess : LoginCall := ⟨"13800000000", "guess", fun _ => 0, none, none, false, none, none, none, [], 0⟩

/-- An account of another phone. -/
def otherUser : User := ⟨2, "13900000000", saltedHash "secret" [9], [9], 1⟩

/-- While the phone is locked: a guess, calls of other phones, one of which has an
account, and another guess after ten minutes less a second. -/
def lockedCalls : List LoginCall :=
  [guess, { guess with phone := "13900000000" }, { guess with phone := "13900000000", password := "secret" },
    { guess with phone := "13700000000" }, { guess with phone := "1380000" },
    { guess with pause := fun n => if n = 6 then 599000 else 0 }]

/-- The store in which the phone of `onlyUser` is locked. -/
def lockedStore : Store Key := (Store.empty 0).put (.loginLock "13800000000") (some ⟨.raw "1", some 600000⟩)

/-- The guesses tell nothing: no call for the phone gets to the SELECT. -/
theorem login_enumeration_locked :
    answers unsignedConfig ⟨lockedStore, [otherUser], 3, fun _ => .idle⟩ lockedCalls =
        answers unsignedConfig ⟨lockedStore, [onlyUser, otherUser], 3, fun _ => .idle⟩ lockedCalls ∧
      (answers unsignedConfig ⟨lockedStore, [otherUser], 3, fun _ => .idle⟩ lockedCalls).getLast? =
        some (some (.login false [] "ACCOUNT_LOCKED:1")) := by
  have hguesses : ∀ c ∈ lockedCalls, c.phone = "13800000000" →
      unsignedConfig.verdict c.password onlyUser ≠ some true := by
    decide +kernel
  have hoff : ∀ q, q ≠ "13800000000" →
      (State.withUsers ⟨lockedStore, [onlyUser, otherUser], 3, fun _ => .idle⟩ [otherUser] 3).userOf q =
        State.userOf ⟨lockedStore, [onlyUser, otherUser], 3, fun _ => .idle⟩ q := by
    intro q hq
    simp [State.userOf, State.withUsers, onlyUser, Ne.symm hq]
  refine ⟨(login_enumeration unsignedConfig "13800000000" onlyUser [otherUser] 3 lockedCalls
    ⟨lockedStore, [onlyUser, otherUser], 3, fun _ => .idle⟩ rfl rfl (fun _ h => by cases h) hoff hguesses).2 ?_, ?_⟩
  · -- both guesses are stopped by the lock
    decide +kernel
  · decide +kernel

/-- One guess tells an account from none: `WRONG_PASSWORD:1` against `USER_NOT_FOUND`. -/
theorem login_enumerates :
    (State.init 0 [onlyUser] 2).userOf "13800000000" = some onlyUser ∧ onlyUser.status = 1 ∧
      unsignedConfig.verdict guess.password onlyUser = some false ∧
      answers unsignedConfig (State.init 0 [onlyUser] 2) [guess] = [some (.login false [] "WRONG_PASSWORD:1")] ∧
      answers unsignedConfig (State.init 0 [] 1) [guess] = [some (.login false [] "USER_NOT_FOUND")] :=
  ⟨rfl, rfl, by decide +kernel, by decide +kernel, by decide +kernel⟩

end Seckill.UserService
