import Seckill.Proof.Session

/-!
# Every request of an account is answered, once

A login, registration, logout or authentication waits for nobody: whatever the others
do, the operation it waits for can be executed (`own_step`), and it takes at most seven
steps (`run_request`). Its callback is called once: an answer stays (`step_answer`), and
a request that is through has one (`Req.Answers`). Together: `request_completes`.
-/

namespace Seckill.UserService

open Redis Machine

variable {cfg : Config} {s₀ s t : State} {es : List Ev} {e : Ev} {r : ℕ}

/-! ## How many steps a request takes -/

/-- The steps ahead of a request, but for an outstanding `onSuccess`. -/
def Pc.ahead : Pc → ℕ
  | .idle => 7
  | .loginCheck _ _ | .regCheck _ _ _ _ => 6
  | .loginSelect _ _ | .regVerify _ _ _ _ => 5
  | .loginHash _ _ _ | .regSelect _ _ _ => 4
  | .regHash _ _ _ _ => 3
  | .loginSave _ _ _ _ | .regInsert _ _ _ _ => 2
  | .loginUnknown _ | .loginWrong _ | .loginSaved _ _ _ | .regMark _ _ | .logoutRevoke _ | .authExists _ _ => 1
  | .regMarked _ _ | .done => 0

/-- The most steps a request can still take. -/
def Req.ahead (q : Req) : ℕ := q.pc.ahead + if q.reset.isSome then 1 else 0

theorem ahead_set {u : State} {q : Req} (h : q.ahead < (s.req r).ahead) :
    ((u.set r q).req r).ahead < (s.req r).ahead := by
  rwa [State.set_req, if_pos rfl]

/-- A request that goes on to a later point. -/
theorem ahead_at {u : State} {p p' : Pc} (hpc : (s.req r).pc = p) (h : p'.ahead < p.ahead) :
    ((u.set r ((s.req r).at p')).req r).ahead < (s.req r).ahead := by
  refine ahead_set ?_
  unfold Req.ahead
  rw [hpc]
  exact Nat.add_lt_add_right h _

/-- A request that is over. -/
theorem ahead_finish {u : State} {p : Pc} {a : Answer} (hpc : (s.req r).pc = p) (h : 0 < p.ahead) :
    ((u.set r ((s.req r).finish a)).req r).ahead < (s.req r).ahead := by
  refine ahead_set ?_
  unfold Req.ahead
  rw [hpc]
  exact Nat.add_lt_add_right h _

/-- **A step of its own brings a request nearer to its end.** -/
theorem step_ahead_lt (hs : step cfg s e = some t) (he : e.request = some r) :
    (t.req r).ahead < (s.req r).ahead := by
  cases e with
  | login r phone password =>
    cases he
    obtain ⟨hpc, ⟨-, rfl⟩ | ⟨-, rfl⟩⟩ := loginStep_cases hs
    · exact ahead_at hpc (by simp [Pc.ahead])
    · exact ahead_finish hpc (by simp [Pc.ahead])
  | checkLocked r err =>
    cases he
    obtain ⟨phone, password, hpc, p, -, ⟨-, rfl⟩ | ⟨remain, -, rfl⟩⟩ := checkLockedStep_cases hs
    · exact ahead_at hpc (by simp [Pc.ahead])
    · exact ahead_finish hpc (by simp [Pc.ahead])
  | loginSelect r err =>
    cases he
    obtain ⟨phone, password, hpc, ⟨msg, -, rfl⟩ | ⟨-, -, rfl⟩ | ⟨-, user, -, -, rfl⟩⟩ := loginSelectStep_cases hs
    · exact ahead_finish hpc (by simp [Pc.ahead])
    · exact ahead_at hpc (by simp [Pc.ahead])
    · exact ahead_at hpc (by simp [Pc.ahead])
  | loginHash r fails jti clock =>
    cases he
    obtain ⟨phone, password, user, hpc, ⟨-, rfl⟩ | ⟨-, -, rfl⟩ | ⟨-, -, rfl⟩⟩ := loginHashStep_cases hs
    · exact ahead_finish hpc (by simp [Pc.ahead])
    · exact ahead_at hpc (by simp [Pc.ahead])
    · -- the session and the reset of the counter are outstanding
      refine ahead_set ?_
      simp only [Req.ahead, hpc, Pc.ahead, Option.isSome_some, if_true]
      omega
  | onFailure r err =>
    cases he
    obtain ⟨phone, msg, ⟨hpc, -⟩ | ⟨hpc, -⟩, rfl⟩ := onFailureStep_cases hs
    · exact ahead_finish hpc (by simp [Pc.ahead])
    · exact ahead_finish hpc (by simp [Pc.ahead])
  | onSuccess r err =>
    cases he
    obtain ⟨phone, hreset, rfl⟩ := onSuccessStep_cases hs
    refine ahead_set ?_
    simp [Req.ahead, hreset]
  | save r err =>
    cases he
    obtain ⟨phone, userId, jti, token, hpc, p, -, rfl⟩ := saveStep_cases hs
    exact ahead_at hpc (by simp [Pc.ahead])
  | saved r =>
    cases he
    obtain ⟨phone, token, ok, hpc, rfl⟩ := savedStep_cases hs
    exact ahead_finish hpc (by simp [Pc.ahead])
  | registerUser r phone password code ip =>
    cases he
    obtain ⟨hpc, rfl⟩ := registerUserStep_cases hs
    exact ahead_at hpc (by simp [Pc.ahead])
  | regCheck r err =>
    cases he
    obtain ⟨phone, password, code, ip, hpc, p, -, ⟨msg, -, rfl⟩ | ⟨-, -, rfl | ⟨-, rfl⟩⟩⟩ := regCheckStep_cases hs
    · exact ahead_finish hpc (by simp [Pc.ahead])
    · exact ahead_at hpc (by simp [Pc.ahead])
    · exact ahead_at hpc (by simp [Pc.ahead])
  | regVerify r err =>
    cases he
    obtain ⟨phone, password, code, ip, hpc, p, -, ⟨msg, -, rfl⟩ | ⟨-, rfl⟩⟩ := regVerifyStep_cases hs
    · exact ahead_finish hpc (by simp [Pc.ahead])
    · exact ahead_at hpc (by simp [Pc.ahead])
  | regSelect r err =>
    cases he
    obtain ⟨phone, password, ip, hpc, ⟨msg, -, rfl⟩ | ⟨-, -, rfl⟩⟩ := regSelectStep_cases hs
    · exact ahead_finish hpc (by simp [Pc.ahead])
    · exact ahead_at hpc (by simp [Pc.ahead])
  | regHash r fails =>
    cases he
    obtain ⟨phone, password, ip, salt, hpc, rfl | ⟨hash, -, rfl⟩⟩ := regHashStep_cases hs
    · exact ahead_finish hpc (by simp [Pc.ahead])
    · exact ahead_at hpc (by simp [Pc.ahead])
  | regInsert r err =>
    cases he
    obtain ⟨phone, ip, hash, salt, hpc, ⟨what, -, rfl⟩ | ⟨-, -, rfl⟩⟩ := regInsertStep_cases hs
    · exact ahead_finish hpc (by simp [Pc.ahead])
    · refine ahead_set ?_
      simp only [Req.ahead, hpc, Pc.ahead]
      omega
  | markSuccess r err =>
    cases he
    obtain ⟨ip, row, hpc, rfl⟩ := markSuccessStep_cases hs
    exact ahead_at hpc (by simp [Pc.ahead])
  | logout r token clock =>
    cases he
    obtain ⟨hpc, ⟨a, -, rfl⟩ | ⟨claims, -, rfl⟩⟩ := logoutStep_cases hs
    · exact ahead_finish hpc (by simp [Pc.ahead])
    · exact ahead_at hpc (by simp [Pc.ahead])
  | revoke r err =>
    cases he
    obtain ⟨jti, hpc, p, -, rfl⟩ := revokeStep_cases hs
    exact ahead_finish hpc (by simp [Pc.ahead])
  | authenticate r token clock =>
    cases he
    obtain ⟨hpc, ⟨what, -, rfl⟩ | ⟨-, rfl⟩ | ⟨claims, -, rfl⟩⟩ := authenticateStep_cases hs
    · exact ahead_finish hpc (by simp [Pc.ahead])
    · exact ahead_finish hpc (by simp [Pc.ahead])
    · exact ahead_at hpc (by simp [Pc.ahead])
  | sessionExists r err =>
    cases he
    obtain ⟨jti, userId, hpc, p, -, rfl⟩ := existsStep_cases hs
    exact ahead_finish hpc (by simp [Pc.ahead])
  | sendCode | wait => cases he

/-- **A request takes at most seven steps**, in any run. -/
theorem run_request (hidle : ∀ r, s₀.req r = .idle) (h : run (step cfg) s₀ es = some s) (r : ℕ) :
    tally (step cfg) (fun _ e => decide (e.request = some r)) s₀ es + (s.req r).ahead ≤ 7 := by
  have hone : ∀ s e t, True → True → step cfg s e = some t →
      (t.req r).ahead + (if decide (e.request = some r) then 1 else 0) ≤ (s.req r).ahead := by
    intro s e t _ _ hs
    by_cases he : e.request = some r
    · have hlt := step_ahead_lt hs he
      simp only [he, decide_true, if_true]
      omega
    · rcases (step_effect hs).req r with heq | hmove
      · simp [he, heq]
      · exact absurd hmove.request he
  have hbound := run_potential (C := fun _ _ => True) (I := fun _ => True) (fun _ _ _ _ _ _ => trivial) hone trivial
    (meets_of_takes fun _ _ _ => trivial) h
  have hfirst : (s₀.req r).ahead = 7 := by rw [hidle r]; rfl
  omega

/-! ## Nobody waits -/

/-- The request has a step ahead, and was called. -/
def Req.inProgress (q : Req) : Prop := q.pc ≠ .idle ∧ 0 < q.ahead

/-- **A request in progress can go on**, whatever the others do. -/
theorem own_step (h : (s.req r).inProgress) :
    ∃ e t, e.request = some r ∧ e.Healthy ∧ step cfg s e = some t := by
  have hsome : ∀ e : Ev, e.request = some r → e.Healthy → (step cfg s e).isSome = true →
      ∃ e t, e.request = some r ∧ e.Healthy ∧ step cfg s e = some t := by
    intro e hr hh hs
    obtain ⟨t, ht⟩ := Option.isSome_iff_exists.1 hs
    exact ⟨e, t, hr, hh, ht⟩
  obtain ⟨hcalled, hahead⟩ := h
  cases hpc : (s.req r).pc with
  | idle => exact absurd hpc hcalled
  | loginCheck => exact hsome (.checkLocked r none) rfl rfl (by simp [step, checkLockedStep, hpc])
  | loginSelect =>
    refine hsome (.loginSelect r none) rfl rfl ?_
    simp only [step, loginSelectStep, hpc]
    split
    · rfl
    · split <;> rfl
  | loginHash =>
    refine hsome (.loginHash r false [] 0) rfl rfl ?_
    simp only [step, loginHashStep, hpc, Bool.false_eq_true, if_false]
    split
    · rfl
    · split <;> rfl
  | loginUnknown | loginWrong => exact hsome (.onFailure r none) rfl rfl (by simp [step, onFailureStep, hpc])
  | loginSave => exact hsome (.save r none) rfl rfl (by simp [step, saveStep, hpc])
  | loginSaved => exact hsome (.saved r) rfl rfl (by simp [step, savedStep, hpc])
  | regCheck => exact hsome (.regCheck r none) rfl rfl (by simp [step, regCheckStep, hpc])
  | regVerify => exact hsome (.regVerify r none) rfl rfl (by simp [step, regVerifyStep, hpc])
  | regSelect => exact hsome (.regSelect r none []) rfl rfl (by simp [step, regSelectStep, hpc])
  | regHash =>
    refine hsome (.regHash r false) rfl rfl ?_
    simp only [step, regHashStep, hpc, Bool.false_eq_true, if_false]
    split <;> rfl
  | regInsert =>
    refine hsome (.regInsert r none) rfl rfl ?_
    simp only [step, regInsertStep, hpc]
    split <;> rfl
  | regMark => exact hsome (.markSuccess r none) rfl rfl (by simp [step, markSuccessStep, hpc])
  | logoutRevoke => exact hsome (.revoke r none) rfl rfl (by simp [step, revokeStep, hpc])
  | authExists => exact hsome (.sessionExists r none) rfl rfl (by simp [step, existsStep, hpc])
  | regMarked | done =>
    -- what is left of it is the reset of the counter
    unfold Req.ahead at hahead
    rw [hpc] at hahead
    cases hreset : (s.req r).reset with
    | none => simp [hreset, Pc.ahead] at hahead
    | some phone => exact hsome (.onSuccess r none) rfl rfl (by simp [step, onSuccessStep, hreset])

/-! ## The answers -/

/-- The request is past its answer. -/
def Pc.past : Pc → Bool
  | .regMark _ _ | .regMarked _ _ | .done => true
  | _ => false

/-- A request has its answer exactly when it is past it. -/
def Req.Answers (q : Req) : Prop := q.answer.isSome = q.pc.past

theorem Ev.Ends.past {p : Pc} (h : e.Ends r p) : p.past = false := by
  cases e <;> cases p <;> first | exact h.elim | rfl

theorem step_answers (s : State) (e : Ev) (t : State) (h : ∀ r, (s.req r).Answers) (hs : step cfg s e = some t) (r : ℕ) :
    (t.req r).Answers := by
  have hold := h r
  unfold Req.Answers at hold ⊢
  rcases (step_effect hs).req r with heq | hmove
  · rw [heq]
    exact hold
  · generalize t.req r = q at hmove ⊢
    cases hmove with
    | stop | token | created | revoked | authenticated => rfl
    | reset _ => exact hold
    | marked hpc =>
      rw [hpc] at hold
      exact hold
    | check hpc | pass hpc | unknown hpc | found hpc | wrong hpc | right hpc | save hpc | regCheck hpc | regVerify hpc
    | regUnverified hpc | regVerified hpc | regHash hpc | regInsert _ hpc | logout hpc | authenticate hpc =>
      rw [hpc] at hold
      exact hold

/-- **An answer stays.** -/
theorem step_answer {a : Answer} (h : (s.req r).Answers) (hs : step cfg s e = some t) (ha : (s.req r).answer = some a) :
    (t.req r).answer = some a := by
  have hpast : (s.req r).pc.past = true := by
    rw [← h, ha]
    rfl
  rcases (step_effect hs).req r with heq | hmove
  · rw [heq, ha]
  · generalize t.req r = q at hmove ⊢
    cases hmove with
    | stop a' ha' hends =>
      rw [hends.past] at hpast
      cases hpast
    | reset _ => exact ha
    | marked hpc => exact ha
    | check hpc | pass hpc | unknown hpc | found hpc | wrong hpc | right hpc | save hpc | token hpc | regCheck hpc
    | regVerify hpc | regUnverified hpc | regVerified hpc | regHash hpc | regInsert _ hpc | created hpc | logout hpc
    | revoked _ hpc | authenticate hpc | authenticated hpc =>
      rw [hpc] at hpast
      cases hpast

theorem step_called (hs : step cfg s e = some t) (h : (s.req r).pc ≠ .idle) : (t.req r).pc ≠ .idle := by
  rcases (step_effect hs).req r with heq | hmove
  · rwa [heq]
  · generalize t.req r = q at hmove ⊢
    cases hmove with
    | reset _ => exact h
    | _ => exact Pc.noConfusion

/-- A request that is through is past its answer. -/
theorem past_of_through {q : Req} (hcalled : q.pc ≠ .idle) (h : ¬q.inProgress) : q.pc.past = true := by
  have hzero : q.ahead = 0 := Nat.eq_zero_of_not_pos fun hpos => h ⟨hcalled, hpos⟩
  have hpc : q.pc.ahead = 0 := (Nat.add_eq_zero_iff.1 hzero).1
  generalize q.pc = p at hpc
  cases p <;> first | rfl | cases hpc

/-- **Every request is answered, once.** In every run of logins, registrations, logouts
and authentications, whatever fails, a request takes at most seven steps and its answer
never changes; from any reachable state a request that was called comes to its end and its
answer by at most seven steps of its own, all of them with a Redis that works, though the
others stand still. -/
theorem request_completes (cfg : Config) (now : ℕ) (users : List User) (nextId : Int64) (es : List Ev) (s : State)
    (h : run (step cfg) (.init now users nextId) es = some s) (r : ℕ) :
    tally (step cfg) (fun _ e => decide (e.request = some r)) (.init now users nextId) es ≤ 7 ∧
      (∀ es' t a, run (step cfg) s es' = some t → (s.req r).answer = some a → (t.req r).answer = some a) ∧
      ((s.req r).pc ≠ .idle → ∃ es' t, run (step cfg) s es' = some t ∧
        Meets (step cfg) (fun _ e => e.request = some r ∧ e.Healthy) s es' ∧ es'.length ≤ 7 ∧
        ¬(t.req r).inProgress ∧ ∃ a, (t.req r).answer = some a) := by
  have hidle : ∀ r, (State.init now users nextId).req r = .idle := fun _ => rfl
  have hanswers : ∀ r, (s.req r).Answers :=
    run_inv (I := fun s => ∀ r, (s.req r).Answers) (fun s e t => step_answers s e t) (fun _ => rfl) h
  have hlen := run_request hidle h r
  refine ⟨by omega, fun es' t a h' ha => ?_, fun hcalled => ?_⟩
  · have hboth : (∀ r, (t.req r).Answers) ∧ (t.req r).answer = some a := by
      refine run_inv (I := fun s => (∀ r, (s.req r).Answers) ∧ (s.req r).answer = some a) ?_ ⟨hanswers, ha⟩ h'
      rintro s e t ⟨hall, ha⟩ hs
      exact ⟨step_answers s e t hall hs, step_answer (hall r) hs ha⟩
    exact hboth.2
  · have hkeep : ∀ s e t, ((∀ r, (s.req r).Answers) ∧ (s.req r).pc ≠ .idle) →
        (e.request = some r ∧ e.Healthy) → step cfg s e = some t → (∀ r, (t.req r).Answers) ∧ (t.req r).pc ≠ .idle :=
      fun s e t hI _ hs => ⟨step_answers s e t hI.1 hs, step_called hs hI.2⟩
    have hprogress : ∀ s : State, ((∀ r, (s.req r).Answers) ∧ (s.req r).pc ≠ .idle) → ¬¬(s.req r).inProgress →
        ∃ e t, (e.request = some r ∧ e.Healthy) ∧ step cfg s e = some t := by
      intro s _ hgo
      obtain ⟨e, t, hr, hh, hs⟩ := own_step (not_not.1 hgo)
      exact ⟨e, t, ⟨hr, hh⟩, hs⟩
    obtain ⟨es', t, hC, ht, hend⟩ := completes (D := fun s => ¬(s.req r).inProgress) hkeep
      (fun s e t _ he hs => step_ahead_lt hs he.1) hprogress ⟨hanswers, hcalled⟩
    have hbound := run_potential (P := fun _ _ => true) hkeep (fun s e t _ he hs => step_ahead_lt hs he.1)
      ⟨hanswers, hcalled⟩ hC ht
    rw [tally_true ht] at hbound
    obtain ⟨hall, hcalled'⟩ := run_inv_of hkeep ⟨hanswers, hcalled⟩ hC ht
    refine ⟨es', t, ht, hC, by omega, hend, Option.isSome_iff_exists.1 ?_⟩
    rw [hall r]
    exact past_of_through hcalled' hend

/-- Two registrations of a phone at once: each is answered without the other one. -/
theorem request_completes_two :
    ∃ s, run (step unsignedConfig) (.init 0 [] 1)
        [.registerUser 0 "13800000000" "secret" "123456" "10.0.0.1",
          .registerUser 1 "13800000000" "secret" "123456" "10.0.0.1"] = some s ∧
      ∀ r, r = 0 ∨ r = 1 → ∃ es t a, run (step unsignedConfig) s es = some t ∧ (t.req r).answer = some a ∧
        Meets (step unsignedConfig) (fun _ e => e.request = some r ∧ e.Healthy) s es := by
  have hrun : (run (step unsignedConfig) (.init 0 [] 1)
      [.registerUser 0 "13800000000" "secret" "123456" "10.0.0.1",
        .registerUser 1 "13800000000" "secret" "123456" "10.0.0.1"]).map (fun s => ((s.req 0).pc, (s.req 1).pc)) =
      some (.regCheck "13800000000" "secret" "123456" "10.0.0.1", .regCheck "13800000000" "secret" "123456" "10.0.0.1") :=
    rfl
  obtain ⟨s, hs, hv⟩ := Option.map_eq_some_iff.1 hrun
  obtain ⟨h₀, h₁⟩ := Prod.mk.inj hv
  have hend : ∀ r, (s.req r).pc ≠ .idle → ∃ es t a, run (step unsignedConfig) s es = some t ∧
      (t.req r).answer = some a ∧ Meets (step unsignedConfig) (fun _ e => e.request = some r ∧ e.Healthy) s es := by
    intro r hcalled
    obtain ⟨es, t, ht, hC, -, -, a, ha⟩ := (request_completes unsignedConfig 0 [] 1 _ s hs r).2.2 hcalled
    exact ⟨es, t, a, ht, ha, hC⟩
  refine ⟨s, hs, fun r hr => ?_⟩
  rcases hr with rfl | rfl
  · exact hend 0 (by rw [h₀]; exact Pc.noConfusion)
  · exact hend 1 (by rw [h₁]; exact Pc.noConfusion)

end Seckill.UserService
