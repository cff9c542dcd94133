import Seckill.Proof.Redeem
import Seckill.Proof.Session

/-!
# Codes and logins

`requireSmsOnLogin` is decoded from the configuration and read by nothing: `login` has
no code to check. Only registrations consume codes (`consumed_registers`), each a code of
its own (`consumed_once`), so a login that hands a token out has consumed none
(`login_consumes`).
-/

namespace Seckill.UserService

open Redis Machine

variable {cfg : Config} {s₀ s t u v w : State} {es mid : List Ev} {e e' : Ev} {r r' : ℕ} {phone : String}

/-! ## A code is consumed once -/

/-- A send to the phone that leaves a code. -/
def Stores (cfg : Config) (phone : String) (s : State) (e : Ev) : Prop :=
  (∃ code day dailyTtl delivered, e = .sendCode phone code day dailyTtl delivered) ∧
    ∃ t, step cfg s e = some t ∧ t.redis.cell (.smsCode phone) ≠ none

/-- Without such a send no code gets there. -/
theorem codes_zero (hs : SmsService.Counters s.redis) (hzero : codes s phone = 0) (hsend : ¬Stores cfg phone s e)
    (h : step cfg s e = some t) : codes t phone = 0 := by
  by_cases hverify : ∃ r err, e = .regVerify r err
  · obtain ⟨r, err, rfl⟩ := hverify
    have hle := codes_verify hs h phone
    omega
  by_cases hthis : ∃ code day dailyTtl delivered, e = .sendCode phone code day dailyTtl delivered
  · have hnone : t.redis.cell (.smsCode phone) = none := by
      by_contra hsome
      exact hsend ⟨hthis, t, h, hsome⟩
    simp [codes, hnone]
  have hwrites : ¬e.writes s (.smsCode phone) := by
    push Not at hverify hthis
    cases e with
    | regVerify r err => exact absurd rfl (hverify r err)
    | sendCode p code day dailyTtl delivered =>
      have hp : p ≠ phone := fun hp => hthis code day dailyTtl delivered (by rw [hp])
      simp [Ev.writes, Ne.symm hp]
    | _ => simp [Ev.writes]
  rw [codes_congr (step_frame h hwrites), hzero]

theorem passed_codes (hs : SmsService.Counters s.redis) (hpass : passed cfg s (.ev e) = some (r, phone))
    (h : step cfg s e = some t) : codes s phone = 1 ∧ codes t phone = 0 := by
  cases e with
  | regVerify r' err =>
    have hle := codes_verify hs h phone
    have hone := codes_le s phone
    rw [hpass] at hle
    simp at hle
    omega
  | _ => cases hpass

/-- **A code is consumed once**: between two code checks that pass for a phone there is a
send that stores another. -/
theorem consumed_once (hu : SmsService.Counters u.redis) (hpass : passed cfg u (.ev e) = some (r, phone))
    (hw : step cfg u e = some w) (hmid : run (step cfg) w mid = some v)
    (hpass' : passed cfg v (.ev e') = some (r', phone)) (hv : step cfg v e' = some t) :
    Past (step cfg) w mid (Stores cfg phone) := by
  by_contra hnone
  -- without a send no code is there when the second is to verify one
  have hcodes : SmsService.Counters v.redis ∧ (¬Past (step cfg) w mid (Stores cfg phone) → codes v phone = 0) := by
    refine run_trace (I := fun es s => SmsService.Counters s.redis ∧
      (¬Past (step cfg) w es (Stores cfg phone) → codes s phone = 0)) ?_ ?_ hmid
    · exact ⟨step_counters u e w hu hw, fun _ => (passed_codes hu hpass hw).2⟩
    · rintro es s e t hrun ⟨hs, hzero⟩ hst
      refine ⟨step_counters s e t hs hst, fun hnot => ?_⟩
      exact codes_zero hs (hzero fun hpast => hnot (hpast.snoc e)) (fun hstores => hnot (past_last hrun hstores)) hst
  have hone := (passed_codes hcodes.1 hpass' hv).1
  rw [hcodes.2 hnone] at hone
  cases hone

/-! ## Who consumes codes -/

/-- The request is a registration past its code check, or over without a token. -/
def Req.Registers (q : Req) : Prop :=
  match q.pc with
  | .regSelect _ _ _ | .regHash _ _ _ _ | .regInsert _ _ _ _ | .regMark _ _ | .regMarked _ _ => True
  | .done => ∀ token msg, q.answer ≠ some (.login true token msg)
  | _ => False

theorem registers_step (hr : (s.req r).Registers) (h : step cfg s e = some t) : (t.req r).Registers := by
  rcases (step_effect h).req r with heq | hmove
  · rw [heq]
    exact hr
  · generalize t.req r = q at hmove ⊢
    unfold Req.Registers at hr
    cases hmove with
    | stop a ha hpc =>
      -- what stops early answers no token
      intro token msg hanswer
      cases Option.some.inj hanswer
      cases ha
    | reset _ =>
      unfold Req.Registers
      exact hr
    | regHash _ | regInsert _ _ | created _ _ | marked _ => trivial
    | regVerified _ => trivial
    | regUnverified _ _ => trivial
    -- the other moves are not those of a registration past its check
    | check hpc | pass hpc _ | unknown hpc _ | found hpc _ _ | wrong hpc _ | right hpc _ | save hpc | token hpc
    | regCheck hpc | regVerify hpc _ | logout hpc _ | revoked _ hpc | authenticate hpc _ | authenticated hpc =>
      rw [hpc] at hr
      exact hr.elim

theorem passed_registers (hpass : passed cfg s (.ev e) = some (r, phone)) (h : step cfg s e = some t) :
    (t.req r).Registers := by
  cases e with
  | regVerify r' err =>
    obtain ⟨p, password, code, ip, hpc, x, hx, hcases⟩ := regVerifyStep_cases h
    simp only [passed, hpc] at hpass
    split at hpass
    next hok =>
      simp only [Option.some.injEq, Prod.mk.injEq] at hpass
      obtain ⟨rfl, rfl⟩ := hpass
      rw [← hx] at hok
      rcases hcases with ⟨msg, hmsg, -⟩ | ⟨-, rfl⟩
      · rw [hok] at hmsg
        cases hmsg
      · rw [State.set_req, if_pos rfl]
        trivial
    next => cases hpass
  | _ => cases hpass

/-- **Only a registration consumes a code.** -/
theorem consumed_registers {now : ℕ} {users : List User} {nextId : Int64}
    (h : run (step cfg) (.init now users nextId) es = some s)
    (hpast : Past (step cfg) (.init now users nextId) es fun v e => passed cfg v (.ev e) = some (r, phone)) :
    (s.req r).Registers := by
  refine run_trace (I := fun es s =>
    (Past (step cfg) (.init now users nextId) es fun v e => passed cfg v (.ev e) = some (r, phone)) →
      (s.req r).Registers) ?_ ?_ h hpast
  · rintro ⟨v, e, htakes, -⟩
    exact absurd htakes.mem List.not_mem_nil
  · rintro es s e t hrun ih hst ⟨v, e', htakes, hpass⟩
    -- it was consumed before, or by this step
    rcases takes_snoc.1 htakes with hbefore | ⟨rfl, hv⟩
    · exact registers_step (ih ⟨v, e', hbefore, hpass⟩) hst
    · rw [hrun] at hv
      obtain rfl := Option.some.inj hv
      exact passed_registers hpass hst

/-- A token that is handed out stays the answer. -/
theorem handed_out {token : Bytes} (htakes : Takes (step cfg) s₀ es u (.saved r))
    (hpc : (u.req r).pc = .loginSaved phone token true) (h : run (step cfg) s₀ es = some s) :
    (s.req r).pc = .done ∧ (s.req r).answer = some (.login true token "OK") := by
  obtain ⟨pre, post, rfl, hu⟩ := htakes
  have hrest := run_rest h hu
  obtain ⟨w, hw, hpost⟩ := run_cons.1 hrest
  refine run_inv (I := fun v => (v.req r).pc = .done ∧ (v.req r).answer = some (.login true token "OK")) ?_ ?_ hpost
  · rintro s e t ⟨hdone, hanswer⟩ hst
    obtain ⟨hdone', hsame⟩ := done_step hdone hst
    exact ⟨hdone', hsame.trans hanswer⟩
  · obtain ⟨phone', token', ok, hpc', rfl⟩ := savedStep_cases hw
    rw [hpc] at hpc'
    cases hpc'
    rw [State.set_req, if_pos rfl]
    exact ⟨rfl, rfl⟩

/-- **What `require_sms_on_login` is worth.** In every run no two logins or registrations
consume one code; and every login that hands a token out has consumed one exactly if no
login hands a token out. -/
theorem login_consumes (cfg : Config) (_ : cfg.requireSmsOnLogin = true) (now : ℕ) (users : List User)
    (nextId : Int64) (es : List Ev) (s : State) (h : run (step cfg) (.init now users nextId) es = some s) :
    ((∀ u r phone token, Takes (step cfg) (.init now users nextId) es u (.saved r) →
        (u.req r).pc = .loginSaved phone token true →
        Past (step cfg) (.init now users nextId) es fun v e => passed cfg v (.ev e) = some (r, phone)) ∧
      ∀ pre e mid e' post u w v r r' phone, es = pre ++ e :: (mid ++ e' :: post) →
        run (step cfg) (.init now users nextId) pre = some u → step cfg u e = some w → run (step cfg) w mid = some v →
        passed cfg u (.ev e) = some (r, phone) → passed cfg v (.ev e') = some (r', phone) →
        Past (step cfg) w mid (Stores cfg phone)) ↔
      ∀ u r phone token, Takes (step cfg) (.init now users nextId) es u (.saved r) →
        (u.req r).pc ≠ .loginSaved phone token true := by
  constructor
  · -- who consumed a code is a registration, and those are answered no token
    rintro ⟨hconsumes, -⟩ u r phone token htakes hpc
    have hregisters := consumed_registers h (hconsumes u r phone token htakes hpc)
    obtain ⟨hdone, hanswer⟩ := handed_out htakes hpc h
    unfold Req.Registers at hregisters
    rw [hdone] at hregisters
    exact hregisters token "OK" hanswer
  · intro hnone
    refine ⟨fun u r phone token htakes hpc => absurd hpc (hnone u r phone token htakes), ?_⟩
    rintro pre e mid e' post u w v r r' phone rfl hu hw hmid hpass hpass'
    have hcounters : SmsService.Counters u.redis :=
      run_inv (I := fun s => SmsService.Counters s.redis) step_counters (Ints.empty now) hu
    -- the run, cut at the two steps
    have hrest := run_rest h hu
    have hrest := run_tail hrest hw
    have hrest := run_rest hrest hmid
    obtain ⟨t, ht, -⟩ := run_cons.1 hrest
    exact consumed_once hcounters hpass hw hmid hpass' ht

/-! ## The switch is on -/

def smsOnLoginConfig : Config := { flatConfig with requireSmsOnLogin := true }

/-- A login with a password is handed a token. Nobody sent or checked a code. -/
theorem login_consumes_none :
    ∃ s, smsOnLoginConfig.requireSmsOnLogin = true ∧
      run (step smsOnLoginConfig) (.init 0 [onlyUser] 2) loggedIn = some s ∧
      (s.req 0).answer = some (.login true flatToken "OK") ∧
      ¬∃ phone, Past (step smsOnLoginConfig) (.init 0 [onlyUser] 2) loggedIn
        fun v e => passed smsOnLoginConfig v (.ev e) = some (0, phone) := by
  have hrun : ((run (step smsOnLoginConfig) (.init 0 [onlyUser] 2) loggedIn).map fun s => (s.req 0).answer) =
      some (some (.login true flatToken "OK")) := by decide +kernel
  obtain ⟨s, hs, hanswer⟩ := Option.map_eq_some_iff.1 hrun
  refine ⟨s, rfl, hs, hanswer, ?_⟩
  rintro ⟨phone, v, e, htakes, hpass⟩
  have hmem := htakes.mem
  simp only [loggedIn, List.mem_cons, List.not_mem_nil, or_false] at hmem
  rcases hmem with rfl | rfl | rfl | rfl | rfl | rfl <;> cases hpass

/-- A registration with a code, and a login up to the answer of its session's `SETEX`. -/
def codeThenLogin : List Ev :=
  [.sendCode "13900000000" "123456" "20240101" 3600 true, .registerUser 0 "13900000000" "secret1" "123456" "10.0.0.1",
    .regCheck 0 none, .regVerify 0 none, .login 1 "13800000000" "rightpw", .checkLocked 1 none, .loginSelect 1 none,
    .loginHash 1 false (ascii "5f3a") 1700000000, .save 1 none]

/-- Until a token is handed out, every login has consumed its code. -/
theorem login_consumes_before :
    ∃ s, run (step smsOnLoginConfig) (.init 0 [onlyUser] 2) codeThenLogin = some s ∧
      ∀ u r phone token, Takes (step smsOnLoginConfig) (.init 0 [onlyUser] 2) codeThenLogin u (.saved r) →
        (u.req r).pc = .loginSaved phone token true →
        Past (step smsOnLoginConfig) (.init 0 [onlyUser] 2) codeThenLogin
          fun v e => passed smsOnLoginConfig v (.ev e) = some (r, phone) := by
  obtain ⟨s, hs⟩ : ∃ s, run (step smsOnLoginConfig) (.init 0 [onlyUser] 2) codeThenLogin = some s :=
    Option.isSome_iff_exists.1 (by decide +kernel)
  refine ⟨s, hs, ((login_consumes smsOnLoginConfig rfl 0 [onlyUser] 2 codeThenLogin s hs).2 ?_).1⟩
  intro u r phone token htakes
  have hmem := htakes.mem
  simp [codeThenLogin] at hmem

end Seckill.UserService
