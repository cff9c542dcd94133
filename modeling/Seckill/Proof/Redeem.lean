import Seckill.Proof.UserService

/-!
# Codes and accounts

With `requireSmsOnRegister` an account is inserted only by a registration that got
past the code check (`Pc.Cleared`), and the check deletes the code it accepts in the
same script. So, with one unit for each stored code,

  registrations past the check + codes in Redis <= sends that answered `(0, n)`

along every run, whatever expires in between (`codes_redeemed`). The inequality needs
that a send that stores a code answers so: with a resend interval `<= 0` the send
script stores the code, fails at the cooldown, and nobody was sent anything.
-/

namespace Seckill.UserService

open Redis Machine

variable {cfg : Config} {s t : State} {r : ℕ} {phone : String}

/-! ## Runs in which keys expire at any time -/

/-- A step of the service, or a key that expires. -/
inductive LossyEv
  | ev (e : Ev)
  | expire (k : Key)

def lossyStep (cfg : Config) (s : State) : LossyEv → Option State
  | .ev e => step cfg s e
  | .expire k => some { s with redis := s.redis.put k none }

/-- The registration that gets past the code check with this step, and its phone. -/
def passed (cfg : Config) (s : State) : LossyEv → Option (ℕ × String)
  | .ev (.regVerify r err) => match (s.req r).pc with
    | .regVerify phone _ code _ =>
      if SmsService.onVerify (exec err (SmsService.verifyScript cfg.sms phone code) s.redis).1 = .ok then some (r, phone)
      else none
    | _ => none
  | _ => none

/-- The phone for which the send script answers `(0, n)` with this step. -/
def sent (cfg : Config) (s : State) : LossyEv → Option String
  | .ev (.sendCode phone code day dailyTtl _) =>
    if ¬SmsService.isValidPhone phone ∨ code = "" then none
    else match (SmsService.sendScript cfg.sms phone day code dailyTtl s.redis).1 with
      | .ok (code0, _) => if code0 = 0 then some phone else none
      | .error _ => none
  | _ => none

/-- A send that gets to the SETEX commands of its script can do both, or not the first. -/
def Storable (cfg : Config) (s : State) : LossyEv → Prop
  | .ev (.sendCode phone code day _ _) => SmsService.isValidPhone phone = true → code ≠ "" →
      s.redis.find (.smsCd phone) = none → count s.redis (.smsDay phone day) < cfg.sms.dailyLimit →
      1 ≤ cfg.sms.resendIntervalSeconds ∨ cfg.sms.codeTtlSeconds ≤ 0
  | _ => True

/-! ## Codes -/

/-- The codes in Redis for a phone: one or none. -/
def codes (s : State) (phone : String) : ℕ := if s.redis.cell (.smsCode phone) = none then 0 else 1

theorem codes_congr (h : t.redis.cell (.smsCode phone) = s.redis.cell (.smsCode phone)) :
    codes t phone = codes s phone := by
  unfold codes
  rw [h]

theorem codes_le (s : State) (phone : String) : codes s phone ≤ 1 := by
  unfold codes
  split <;> omega

/-- **A send that leaves a code where there was none answers `(0, n)`.** -/
theorem sendScript_stores {sms : SmsService.Config} {redis : Store Key} {day : String} (code : String) (dailyTtl : ℤ)
    (hs : SmsService.Counters redis)
    (h : redis.find (.smsCd phone) = none → count redis (.smsDay phone day) < sms.dailyLimit →
      1 ≤ sms.resendIntervalSeconds ∨ sms.codeTtlSeconds ≤ 0) :
    (SmsService.sendScript sms phone day code dailyTtl redis).2.cell (.smsCode phone) = redis.cell (.smsCode phone) ∨
      ∃ n, (SmsService.sendScript sms phone day code dailyTtl redis).1 = .ok (0, n) := by
  by_cases hboth : 1 ≤ sms.codeTtlSeconds ∧ 1 ≤ sms.resendIntervalSeconds
  · rcases SmsService.sendScript_cases phone day code dailyTtl hboth.1 hboth.2 hs with
      ⟨-, n, heq⟩ | ⟨-, -, heq⟩ | ⟨-, -, s', heq, -⟩
    · rw [heq]
      exact Or.inl rfl
    · rw [heq]
      exact Or.inl rfl
    · rw [heq]
      exact Or.inr ⟨_, rfl⟩
  left
  unfold SmsService.sendScript SmsService.kSendScript
  rw [exists_bind]
  cases hcd : redis.find (.smsCd phone) with
  | some e => rfl
  | none =>
    simp only [Option.isSome_none, Bool.false_eq_true, if_false]
    rw [hs.get_tonumber (k := Key.smsDay phone day) trivial]
    by_cases hlimit : sms.dailyLimit ≤ count redis (.smsDay phone day)
    · rw [if_pos hlimit]
      rfl
    · -- the first SETEX fails
      have httl : sms.codeTtlSeconds ≤ 0 := by
        rcases h hcd (by omega) with h₂ | h₂
        · by_contra h₁
          exact hboth ⟨by omega, h₂⟩
        · exact h₂
      rw [if_neg hlimit, Script.bind_run, setex, if_pos httl]

/-- A verified code is deleted. -/
theorem verifyScript_redeems {sms : SmsService.Config} {redis : Store Key} {code : String}
    (hs : SmsService.Counters redis) :
    (SmsService.onVerify (SmsService.verifyScript sms phone code redis).1 = .ok ∧
        redis.cell (.smsCode phone) ≠ none ∧
        (SmsService.verifyScript sms phone code redis).2.cell (.smsCode phone) = none) ∨
      SmsService.onVerify (SmsService.verifyScript sms phone code redis).1 ≠ .ok ∧
        ((SmsService.verifyScript sms phone code redis).2.cell (.smsCode phone) = redis.cell (.smsCode phone) ∨
          (SmsService.verifyScript sms phone code redis).2.cell (.smsCode phone) = none) := by
  rcases SmsService.verifyScript_cases sms phone code hs with ⟨-, heq⟩ | ⟨e, he, hcases⟩
  · rw [heq]
    exact Or.inr ⟨by simp [SmsService.onVerify], Or.inl rfl⟩
  rcases hcases with ⟨err, heq⟩ | ⟨-, heq⟩ | ⟨-, -, heq⟩ | ⟨-, -, q, x, -, -, heq⟩
  · rw [heq]
    exact Or.inr ⟨by simp [SmsService.onVerify], Or.inl rfl⟩
  · rw [heq]
    exact Or.inr ⟨by simp [SmsService.onVerify], Or.inr (Store.cell_put_self _ _ _)⟩
  · rw [heq]
    refine Or.inl ⟨rfl, ?_, ?_⟩
    · rw [(Store.find_some.1 he).1]
      simp
    · rw [Store.cell_put_of_ne _ _ (by simp), Store.cell_put_self]
  · rw [heq]
    refine Or.inr ⟨by simp [SmsService.onVerify], Or.inl ?_⟩
    -- the wrong guess is counted in another key
    have hexpire : SameBut (fun k => k = .smsTry phone)
        (redis.put (.smsTry phone) (some ⟨.int (count redis (.smsTry phone) + 1), x⟩))
        (expire (.smsTry phone) q
          (redis.put (.smsTry phone) (some ⟨.int (count redis (.smsTry phone) + 1), x⟩))).2 :=
      does_expire (sameBut_counts (P := fun k => k = Key.smsTry phone) rfl) _
    rw [hexpire.2 _ (by simp), Store.cell_put_of_ne _ _ (by simp)]

/-- A step that is neither a send nor a code check leaves the codes alone. -/
theorem other_codes (cfg : Config) (s : State) {e : Ev} (hverify : ∀ r err, e ≠ .regVerify r err)
    (hsend : ∀ phone code day dailyTtl delivered, e ≠ .sendCode phone code day dailyTtl delivered) :
    passed cfg s (.ev e) = none ∧ sent cfg s (.ev e) = none ∧ ∀ phone, ¬e.writes s (.smsCode phone) := by
  cases e with
  | regVerify r err => exact absurd rfl (hverify r err)
  | sendCode phone code day dailyTtl delivered => exact absurd rfl (hsend phone code day dailyTtl delivered)
  | _ => exact ⟨rfl, rfl, fun phone => by simp [Ev.writes]⟩

/-- A code check that lets a registration past takes the code of its phone. -/
theorem codes_verify {err : Option String} (hs : SmsService.Counters s.redis)
    (h : step cfg s (.regVerify r err) = some t) (phone : String) :
    (if (passed cfg s (.ev (.regVerify r err))).any (fun p => p.2 = phone) then 1 else 0) + codes t phone ≤
      codes s phone := by
  obtain ⟨p, password, code, ip, hpc, x, hx, hcases⟩ := regVerifyStep_cases h
  have hredis : t.redis = x.2 := by rcases hcases with ⟨msg, -, rfl⟩ | ⟨-, rfl⟩ <;> rfl
  have hpassed : passed cfg s (.ev (.regVerify r err)) =
      if SmsService.onVerify x.1 = .ok then some (r, p) else none := by
    simp only [passed, hpc, hx]
  rw [hpassed]
  by_cases hp : p = phone
  · subst hp
    have hredeems : (SmsService.onVerify x.1 = .ok ∧ s.redis.cell (.smsCode p) ≠ none ∧
          t.redis.cell (.smsCode p) = none) ∨
        SmsService.onVerify x.1 ≠ .ok ∧ (t.redis.cell (.smsCode p) = s.redis.cell (.smsCode p) ∨
          t.redis.cell (.smsCode p) = none) := by
      rw [hredis, hx]
      cases err with
      | some what => exact Or.inr ⟨by simp [exec, SmsService.onVerify], Or.inl rfl⟩
      | none => exact verifyScript_redeems hs
    rcases hredeems with ⟨hok, hbefore, hafter⟩ | ⟨hno, hafter⟩
    · simp [hok, codes, hbefore, hafter]
    · rw [if_neg hno]
      rcases hafter with hafter | hafter
      · simp [codes_congr hafter]
      · simp [codes, hafter]
  · -- the keys of another phone
    have hother : t.redis.cell (.smsCode phone) = s.redis.cell (.smsCode phone) := by
      rw [hredis, hx]
      exact (exec_does (SmsService.verifyScript_does (fun s => sameBut_put (by simp) s _)
        (sameBut_counts (by simp))) err s.redis : SameBut (fun k => k = .smsCode p ∨ k = .smsTry p) _ _).2 _
          (by simp [Ne.symm hp])
    have hnot : (if SmsService.onVerify x.1 = .ok then some (r, p) else none).any (fun q => q.2 = phone) = false := by
      split <;> simp [hp]
    rw [hnot, codes_congr hother]
    simp

/-- A send that leaves a code says so. -/
theorem codes_send {p code day : String} {dailyTtl : ℤ} {delivered : Bool} (hs : SmsService.Counters s.redis)
    (hc : Storable cfg s (.ev (.sendCode p code day dailyTtl delivered)))
    (h : step cfg s (.sendCode p code day dailyTtl delivered) = some t) (phone : String) :
    codes t phone ≤
      codes s phone + if sent cfg s (.ev (.sendCode p code day dailyTtl delivered)) = some phone then 1 else 0 := by
  have ht := Option.some.inj h
  have hsame : t.redis.cell (.smsCode phone) = s.redis.cell (.smsCode phone) →
      ∀ n, codes t phone ≤ codes s phone + n := by
    intro hcell n
    rw [codes_congr hcell]
    omega
  by_cases hp : p = phone
  swap
  · -- another phone's code
    refine hsame ?_ _
    rw [← ht]
    exact (SmsService.sendCode_frame cfg.sms s.redis p code day dailyTtl delivered).2 _ (by simp [Ne.symm hp])
  subst hp
  by_cases hbad : ¬SmsService.isValidPhone p ∨ code = ""
  · refine hsame ?_ _
    rw [← ht]
    unfold SmsService.sendCode
    split
    · rfl
    next hvalid => rw [if_pos (hbad.resolve_left hvalid)]
  · have hsent : sent cfg s (.ev (.sendCode p code day dailyTtl delivered)) =
        match (SmsService.sendScript cfg.sms p day code dailyTtl s.redis).1 with
          | .ok (code0, _) => if code0 = 0 then some p else none
          | .error _ => none := if_neg hbad
    push Not at hbad
    obtain ⟨hvalid, hcode⟩ := hbad
    have hredis : t.redis = (SmsService.sendScript cfg.sms p day code dailyTtl s.redis).2 := by
      rw [← ht]
      unfold SmsService.sendCode
      rw [if_neg (not_not.2 hvalid), if_neg hcode]
    rcases sendScript_stores code dailyTtl hs (hc hvalid hcode) with hcell | ⟨n, hreply⟩
    · -- refused before the script
      refine hsame ?_ _
      rw [hredis]
      exact hcell
    · have hle := codes_le t p
      rw [hsent, hreply]
      simp only [if_true]
      omega

/-- **One step keeps the balance of codes.** -/
theorem codes_step {e : LossyEv} (hs : SmsService.Counters s.redis) (hc : Storable cfg s e)
    (h : lossyStep cfg s e = some t) (phone : String) :
    (if (passed cfg s e).any (fun p => p.2 = phone) then 1 else 0) + codes t phone ≤
      codes s phone + if sent cfg s e = some phone then 1 else 0 := by
  cases e with
  | expire k =>
    rw [← Option.some.inj h]
    unfold codes passed sent
    by_cases hk : Key.smsCode phone = k
    · simp [← hk]
    · simp [Store.cell_put_of_ne _ _ hk]
  | ev e =>
    by_cases hverify : ∃ r err, e = .regVerify r err
    · obtain ⟨r, err, rfl⟩ := hverify
      exact Nat.le_trans (codes_verify hs h phone) (Nat.le_add_right _ _)
    by_cases hsend : ∃ p code day dailyTtl delivered, e = .sendCode p code day dailyTtl delivered
    · obtain ⟨p, code, day, dailyTtl, delivered, rfl⟩ := hsend
      have hle := codes_send hs hc h phone
      have hnone : (passed cfg s (.ev (.sendCode p code day dailyTtl delivered))).any
          (fun q => q.2 = phone) = false := rfl
      rw [hnone]
      simpa using hle
    · push Not at hverify hsend
      obtain ⟨hpassed, hsent, hwrites⟩ := other_codes cfg s hverify hsend
      have hcell : t.redis.cell (.smsCode phone) = s.redis.cell (.smsCode phone) := step_frame h (hwrites phone)
      rw [hpassed, hsent, codes_congr hcell]
      simp

theorem lossy_counters (s : State) (e : LossyEv) (t : State) (hs : SmsService.Counters s.redis)
    (h : lossyStep cfg s e = some t) : SmsService.Counters t.redis := by
  cases e with
  | ev e => exact step_counters s e t hs h
  | expire k =>
    rw [← Option.some.inj h]
    exact hs.put fun _ x hx => by cases hx

/-! ## Accounts -/

/-- A registration at this point got past the code check (`past`), if it is that far. -/
def Pc.Cleared (past : String → Prop) : Pc → Prop
  | .regVerify phone _ _ _ => SmsService.isValidPhone phone = true
  | .regSelect phone _ _ | .regHash phone _ _ _ | .regInsert phone _ _ _ =>
    SmsService.isValidPhone phone = true ∧ past phone
  | _ => True

theorem Pc.Cleared.mono {past past' : String → Prop} (h : ∀ phone, past phone → past' phone) {p : Pc}
    (hp : p.Cleared past) : p.Cleared past' := by
  cases p with
  | regSelect | regHash | regInsert => exact ⟨hp.1, h _ hp.2⟩
  | regVerify => exact hp
  | _ => trivial

/-- **Every later step of a registration is reached through the code check.** -/
theorem cleared_step {past past' : String → Prop} (hsms : cfg.requireSmsOnRegister = true)
    (hmono : ∀ phone, past phone → past' phone) {e : Ev}
    (hnow : ∀ phone, passed cfg s (.ev e) = some (r, phone) → past' phone) (hs : step cfg s e = some t)
    (h : (s.req r).pc.Cleared past) : (t.req r).pc.Cleared past' := by
  rcases (step_effect hs).req r with heq | hmove
  · rw [heq]
    exact h.mono hmono
  · obtain ⟨q, hq⟩ : ∃ q, t.req r = q := ⟨_, rfl⟩
    rw [hq] at hmove ⊢
    cases hmove with
    | regVerify hpc hcheck =>
      obtain ⟨phone, password, code, ip, hpc', x, -, ⟨msg, -, rfl⟩ | ⟨-, hvalid, -⟩⟩ := regCheckStep_cases hs
      · simpa [Req.finish, Req.at] using congrArg Req.pc hq
      · rw [hpc] at hpc'
        cases hpc'
        exact hvalid
    | regUnverified hpc hcheck =>
      obtain ⟨phone, password, code, ip, hpc', x, -, ⟨msg, -, rfl⟩ | ⟨-, -, rfl | ⟨hno, -⟩⟩⟩ := regCheckStep_cases hs
      · simpa [Req.finish, Req.at] using congrArg Req.pc hq
      · simpa [Req.at] using congrArg Req.pc hq
      · rw [hsms] at hno
        cases hno
    | regVerified hpc =>
      obtain ⟨phone, password, code, ip, hpc', x, hx, ⟨msg, -, rfl⟩ | ⟨hok, -⟩⟩ := regVerifyStep_cases hs
      · simpa [Req.finish, Req.at] using congrArg Req.pc hq
      · rw [hpc] at hpc'
        cases hpc'
        rw [hpc] at h
        refine ⟨h, hnow _ ?_⟩
        rw [hx] at hok
        simp only [passed, hpc, hok, if_true]
    | regHash hpc | regInsert hash hpc =>
      rw [hpc] at h
      exact ⟨h.1, hmono _ h.2⟩
    | reset hreset => exact h.mono hmono
    | _ => trivial

/-- Along the run a registration that had got past the code check for the user's phone
inserted the user. -/
def Inserted (cfg : Config) (s₀ : State) (es : List LossyEv) (user : User) : Prop :=
  ∃ pre post v r ip, es = pre ++ .ev (.regInsert r none) :: post ∧ run (lossyStep cfg) s₀ pre = some v ∧
    (v.req r).pc = .regInsert user.phone ip user.passwordHash user.salt ∧
    user = v.newUser user.phone user.passwordHash user.salt ∧
    Past (lossyStep cfg) s₀ pre fun s e => passed cfg s e = some (r, user.phone)

theorem Inserted.snoc {s₀ : State} {es : List LossyEv} {user : User} (h : Inserted cfg s₀ es user) (e : LossyEv) :
    Inserted cfg s₀ (es ++ [e]) user := by
  obtain ⟨pre, post, v, r, ip, rfl, hv, hrest⟩ := h
  exact ⟨pre, post ++ [e], v, r, ip, by simp, hv, hrest⟩

/-- What a run says about its codes and accounts. -/
structure Accounts (cfg : Config) (s₀ : State) (es : List LossyEv) (s : State) : Prop where
  counters : SmsService.Counters s.redis
  cleared : ∀ r, (s.req r).pc.Cleared fun phone => Past (lossyStep cfg) s₀ es fun s e => passed cfg s e = some (r, phone)
  unique : (s.users.map User.phone).Nodup
  valid : ∀ user ∈ s.users, SmsService.isValidPhone user.phone = true ∧ Inserted cfg s₀ es user
  balance : Meets (lossyStep cfg) (Storable cfg) s₀ es → ∀ phone,
    tally (lossyStep cfg) (fun s e => (passed cfg s e).any fun p => p.2 = phone) s₀ es + codes s phone ≤
      tally (lossyStep cfg) (fun s e => sent cfg s e = some phone) s₀ es

/-- A phone without a row is not among those of the table. -/
theorem not_mem_phones (h : s.userOf phone = none) : phone ∉ s.users.map User.phone := by
  intro hm
  obtain ⟨user, huser, rfl⟩ := List.mem_map.1 hm
  have := List.find?_eq_none.1 h user huser
  simp at this

theorem accounts_step (hsms : cfg.requireSmsOnRegister = true) {s₀ : State} {es : List LossyEv} {e : LossyEv}
    (hrun : run (lossyStep cfg) s₀ es = some s) (h : Accounts cfg s₀ es s) (hs : lossyStep cfg s e = some t) :
    Accounts cfg s₀ (es ++ [e]) t := by
  refine ⟨lossy_counters s e t h.counters hs, fun r => ?_, ?_, ?_, fun hm phone => ?_⟩
  · -- who is past the check
    cases e with
    | expire k =>
      rw [← Option.some.inj hs]
      exact (h.cleared r).mono fun phone hp => hp.snoc _
    | ev e =>
      exact cleared_step hsms (fun phone hp => hp.snoc _) (fun phone hp => past_last hrun hp) hs (h.cleared r)
  · -- one row a phone: the INSERT finds none
    cases e with
    | expire k =>
      rw [← Option.some.inj hs]
      exact h.unique
    | ev e =>
      rcases step_users hs with heq | ⟨r, phone, ip, hash, salt, -, -, hnone, heq⟩
      · rw [heq]
        exact h.unique
      · rw [heq, List.map_append, List.map_singleton]
        exact List.nodup_append.2 ⟨h.unique, by simp, fun a ha b hb => by
          rintro rfl
          rw [List.mem_singleton.1 hb] at ha
          exact not_mem_phones hnone ha⟩
  · -- where the new row comes from
    intro user huser
    cases e with
    | expire k =>
      rw [← Option.some.inj hs] at huser
      exact ⟨(h.valid user huser).1, (h.valid user huser).2.snoc _⟩
    | ev e =>
      rcases step_users hs with heq | ⟨r, phone, ip, hash, salt, rfl, hpc, -, heq⟩
      · rw [heq] at huser
        exact ⟨(h.valid user huser).1, (h.valid user huser).2.snoc _⟩
      · rw [heq] at huser
        rcases List.mem_append.1 huser with hold | hnew
        · exact ⟨(h.valid user hold).1, (h.valid user hold).2.snoc _⟩
        · rw [List.mem_singleton.1 hnew]
          have hcleared := h.cleared r
          rw [hpc] at hcleared
          exact ⟨hcleared.1, es, [], s, r, ip, rfl, hrun, hpc, rfl, hcleared.2⟩
  · obtain ⟨hpre, hlast⟩ := meets_append hm
    have hbalance := h.balance hpre phone
    have hstep := codes_step h.counters (hlast s hrun).1 hs phone
    rw [tally_snoc e hrun, tally_snoc e hrun]
    simp only [decide_eq_true_eq]
    omega

/-- **No account without a code, no code redeemed twice.** With the code check required, in
every reachable state of any interleaving, whatever expires in between: a phone has at
most one row and is valid; every row was inserted by a registration that had got past
the code check; and, as long as no send stores a code it cannot set the cooldown for, at
most as many registrations got past the check for a phone as sends answered `(0, n)`. -/
theorem codes_redeemed (cfg : Config) (hsms : cfg.requireSmsOnRegister = true) (now : ℕ) (nextId : Int64)
    (es : List LossyEv) (s : State) (h : run (lossyStep cfg) (.init now [] nextId) es = some s) :
    (s.users.map User.phone).Nodup ∧
      (∀ user ∈ s.users, SmsService.isValidPhone user.phone = true ∧ Inserted cfg (.init now [] nextId) es user) ∧
      (Meets (lossyStep cfg) (Storable cfg) (.init now [] nextId) es → ∀ phone,
        tally (lossyStep cfg) (fun s e => (passed cfg s e).any fun p => p.2 = phone) (.init now [] nextId) es ≤
          tally (lossyStep cfg) (fun s e => sent cfg s e = some phone) (.init now [] nextId) es) := by
  have hinit : Accounts cfg (.init now [] nextId) [] (.init now [] nextId) := by
    refine ⟨Ints.empty now, fun r => trivial, List.nodup_nil, fun user hu => ?_, fun _ phone => Nat.le_refl _⟩
    cases hu
  have haccounts := run_trace (I := Accounts cfg (.init now [] nextId)) hinit
    (fun es s e t hrun h hs => accounts_step hsms hrun h hs) h
  refine ⟨haccounts.unique, haccounts.valid, fun hm phone => ?_⟩
  have := haccounts.balance hm phone
  omega

/-- A phone gets a code and registers with it. -/
def registration : List LossyEv :=
  [.ev (.sendCode "13800000000" "123456" "20240101" 3600 true),
    .ev (.registerUser 0 "13800000000" "secret1" "123456" "10.0.0.1"), .ev (.regCheck 0 none), .ev (.regVerify 0 none),
    .ev (.regSelect 0 none [1]), .ev (.regHash 0 false), .ev (.regInsert 0 none)]

/-- Once more: a resend that comes too early, a registration with the code that was redeemed,
and after the cooldown is lost a new code, with which the phone is registered already. -/
def registeredAgain : List LossyEv :=
  registration ++ [.ev (.sendCode "13800000000" "654321" "20240101" 3600 true),
    .ev (.registerUser 1 "13800000000" "secret2" "123456" "10.0.0.1"), .ev (.regCheck 1 none), .ev (.regVerify 1 none),
    .expire (.smsCd "13800000000"), .ev (.sendCode "13800000000" "654321" "20240101" 3600 true),
    .ev (.registerUser 2 "13800000000" "secret2" "654321" "10.0.0.1"), .ev (.regCheck 2 none), .ev (.regVerify 2 none),
    .ev (.regSelect 2 none [2])]

/-- With the default configuration: one account, and two codes for two that were sent. -/
theorem codes_redeemed_twice :
    ∃ s, run (lossyStep unsignedConfig) (.init 0 [] 1) registeredAgain = some s ∧
      s.users.map User.phone = ["13800000000"] ∧ (s.req 1).answer = some (.register false "CODE_EXPIRED") ∧
      (s.req 2).answer = some (.register false "PHONE_REGISTERED") ∧
      (∀ user ∈ s.users, Inserted unsignedConfig (.init 0 [] 1) registeredAgain user) ∧
      tally (lossyStep unsignedConfig) (fun s e => (passed unsignedConfig s e).any fun p => p.2 = "13800000000")
          (.init 0 [] 1) registeredAgain = 2 ∧
      tally (lossyStep unsignedConfig) (fun s e => (passed unsignedConfig s e).any fun p => p.2 = "13800000000")
          (.init 0 [] 1) registeredAgain ≤
        tally (lossyStep unsignedConfig) (fun s e => sent unsignedConfig s e = some "13800000000") (.init 0 [] 1)
          registeredAgain := by
  have hrun : ((run (lossyStep unsignedConfig) (.init 0 [] 1) registeredAgain).map fun s =>
      (s.users.map User.phone, (s.req 1).answer, (s.req 2).answer)) =
      some (["13800000000"], some (.register false "CODE_EXPIRED"), some (.register false "PHONE_REGISTERED")) := by
    decide +kernel
  obtain ⟨s, hs, hfacts⟩ := Option.map_eq_some_iff.1 hrun
  simp only [Prod.mk.injEq] at hfacts
  obtain ⟨husers, hexpired, hexists⟩ := hfacts
  obtain ⟨-, hvalid, hbalance⟩ := codes_redeemed unsignedConfig rfl 0 1 registeredAgain s hs
  have hstorable : ∀ s e, Storable unsignedConfig s e := by
    intro s e
    unfold Storable
    split
    · exact fun _ _ _ _ => Or.inl (by decide)
    · trivial
  exact ⟨s, hs, husers, hexpired, hexists, fun user hu => (hvalid user hu).2, by decide +kernel,
    hbalance (meets_imp (fun s e _ => hstorable s e) (meets_of_forall (D := fun _ => True) (fun _ _ => trivial) _)) _⟩

/-- The default configuration without a resend interval. -/
def noCooldownConfig : Config := { unsignedConfig with sms := ⟨300, 0, 10, 5⟩ }

/-- Without a resend interval the send fails, its code stays, and an account is
inserted for a phone that was sent nothing. -/
theorem codes_unsent :
    ∃ s, run (lossyStep noCooldownConfig) (.init 0 [] 1) registration = some s ∧
      s.users.map User.phone = ["13800000000"] ∧
      tally (lossyStep noCooldownConfig) (fun s e => (passed noCooldownConfig s e).any fun p => p.2 = "13800000000")
          (.init 0 [] 1) registration = 1 ∧
      tally (lossyStep noCooldownConfig) (fun s e => sent noCooldownConfig s e = some "13800000000") (.init 0 [] 1)
          registration = 0 := by
  have hrun : ((run (lossyStep noCooldownConfig) (.init 0 [] 1) registration).map fun s => s.users.map User.phone) =
      some ["13800000000"] := by decide +kernel
  obtain ⟨s, hs, husers⟩ := Option.map_eq_some_iff.1 hrun
  exact ⟨s, hs, husers, by decide +kernel, by decide +kernel⟩

end Seckill.UserService
