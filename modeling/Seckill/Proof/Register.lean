import Seckill.Lib.Crowd
import Seckill.Proof.UserService

/-!
# The registration quota against concurrent registrations

`UserService::registerUser` reads `reg:ip:{ip}` at its start and charges it after
the INSERT, so registrations that overlap can all pass the check.

* `Charges` is the condition, on the state before each step, under which the quota
  holds all the same;
* `registerUser_quota`: it then does. Since the first account of a window, while the
  window is open, at most `maxPerIp` are created;
* `checks_charges`: the check provides the condition where registrations do not
  overlap, or those in flight leave room;
* `registerUser_quota_exceeded`: a run of the default configuration with six.
-/

namespace Seckill.UserService

open Redis Crowd

section

variable (cfg : Config) (ip : String)

/-- The request has created an account from the address, and not yet charged it. -/
def Uncharged (s : State) (r : ℕ) : Prop := ∃ row, (s.req r).pc = .regMark ip row

/-- The request has created and charged an account from the address, row `row₀` or later. -/
def ChargedSince (row₀ : ℕ) (s : State) (r : ℕ) : Prop := ∃ row, (s.req r).pc = .regMarked ip row ∧ row₀ ≤ row

/-- The request has created an account from the address, row `row₀` or later. -/
def CreatedSince (row₀ : ℕ) (s : State) (r : ℕ) : Prop :=
  ∃ row, ((s.req r).pc = .regMark ip row ∨ (s.req r).pc = .regMarked ip row) ∧ row₀ ≤ row

/-- The address's window is open after the event. -/
def KeepsOpen (s : State) (e : Ev) : Prop := ∀ t, step cfg s e = some t → t.redis.find (.regIp ip) ≠ none

instance (s : State) (e : Ev) : Decidable (KeepsOpen cfg ip s e) :=
  inferInstanceAs (Decidable (∀ t ∈ step cfg s e, t.redis.find (.regIp ip) ≠ none))

/-- **The condition on a step.**
* Redis is healthy;
* an INSERT creates an account only while the counter and the accounts not charged
  yet leave room;
* when a mark opens a window, no account younger than its own has been charged to
  an earlier one. -/
structure Charges (s : State) (e : Ev) : Prop where
  healthy : e.Healthy
  insert : ∀ r phone hash salt, e = .regInsert r none → (s.req r).pc = .regInsert phone ip hash salt →
    s.userOf phone = none → AtMost (Uncharged ip s) (cfg.maxPerIp - count s.redis (.regIp ip) - 1)
  first : ∀ r err row, e = .markSuccess r err → (s.req r).pc = .regMark ip row →
    s.redis.find (.regIp ip) = none → ∀ r' row', (s.req r').pc = .regMarked ip row' → row' < row

end

variable {cfg : Config} {ip : String} {s t : State} {e : Ev} {r : ℕ}

/-! ## Steps -/

theorem markScript_counted {st : Store Key} (hs : SmsService.Counters st) (ip : String) :
    Counted (.regIp ip) cfg.windowSeconds st (markScript cfg ip st).2 := by
  obtain ⟨st', hst', -, hcounted⟩ := hs.counted (k := Key.regIp ip) trivial cfg.windowSeconds fun n => Pure.pure n
  unfold markScript RegisterGuard.kMarkScript
  rw [hst']
  exact hcounted

/-- What happens to the counter: a mark counts, or nothing but that it may go away. -/
theorem quota_step (ip : String) (hs : SmsService.Counters s.redis) (h : step cfg s e = some t) (he : e.Healthy) :
    (∃ r err row, e = .markSuccess r err ∧ (s.req r).pc = .regMark ip row ∧
        (t.req r).pc = .regMarked ip row ∧ Counted (.regIp ip) cfg.windowSeconds s.redis t.redis) ∨
      (t.redis.find (.regIp ip) = s.redis.find (.regIp ip) ∨ t.redis.find (.regIp ip) = none) ∧
        ∀ r err row, e = .markSuccess r err → (s.req r).pc ≠ .regMark ip row := by
  by_cases hw : e.writes s (.regIp ip)
  · left
    cases e with
    | markSuccess r err =>
      obtain ⟨ip', row', hpc', heq⟩ := hw
      injection heq with heq
      subst heq
      obtain ⟨ip', row, hpc, rfl⟩ := markSuccessStep_cases h
      rw [hpc', Pc.regMark.injEq] at hpc
      obtain ⟨rfl, rfl⟩ := hpc
      refine ⟨r, err, row', rfl, hpc', ?_, ?_⟩
      · rw [State.set_req, if_pos rfl]
        rfl
      · have herr : err = none := he
        subst herr
        exact markScript_counted hs ip
    | _ => simp [Ev.writes] at hw
  · right
    constructor
    · cases hfind : t.redis.find (.regIp ip) with
      | none => exact Or.inr rfl
      | some x => exact Or.inl (find_step h hw hfind).symm
    · rintro r err row rfl hpc
      exact hw ⟨ip, row, hpc, rfl⟩

/-- Only an INSERT makes an account wait for its charge. -/
theorem uncharged_step (h : step cfg s e = some t) (hr : Uncharged ip t r) :
    Uncharged ip s r ∨ e = .regInsert r none ∧ ∃ phone hash salt,
      (s.req r).pc = .regInsert phone ip hash salt ∧ s.userOf phone = none := by
  unfold Uncharged at hr ⊢
  rcases (step_effect h).req r with heq | hmove
  · rw [heq] at hr
    exact Or.inl hr
  · obtain ⟨row, hpc'⟩ := hr
    generalize t.req r = q at hmove hpc'
    cases hmove with
    | reset _ => exact Or.inl ⟨row, hpc'⟩
    | created hpc huser =>
      injection hpc' with hip
      rw [hip] at hpc
      exact Or.inr ⟨rfl, _, _, _, hpc, huser⟩
    | _ => cases hpc'

/-- Only a mark charges an account. -/
theorem charged_step {row₀ : ℕ} (h : step cfg s e = some t) (hr : ChargedSince ip row₀ t r) :
    ChargedSince ip row₀ s r ∨ ∃ err row, e = .markSuccess r err ∧ (s.req r).pc = .regMark ip row := by
  unfold ChargedSince at hr ⊢
  rcases (step_effect h).req r with heq | hmove
  · rw [heq] at hr
    exact Or.inl hr
  · obtain ⟨row, hpc', hle⟩ := hr
    generalize t.req r = q at hmove hpc'
    cases hmove with
    | reset _ => exact Or.inl ⟨row, hpc', hle⟩
    | marked hpc =>
      injection hpc' with hip
      rw [hip] at hpc
      exact Or.inr ⟨_, _, rfl, hpc⟩
    | _ => cases hpc'

/-! ## The quota -/

/-- The counter and the accounts not charged yet are within the quota. -/
structure Within (cfg : Config) (ip : String) (s : State) : Prop where
  counters : SmsService.Counters s.redis
  nonneg : 0 ≤ count s.redis (.regIp ip)
  room : AtMost (Uncharged ip s) (max cfg.maxPerIp 0 - count s.redis (.regIp ip))

/-- **A step that meets the condition stays within the quota.** -/
theorem within_step (hs : Within cfg ip s) (hc : Charges cfg ip s e) (h : step cfg s e = some t) :
    Within cfg ip t := by
  have hcounters := step_counters s e t hs.counters h
  have hnonneg := hs.nonneg
  rcases quota_step ip hs.counters h hc.healthy with ⟨r, err, row, rfl, hpc, hpc', hcounted⟩ | ⟨hfind, hmark⟩
  · -- a mark: one account less to charge, one more in the counter
    have hleave : AtMost (Uncharged ip t) (max cfg.maxPerIp 0 - count s.redis (.regIp ip) - 1) := by
      refine hs.room.leave ⟨row, hpc⟩ fun i hi => ?_
      constructor
      · rintro rfl
        obtain ⟨row', hi⟩ := hi
        rw [hpc'] at hi
        cases hi
      · rcases uncharged_step h hi with hi' | ⟨heq, -⟩
        · exact hi'
        · cases heq
    rcases hcounted with ⟨-, hcount⟩ | ⟨-, hnone⟩
    · refine ⟨hcounters, by omega, hleave.mono (fun _ hi => hi) ?_⟩
      omega
    · have hzero : count t.redis (.regIp ip) = 0 := count_none hnone
      refine ⟨hcounters, by omega, hleave.mono (fun _ hi => hi) ?_⟩
      omega
  · have hcount := count_kept hfind
    refine ⟨hcounters, by omega, ?_⟩
    by_cases hins : ∃ r phone hash salt, e = .regInsert r none ∧
        (s.req r).pc = .regInsert phone ip hash salt ∧ s.userOf phone = none
    · -- an INSERT uses the room that was there
      obtain ⟨r, phone, hash, salt, rfl, hpc, huser⟩ := hins
      have hroom := hc.insert r phone hash salt rfl hpc huser
      have henter : AtMost (Uncharged ip t) (cfg.maxPerIp - count s.redis (.regIp ip) - 1 + 1) := by
        refine hroom.enter r fun i hi => ?_
        rcases uncharged_step h hi with hi' | ⟨heq, -⟩
        · exact Or.inr hi'
        · injection heq with heq
          exact Or.inl heq.symm
      refine henter.mono (fun _ hi => hi) ?_
      omega
    · refine hs.room.mono (fun i hi => ?_) ?_
      · rcases uncharged_step h hi with hi' | ⟨heq, phone, hash, salt, hpc, huser⟩
        · exact hi'
        · exact absurd ⟨i, phone, hash, salt, heq, hpc, huser⟩ hins
      · omega

theorem within_run {s₀ : State} {es : List Ev} (hs : Within cfg ip s₀)
    (hm : Machine.Meets (step cfg) (Charges cfg ip) s₀ es) (h : Machine.run (step cfg) s₀ es = some s) :
    Within cfg ip s :=
  Machine.run_inv_of (C := Charges cfg ip) (I := Within cfg ip) (fun _ _ _ hu hc huv => within_step hu hc huv) hs hm h

/-- Every account charged since row `row₀` is in the counter. -/
def Booked (ip : String) (row₀ : ℕ) (s : State) : Prop :=
  AtMost (ChargedSince ip row₀ s) (count s.redis (.regIp ip))

/-- While the window stays open, what is charged stays booked. -/
theorem booked_step {row₀ : ℕ} (hs : SmsService.Counters s.redis) (hb : Booked ip row₀ s)
    (h : step cfg s e = some t) (he : e.Healthy) (hopen : t.redis.find (.regIp ip) ≠ none) : Booked ip row₀ t := by
  unfold Booked at hb ⊢
  rcases quota_step ip hs h he with ⟨r, err, row, rfl, hpc, hpc', hcounted⟩ | ⟨hfind, hmark⟩
  · rcases hcounted with ⟨-, hcount⟩ | ⟨-, hnone⟩
    · rw [hcount]
      refine hb.enter r fun i hi => ?_
      rcases charged_step h hi with hi' | ⟨err', row', heq, -⟩
      · exact Or.inr hi'
      · injection heq with heq
        exact Or.inl heq.symm
    · exact absurd hnone hopen
  · have hsame : count t.redis (.regIp ip) = count s.redis (.regIp ip) := by
      rcases hfind with hfind | hnone
      · exact count_congr hfind
      · exact absurd hnone hopen
    rw [hsame]
    refine hb.mono (fun i hi => ?_) (Int.le_refl _)
    rcases charged_step h hi with hi' | ⟨err, row, heq, hpc⟩
    · exact hi'
    · exact absurd hpc (hmark i err row heq)

/-- **The registration quota.** In a run whose steps meet the condition: from the
first account of a window on, no more than `maxPerIp` accounts are created from the
address, in every state up to the end of the window. -/
theorem registerUser_quota (cfg : Config) (ip : String) (now : ℕ) (users : List User) (nextId : Int64) (es : List Ev)
    (hc : Machine.Meets (step cfg) (Charges cfg ip) (.init now users nextId) es) :
    ∀ pre r₀ err row₀ post rest u v w, es = pre ++ .markSuccess r₀ err :: (post ++ rest) →
      Machine.run (step cfg) (.init now users nextId) pre = some u →
      (u.req r₀).pc = .regMark ip row₀ → u.redis.find (.regIp ip) = none →
      step cfg u (.markSuccess r₀ err) = some v → v.redis.find (.regIp ip) ≠ none →
      Machine.run (step cfg) v post = some w → Machine.Meets (step cfg) (KeepsOpen cfg ip) v post →
      AtMost (CreatedSince ip row₀ w) cfg.maxPerIp := by
  rintro pre r₀ err row₀ post rest u v w rfl hpre hpc hnone huv hopen hpost hkeeps
  obtain ⟨hcpre, hcmark⟩ := Machine.meets_append hc
  obtain ⟨hmark, hcrest⟩ := hcmark u hpre
  obtain ⟨hcpost, -⟩ := Machine.meets_append (hcrest v huv)
  have hinit : Within cfg ip (.init now users nextId) := by
    have hzero : count (State.init now users nextId).redis (.regIp ip) = 0 := rfl
    refine ⟨Ints.empty now, by omega, AtMost.none ?_ (by omega)⟩
    rintro r ⟨row, hpc⟩
    cases hpc
  have hu : Within cfg ip u := within_run hinit hcpre hpre
  have hv : Within cfg ip v := within_step hu hmark huv
  have hw : Within cfg ip w := within_run hv hcpost hpost
  -- the mark opens the window: its account is the only one since `row₀` that is charged
  have hbv : Booked ip row₀ v := by
    have hzero : count u.redis (.regIp ip) = 0 := count_none hnone
    have hone : count v.redis (.regIp ip) = 1 := by
      rcases quota_step ip hu.counters huv hmark.healthy with ⟨r, err', row, -, -, -, hcounted⟩ | ⟨-, hnot⟩
      · rcases hcounted with ⟨-, hcount⟩ | ⟨-, hnone'⟩
        · omega
        · exact absurd hnone' hopen
      · exact absurd hpc (hnot r₀ err row₀ rfl)
    have hzero' : AtMost (ChargedSince ip row₀ u) 0 := by
      refine AtMost.none ?_ (Int.le_refl 0)
      rintro r ⟨row, hr, hle⟩
      have hlt := hmark.first r₀ err row₀ rfl hpc hnone r row hr
      omega
    unfold Booked
    rw [hone]
    refine hzero'.enter r₀ fun i hi => ?_
    rcases charged_step huv hi with hi' | ⟨err', row, heq, -⟩
    · exact Or.inr hi'
    · injection heq with heq
      exact Or.inl heq.symm
  have hbw : Booked ip row₀ w := by
    refine (Machine.run_inv_of (C := fun s e => Charges cfg ip s e ∧ KeepsOpen cfg ip s e)
      (I := fun s => SmsService.Counters s.redis ∧ Booked ip row₀ s) ?_ ⟨hv.counters, hbv⟩
      (Machine.meets_and hcpost hkeeps) hpost).2
    rintro s e t ⟨hs, hb⟩ ⟨hce, hke⟩ hst
    exact ⟨step_counters s e t hs hst, booked_step hs hb hst hce.healthy (hke t hst)⟩
  -- the opener itself was within the quota
  have hpos : 1 ≤ max cfg.maxPerIp 0 - count u.redis (.regIp ip) := hu.room.one_le ⟨row₀, hpc⟩
  have hnonneg := hu.nonneg
  refine (hw.room.or hbw).mono (fun i hi => ?_) (by omega)
  obtain ⟨row, hr | hr, hle⟩ := hi
  · exact Or.inl ⟨row, hr⟩
  · exact Or.inr ⟨row, hr, hle⟩

/-! ## What the check is good for -/

/-- The point of a registration between its check and the charge. -/
def Pc.InFlight (ip : String) : Pc → Prop
  | .regVerify _ _ _ ip' | .regSelect _ _ ip' | .regHash _ _ ip' _ | .regInsert _ ip' _ _ | .regMark ip' _ => ip' = ip
  | _ => False

/-- The request is a registration from the address, past its check and not charged. -/
def InFlight (ip : String) (s : State) (r : ℕ) : Prop := (s.req r).pc.InFlight ip

/-- A condition on the checks alone: those in flight, if any, leave room for one more. -/
structure Checks (cfg : Config) (ip : String) (s : State) (e : Ev) : Prop where
  healthy : e.Healthy
  check : ∀ r err phone password code, e = .regCheck r err → (s.req r).pc = .regCheck phone password code ip →
    (∃ r', InFlight ip s r') → AtMost (InFlight ip s) (cfg.maxPerIp - count s.redis (.regIp ip) - 1)
  first : ∀ r err row, e = .markSuccess r err → (s.req r).pc = .regMark ip row →
    s.redis.find (.regIp ip) = none → ∀ r' row', (s.req r').pc = .regMarked ip row' → row' < row

/-- **The check**: it lets a registration pass below the quota. -/
theorem ipCheck_passes {st : Store Key} (hs : SmsService.Counters st) (hmax : 1 ≤ cfg.maxPerIp)
    (h : RegisterGuard.onCheck (exec none (RegisterGuard.kCheckScript (.regIp ip) cfg.maxPerIp) st).1 = true) :
    count st (.regIp ip) < cfg.maxPerIp := by
  rcases hs.find (k := Key.regIp ip) trivial with hnone | ⟨n, x, hsome⟩
  · rw [count_none hnone]
    omega
  · rw [count_of_find hsome]
    by_contra hge
    have hreply : (exec none (RegisterGuard.kCheckScript (.regIp ip) cfg.maxPerIp) st).1 = .ok 0 := by
      unfold exec RegisterGuard.kCheckScript
      simp only
      rw [get_bind_some _ _ _ hsome Val.noConfusion]
      simp only [tonumber_bind]
      rw [if_neg hge]
      rfl
    rw [hreply] at h
    cases h

theorem inFlight_step (h : step cfg s e = some t) (hr : InFlight ip t r) :
    InFlight ip s r ∨ ∃ err phone password code, e = .regCheck r err ∧
      (s.req r).pc = .regCheck phone password code ip ∧
      RegisterGuard.onCheck (exec err (RegisterGuard.kCheckScript (.regIp ip) cfg.maxPerIp) s.redis).1 = true := by
  unfold InFlight at hr ⊢
  rcases (step_effect h).req r with heq | hmove
  · rw [heq] at hr
    exact Or.inl hr
  · generalize t.req r = q at hmove hr
    cases hmove with
    | regVerify hpc hcheck =>
      have hip : _ = ip := hr
      rw [hip] at hpc hcheck
      exact Or.inr ⟨_, _, _, _, rfl, hpc, hcheck⟩
    | regUnverified hpc hcheck =>
      have hip : _ = ip := hr
      rw [hip] at hpc hcheck
      exact Or.inr ⟨_, _, _, _, rfl, hpc, hcheck⟩
    | reset _ => exact Or.inl hr
    | regVerified hpc | regHash hpc | regInsert _ hpc | created hpc _ =>
      left
      rw [hpc]
      exact hr
    | _ => exact hr.elim

/-- The counter and the registrations in flight are within the quota. -/
structure Reserved (cfg : Config) (ip : String) (s : State) : Prop where
  counters : SmsService.Counters s.redis
  nonneg : 0 ≤ count s.redis (.regIp ip)
  room : AtMost (InFlight ip s) (cfg.maxPerIp - count s.redis (.regIp ip))

/-- The room for the registration that passes the check. -/
theorem Reserved.pass (hmax : 1 ≤ cfg.maxPerIp) (hs : Reserved cfg ip s) {err : Option String}
    {phone password code : String} (hc : Checks cfg ip s (.regCheck r err))
    (hpc : (s.req r).pc = .regCheck phone password code ip)
    (hpass : RegisterGuard.onCheck (exec err (RegisterGuard.kCheckScript (.regIp ip) cfg.maxPerIp) s.redis).1 = true) :
    AtMost (InFlight ip s) (cfg.maxPerIp - count s.redis (.regIp ip) - 1) := by
  by_cases hsome : ∃ r', InFlight ip s r'
  · exact hc.check r err phone password code rfl hpc hsome
  · have herr : err = none := hc.healthy
    subst herr
    have hlt := ipCheck_passes hs.counters hmax hpass
    exact AtMost.none (fun i hi => hsome ⟨i, hi⟩) (by omega)

theorem reserved_step (hmax : 1 ≤ cfg.maxPerIp) (hs : Reserved cfg ip s) (hc : Checks cfg ip s e)
    (h : step cfg s e = some t) : Reserved cfg ip t := by
  have hcounters := step_counters s e t hs.counters h
  have hnonneg := hs.nonneg
  rcases quota_step ip hs.counters h hc.healthy with ⟨r, err, row, rfl, hpc, hpc', hcounted⟩ | ⟨hfind, hmark⟩
  · -- a mark: the registration is in flight no more
    have hleave : AtMost (InFlight ip t) (cfg.maxPerIp - count s.redis (.regIp ip) - 1) := by
      refine hs.room.leave (a := r) ?_ fun i hi => ⟨?_, ?_⟩
      · unfold InFlight
        rw [hpc]
        rfl
      · rintro rfl
        unfold InFlight at hi
        rw [hpc'] at hi
        exact hi
      · rcases inFlight_step h hi with hi' | ⟨err, phone, password, code, heq, -⟩
        · exact hi'
        · cases heq
    rcases hcounted with ⟨-, hcount⟩ | ⟨-, hnone⟩
    · exact ⟨hcounters, by omega, hleave.mono (fun _ hi => hi) (by omega)⟩
    · have hzero : count t.redis (.regIp ip) = 0 := count_none hnone
      exact ⟨hcounters, by omega, hleave.mono (fun _ hi => hi) (by omega)⟩
  · have hcount := count_kept hfind
    refine ⟨hcounters, by omega, ?_⟩
    by_cases hpassed : ∃ r err phone password code, e = .regCheck r err ∧
        (s.req r).pc = .regCheck phone password code ip ∧
        RegisterGuard.onCheck (exec err (RegisterGuard.kCheckScript (.regIp ip) cfg.maxPerIp) s.redis).1 = true
    · -- a check that passes takes one of the free places
      obtain ⟨r, err, phone, password, code, rfl, hpc, hpass⟩ := hpassed
      have henter : AtMost (InFlight ip t) (cfg.maxPerIp - count s.redis (.regIp ip) - 1 + 1) := by
        refine (hs.pass hmax hc hpc hpass).enter r fun i hi => ?_
        rcases inFlight_step h hi with hi' | ⟨err', phone', password', code', heq, -⟩
        · exact Or.inr hi'
        · injection heq with heq
          exact Or.inl heq.symm
      exact henter.mono (fun _ hi => hi) (by omega)
    · refine hs.room.mono (fun i hi => ?_) (by omega)
      rcases inFlight_step h hi with hi' | ⟨err, phone, password, code, heq, hpc, hpass⟩
      · exact hi'
      · exact absurd ⟨i, err, phone, password, code, heq, hpc, hpass⟩ hpassed

/-- An INSERT has the room that its check reserved. -/
theorem Reserved.charges (hs : Reserved cfg ip s) (hc : Checks cfg ip s e) : Charges cfg ip s e := by
  refine ⟨hc.healthy, ?_, hc.first⟩
  rintro r phone hash salt rfl hpc -
  refine hs.room.leave (a := r) ?_ fun i hi => ⟨?_, ?_⟩
  · unfold InFlight
    rw [hpc]
    rfl
  · rintro rfl
    obtain ⟨row, hi⟩ := hi
    rw [hpc] at hi
    cases hi
  · obtain ⟨row, hi⟩ := hi
    unfold InFlight
    rw [hi]
    rfl

/-- **The check suffices where registrations do not overlap**, or leave room where
they do: the condition of `registerUser_quota` then holds at every INSERT. -/
theorem checks_charges (cfg : Config) (hmax : 1 ≤ cfg.maxPerIp) (ip : String) (now : ℕ) (users : List User)
    (nextId : Int64) (es : List Ev)
    (hc : Machine.Meets (step cfg) (Checks cfg ip) (.init now users nextId) es) :
    Machine.Meets (step cfg) (Charges cfg ip) (.init now users nextId) es := by
  refine Machine.meets_of_inv (I := Reserved cfg ip) (fun s e t hs hc h => reserved_step hmax hs hc h)
    (fun s e hs hc => hs.charges hc) ?_ hc
  have hzero : count (State.init now users nextId).redis (.regIp ip) = 0 := rfl
  exact ⟨Ints.empty now, by omega, AtMost.none (fun r hr => hr.elim) (by omega)⟩

/-! ## Runs -/

def phones : List String :=
  ["13800000000", "13800000001", "13800000002", "13800000003", "13800000004", "13800000005"]

/-- Every phone gets its code, and every registration passes the check. -/
def sixChecked : List Ev :=
  (phones.map fun phone => .sendCode phone "123456" "20240101" 3600 true) ++
    phones.zipIdx.flatMap fun p => [.registerUser p.2 p.1 "password" "123456" "10.0.0.1", .regCheck p.2 none]

/-- A registration after its check, up to the INSERT. -/
def insertedUpTo (r : ℕ) : List Ev :=
  [.regVerify r none, .regSelect r none [7], .regHash r false, .regInsert r none]

/-- With the default limits and a healthy Redis: six accounts in one window. -/
theorem registerUser_quota_exceeded :
    (∀ e ∈ sixChecked ++ [0, 1, 2, 3, 4, 5].flatMap insertedUpTo, e.Healthy) ∧
      ∃ u v w, Machine.run (step unsignedConfig) (.init 0 [] 1) (sixChecked ++ insertedUpTo 0) = some u ∧
        (u.req 0).pc = .regMark "10.0.0.1" 0 ∧ u.redis.find (.regIp "10.0.0.1") = none ∧
        step unsignedConfig u (.markSuccess 0 none) = some v ∧ v.redis.find (.regIp "10.0.0.1") ≠ none ∧
        Machine.run (step unsignedConfig) v ([1, 2, 3, 4, 5].flatMap insertedUpTo) = some w ∧
        Machine.Meets (step unsignedConfig) (KeepsOpen unsignedConfig "10.0.0.1") v
          ([1, 2, 3, 4, 5].flatMap insertedUpTo) ∧
        ¬AtMost (CreatedSince "10.0.0.1" 0 w) unsignedConfig.maxPerIp := by
  refine ⟨by decide +kernel, ?_⟩
  have hrun : ((Machine.run (step unsignedConfig) (.init 0 [] 1) (sixChecked ++ insertedUpTo 0)).map fun u =>
      ((u.req 0).pc, u.redis.find (.regIp "10.0.0.1"), (step unsignedConfig u (.markSuccess 0 none)).map fun v =>
        (v.redis.find (.regIp "10.0.0.1"),
          decide (Machine.Meets (step unsignedConfig) (KeepsOpen unsignedConfig "10.0.0.1") v
            ([1, 2, 3, 4, 5].flatMap insertedUpTo)),
          (Machine.run (step unsignedConfig) v ([1, 2, 3, 4, 5].flatMap insertedUpTo)).map fun w =>
            (List.range 6).map fun r => (w.req r).pc))) =
      some (.regMark "10.0.0.1" 0, none, some (some ⟨.int 1, some 3600000⟩, true,
        some (.regMarked "10.0.0.1" 0 :: [1, 2, 3, 4, 5].map (.regMark "10.0.0.1")))) := by rfl
  obtain ⟨u, hu, hfacts⟩ := Option.map_eq_some_iff.1 hrun
  obtain ⟨hpc, hfacts⟩ := Prod.mk.inj hfacts
  obtain ⟨hnone, hfacts⟩ := Prod.mk.inj hfacts
  obtain ⟨v, hv, hfacts⟩ := Option.map_eq_some_iff.1 hfacts
  obtain ⟨hopen, hfacts⟩ := Prod.mk.inj hfacts
  obtain ⟨hkeeps, hfacts⟩ := Prod.mk.inj hfacts
  obtain ⟨w, hw, hpcs⟩ := Option.map_eq_some_iff.1 hfacts
  refine ⟨u, v, w, hu, hpc, hnone, hv, ?_, hw, of_decide_eq_true hkeeps, fun hatMost => ?_⟩
  · rw [hopen]
    exact Option.some_ne_none _
  · have hsix := hatMost (Finset.range 6) fun r hr => by
      have hmem : (w.req r).pc ∈ (List.range 6).map fun r => (w.req r).pc :=
        List.mem_map_of_mem (List.mem_range.2 (Finset.mem_range.1 hr))
      rw [hpcs] at hmem
      rcases List.mem_cons.1 hmem with hfirst | hothers
      · exact ⟨0, Or.inr hfirst, Nat.le_refl 0⟩
      · obtain ⟨row, -, hrow⟩ := List.mem_map.1 hothers
        exact ⟨row, Or.inl hrow.symm, Nat.zero_le row⟩
    rw [Finset.card_range] at hsix
    exact absurd hsix (by decide)

/-- The row of an account from the address that is not charged yet. -/
def Pc.uncharged (ip : String) : Pc → Option ℕ
  | .regMark ip' row => if ip' = ip then some row else none
  | _ => none

/-- The row of one that is. -/
def Pc.charged (ip : String) : Pc → Option ℕ
  | .regMarked ip' row => if ip' = ip then some row else none
  | _ => none

def Ev.isRegInsert : Ev → Bool
  | .regInsert _ _ => true
  | _ => false

/-- What gives `Charges`, looked up for the requests `rs`: at an INSERT there is room for the
accounts that are not charged yet, and while no window is open they are the youngest. -/
def ChargesAmong (cfg : Config) (ip : String) (rs : List ℕ) (s : State) (e : Ev) : Prop :=
  e.Healthy ∧
    (e.isRegInsert = true → ((rs.filter fun r => ((s.req r).pc.uncharged ip).isSome).length : ℤ) ≤
      cfg.maxPerIp - count s.redis (.regIp ip) - 1) ∧
    (s.redis.find (.regIp ip) = none → ∀ r ∈ rs, ∀ row ∈ (s.req r).pc.uncharged ip,
      ∀ r' ∈ rs, ∀ row' ∈ (s.req r').pc.charged ip, row' < row)

instance (rs : List ℕ) : DecidableRel (ChargesAmong cfg ip rs) := fun s e =>
  inferInstanceAs (Decidable (e.Healthy ∧ (_ → _ ≤ _) ∧ (_ → ∀ r ∈ rs, ∀ row ∈ (s.req r).pc.uncharged ip,
    ∀ r' ∈ rs, ∀ row' ∈ (s.req r').pc.charged ip, row' < row)))

theorem charges_among {rs : List ℕ} (hs : Among rs s) (h : ChargesAmong cfg ip rs s e) : Charges cfg ip s e := by
  have hmem : ∀ r, (s.req r).pc ≠ .idle → r ∈ rs := by
    intro r hr
    by_contra hnot
    rw [hs r hnot] at hr
    exact hr rfl
  have huncharged : ∀ r row, (s.req r).pc = .regMark ip row → r ∈ rs ∧ (s.req r).pc.uncharged ip = some row := by
    intro r row hpc
    exact ⟨hmem r (by rw [hpc]; exact Pc.noConfusion), by rw [hpc]; exact if_pos rfl⟩
  have hcharged : ∀ r row, (s.req r).pc = .regMarked ip row → r ∈ rs ∧ (s.req r).pc.charged ip = some row := by
    intro r row hpc
    exact ⟨hmem r (by rw [hpc]; exact Pc.noConfusion), by rw [hpc]; exact if_pos rfl⟩
  refine ⟨h.1, ?_, ?_⟩
  · rintro r phone hash salt rfl - -
    refine AtMost.of_list ?_ (h.2.1 rfl)
    rintro i ⟨row, hi⟩
    obtain ⟨hi, hrow⟩ := huncharged i row hi
    exact List.mem_filter.2 ⟨hi, by rw [hrow]; rfl⟩
  · intro r err row _ hpc hnone r' row' hpc'
    obtain ⟨hr, hrow⟩ := huncharged r row hpc
    obtain ⟨hr', hrow'⟩ := hcharged r' row' hpc'
    exact h.2.2 hnone r hr row hrow r' hr' row' hrow'

/-- A registration up to its mark. -/
def registerUpTo (r : ℕ) (phone : String) : List Ev :=
  [.registerUser r phone "password" "123456" "10.0.0.1", .regCheck r none] ++ insertedUpTo r

/-- Every phone gets its code; the first account. -/
def firstAccount : List Ev :=
  (phones.map fun phone => .sendCode phone "123456" "20240101" 3600 true) ++ registerUpTo 0 "13800000000"

/-- Four more, two and two at the same time, and a sixth registration is refused. -/
def fourMore : List Ev :=
  registerUpTo 1 "13800000001" ++ registerUpTo 2 "13800000002" ++ [.markSuccess 2 none, .markSuccess 1 none] ++
    registerUpTo 3 "13800000003" ++ registerUpTo 4 "13800000004" ++ [.markSuccess 3 none, .markSuccess 4 none,
      .registerUser 5 "13800000005" "password" "123456" "10.0.0.1", .regCheck 5 none]

/-- An hour later it is let in. -/
def nextWindow : List Ev :=
  [.wait 3600001, .sendCode "13800000005" "123456" "20240101" 3600 true] ++ registerUpTo 6 "13800000005" ++
    [.markSuccess 6 none]

theorem windows_charge : Machine.Meets (step unsignedConfig) (Charges unsignedConfig "10.0.0.1") (.init 0 [] 1)
    (firstAccount ++ .markSuccess 0 none :: (fourMore ++ nextWindow)) :=
  meets_among (List.range 7) (by decide) (fun _ _ => charges_among) (by decide +kernel)

/-- Five accounts in one window, no more than the quota, and one in the next. -/
theorem registerUser_quota_five :
    ∃ u v w, Machine.run (step unsignedConfig) (.init 0 [] 1) firstAccount = some u ∧
      step unsignedConfig u (.markSuccess 0 none) = some v ∧
      Machine.run (step unsignedConfig) v fourMore = some w ∧ w.users.length = 5 ∧
      (w.req 5).answer = some (.register false "REGISTER_IP_LIMITED") ∧
      ((Machine.run (step unsignedConfig) w nextWindow).bind fun s => (s.req 6).answer) = some (.register true "OK") ∧
      AtMost (CreatedSince "10.0.0.1" 0 w) unsignedConfig.maxPerIp := by
  have hrun : ((Machine.run (step unsignedConfig) (.init 0 [] 1) firstAccount).map fun u =>
      ((u.req 0).pc, u.redis.find (.regIp "10.0.0.1"), (step unsignedConfig u (.markSuccess 0 none)).map fun v =>
        (decide (v.redis.find (.regIp "10.0.0.1") ≠ none),
          decide (Machine.Meets (step unsignedConfig) (KeepsOpen unsignedConfig "10.0.0.1") v fourMore),
          (Machine.run (step unsignedConfig) v fourMore).map fun w => (w.users.length, (w.req 5).answer,
            (Machine.run (step unsignedConfig) w nextWindow).bind fun s => (s.req 6).answer)))) =
      some (.regMark "10.0.0.1" 0, none, some (true, true,
        some (5, some (.register false "REGISTER_IP_LIMITED"), some (.register true "OK")))) := by rfl
  obtain ⟨u, hu, hfacts⟩ := Option.map_eq_some_iff.1 hrun
  simp only [Prod.mk.injEq] at hfacts
  obtain ⟨hpc, hnone, hfacts⟩ := hfacts
  obtain ⟨v, hv, hfacts⟩ := Option.map_eq_some_iff.1 hfacts
  simp only [Prod.mk.injEq] at hfacts
  obtain ⟨hopen, hkeeps, hfacts⟩ := hfacts
  obtain ⟨w, hw, hfacts⟩ := Option.map_eq_some_iff.1 hfacts
  simp only [Prod.mk.injEq] at hfacts
  obtain ⟨husers, hrefused, hlater⟩ := hfacts
  exact ⟨u, v, w, hu, hv, hw, husers, hrefused, hlater, registerUser_quota unsignedConfig "10.0.0.1" 0 [] 1 _
    windows_charge firstAccount 0 none 0 fourMore nextWindow u v w rfl hu hpc hnone hv (of_decide_eq_true hopen) hw
    (of_decide_eq_true hkeeps)⟩

end Seckill.UserService
