import Seckill.Spec.SmsService

/-!
# SMS codes: what a send and a verify do to the keys

Each script writes only its own keys (`sendScript_does`, `verifyScript_does`), and
the counters `sms:try` and `sms:day` stay integers (`Counters`, `step_counters`).

A code that was sent can be verified unless the attempt counter of the phone,
which outlives the codes it counted, is used up: `sendCode_then_verify`. The
counter is the phone's, not the code's: `verifyCode` gives up on a used-up counter
before it looks at the code, and `sendCode` leaves it alone.
-/

namespace Seckill.SmsService

open Redis

variable {cfg : Config} {s t : Store Key} {phone day code input : String} {dailyTtl : ℤ} {delivered : Bool}

/-! ## The scripts -/

section Does

variable {R : Store Key → Store Key → Prop} [IsPreorder (Store Key) R]

/-- **What the send script does**: it sets the phone's code and cooldown, and counts
the phone's day. -/
theorem sendScript_does (hcode : ∀ s e, R s (s.put (.smsCode phone) e)) (hcd : ∀ s e, R s (s.put (.smsCd phone) e))
    (hday : Counts R (.smsDay phone day)) : (sendScript cfg phone day code dailyTtl).Does R := by
  refine does_bind does_exists fun cd => ?_
  split
  · exact does_bind does_ttl fun _ => does_pure _
  · refine does_bind does_get fun used => does_bind (does_tonumber _) fun n => ?_
    split
    · exact does_pure _
    · refine does_bind (does_setex fun s _ => hcode s _) fun _ => ?_
      refine does_bind (does_setex fun s _ => hcd s _) fun _ => ?_
      exact does_bind (does_incr hday) fun n => does_bind (does_expireFirst hday) fun _ => does_pure _

/-- **What the verify script does**: it deletes the phone's code, and counts the
attempts. -/
theorem verifyScript_does (hcode : ∀ s, R s (s.put (.smsCode phone) none)) (htry : Counts R (.smsTry phone)) :
    (verifyScript cfg phone input).Does R := by
  refine does_bind does_get fun stored => ?_
  split
  · exact does_pure _
  · refine does_bind does_get fun tries => does_bind (does_tonumber _) fun n => ?_
    split
    · exact does_bind (does_del hcode) fun _ => does_pure _
    · split
      · exact does_bind (does_del hcode) fun _ => does_bind (does_del htry.del) fun _ => does_pure _
      · refine does_bind (does_incr htry) fun n => does_bind does_ttl fun ttl => ?_
        exact does_bind (does_expire htry) fun _ => does_pure _

/-- A send does what its script does. -/
theorem sendCode_does (hcode : ∀ s e, R s (s.put (.smsCode phone) e)) (hcd : ∀ s e, R s (s.put (.smsCd phone) e))
    (hday : Counts R (.smsDay phone day)) (s : Store Key) :
    R s (sendCode cfg s phone code day dailyTtl delivered).2 := by
  unfold sendCode
  split
  · exact refl_of R s
  · split
    · exact refl_of R s
    · exact sendScript_does hcode hcd hday s

/-- A verify does what its script does. -/
theorem verifyCode_does (hcode : ∀ s, R s (s.put (.smsCode phone) none)) (htry : Counts R (.smsTry phone))
    (s : Store Key) : R s (verifyCode cfg s phone input).2 := by
  unfold verifyCode
  split
  · exact refl_of R s
  · exact verifyScript_does hcode htry s

end Does

/-- The key is a counter. -/
def IsCounter : Key → Prop
  | .smsTry _ | .smsDay _ _ | .loginFail _ | .regIp _ => True
  | _ => False

/-- The counters are integers. -/
abbrev Counters : Store Key → Prop := Ints IsCounter

/-- **Every call keeps the counters integers.** -/
theorem step_counters (s : Store Key) (e : Ev) (t : Store Key) (hs : Counters s) (h : step cfg s e = some t) :
    Counters t := by
  have hno : ∀ {k : Key}, ¬IsCounter k → ∀ s e, Kept Counters s (s.put k e) :=
    fun hk s e hs => hs.put_of_not hk e
  cases e with
  | sendCode phone code day dailyTtl delivered =>
    rw [← Option.some.inj h]
    exact sendCode_does (R := Kept Counters) (hno id) (hno id) (ints_counts _) s hs
  | verifyCode phone code =>
    rw [← Option.some.inj h]
    exact verifyCode_does (R := Kept Counters) (fun s => hno id s none) (ints_counts _) s hs
  | wait ms =>
    rw [← Option.some.inj h]
    exact hs

/-- The store in which the code and the cooldown of a phone were set. -/
def stored (cfg : Config) (s : Store Key) (phone code : String) : Store Key :=
  (s.put (.smsCode phone) (some ⟨.raw code, some (s.now + cfg.codeTtlSeconds.toNat * 1000)⟩)).put
    (.smsCd phone) (some ⟨.raw "1", some (s.now + cfg.resendIntervalSeconds.toNat * 1000)⟩)

/-- A send that is let past stores the code and counts it. -/
theorem sendScript_passes (code : String) (dailyTtl : ℤ) (h₁ : 1 ≤ cfg.codeTtlSeconds)
    (h₂ : 1 ≤ cfg.resendIntervalSeconds) (hs : Counters s) (hcd : s.find (.smsCd phone) = none)
    (hlimit : count s (.smsDay phone day) < cfg.dailyLimit) :
    sendScript cfg phone day code dailyTtl s =
      (incr (.smsDay phone day) >>= fun n => expireFirst (.smsDay phone day) n dailyTtl >>= fun _ =>
        Pure.pure ((0 : ℤ), n)) (stored cfg s phone code) := by
  unfold sendScript kSendScript
  rw [exists_bind, hcd]
  simp only [Option.isSome_none, Bool.false_eq_true, if_false]
  rw [hs.get_tonumber (k := Key.smsDay phone day) trivial, if_neg (by omega), setex_bind _ _ (by omega),
    setex_bind _ _ (by omega)]
  rfl

/-- The two SETEX leave the other keys alone. -/
theorem stored_find (cfg : Config) (s : Store Key) (code : String) {k : Key} (hcode : k ≠ .smsCode phone)
    (hcd : k ≠ .smsCd phone) : (stored cfg s phone code).find k = s.find k := by
  unfold stored
  rw [Store.find_put_of_ne _ _ hcd, Store.find_put_of_ne _ _ hcode]

/-- **The send script**: it refuses without a trace, or stores the code and counts it. -/
theorem sendScript_cases (phone day code : String) (dailyTtl : ℤ) (h₁ : 1 ≤ cfg.codeTtlSeconds)
    (h₂ : 1 ≤ cfg.resendIntervalSeconds) (hs : Counters s) :
    (s.find (.smsCd phone) ≠ none ∧
        ∃ n, sendScript cfg phone day code dailyTtl s = (.ok (-1, n), s)) ∨
      (s.find (.smsCd phone) = none ∧ cfg.dailyLimit ≤ count s (.smsDay phone day) ∧
        sendScript cfg phone day code dailyTtl s = (.ok (-2, count s (.smsDay phone day)), s)) ∨
      (s.find (.smsCd phone) = none ∧ count s (.smsDay phone day) < cfg.dailyLimit ∧
        ∃ s', sendScript cfg phone day code dailyTtl s = (.ok (0, count s (.smsDay phone day) + 1), s') ∧
          SameBut (fun k => k = .smsDay phone day) (stored cfg s phone code) s') := by
  cases hcd : s.find (.smsCd phone) with
  | some e =>
    unfold sendScript kSendScript
    rw [exists_bind, hcd]
    exact Or.inl ⟨by simp, _, rfl⟩
  | none =>
    by_cases hlimit : cfg.dailyLimit ≤ count s (.smsDay phone day)
    · unfold sendScript kSendScript
      rw [exists_bind, hcd]
      simp only [Option.isSome_none, Bool.false_eq_true, if_false]
      rw [hs.get_tonumber (k := Key.smsDay phone day) trivial, if_pos hlimit]
      exact Or.inr (Or.inl ⟨trivial, hlimit, rfl⟩)
    · rw [sendScript_passes code dailyTtl h₁ h₂ hs hcd (by omega)]
      refine Or.inr (Or.inr ⟨rfl, by omega, ?_⟩)
      have hcount : count (stored cfg s phone code) (.smsDay phone day) = count s (.smsDay phone day) :=
        count_congr (stored_find cfg s code (by simp) (by simp))
      have hstored : Counters (stored cfg s phone code) :=
        (hs.put_of_not id _).put_of_not id _
      obtain ⟨s', hs', hsame, -⟩ := hstored.counted (k := Key.smsDay phone day) trivial dailyTtl
        fun n => Pure.pure ((0 : ℤ), n)
      rw [hcount] at hs'
      exact ⟨s', hs', hsame⟩

/-- **The verify script**: no code; no string, which is an error; too many attempts, and
the code is deleted; the right code, deleted with its counter; or a wrong one, which is
counted. -/
theorem verifyScript_cases (cfg : Config) (phone input : String) (hs : Counters s) :
    (s.find (.smsCode phone) = none ∧ verifyScript cfg phone input s = (.ok (-1, 0), s)) ∨
      ∃ e, s.find (.smsCode phone) = some e ∧
        ((∃ err, verifyScript cfg phone input s = (.error err, s)) ∨ (cfg.maxVerifyAttempts ≤ count s (.smsTry phone) ∧
            verifyScript cfg phone input s = (.ok (-3, 0), s.put (.smsCode phone) none)) ∨
          (count s (.smsTry phone) < cfg.maxVerifyAttempts ∧ e.val.text = input ∧
            verifyScript cfg phone input s = (.ok (0, 0), (s.put (.smsCode phone) none).put (.smsTry phone) none)) ∨
          (count s (.smsTry phone) < cfg.maxVerifyAttempts ∧ e.val.text ≠ input ∧
            ∃ q x, (ttl (.smsCode phone) s).1 = .ok q ∧
              Entry.alive s.now ⟨.int (count s (.smsTry phone) + 1), x⟩ = true ∧
              verifyScript cfg phone input s = (.ok (-2, count s (.smsTry phone) + 1),
                (expire (.smsTry phone) q
                  (s.put (.smsTry phone) (some ⟨.int (count s (.smsTry phone) + 1), x⟩))).2))) := by
  unfold verifyScript kVerifyScript
  cases hcode : s.find (.smsCode phone) with
  | none =>
    rw [get_bind_none _ _ _ hcode]
    exact Or.inl ⟨rfl, rfl⟩
  | some e =>
    refine Or.inr ⟨e, rfl, ?_⟩
    by_cases hother : e.val = .other
    · exact Or.inl (get_bind_other _ _ _ hcode hother)
    right
    rw [get_bind_some _ _ _ hcode hother]
    simp only
    rw [hs.get_tonumber (k := Key.smsTry phone) trivial]
    by_cases hmax : cfg.maxVerifyAttempts ≤ count s (.smsTry phone)
    · rw [if_pos hmax]
      exact Or.inl ⟨hmax, rfl⟩
    rw [if_neg hmax]
    by_cases hinput : e.val.text = input
    · rw [if_pos hinput]
      exact Or.inr (Or.inl ⟨by omega, hinput, rfl⟩)
    rw [if_neg hinput]
    -- the TTL is read after the count, which leaves the code alone
    obtain ⟨x, hx, halive⟩ := hs.incr (k := Key.smsTry phone) trivial fun t => do
      let _ ← expire (.smsTry phone) (← ttl (.smsCode phone))
      return ((-2 : ℤ), t)
    set s₁ := s.put (.smsTry phone) (some ⟨.int (count s (.smsTry phone) + 1), x⟩) with hs₁
    have hfind : s₁.find (.smsCode phone) = s.find (.smsCode phone) := Store.find_put_of_ne _ _ (by simp)
    obtain ⟨q, hq⟩ : ∃ q, (ttl (.smsCode phone) s).1 = .ok q := ⟨_, rfl⟩
    have hq₁ : (ttl (.smsCode phone) s₁).1 = .ok q := by
      rw [← hq]
      unfold ttl
      rw [hfind]
      rfl
    refine Or.inr (Or.inr ⟨by omega, hinput, q, x, hq, halive, ?_⟩)
    rw [hx, ttl_bind _ _ _ hq₁, expire_bind]
    rfl

/-! ## A fresh code -/

/-- A send that answers `ok` stored its code, for `codeTtlSeconds`. -/
theorem sendCode_ok (h₁ : 1 ≤ cfg.codeTtlSeconds) (h₂ : 1 ≤ cfg.resendIntervalSeconds) (hs : Counters s)
    (h : sendCode cfg s phone code day dailyTtl delivered = (.ok, t)) :
    isValidPhone phone = true ∧ t.now = s.now ∧
      t.cell (.smsCode phone) = some ⟨.raw code, some (s.now + cfg.codeTtlSeconds.toNat * 1000)⟩ ∧
      t.cell (.smsTry phone) = s.cell (.smsTry phone) := by
  unfold sendCode at h
  split at h
  · cases h
  rename_i hphone
  split at h
  · cases h
  simp only [Prod.mk.injEq] at h
  obtain ⟨hok, ht⟩ := h
  have hcode : ∀ k, k ≠ .smsDay phone day → k ≠ .smsCd phone → k ≠ .smsCode phone →
      (stored cfg s phone code).cell k = s.cell k := by
    intro k _ hcd hc
    unfold stored Store.put
    simp only
    rw [Function.update_of_ne hcd, Function.update_of_ne hc]
  rcases sendScript_cases phone day code dailyTtl h₁ h₂ hs with ⟨-, n, heq⟩ | ⟨-, -, heq⟩ | ⟨-, -, s', heq, hsame⟩
  · rw [heq] at hok; simp [onSend] at hok
  · rw [heq] at hok; simp [onSend] at hok
  · rw [heq] at ht
    subst ht
    refine ⟨by simpa using hphone, hsame.1, ?_, ?_⟩
    · rw [hsame.2 _ (by simp)]
      unfold stored Store.put
      simp only
      rw [Function.update_of_ne (by simp), Function.update_self]
    · rw [hsame.2 _ (by simp), hcode _ (by simp) (by simp) (by simp)]

/-- A counter the phone's codes left behind is used up and still there at time `at'`. -/
def UsedUp (cfg : Config) (s : Store Key) (phone : String) (time : ℕ) : Prop :=
  ∃ e n, s.find (.smsTry phone) = some e ∧ e.alive time = true ∧ e.val.num? = some n ∧
    cfg.maxVerifyAttempts ≤ n

/-- Nobody tries a code of the phone, and its code is not overwritten. -/
def Quiet (cfg : Config) (phone : String) (s : Store Key) (e : Ev) : Prop :=
  (∀ code, e ≠ .verifyCode phone code) ∧
    ∀ t, step cfg s e = some t → t.cell (.smsCode phone) = s.cell (.smsCode phone)

/-- A send writes the phone's code, its cooldown and its day counter. -/
theorem sendCode_frame (cfg : Config) (s : Store Key) (phone code day : String) (dailyTtl : ℤ) (delivered : Bool) :
    SameBut (fun k => k = .smsCode phone ∨ k = .smsCd phone ∨ k = .smsDay phone day) s
      (sendCode cfg s phone code day dailyTtl delivered).2 :=
  sendCode_does (fun s e => sameBut_put (by simp) s e) (fun s e => sameBut_put (by simp) s e)
    (sameBut_counts (by simp)) s

/-- A verify writes the phone's code and its attempt counter. -/
theorem verifyCode_frame (cfg : Config) (s : Store Key) (phone code : String) :
    SameBut (fun k => k = .smsCode phone ∨ k = .smsTry phone) s (verifyCode cfg s phone code).2 :=
  verifyCode_does (fun s => sameBut_put (by simp) s _) (sameBut_counts (by simp)) s

/-- A quiet step leaves the phone's code and attempt counter alone. -/
theorem step_quiet {e : Ev} (hq : Quiet cfg phone s e) (h : step cfg s e = some t) :
    s.now ≤ t.now ∧ t.cell (.smsCode phone) = s.cell (.smsCode phone) ∧
      t.cell (.smsTry phone) = s.cell (.smsTry phone) := by
  have hcode := hq.2 t h
  cases e with
  | sendCode p code day dailyTtl delivered =>
    have hf := sendCode_frame cfg s p code day dailyTtl delivered
    rw [Option.some.inj h] at hf
    exact ⟨Nat.le_of_eq hf.1.symm, hcode, hf.2 _ (by simp)⟩
  | verifyCode p code =>
    have hp : phone ≠ p := fun hp => hq.1 code (by rw [hp])
    have hf := verifyCode_frame cfg s p code
    rw [Option.some.inj h] at hf
    exact ⟨Nat.le_of_eq hf.1.symm, hcode, hf.2 _ (by simp [hp])⟩
  | wait ms =>
    have ht : s.wait ms = t := Option.some.inj h
    rw [← ht]
    exact ⟨Nat.le_add_right _ _, rfl, rfl⟩

theorem run_quiet {es : List Ev} (hq : Machine.Meets (step cfg) (Quiet cfg phone) s es)
    (h : Machine.run (step cfg) s es = some t) :
    s.now ≤ t.now ∧ t.cell (.smsCode phone) = s.cell (.smsCode phone) ∧
      t.cell (.smsTry phone) = s.cell (.smsTry phone) := by
  refine Machine.run_inv_of (C := Quiet cfg phone)
    (I := fun u => s.now ≤ u.now ∧ u.cell (.smsCode phone) = s.cell (.smsCode phone) ∧
      u.cell (.smsTry phone) = s.cell (.smsTry phone)) ?_ ⟨Nat.le_refl _, rfl, rfl⟩ hq h
  rintro u e v ⟨hn, hc, ht⟩ hqu huv
  obtain ⟨hn', hc', ht'⟩ := step_quiet hqu huv
  exact ⟨Nat.le_trans hn hn', hc'.trans hc, ht'.trans ht⟩

/-- **The verdict on the right code**: it is accepted unless the counter is used up. -/
theorem verifyCode_right (hs : Counters s) (hphone : isValidPhone phone = true) {x : Option ℕ}
    (hcode : s.find (.smsCode phone) = some ⟨.raw code, x⟩) :
    (verifyCode cfg s phone code).1 = .ok ↔ count s (.smsTry phone) < cfg.maxVerifyAttempts := by
  unfold verifyCode verifyScript kVerifyScript
  rw [if_neg (by simpa using hphone), get_bind_some _ _ _ hcode Val.noConfusion]
  simp only
  rw [hs.get_tonumber (k := Key.smsTry phone) trivial]
  by_cases hmax : cfg.maxVerifyAttempts ≤ count s (.smsTry phone)
  · rw [if_pos hmax]
    simp [onVerify, hmax]
  · rw [if_neg hmax]
    rw [if_pos (show (Val.raw code).text = code from rfl), del_bind, del_bind]
    simpa [onVerify] using hmax

theorem usedUp_iff (hs : Counters s) (hmax : 1 ≤ cfg.maxVerifyAttempts) (hn : s.now ≤ t.now)
    (ht : t.cell (.smsTry phone) = s.cell (.smsTry phone)) :
    UsedUp cfg s phone t.now ↔ cfg.maxVerifyAttempts ≤ count t (.smsTry phone) := by
  unfold UsedUp count Store.find
  rw [ht]
  cases hc : s.cell (.smsTry phone) with
  | none => simp; omega
  | some e =>
    obtain ⟨n, hv⟩ := hs (.smsTry phone) e trivial hc
    by_cases ha : e.alive t.now = true
    · have ha' := Entry.alive_mono hn ha
      simp [Option.filter, ha, ha', hv, Val.num?]
    · simp [Option.filter, ha]
      omega

/-- **When a fresh code can be verified.** In every reachable state: a code whose
send answered `ok` is accepted at its first try before it expires, if and only if
no attempt counter that earlier codes of the phone used up is still there. -/
theorem sendCode_then_verify (cfg : Config) (h₁ : 1 ≤ cfg.codeTtlSeconds) (h₂ : 1 ≤ cfg.resendIntervalSeconds)
    (h₃ : 1 ≤ cfg.maxVerifyAttempts) {now₀ : ℕ} {s t u : Store Key} {phone code day : String} {dailyTtl : ℤ}
    {delivered : Bool} {es : List Ev} (hs : Machine.Reachable (step cfg) (.empty now₀) s)
    (hsend : sendCode cfg s phone code day dailyTtl delivered = (.ok, t))
    (hquiet : Machine.Meets (step cfg) (Quiet cfg phone) t es) (hrun : Machine.run (step cfg) t es = some u)
    (htime : u.now ≤ s.now + cfg.codeTtlSeconds.toNat * 1000) :
    (verifyCode cfg u phone code).1 = .ok ↔ ¬UsedUp cfg s phone u.now := by
  have hcs : Counters s := Machine.reachable_inv (I := Counters) step_counters (Ints.empty now₀) hs
  have hstep : step cfg s (.sendCode phone code day dailyTtl delivered) = some t := by
    simp only [step, hsend]
  have hct : Counters t := step_counters s _ t hcs hstep
  have hcu : Counters u := Machine.run_inv (I := Counters) step_counters hct hrun
  obtain ⟨hphone, hnow, hcell, htry⟩ := sendCode_ok h₁ h₂ hcs hsend
  obtain ⟨hn, hcell', htry'⟩ := run_quiet hquiet hrun
  have hfind : u.find (.smsCode phone) =
      some ⟨.raw code, some (s.now + cfg.codeTtlSeconds.toNat * 1000)⟩ := by
    rw [Store.find_some, hcell', hcell]
    exact ⟨rfl, by simpa [Entry.alive] using htime⟩
  rw [verifyCode_right hcu hphone hfind, usedUp_iff hcs h₃ (by omega) (htry'.trans htry)]
  omega

/-- Five wrong guesses at one code, a minute of waiting, and a second code. -/
def secondCode : List Ev :=
  .sendCode "13800000000" "111111" "20240101" 3600 true ::
    List.replicate 5 (.verifyCode "13800000000" "000000") ++ [.wait 60001]

/-- With the default limits the second code of that phone, delivered and typed in
at once, is refused: the first one's counter is still there. -/
theorem sendCode_then_verify_refused :
    ∃ s t, Machine.Reachable (step .default) (.empty 0) s ∧
      sendCode .default s "13800000000" "222222" "20240101" 3600 true = (.ok, t) ∧
      (t.find (.smsCode "13800000000")).isSome = true ∧
      (verifyCode .default t "13800000000" "222222").1 = .tooManyAttempts := by
  have hrun : ((Machine.run (step .default) (.empty 0) secondCode).map fun s =>
      let p := sendCode .default s "13800000000" "222222" "20240101" 3600 true
      (p.1, (p.2.find (.smsCode "13800000000")).isSome, (verifyCode .default p.2 "13800000000" "222222").1)) =
      some (.ok, true, .tooManyAttempts) := by decide +kernel
  obtain ⟨s, hs, hv⟩ := Option.map_eq_some_iff.1 hrun
  simp only [Prod.mk.injEq] at hv
  obtain ⟨hsend, hcode, hverify⟩ := hv
  exact ⟨s, _, ⟨secondCode, hs⟩, Prod.ext hsend rfl, hcode, hverify⟩

/-- Four wrong guesses at one code, and a minute of waiting. -/
def fourGuesses : List Ev :=
  .sendCode "13800000000" "111111" "20240101" 3600 true ::
    List.replicate 4 (.verifyCode "13800000000" "000000") ++ [.wait 60001]

/-- A guess at another phone, a send that comes too early, and three minutes. -/
def quietMinutes : List Ev :=
  [.verifyCode "13900000000" "000000", .sendCode "13800000000" "333333" "20240101" 3600 true, .wait 200000]

/-- The store when the second code is asked for, and the store with it. -/
def secondStart : Store Key := (Machine.run (step .default) (.empty 0) fourGuesses).getD (.empty 0)

def secondSent : Store Key := (sendCode .default secondStart "13800000000" "222222" "20240101" 3600 true).2

theorem quietMinutes_quiet : Machine.Meets (step .default) (Quiet .default "13800000000") secondSent quietMinutes := by
  have hother : ∀ code, Ev.verifyCode "13900000000" "000000" ≠ .verifyCode "13800000000" code := by
    intro code h
    injection h with hphone
    exact absurd hphone (by decide)
  refine Machine.meets_cons rfl ⟨hother, fun t ht => ?_⟩ ?_
  · cases ht
    decide +kernel
  refine Machine.meets_cons rfl ⟨fun _ h => Ev.noConfusion h, fun t ht => ?_⟩ ?_
  · -- the send comes too early
    cases ht
    decide +kernel
  refine Machine.meets_cons rfl ⟨fun _ h => Ev.noConfusion h, fun t ht => ?_⟩ trivial
  cases ht
  rfl

/-- The counter of the first code is still there, with a guess left: the second code is
accepted. -/
theorem sendCode_then_verify_second :
    ∃ s t u, Machine.run (step .default) (.empty 0) fourGuesses = some s ∧
      sendCode .default s "13800000000" "222222" "20240101" 3600 true = (.ok, t) ∧
      Machine.run (step .default) t quietMinutes = some u ∧ count u (.smsTry "13800000000") = 4 ∧
      (verifyCode .default u "13800000000" "222222").1 = .ok := by
  obtain ⟨s, hs⟩ := Option.isSome_iff_exists.1
    (show (Machine.run (step .default) (.empty 0) fourGuesses).isSome = true by decide +kernel)
  obtain rfl : secondStart = s := by rw [secondStart, hs]; rfl
  have hsend : sendCode .default secondStart "13800000000" "222222" "20240101" 3600 true = (.ok, secondSent) :=
    Prod.ext (by decide +kernel) rfl
  have hrun : ((Machine.run (step .default) secondSent quietMinutes).map fun u =>
      (u.now, count u (.smsTry "13800000000"))) = some (260001, 4) := by decide +kernel
  obtain ⟨u, hu, hv⟩ := Option.map_eq_some_iff.1 hrun
  simp only [Prod.mk.injEq] at hv
  obtain ⟨hnow, hcount⟩ := hv
  have hstart : secondStart.now = 60001 ∧ (secondStart.find (.smsTry "13800000000")).map (·.val.num?) = some (some 4) := by
    decide +kernel
  refine ⟨_, _, u, hs, hsend, hu, hcount, (sendCode_then_verify .default (by decide) (by decide) (by decide)
    ⟨fourGuesses, hs⟩ hsend quietMinutes_quiet hu ?_).2 ?_⟩
  · rw [hnow, hstart.1]
    decide
  · rintro ⟨e, n, he, -, hn, hle⟩
    rw [he, Option.map_some, hn] at hstart
    obtain rfl : n = 4 := by simpa using hstart.2
    exact absurd hle (by decide)

end Seckill.SmsService
