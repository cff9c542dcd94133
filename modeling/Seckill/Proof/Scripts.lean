import Mathlib
import Seckill.Spec.Guards
import Seckill.Spec.SmsService

/-!
# Half-applied scripts

Redis does not roll a failed script back. The verify script and the mark script fail
only before they write; the send script and the failure script write first and fail on
a `SETEX` or an `INCR` later, for what their parameters are and what the keys hold:
`SendTears`, `FailureTears`, exactly (`scripts_atomic`).
-/

namespace Seckill

open Redis

namespace SmsService

variable {cfg : Config} {s : Store Key} {phone day code : String} {dailyTtl : ℤ}

/-- What Lua reads under a counter's key, `0` when there is nothing. -/
def numberAt (s : Store Key) (k : Key) : Option ℤ := ((s.find k).map fun e => e.val.number?).getD (some 0)

/-- A send that stops half-way: it gets past cooldown and limit and stores the code, but
then the cooldown has no time to live, or the counter is a number that `INCR` refuses. -/
structure SendTears (cfg : Config) (s : Store Key) (phone day code : String) : Prop where
  cooled : s.find (.smsCd phone) = none
  below : ∃ n, numberAt s (.smsDay phone day) = some n ∧ n < cfg.dailyLimit
  codeTtl : 1 ≤ cfg.codeTtlSeconds
  fails : cfg.resendIntervalSeconds ≤ 0 ∧
      s.seen (.smsCode phone) ≠ some (some code, some (s.now + cfg.codeTtlSeconds.toNat * 1000)) ∨
    1 ≤ cfg.resendIntervalSeconds ∧ ∃ e, s.find (.smsDay phone day) = some e ∧ e.val.num? = none

/-- `tonumber` of a counter, `0` when it is not there. -/
def readNumber (k : Key) : Script Key ℤ := get k >>= fun v => tonumber (v.getD (.int 0))

theorem readNumber_cases (k : Key) (s : Store Key) :
    (numberAt s k = none ∧ ∃ err, readNumber k s = (.error err, s)) ∨
      ∃ n, numberAt s k = some n ∧ readNumber k s = (.ok n, s) := by
  unfold readNumber numberAt
  cases hfind : s.find k with
  | none =>
    rw [get_bind_none _ _ _ hfind]
    exact Or.inr ⟨0, rfl, rfl⟩
  | some e =>
    by_cases hother : e.val = .other
    · obtain ⟨err, herr⟩ := get_bind_other _ _ (fun v => tonumber (v.getD (.int 0))) hfind hother
      exact Or.inl ⟨by simp [hother, Val.number?, Val.num?], err, herr⟩
    rw [get_bind_some _ _ _ hfind hother, Option.getD_some, tonumber, Option.map_some, Option.getD_some]
    cases e.val.number? with
    | none => exact Or.inl ⟨rfl, _, rfl⟩
    | some n => exact Or.inr ⟨n, rfl, rfl⟩

/-- What a send does when it has stored the code. -/
def coolAndCount (cfg : Config) (phone day : String) (dailyTtl : ℤ) : Script Key (ℤ × ℤ) := do
  setex (.smsCd phone) cfg.resendIntervalSeconds (.raw "1")
  let n ← incr (.smsDay phone day)
  let _ ← expireFirst (.smsDay phone day) n dailyTtl
  return (0, n)

/-- It returns if there is a time to live for the cooldown, and a counter to count on. -/
theorem coolAndCount_returns : (coolAndCount cfg phone day dailyTtl).Returns s ↔
    0 < cfg.resendIntervalSeconds ∧ ∀ e, s.find (.smsDay phone day) = some e → e.val.num? ≠ none := by
  unfold coolAndCount Script.Returns
  by_cases hresend : cfg.resendIntervalSeconds ≤ 0
  · rw [Script.bind_run, setex, if_pos hresend]
    refine iff_of_false ?_ fun h => by omega
    rintro ⟨a, ha⟩
    cases ha
  rw [setex_bind _ _ (by omega), and_iff_right (by omega)]
  have hcounts : ∀ n t, (expireFirst (Key.smsDay phone day) n dailyTtl >>= fun _ =>
      (Pure.pure ((0 : ℤ), n) : Script Key (ℤ × ℤ))).Returns t :=
    fun n => returns_bind (fun t => returns_expireFirst t) fun _ _ => returns_pure _
  rw [Script.bind_run, incr, Store.find_put_of_ne _ _ (by simp)]
  cases s.find (.smsDay phone day) with
  | none => exact iff_of_true (hcounts _ _) fun e he => by cases he
  | some e =>
    dsimp only
    cases hnum : e.val.num? with
    | some n =>
      refine iff_of_true (hcounts _ _) fun e' he hnone => ?_
      rw [← Option.some.inj he, hnum] at hnone
      cases hnone
    | none =>
      refine iff_of_false ?_ fun h => h e rfl hnum
      rintro ⟨a, ha⟩
      cases ha

/-- Without one for the cooldown it changes nothing. -/
theorem coolAndCount_same (hresend : cfg.resendIntervalSeconds ≤ 0) :
    (coolAndCount cfg phone day dailyTtl s).2 = s := by
  unfold coolAndCount
  rw [Script.bind_run, setex, if_pos hresend]

/-- Without a counter to count on it leaves the cooldown behind. -/
theorem coolAndCount_cools (hresend : 0 < cfg.resendIntervalSeconds) {e : Entry}
    (hfind : s.find (.smsDay phone day) = some e) (hnum : e.val.num? = none) :
    (coolAndCount cfg phone day dailyTtl s).2.seen (.smsCd phone) ≠ none := by
  unfold coolAndCount
  rw [setex_bind _ _ hresend, Script.bind_run, incr, Store.find_put_of_ne _ _ (by simp), hfind]
  simp only [hnum]
  unfold Store.seen
  rw [Store.find_put_expire]
  exact Option.some_ne_none _

/-- What a send does when it is let past. -/
def storeAndCount (cfg : Config) (phone day code : String) (dailyTtl : ℤ) : Script Key (ℤ × ℤ) := do
  setex (.smsCode phone) cfg.codeTtlSeconds (.raw code)
  setex (.smsCd phone) cfg.resendIntervalSeconds (.raw "1")
  let n ← incr (.smsDay phone day)
  let _ ← expireFirst (.smsDay phone day) n dailyTtl
  return (0, n)

theorem storeAndCount_eq : storeAndCount cfg phone day code dailyTtl =
    setex (.smsCode phone) cfg.codeTtlSeconds (.raw code) >>= fun _ => coolAndCount cfg phone day dailyTtl := rfl

/-- It stops half-way at the second `SETEX`, or at the `INCR`. -/
theorem storeAndCount_atomic (hcd : s.find (.smsCd phone) = none) :
    (storeAndCount cfg phone day code dailyTtl).Atomic s ↔ ¬(1 ≤ cfg.codeTtlSeconds ∧
      (cfg.resendIntervalSeconds ≤ 0 ∧
          s.seen (.smsCode phone) ≠ some (some code, some (s.now + cfg.codeTtlSeconds.toNat * 1000)) ∨
        1 ≤ cfg.resendIntervalSeconds ∧ ∃ e, s.find (.smsDay phone day) = some e ∧ e.val.num? = none)) := by
  rw [storeAndCount_eq]
  unfold Script.Atomic Script.Returns
  by_cases hcode : cfg.codeTtlSeconds ≤ 0
  · -- the first `SETEX` fails, nothing is written yet
    rw [Script.bind_run, setex, if_pos hcode]
    exact iff_of_true (Or.inr fun _ => rfl) fun h => by omega
  rw [setex_bind _ _ (by omega)]
  set s₁ := s.put (.smsCode phone) (some ⟨.raw code, some (s.now + cfg.codeTtlSeconds.toNat * 1000)⟩)
  have hday : s₁.find (.smsDay phone day) = s.find (.smsDay phone day) := Store.find_put_of_ne _ _ (by simp)
  have hreturns : (coolAndCount cfg phone day dailyTtl).Returns s₁ ↔ 0 < cfg.resendIntervalSeconds ∧
      ∀ e, s.find (.smsDay phone day) = some e → e.val.num? ≠ none := by
    rw [← hday]
    exact coolAndCount_returns
  change (coolAndCount cfg phone day dailyTtl).Returns s₁ ∨ _ ↔ _
  by_cases hresend : cfg.resendIntervalSeconds ≤ 0
  · -- the code is stored, and nothing else: that shows unless it was there
    have hseen : s₁.seen (.smsCode phone) = some (some code, some (s.now + cfg.codeTtlSeconds.toNat * 1000)) := by
      unfold Store.seen
      rw [Store.find_put_expire]
      rfl
    rw [coolAndCount_same hresend, or_iff_right fun h => by have := (hreturns.1 h).1; omega]
    constructor
    · rintro hsame ⟨-, ⟨-, hne⟩ | ⟨hpos, -⟩⟩
      · exact hne ((hsame _).symm.trans hseen)
      · omega
    · intro h k
      by_cases hk : k = .smsCode phone
      · by_contra hne
        rw [hk] at hne
        exact h ⟨by omega, Or.inl ⟨hresend, fun heq => hne (hseen.trans heq.symm)⟩⟩
      · exact congrArg _ (Store.find_put_of_ne _ _ hk)
  by_cases hbad : ∃ e, s.find (.smsDay phone day) = some e ∧ e.val.num? = none
  · -- the `INCR` fails, the cooldown is there
    refine iff_of_false ?_ (not_not.2 ⟨by omega, Or.inr ⟨by omega, hbad⟩⟩)
    obtain ⟨e, hfind, hnum⟩ := hbad
    rintro (h | hsame)
    · exact (hreturns.1 h).2 e hfind hnum
    · refine coolAndCount_cools (by omega) (hday.trans hfind) hnum ((hsame _).trans ?_)
      unfold Store.seen
      rw [hcd]
      rfl
  · refine iff_of_true (Or.inl (hreturns.2 ⟨by omega, fun e he hnone => hbad ⟨e, he, hnone⟩⟩)) ?_
    rintro ⟨-, ⟨hneg, -⟩ | ⟨-, hsome⟩⟩
    · omega
    · exact hbad hsome

/-- **A send is atomic, unless it stops half-way.** -/
theorem sendScript_atomic : (sendScript cfg phone day code dailyTtl).Atomic s ↔ ¬SendTears cfg s phone day code := by
  unfold sendScript kSendScript Script.Atomic Script.Returns
  rw [exists_bind]
  cases hcd : s.find (.smsCd phone) with
  | some e =>
    refine iff_of_true (Or.inl ⟨_, rfl⟩) fun h => ?_
    rw [h.cooled] at hcd
    cases hcd
  | none =>
    simp only [Option.isSome_none, Bool.false_eq_true, if_false]
    rw [← Script.bind_assoc, Script.bind_run]
    rcases readNumber_cases (.smsDay phone day) s with ⟨hused, err, hread⟩ | ⟨n, hused, hread⟩
    · unfold readNumber at hread
      rw [hread]
      refine iff_of_true (Or.inr fun _ => rfl) fun h => ?_
      obtain ⟨n, hn, -⟩ := h.below
      exact absurd (hused.symm.trans hn) (by simp)
    unfold readNumber at hread
    rw [hread]
    dsimp only
    by_cases hlimit : n ≥ cfg.dailyLimit
    · rw [if_pos hlimit]
      refine iff_of_true (Or.inl ⟨_, rfl⟩) fun h => ?_
      obtain ⟨m, hm, hlt⟩ := h.below
      obtain rfl := Option.some.inj (hused.symm.trans hm)
      omega
    · rw [if_neg hlimit]
      refine (storeAndCount_atomic hcd).trans (not_congr ?_)
      exact ⟨fun h => ⟨hcd, ⟨n, hused, by omega⟩, h.1, h.2⟩, fun h => ⟨h.codeTtl, h.fails⟩⟩

/-- **A verify is atomic**: whatever it reads is read before it writes. -/
theorem verifyScript_atomic {input : String} : (verifyScript cfg phone input).Atomic s := by
  unfold verifyScript kVerifyScript
  -- up to the comparison everything is read
  refine atomic_bind_read (get_same _ s) fun stored => ?_
  split
  · exact (returns_pure _).atomic
  rw [← Script.bind_assoc]
  refine atomic_bind_read ?_ fun tries => ?_
  · rcases readNumber_cases (.smsTry phone) s with ⟨-, err, hread⟩ | ⟨n, -, hread⟩
    · exact congrArg Prod.snd hread
    · exact congrArg Prod.snd hread
  split
  · exact (returns_bind (fun t => returns_del t) (fun _ _ => returns_pure _) s).atomic
  split
  · refine (returns_bind (fun t => returns_del t) (fun _ => ?_) s).atomic
    exact returns_bind (fun t => returns_del t) fun _ _ => returns_pure _
  · refine atomic_bind atomic_incr fun t => returns_bind (fun t => returns_ttl t) fun ttl => ?_
    exact returns_bind (fun t => returns_expire t) fun _ _ => returns_pure _

end SmsService

namespace LoginGuard

variable {cfg : Config} {s : Store Key} {phone : String}

/-- The script of `onFailure` for a phone. -/
abbrev failureScript (cfg : Config) (phone : String) : Script Key (ℤ × ℤ) :=
  kOnFailureScript (lockKey phone) (failKey phone) cfg.maxFail cfg.lockSeconds

/-- A failure that stops half-way: it is counted, or its counter deleted, and the lock it
is to set has no time to live. A counter that it has just made is gone as well. -/
structure FailureTears (cfg : Config) (s : Store Key) (phone : String) : Prop where
  unlocked : s.find (lockKey phone) = none
  lockSeconds : cfg.lockSeconds ≤ 0
  last : ∃ e n, s.find (failKey phone) = some e ∧ e.val.num? = some n ∧ cfg.maxFail ≤ n + 1

/-- `INCR` changes what it counts. -/
theorem string?_of_num? {v : Val} {n : ℤ} (h : v.num? = some n) : v.string? = some (toString n) := by
  cases v with
  | int m =>
    rw [← Option.some.inj h]
    rfl
  | raw s =>
    obtain ⟨-, htext⟩ := Option.filter_eq_some_iff.1 h
    exact congrArg some (of_decide_eq_true htext).symm
  | real s floor => cases h
  | other => cases h

/-- A counter that was there is seen otherwise after it is counted, or it is gone. -/
theorem counted_seen {k : Key} {e : Entry} {n seconds : ℤ} (hfind : s.find k = some e) (hnum : e.val.num? = some n)
    (hsec : seconds ≤ 0) :
    (expireFirst k (n + 1) seconds (s.put k (some ⟨.int (n + 1), e.expireAt⟩))).2.seen k ≠ s.seen k := by
  have halive : Entry.alive s.now ⟨.int (n + 1), e.expireAt⟩ = true := (Store.find_some.1 hfind).2
  have hput : (s.put k (some ⟨.int (n + 1), e.expireAt⟩)).find k = some ⟨.int (n + 1), e.expireAt⟩ := by
    rw [Store.find_put_self, Option.filter_eq_some_iff]
    exact ⟨rfl, halive⟩
  have hbefore : s.seen k = some (some (toString n), e.expireAt) := by
    unfold Store.seen
    rw [hfind, Option.map_some, Entry.seen, string?_of_num? hnum]
  rw [hbefore]
  unfold expireFirst Store.seen
  by_cases hfirst : n + 1 = 1
  · rw [if_pos hfirst, expire, hput]
    simp only [if_pos hsec, Store.find_put_self]
    simp
  · rw [if_neg hfirst]
    intro hafter
    rw [show ((Pure.pure false : Script Key Bool) (s.put k (some ⟨.int (n + 1), e.expireAt⟩))).2.find k =
      some ⟨.int (n + 1), e.expireAt⟩ from hput] at hafter
    have htext : toString (n + 1) = toString n := Option.some.inj (Prod.mk.inj (Option.some.inj hafter)).1
    have hsame := Int.repr_injective htext
    omega

/-- What a failure does without a lock. -/
def countFailure (cfg : Config) (phone : String) : Script Key (ℤ × ℤ) := do
  let n ← incr (failKey phone)
  let _ ← expireFirst (failKey phone) n cfg.lockSeconds
  if n ≥ cfg.maxFail then
    setex (lockKey phone) cfg.lockSeconds (.raw "1")
    let _ ← del (failKey phone)
    return (-2, cfg.lockSeconds)
  else
    return (n, 0)

/-- With a time to live for the lock only the `INCR` can fail. -/
theorem countFailure_of_pos (hsec : 0 < cfg.lockSeconds) : (countFailure cfg phone).Atomic s := by
  refine atomic_bind atomic_incr fun n => returns_bind (fun t => returns_expireFirst t) fun _ => ?_
  split
  · refine returns_bind (fun t => returns_setex hsec t) fun _ => ?_
    exact returns_bind (fun t => returns_del t) fun _ _ => returns_pure _
  · exact fun _ => returns_pure _

/-- A counter that it makes is deleted at once: there is no trace of it. -/
theorem countFailure_none (hsec : cfg.lockSeconds ≤ 0) (hfind : s.find (failKey phone) = none) :
    (countFailure cfg phone).Atomic s := by
  have hput : (s.put (failKey phone) (some ⟨.int 1, none⟩)).find (failKey phone) = some ⟨.int 1, none⟩ := by
    rw [Store.find_put_self]
    rfl
  unfold countFailure Script.Atomic Script.Returns
  rw [incr_bind_none _ _ _ hfind, expireFirst, if_pos rfl, expire_bind, expire, hput]
  simp only [if_pos hsec]
  split
  · right
    -- the lock is refused, and of the counter nothing is left
    rw [Script.bind_run, setex, if_pos hsec]
    intro k
    unfold Store.seen
    rw [Store.put_put]
    by_cases hk : k = failKey phone
    · rw [hk, hfind, Store.find_put_self]
      rfl
    · rw [Store.find_put_of_ne _ _ hk]
  · exact Or.inl ⟨_, rfl⟩

/-- The `INCR` of what is no number fails first. -/
theorem countFailure_not_num {e : Entry} (hfind : s.find (failKey phone) = some e) (hnum : e.val.num? = none) :
    (countFailure cfg phone).Atomic s := by
  unfold countFailure Script.Atomic
  rw [Script.bind_run, incr, hfind]
  simp only [hnum]
  exact Or.inr fun _ => trivial

/-- The failure that is to set the lock has counted before it fails. -/
theorem countFailure_num {e : Entry} {n : ℤ} (hsec : cfg.lockSeconds ≤ 0) (hfind : s.find (failKey phone) = some e)
    (hnum : e.val.num? = some n) : (countFailure cfg phone).Atomic s ↔ n + 1 < cfg.maxFail := by
  unfold countFailure Script.Atomic Script.Returns
  obtain ⟨b, hb⟩ := expireFirst_bind (failKey phone) (s.put (failKey phone) (some ⟨.int (n + 1), e.expireAt⟩))
    (n + 1) cfg.lockSeconds fun _ => if n + 1 ≥ cfg.maxFail then do
      setex (lockKey phone) cfg.lockSeconds (.raw "1")
      let _ ← del (failKey phone)
      return (-2, cfg.lockSeconds)
    else return (n + 1, 0)
  -- whatever `EXPIRE` does to the counter, it does not fail
  rw [incr_bind_num _ _ _ hfind hnum, hb]
  by_cases hlast : n + 1 ≥ cfg.maxFail
  · rw [if_pos hlast, Script.bind_run, setex, if_pos hsec]
    refine iff_of_false ?_ (by omega)
    rintro (⟨a, ha⟩ | hsame)
    · cases ha
    · -- the counter is seen to have changed
      exact counted_seen hfind hnum hsec (hsame _)
  · rw [if_neg hlast]
    exact iff_of_true (Or.inl ⟨_, rfl⟩) (by omega)

/-- **A failure is atomic, unless it stops half-way.** -/
theorem failureScript_atomic : (failureScript cfg phone).Atomic s ↔ ¬FailureTears cfg s phone := by
  unfold failureScript kOnFailureScript Script.Atomic Script.Returns
  rw [exists_bind]
  cases hlock : s.find (lockKey phone) with
  | some e =>
    refine iff_of_true (Or.inl ⟨_, rfl⟩) fun h => ?_
    rw [h.unlocked] at hlock
    cases hlock
  | none =>
    change (countFailure cfg phone).Atomic s ↔ _
    by_cases hsec : 0 < cfg.lockSeconds
    · exact iff_of_true (countFailure_of_pos hsec) fun h => absurd h.lockSeconds (not_le.2 hsec)
    have hzero : cfg.lockSeconds ≤ 0 := not_lt.1 hsec
    cases hfind : s.find (failKey phone) with
    | none =>
      refine iff_of_true (countFailure_none hzero hfind) fun h => ?_
      obtain ⟨e, n, he, -, -⟩ := h.last
      rw [hfind] at he
      cases he
    | some e =>
      cases hnum : e.val.num? with
      | none =>
        refine iff_of_true (countFailure_not_num hfind hnum) fun h => ?_
        obtain ⟨e', n, he, hn, -⟩ := h.last
        obtain rfl := Option.some.inj (hfind.symm.trans he)
        rw [hnum] at hn
        cases hn
      | some n =>
        rw [countFailure_num hzero hfind hnum]
        constructor
        · intro hlt h
          obtain ⟨e', m, he, hm, hle⟩ := h.last
          obtain rfl := Option.some.inj (hfind.symm.trans he)
          obtain rfl := Option.some.inj (hnum.symm.trans hm)
          omega
        · intro h
          by_contra hlast
          exact h ⟨hlock, hzero, e, n, hfind, hnum, by omega⟩

end LoginGuard

/-- **A mark is atomic**: it counts first. -/
theorem RegisterGuard.markScript_atomic (key : Key) (windowSeconds : ℤ) (s : Store Key) :
    (kMarkScript key windowSeconds).Atomic s :=
  atomic_bind atomic_incr fun _ =>
    returns_bind (fun t => returns_expireFirst t) fun _ _ => returns_pure _

/-- **When a script returns or changes nothing**, for any parameters and in any store: a
verify and a mark always, a send and a failure unless they stop half-way. -/
theorem scripts_atomic (sms : SmsService.Config) (guard : LoginGuard.Config) (windowSeconds : ℤ) (s : Store Key)
    (phone day code input ip : String) (dailyTtl : ℤ) :
    ((SmsService.sendScript sms phone day code dailyTtl).Atomic s ↔ ¬SmsService.SendTears sms s phone day code) ∧
      (SmsService.verifyScript sms phone input).Atomic s ∧
      ((LoginGuard.failureScript guard phone).Atomic s ↔ ¬LoginGuard.FailureTears guard s phone) ∧
      (RegisterGuard.kMarkScript (.regIp ip) windowSeconds).Atomic s :=
  ⟨SmsService.sendScript_atomic, SmsService.verifyScript_atomic, LoginGuard.failureScript_atomic,
    RegisterGuard.markScript_atomic _ _ _⟩

/-- With a resend interval of `0` a send fails with its code stored. -/
theorem scripts_atomic_fails :
    ¬(SmsService.sendScript ⟨300, 0, 10, 5⟩ "13800000000" "20240101" "123456" 3600).Atomic (.empty 0) := by
  rintro (⟨a, ha⟩ | hsame)
  · cases ha
  · exact absurd (hsame (.smsCode "13800000000")) (by decide +kernel)

end Seckill
