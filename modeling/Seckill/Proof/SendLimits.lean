import Mathlib
import Seckill.Proof.Sms

/-!
# How often a phone is sent codes

A send that passes the script starts the cooldown and is counted under the day's key.

* `step_counts`: the day's counter is the number of sends of the day; it expires at
  midnight, so it stays for the day (`midnight_le`, `now_lt_midnight`).
* `step_cools`: the cooldown stays until its time is up.
* `sendCode_limits`: two sends are `resendIntervalSeconds` apart, at most `dailyLimit` are
  of one day, and a refused one leaves no trace.
-/

namespace Seckill.SmsService

open Redis Machine

variable {cfg : Config} {z : Zone} {phone day : String} {s t : Store Key} {e : Ev}

/-! ## Midnight -/

/-- The fallback for a midnight that is past is not taken. -/
theorem secondsUntilTomorrow_eq (z : Zone) (now : ℕ) :
    secondsUntilTomorrow z now = z.midnight (time now) - time now := by
  have hlt := z.lt_midnight (time now)
  unfold secondsUntilTomorrow
  rw [if_neg (by omega)]

/-- **A day's counter is there to the day's end**: it expires at midnight, not before. -/
theorem midnight_le (z : Zone) (now : ℕ) :
    z.midnight (time now) * 1000 ≤ ((now + (secondsUntilTomorrow z now).toNat * 1000 : ℕ) : ℤ) := by
  have hlt := z.lt_midnight (time now)
  rw [secondsUntilTomorrow_eq]
  unfold time at hlt ⊢
  omega

/-- The day is not over. -/
theorem now_lt_midnight (z : Zone) {now now' : ℕ} (h : localDayString z now' = localDayString z now) :
    (now' : ℤ) < z.midnight (time now) * 1000 := by
  have hlt := z.lt_midnight (time now')
  rw [z.midnight_date _ _ h] at hlt
  unfold time at hlt ⊢
  omega

/-! ## A send that passes -/

/-- A send to the phone that passes the script, whether the sender then delivers or not. -/
def passes (cfg : Config) (phone : String) (s : Store Key) : Ev → Bool
  | .sendCode phone' code day dailyTtl _ => phone' = phone && (sendCode cfg s phone' code day dailyTtl true).1 = .ok
  | _ => false

/-- It is of the day. -/
def passesOn (cfg : Config) (z : Zone) (phone day : String) (s : Store Key) (e : Ev) : Bool :=
  passes cfg phone s e && localDayString z s.now = day

/-- **The day's counter**: it is the number of sends that passed, and it is there to the
end of the day. -/
def DayCounts (z : Zone) (phone day : String) (n : ℕ) (s : Store Key) : Prop :=
  (n = 0 ∧ s.cell (.smsDay phone day) = none) ∨
    1 ≤ n ∧ ∃ at_ : ℕ, s.cell (.smsDay phone day) = some ⟨.int n, some at_⟩ ∧
      ∀ now, localDayString z now = day → z.midnight (time now) * 1000 ≤ at_

theorem DayCounts.find {n : ℕ} (h : DayCounts z phone day n s) (hday : localDayString z s.now = day) :
    (n = 0 ∧ s.find (.smsDay phone day) = none) ∨
      1 ≤ n ∧ ∃ at_ : ℕ, s.find (.smsDay phone day) = some ⟨.int n, some at_⟩ ∧
        ∀ now, localDayString z now = day → z.midnight (time now) * 1000 ≤ at_ := by
  rcases h with ⟨hzero, hcell⟩ | ⟨hpos, at_, hcell, hat⟩
  · left
    refine ⟨hzero, ?_⟩
    unfold Store.find
    rw [hcell]
    rfl
  · right
    have hnow := now_lt_midnight z (rfl : localDayString z s.now = localDayString z s.now)
    have hle := hat s.now hday
    -- it is read before its expiry, which is midnight or later
    exact ⟨hpos, at_, Store.find_some.2 ⟨hcell, by simp only [Entry.alive, decide_eq_true_eq]; omega⟩, hat⟩

theorem DayCounts.congr {n : ℕ} (h : DayCounts z phone day n s)
    (hcell : t.cell (.smsDay phone day) = s.cell (.smsDay phone day)) : DayCounts z phone day n t := by
  unfold DayCounts
  rw [hcell]
  exact h

/-- The script of a send that passes stores the code and counts it. -/
theorem sendCode_passes {code : String} {dailyTtl : ℤ} (h₁ : 1 ≤ cfg.codeTtlSeconds)
    (h₂ : 1 ≤ cfg.resendIntervalSeconds) (hs : Counters s)
    (h : (sendCode cfg s phone code day dailyTtl true).1 = .ok) (delivered : Bool) :
    s.find (.smsCd phone) = none ∧ count s (.smsDay phone day) < cfg.dailyLimit ∧
      (sendCode cfg s phone code day dailyTtl delivered).2 =
        ((incr (.smsDay phone day) >>= fun n => expireFirst (.smsDay phone day) n dailyTtl >>= fun _ =>
          Pure.pure ((0 : ℤ), n)) (stored cfg s phone code)).2 := by
  unfold sendCode at h ⊢
  split at h
  · cases h
  rename_i hphone
  split at h
  · cases h
  rename_i hcode
  rw [if_neg hphone, if_neg hcode]
  rcases sendScript_cases phone day code dailyTtl h₁ h₂ hs with ⟨-, n, heq⟩ | ⟨-, -, heq⟩ | ⟨hcd, hlt, -⟩
  · rw [heq] at h
    cases h
  · rw [heq] at h
    cases h
  · refine ⟨hcd, hlt, ?_⟩
    rw [sendScript_passes code dailyTtl h₁ h₂ hs hcd hlt]

/-- A send that does not pass leaves no trace. -/
theorem sendCode_refused {code : String} {dailyTtl : ℤ} (h₁ : 1 ≤ cfg.codeTtlSeconds)
    (h₂ : 1 ≤ cfg.resendIntervalSeconds) (hs : Counters s)
    (h : (sendCode cfg s phone code day dailyTtl true).1 ≠ .ok) (delivered : Bool) :
    (sendCode cfg s phone code day dailyTtl delivered).2 = s := by
  unfold sendCode at h ⊢
  split
  · rfl
  rename_i hphone
  rw [if_neg hphone] at h
  split
  · rfl
  rename_i hcode
  rw [if_neg hcode] at h
  rcases sendScript_cases phone day code dailyTtl h₁ h₂ hs with ⟨-, n, heq⟩ | ⟨-, -, heq⟩ | ⟨-, -, s', heq, -⟩
  · rw [heq]
  · rw [heq]
  · rw [heq] at h
    exact absurd rfl h

/-! ## The limit of a day -/

/-- A send that passes on the day is counted, under a counter that ends with the day. -/
theorem send_counts {n : ℕ} {code : String} {dailyTtl : ℤ} {delivered : Bool} (h₁ : 1 ≤ cfg.codeTtlSeconds)
    (h₂ : 1 ≤ cfg.resendIntervalSeconds) (hs : Counters s) (hday : day = localDayString z s.now)
    (httl : dailyTtl = secondsUntilTomorrow z s.now) (hn : DayCounts z phone day n s)
    (hok : (sendCode cfg s phone code day dailyTtl true).1 = .ok) :
    DayCounts z phone day (n + 1) (sendCode cfg s phone code day dailyTtl delivered).2 ∧ (n : ℤ) < cfg.dailyLimit := by
  obtain ⟨-, hlt, heff⟩ := sendCode_passes h₁ h₂ hs hok delivered
  have hfind : (stored cfg s phone code).find (.smsDay phone day) = s.find (.smsDay phone day) :=
    stored_find cfg s code (by simp) (by simp)
  rw [heff]
  rcases hn.find hday.symm with ⟨rfl, hnone⟩ | ⟨hpos, at_, hsome, hat⟩
  · -- the first of the day
    rw [count_none hnone] at hlt
    have hmid := z.lt_midnight (time s.now)
    rw [counted_none _ _ _ (hfind.trans hnone) (by rw [httl, secondsUntilTomorrow_eq]; omega)]
    refine ⟨Or.inr ⟨by simp, _, Store.cell_put_self _ _ _, fun now hnow => ?_⟩, hlt⟩
    -- every instant of the day has the same midnight
    have hsame := z.midnight_date _ _ (hnow.trans hday)
    rw [hsame, httl]
    exact midnight_le z s.now
  · -- a later one keeps the expiry of the first
    rw [count_of_find hsome] at hlt
    rw [counted_some _ _ _ (hfind.trans hsome) (by omega)]
    refine ⟨Or.inr ⟨by simp, at_, ?_, hat⟩, hlt⟩
    change (Store.put _ _ _).cell _ = _
    rw [Store.cell_put_self]
    simp

/-- **One step.** A send of the day that passes is below the limit, and it is counted. -/
theorem step_counts {n : ℕ} (h₁ : 1 ≤ cfg.codeTtlSeconds) (h₂ : 1 ≤ cfg.resendIntervalSeconds) (hs : Counters s)
    (honTime : OnTime z phone s e) (hn : DayCounts z phone day n s) (h : step cfg s e = some t) :
    DayCounts z phone day (n + if passesOn cfg z phone day s e then 1 else 0) t ∧
      (passesOn cfg z phone day s e = true → (n : ℤ) < cfg.dailyLimit) := by
  -- what does not pass on this day does not touch its counter
  have hother (hnot : passesOn cfg z phone day s e = false)
      (hcell : t.cell (.smsDay phone day) = s.cell (.smsDay phone day)) :
      DayCounts z phone day (n + if passesOn cfg z phone day s e then 1 else 0) t ∧
        (passesOn cfg z phone day s e = true → (n : ℤ) < cfg.dailyLimit) := by
    rw [hnot]
    exact ⟨hn.congr hcell, fun hyes => Bool.noConfusion hyes⟩
  cases e with
  | wait ms =>
    rw [← show s.wait ms = t from Option.some.inj h] at hother ⊢
    exact hother rfl rfl
  | verifyCode phone' code =>
    have hframe := verifyCode_frame cfg s phone' code
    rw [Option.some.inj h] at hframe
    exact hother rfl (hframe.2 _ (by simp))
  | sendCode phone' code day' dailyTtl delivered =>
    have ht : (sendCode cfg s phone' code day' dailyTtl delivered).2 = t := Option.some.inj h
    have hframe := sendCode_frame cfg s phone' code day' dailyTtl delivered
    rw [ht] at hframe
    by_cases hphone : phone' = phone
    swap
    · exact hother (by simp [passesOn, passes, hphone]) (hframe.2 _ (by simp [Ne.symm hphone]))
    subst hphone
    by_cases hok : (sendCode cfg s phone' code day' dailyTtl true).1 = .ok
    swap
    · rw [sendCode_refused h₁ h₂ hs hok] at ht
      exact hother (by simp [passesOn, passes, hok]) (by rw [ht])
    obtain ⟨hday, httl⟩ := honTime rfl
    by_cases hthis : day' = day
    swap
    · exact hother (by simp [passesOn, ← hday, hthis]) (hframe.2 _ (by simp [Ne.symm hthis]))
    subst hthis
    have hyes : passesOn cfg z phone' day' s (.sendCode phone' code day' dailyTtl delivered) = true := by
      simp [passesOn, passes, hok, ← hday]
    rw [hyes, ← ht]
    obtain ⟨hcounts, hlt⟩ := send_counts h₁ h₂ hs hday httl hn hok
    exact ⟨hcounts, fun _ => hlt⟩

/-- **The limit of a day**, in every run. -/
theorem day_run (h₁ : 1 ≤ cfg.codeTtlSeconds) (h₂ : 1 ≤ cfg.resendIntervalSeconds) (h₃ : 0 ≤ cfg.dailyLimit)
    {now₀ : ℕ} {es : List Ev} (honTime : Meets (step cfg) (OnTime z phone) (.empty now₀) es)
    (h : run (step cfg) (.empty now₀) es = some s) (day : String) :
    (tally (step cfg) (passesOn cfg z phone day) (.empty now₀) es : ℤ) ≤ cfg.dailyLimit := by
  have hall : Counters s ∧ DayCounts z phone day (tally (step cfg) (passesOn cfg z phone day) (.empty now₀) es) s ∧
      (tally (step cfg) (passesOn cfg z phone day) (.empty now₀) es : ℤ) ≤ cfg.dailyLimit := by
    refine run_trace_of (C := OnTime z phone)
      (I := fun es s => Counters s ∧
        DayCounts z phone day (tally (step cfg) (passesOn cfg z phone day) (.empty now₀) es) s ∧
        (tally (step cfg) (passesOn cfg z phone day) (.empty now₀) es : ℤ) ≤ cfg.dailyLimit) ?_ ?_ honTime h
    · exact ⟨Ints.empty now₀, Or.inl ⟨rfl, rfl⟩, h₃⟩
    · rintro es s e t hrun ⟨hs, hn, hle⟩ hon hst
      obtain ⟨hcounts, hbelow⟩ := step_counts h₁ h₂ hs hon hn hst
      rw [tally_snoc e hrun]
      refine ⟨step_counters s e t hs hst, hcounts, ?_⟩
      by_cases hyes : passesOn cfg z phone day s e = true
      · have hlt := hbelow hyes
        rw [if_pos hyes]
        push_cast
        omega
      · rw [if_neg hyes]
        simpa using hle
  exact hall.2.2

/-! ## The cooldown -/

/-- The cooldown of the phone is there until its time is up. -/
def Cools (phone : String) (until_ : ℕ) (s : Store Key) : Prop :=
  s.now ≤ until_ → s.cell (.smsCd phone) = some ⟨.raw "1", some until_⟩

theorem Cools.find {until_ : ℕ} (h : Cools phone until_ s) (hle : s.now ≤ until_) : s.find (.smsCd phone) ≠ none := by
  rw [Store.find_some.2 ⟨h hle, by simpa [Entry.alive] using hle⟩]
  exact Option.some_ne_none _

theorem step_now (h : step cfg s e = some t) : s.now ≤ t.now := by
  cases e with
  | wait ms =>
    rw [← show s.wait ms = t from Option.some.inj h, Store.wait_now]
    omega
  | verifyCode phone' code =>
    have hframe := verifyCode_frame cfg s phone' code
    rw [Option.some.inj h] at hframe
    exact Nat.le_of_eq hframe.1.symm
  | sendCode phone' code day' dailyTtl delivered =>
    have hframe := sendCode_frame cfg s phone' code day' dailyTtl delivered
    rw [Option.some.inj h] at hframe
    exact Nat.le_of_eq hframe.1.symm

/-- Only a send that passes writes the cooldown, and it does not pass while there is one. -/
theorem step_cools {until_ : ℕ} (h₁ : 1 ≤ cfg.codeTtlSeconds) (h₂ : 1 ≤ cfg.resendIntervalSeconds)
    (hs : Counters s) (hc : Cools phone until_ s) (h : step cfg s e = some t) : Cools phone until_ t := by
  intro hle
  have hbefore := hc (Nat.le_trans (step_now h) hle)
  cases e with
  | wait ms =>
    rw [← show s.wait ms = t from Option.some.inj h]
    exact hbefore
  | verifyCode phone' code =>
    have hframe := verifyCode_frame cfg s phone' code
    rw [Option.some.inj h] at hframe
    rw [hframe.2 _ (by simp)]
    exact hbefore
  | sendCode phone' code day' dailyTtl delivered =>
    have ht : (sendCode cfg s phone' code day' dailyTtl delivered).2 = t := Option.some.inj h
    by_cases hphone : phone' = phone
    swap
    · have hframe := sendCode_frame cfg s phone' code day' dailyTtl delivered
      rw [ht] at hframe
      rw [hframe.2 _ (by simp [Ne.symm hphone])]
      exact hbefore
    subst hphone
    by_cases hok : (sendCode cfg s phone' code day' dailyTtl true).1 = .ok
    · -- a send that passes found no cooldown
      have hnone := (sendCode_passes h₁ h₂ hs hok delivered).1
      exact absurd hnone (hc.find (Nat.le_trans (step_now h) hle))
    · rw [sendCode_refused h₁ h₂ hs hok] at ht
      rw [← ht]
      exact hbefore

/-- A send that passes starts the cooldown. -/
theorem passes_cools (h₁ : 1 ≤ cfg.codeTtlSeconds) (h₂ : 1 ≤ cfg.resendIntervalSeconds) (hs : Counters s)
    (hpass : passes cfg phone s e = true) (h : step cfg s e = some t) :
    s.find (.smsCd phone) = none ∧ Cools phone (s.now + cfg.resendIntervalSeconds.toNat * 1000) t := by
  cases e with
  | wait ms => cases hpass
  | verifyCode phone' code => cases hpass
  | sendCode phone' code day' dailyTtl delivered =>
    have ht : (sendCode cfg s phone' code day' dailyTtl delivered).2 = t := Option.some.inj h
    simp only [passes, Bool.and_eq_true, decide_eq_true_eq] at hpass
    obtain ⟨rfl, hok⟩ := hpass
    obtain ⟨hnone, -, heff⟩ := sendCode_passes h₁ h₂ hs hok delivered
    refine ⟨hnone, fun _ => ?_⟩
    -- counting the send does not touch the cooldown
    have hcounts : (incr (Key.smsDay phone' day') >>= fun n => expireFirst (.smsDay phone' day') n dailyTtl >>= fun _ =>
        (Pure.pure ((0 : ℤ), n) : Script Key (ℤ × ℤ))).Does (SameBut fun k => k = .smsDay phone' day') :=
      does_bind (does_incr (sameBut_counts rfl)) fun n =>
        does_bind (does_expireFirst (sameBut_counts rfl)) fun _ => does_pure _
    rw [← ht, heff, (hcounts _).2 _ (by simp)]
    exact Store.cell_put_self _ _ _

/-- **Two sends are apart.** -/
theorem passes_apart (h₁ : 1 ≤ cfg.codeTtlSeconds) (h₂ : 1 ≤ cfg.resendIntervalSeconds) {u v : Store Key}
    {e' : Ev} {mid : List Ev} (hu : Counters u) (hfirst : passes cfg phone u e = true)
    (hrun : run (step cfg) u (e :: mid) = some v) (hsecond : passes cfg phone v e' = true) :
    (u.now : ℤ) + cfg.resendIntervalSeconds * 1000 ≤ v.now := by
  obtain ⟨w, hw, hmid⟩ := run_cons.1 hrun
  have hcools := (passes_cools h₁ h₂ hu hfirst hw).2
  have hstays : Counters v ∧ Cools phone (u.now + cfg.resendIntervalSeconds.toNat * 1000) v :=
    run_inv (I := fun v => Counters v ∧ Cools phone (u.now + cfg.resendIntervalSeconds.toNat * 1000) v)
      (fun s e t hs hst => ⟨step_counters s e t hs.1 hst, step_cools h₁ h₂ hs.1 hs.2 hst⟩)
      ⟨step_counters u e w hu hw, hcools⟩ hmid
  -- within the interval the second would find the cooldown of the first
  by_contra hsoon
  have hle : v.now ≤ u.now + cfg.resendIntervalSeconds.toNat * 1000 := by omega
  cases hv : step cfg v e' with
  | none => cases e' <;> cases hv
  | some w' => exact hstays.2.find hle (passes_cools h₁ h₂ hstays.1 hsecond hv).1

/-- **How often a phone is sent codes.** With positive times to live, in every run in
which the sends to the phone are executed on the day and at the time they were computed
for: two sends that pass are `resendIntervalSeconds` apart; of each day at most
`dailyLimit` pass; and a send refused for the cooldown or the limit leaves every key as
it was. -/
theorem sendCode_limits (cfg : Config) (h₁ : 1 ≤ cfg.codeTtlSeconds) (h₂ : 1 ≤ cfg.resendIntervalSeconds)
    (h₃ : 0 ≤ cfg.dailyLimit) (z : Zone) (phone : String) (now₀ : ℕ) (es : List Ev) (s : Store Key)
    (honTime : Meets (step cfg) (OnTime z phone) (.empty now₀) es) (h : run (step cfg) (.empty now₀) es = some s) :
    (∀ pre e mid e' post u v, es = pre ++ e :: mid ++ e' :: post → run (step cfg) (.empty now₀) pre = some u →
        run (step cfg) (.empty now₀) (pre ++ e :: mid) = some v → passes cfg phone u e = true →
        passes cfg phone v e' = true → (u.now : ℤ) + cfg.resendIntervalSeconds * 1000 ≤ v.now) ∧
      (∀ day, (tally (step cfg) (passesOn cfg z phone day) (.empty now₀) es : ℤ) ≤ cfg.dailyLimit) ∧
      ∀ code day dailyTtl delivered,
        (sendCode cfg s phone code day dailyTtl delivered).1 = .tooFrequent ∨
          (sendCode cfg s phone code day dailyTtl delivered).1 = .dailyLimit →
        (sendCode cfg s phone code day dailyTtl delivered).2 = s := by
  have hcounters : ∀ {es s}, run (step cfg) (.empty now₀) es = some s → Counters s :=
    fun h => run_inv (I := Counters) step_counters (Ints.empty now₀) h
  refine ⟨?_, fun day => day_run h₁ h₂ h₃ honTime h day, ?_⟩
  · rintro pre e mid e' post u v - hu hv hfirst hsecond
    have hmid := run_rest hv hu
    exact passes_apart h₁ h₂ (hcounters hu) hfirst hmid hsecond
  · intro code day dailyTtl delivered hrefused
    refine sendCode_refused h₁ h₂ (hcounters h) (fun hok => ?_) delivered
    -- a send that passes is answered `ok` or, not delivered, with an error
    unfold sendCode at hok hrefused
    split at hok
    · cases hok
    rename_i hphone
    split at hok
    · cases hok
    rename_i hcode
    rw [if_neg hphone, if_neg hcode] at hrefused
    rcases sendScript_cases phone day code dailyTtl h₁ h₂ (hcounters h) with
      ⟨-, n, heq⟩ | ⟨-, -, heq⟩ | ⟨-, -, s', heq, -⟩
    · rw [heq] at hok
      cases hok
    · rw [heq] at hok
      cases hok
    · rw [heq] at hrefused
      cases delivered <;> simp [onSend] at hrefused

/-! ## The calendar of UTC -/

/-- A day of the calendar. -/
structure Date where
  year : ℕ
  month : ℕ
  day : ℕ

def Date.monthLength (d : Date) : ℕ :=
  if d.month = 2 then if d.year % 4 = 0 ∧ (d.year % 100 ≠ 0 ∨ d.year % 400 = 0) then 29 else 28
  else if d.month = 4 ∨ d.month = 6 ∨ d.month = 9 ∨ d.month = 11 then 30 else 31

def Date.next (d : Date) : Date :=
  if d.day < d.monthLength then { d with day := d.day + 1 }
  else if d.month < 12 then ⟨d.year, d.month + 1, 1⟩
  else ⟨d.year + 1, 1, 1⟩

/-- The `n`-th day of the epoch. -/
def Date.ofDay : ℕ → Date
  | 0 => ⟨1970, 1, 1⟩
  | n + 1 => (ofDay n).next

/-- `%Y%m%d`, of a year with four digits or more, as a number. -/
def Date.number (d : Date) : ℕ := d.year * 10000 + d.month * 100 + d.day

/-- The calendar has no day twice: a later one has the larger number. -/
theorem number_strictMono : StrictMono fun n => (Date.ofDay n).number := by
  have hmonth : ∀ d : Date, d.monthLength ≤ 31 := by
    intro d
    unfold Date.monthLength
    split_ifs <;> omega
  -- month and day stay within two digits, so `number` orders the dates
  have hvalid : ∀ n, (1 ≤ (Date.ofDay n).month ∧ (Date.ofDay n).month ≤ 12) ∧
      1 ≤ (Date.ofDay n).day ∧ (Date.ofDay n).day ≤ 31 := by
    intro n
    induction n with
    | zero => decide
    | succ n ih =>
      have hlength := hmonth (Date.ofDay n)
      unfold Date.ofDay Date.next
      split_ifs <;> dsimp only <;> omega
  refine strictMono_nat_of_lt_succ fun n => ?_
  have hn := hvalid n
  have hlength := hmonth (Date.ofDay n)
  change (Date.ofDay n).number < (Date.ofDay n).next.number
  unfold Date.next Date.number
  split_ifs <;> dsimp only <;> omega

/-- UTC. -/
def Zone.utc : Zone where
  date t := toString (Date.ofDay (t / 86400)).number
  midnight t := (t / 86400 + 1 : ℕ) * 86400
  lt_midnight t := by omega
  midnight_date t t' h := by
    have hday : t / 86400 = t' / 86400 := number_strictMono.injective (Nat.repr_injective h)
    rw [hday]

/-- A send in the last minute of a day, one that is cooling down, and one on the next day. -/
def overMidnight : List Ev :=
  [.sendCode "13800000000" "111111" "19700101" 60 true, .wait 30000,
    .sendCode "13800000000" "222222" "19700101" 30 true, .wait 31000,
    .sendCode "13800000000" "333333" "19700102" 86399 true]

/-- With one send a day they are two, of two days. -/
theorem sendCode_limits_overMidnight :
    ∃ s, run (step ⟨300, 60, 1, 5⟩) (.empty 86340000) overMidnight = some s ∧
      tally (step ⟨300, 60, 1, 5⟩) (passes ⟨300, 60, 1, 5⟩ "13800000000") (.empty 86340000) overMidnight = 2 ∧
      ∀ day, (tally (step ⟨300, 60, 1, 5⟩) (passesOn ⟨300, 60, 1, 5⟩ .utc "13800000000" day) (.empty 86340000)
        overMidnight : ℤ) ≤ 1 := by
  obtain ⟨s, hs⟩ : ∃ s, run (step ⟨300, 60, 1, 5⟩) (.empty 86340000) overMidnight = some s := ⟨_, rfl⟩
  refine ⟨s, hs, by decide +kernel, ?_⟩
  exact (sendCode_limits ⟨300, 60, 1, 5⟩ (by decide) (by decide) (by decide) .utc "13800000000" 86340000
    overMidnight s (by decide +kernel) hs).2.1

end Seckill.SmsService
