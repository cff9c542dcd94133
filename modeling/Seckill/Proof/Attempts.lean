import Seckill.Proof.Sms

/-!
# How often a code can be guessed

The verify script counts the wrong guesses in `sms:try:{phone}`, a key of its own
whose time to live it sets to the code's at every guess. `TTL` rounds to whole
seconds, so the counter may be gone up to 499 ms before the code (`Covers`), and in
the code's last half second it is set to `0`, which deletes the counter.

While no verify finds the code in its last half second without the counter of the
earlier ones (`InStep`), a stored code is compared at most `maxVerifyAttempts`
times: `verifyCode_limited`. In its last half second it can be guessed without end.
-/

namespace Seckill.SmsService

open Redis

variable {cfg : Config} {s t : Store Key} {phone code input : String} {E : ℕ}

/-- The event is a verify whose input was compared with the phone's code
(`stored == ARGV[1]`): it was right or wrong. -/
def compared (cfg : Config) (phone : String) (s : Store Key) : Ev → Bool
  | .verifyCode p input =>
    p = phone && ((verifyCode cfg s p input).1 = .ok || (verifyCode cfg s p input).1 = .wrongCode)
  | _ => false

/-- The phone's code is `code`, until `E`. -/
def CodeThere (phone code : String) (E : ℕ) (s : Store Key) (_ : Ev) : Prop :=
  s.find (.smsCode phone) = some ⟨.raw code, some E⟩

instance : DecidableRel (CodeThere phone code E) := fun s _ =>
  inferInstanceAs (Decidable (s.find (.smsCode phone) = some ⟨.raw code, some E⟩))

/-- Every verify of the run that finds the code (which is there until `E`) in its last
half second is the first one, or finds the attempt counter. -/
def InStep (cfg : Config) (phone : String) (E : ℕ) (t : Store Key) (es : List Ev) : Prop :=
  ∀ pre input s, pre ++ [.verifyCode phone input] <+: es → Machine.run (step cfg) t pre = some s →
    E < s.now + 500 → (∀ input', .verifyCode phone input' ∉ pre) ∨ s.find (.smsTry phone) ≠ none

/-- After `n` comparisons the counter has them, and is there until half a second before
the code expires. -/
def Covers (phone : String) (E n : ℕ) (s : Store Key) : Prop :=
  n = 0 ∨ (∃ v x, s.cell (.smsTry phone) = some ⟨.int v, some x⟩ ∧ n ≤ v ∧ E ≤ x + 499) ∨
    s.cell (.smsTry phone) = none ∧ E < s.now + 500

theorem Covers.congr {n : ℕ} (h : Covers phone E n s) (hnow : s.now ≤ t.now)
    (hcell : t.cell (.smsTry phone) = s.cell (.smsTry phone)) : Covers phone E n t := by
  unfold Covers
  rw [hcell]
  rcases h with h | h | ⟨h, hE⟩
  · exact Or.inl h
  · exact Or.inr (Or.inl h)
  · exact Or.inr (Or.inr ⟨h, by omega⟩)

/-- A verify that finds the counter in step reads at least the comparisons so far. -/
theorem Covers.le_count {n : ℕ} (h : Covers phone E n s)
    (hstep : E < s.now + 500 → n = 0 ∨ s.find (.smsTry phone) ≠ none) :
    n = 0 ∨ (n : ℤ) ≤ count s (.smsTry phone) := by
  rcases h with h | ⟨v, x, hcell, hn, hx⟩ | ⟨hcell, hE⟩
  · exact Or.inl h
  · have hread : s.now ≤ x → (n : ℤ) ≤ count s (.smsTry phone) := by
      intro hxs
      have hfind : s.find (.smsTry phone) = some ⟨.int v, some x⟩ :=
        Store.find_some.2 ⟨hcell, by simpa [Entry.alive] using hxs⟩
      rw [count_of_find hfind]
      exact hn
    by_cases hlast : E < s.now + 500
    · refine (hstep hlast).imp id fun hfind => hread ?_
      obtain ⟨e, he⟩ := Option.ne_none_iff_exists'.1 hfind
      obtain ⟨hc, ha⟩ := Store.find_some.1 he
      rw [hcell] at hc
      rw [← Option.some.inj hc] at ha
      simpa [Entry.alive] using ha
    · exact Or.inr (hread (by omega))
  · refine (hstep hE).imp id fun hfind => absurd ?_ hfind
    unfold Store.find
    rw [hcell]
    rfl

/-- A wrong guess is counted until half a second before the code expires, unless the code
is in its last half second. -/
theorem covers_expire {n : ℕ} {v : ℤ} {x : Option ℕ} (hn : n ≤ v) (hE : s.now ≤ E)
    (halive : Entry.alive s.now ⟨.int v, x⟩ = true) :
    Covers phone E n (expire (.smsTry phone) (((E - s.now + 500) / 1000 : ℕ) : ℤ)
      (s.put (.smsTry phone) (some ⟨.int v, x⟩))).2 := by
  have hfind : (s.put (.smsTry phone) (some ⟨.int v, x⟩)).find (.smsTry phone) = some ⟨.int v, x⟩ := by
    rw [Store.find_put_self, Option.filter_eq_some_iff]
    exact ⟨rfl, halive⟩
  unfold expire
  rw [hfind]
  simp only
  by_cases hq : (((E - s.now + 500) / 1000 : ℕ) : ℤ) ≤ 0
  · rw [if_pos hq]
    refine Or.inr (Or.inr ⟨Store.cell_put_self _ _ _, ?_⟩)
    show E < s.now + 500
    omega
  · rw [if_neg hq]
    refine Or.inr (Or.inl ⟨v, _, Store.cell_put_self _ _ _, hn, ?_⟩)
    show E ≤ s.now + (((E - s.now + 500) / 1000 : ℕ) : ℤ).toNat * 1000 + 499
    omega

/-- The attempt counter of the phone is not negative. -/
def Tries (phone : String) (s : Store Key) : Prop :=
  ∀ e, s.cell (.smsTry phone) = some e → ∃ v, e.val = .int v ∧ 0 ≤ v

theorem Tries.count_nonneg (h : Tries phone s) : 0 ≤ count s (.smsTry phone) := by
  cases hf : s.find (.smsTry phone) with
  | none => exact Int.le_of_eq (count_none hf).symm
  | some e =>
    obtain ⟨v, hv, hpos⟩ := h e (Store.find_some.1 hf).1
    obtain ⟨val, x⟩ := e
    subst hv
    rwa [count_of_find hf]

theorem Tries.congr (h : Tries phone s) (hcell : t.cell (.smsTry phone) = s.cell (.smsTry phone)) :
    Tries phone t := by
  intro e he
  rw [hcell] at he
  exact h e he

/-- Counting a wrong guess keeps the counter at least `0`. -/
theorem tries_expire {q v : ℤ} {x : Option ℕ} (hv : 0 ≤ v) :
    Tries phone (expire (.smsTry phone) q (s.put (.smsTry phone) (some ⟨.int v, x⟩))).2 := by
  have hput : ∀ x, Tries phone (s.put (.smsTry phone) (some ⟨.int v, x⟩)) := by
    intro x e he
    rw [Store.cell_put_self] at he
    exact ⟨v, by rw [← Option.some.inj he], hv⟩
  unfold expire
  rw [Store.find_put_self]
  by_cases halive : Entry.alive s.now ⟨.int v, x⟩ = true
  · simp only [Option.filter, halive, if_true]
    split
    · intro e he
      simp [Store.put] at he
    · intro e he
      simp only [Store.put, Function.update_self, Option.some.injEq] at he
      exact ⟨v, by rw [← he], hv⟩
  · simp only [Option.filter, halive]
    exact hput x

theorem step_tries (s : Store Key) (e : Ev) (t : Store Key) (hs : Counters s ∧ Tries phone s)
    (h : step cfg s e = some t) : Counters t ∧ Tries phone t := by
  refine ⟨step_counters s e t hs.1 h, ?_⟩
  obtain ⟨hc, htries⟩ := hs
  cases e with
  | sendCode p c day dailyTtl delivered =>
    have hf := sendCode_frame cfg s p c day dailyTtl delivered
    rw [Option.some.inj h] at hf
    exact htries.congr (hf.2 _ (by simp))
  | wait ms =>
    rw [← show s.wait ms = t from Option.some.inj h]
    exact htries
  | verifyCode p input =>
    by_cases hp : p = phone
    swap
    · have hf := verifyCode_frame cfg s p input
      rw [Option.some.inj h] at hf
      exact htries.congr (hf.2 _ (by simp [Ne.symm hp]))
    subst hp
    rw [← show (verifyCode cfg s p input).2 = t from Option.some.inj h]
    unfold verifyCode
    split
    · exact htries
    have hpos := htries.count_nonneg
    rcases verifyScript_cases cfg p input hc with ⟨-, heq⟩ | ⟨e, -, hcases⟩
    · rw [heq]
      exact htries
    rcases hcases with ⟨err, heq⟩ | ⟨-, heq⟩ | ⟨-, -, heq⟩ | ⟨-, -, q, x, -, -, heq⟩
    · rw [heq]
      exact htries
    · rw [heq]
      exact htries.congr (s.cell_put_of_ne none (by simp))
    · rw [heq]
      intro e he
      simp [Store.put] at he
    · rw [heq]
      exact tries_expire (by omega)

/-- **A verify of the phone** that finds the counter in step: a comparison is within the
limit, and it is counted. -/
theorem verify_covers {n : ℕ} {input : String} (hmax : 1 ≤ cfg.maxVerifyAttempts) (hs : Counters s ∧ Tries phone s)
    (hcode : s.find (.smsCode phone) = some ⟨.raw code, some E⟩) (hn : (n : ℤ) ≤ cfg.maxVerifyAttempts)
    (hcov : Covers phone E n s) (hstep : E < s.now + 500 → n = 0 ∨ s.find (.smsTry phone) ≠ none) :
    ((n + if compared cfg phone s (.verifyCode phone input) then 1 else 0 : ℕ) : ℤ) ≤ cfg.maxVerifyAttempts ∧
      ((verifyCode cfg s phone input).2.find (.smsCode phone) = some ⟨.raw code, some E⟩ →
        Covers phone E (n + if compared cfg phone s (.verifyCode phone input) then 1 else 0)
          (verifyCode cfg s phone input).2) := by
  have hE : s.now ≤ E := by simpa [Entry.alive] using (Store.find_some.1 hcode).2
  by_cases hphone : isValidPhone phone = true
  swap
  · -- the phone is refused, the script does not run
    have hv : verifyCode cfg s phone input = (.invalidPhone, s) := if_pos hphone
    have hnot : compared cfg phone s (.verifyCode phone input) = false := by simp [compared, hv]
    rw [hnot, hv]
    exact ⟨hn, fun _ => hcov⟩
  have hv : verifyCode cfg s phone input =
      (onVerify (verifyScript cfg phone input s).1, (verifyScript cfg phone input s).2) := if_neg (not_not.2 hphone)
  have hle := hcov.le_count hstep
  have hpos := hs.2.count_nonneg
  rcases verifyScript_cases cfg phone input hs.1 with ⟨hnone, -⟩ | ⟨e, he, hcases⟩
  · rw [hnone] at hcode
    cases hcode
  rcases hcases with ⟨err, heq⟩ | ⟨-, heq⟩ | ⟨hlt, -, heq⟩ | ⟨hlt, -, q, x, hq, halive, heq⟩
  · -- an error, before anything is compared
    have hnot : compared cfg phone s (.verifyCode phone input) = false := by simp [compared, hv, heq, onVerify]
    rw [hnot, hv, heq]
    exact ⟨hn, fun _ => hcov⟩
  · -- too many attempts: nothing is compared, the code is deleted
    have hnot : compared cfg phone s (.verifyCode phone input) = false := by simp [compared, hv, heq, onVerify]
    rw [hnot, hv, heq]
    exact ⟨hn, fun hthere => by simp at hthere⟩
  · -- the right code: it is deleted
    have hyes : compared cfg phone s (.verifyCode phone input) = true := by simp [compared, hv, heq, onVerify]
    rw [hyes, hv, heq]
    refine ⟨by simp only [if_true]; omega, fun hthere => ?_⟩
    rw [Store.find_put_of_ne _ _ (by simp)] at hthere
    simp at hthere
  · -- a wrong one: the counter gets the TTL of the code
    have hyes : compared cfg phone s (.verifyCode phone input) = true := by simp [compared, hv, heq, onVerify]
    rw [hyes, hv, heq]
    rw [ttl_of_find _ _ hcode] at hq
    rw [← Except.ok.inj hq]
    refine ⟨by simp only [if_true]; omega, fun _ => covers_expire ?_ hE halive⟩
    simp only [if_true]
    omega

/-- **One step.** A comparison is within the limit and is counted, as long as the counter is in step. -/
theorem step_covers {n : ℕ} {e : Ev} (hmax : 1 ≤ cfg.maxVerifyAttempts) (hs : Counters s ∧ Tries phone s)
    (hcode : s.find (.smsCode phone) = some ⟨.raw code, some E⟩) (hn : (n : ℤ) ≤ cfg.maxVerifyAttempts)
    (hcov : Covers phone E n s)
    (hstep : ∀ input, e = .verifyCode phone input → E < s.now + 500 → n = 0 ∨ s.find (.smsTry phone) ≠ none)
    (h : step cfg s e = some t) :
    ((n + if compared cfg phone s e then 1 else 0 : ℕ) : ℤ) ≤ cfg.maxVerifyAttempts ∧
      (t.find (.smsCode phone) = some ⟨.raw code, some E⟩ →
        Covers phone E (n + if compared cfg phone s e then 1 else 0) t) := by
  cases e with
  | sendCode p c day dailyTtl delivered =>
    have hf := sendCode_frame cfg s p c day dailyTtl delivered
    rw [Option.some.inj h] at hf
    exact ⟨hn, fun _ => hcov.congr (Nat.le_of_eq hf.1.symm) (hf.2 _ (by simp))⟩
  | wait ms =>
    have ht : s.wait ms = t := Option.some.inj h
    rw [← ht]
    exact ⟨hn, fun _ => hcov.congr (Nat.le_add_right _ _) rfl⟩
  | verifyCode p input =>
    by_cases hp : p = phone
    · subst hp
      rw [← show (verifyCode cfg s p input).2 = t from Option.some.inj h]
      exact verify_covers hmax hs hcode hn hcov (hstep input rfl)
    · -- another phone's keys are other keys
      have hf := verifyCode_frame cfg s p input
      rw [Option.some.inj h] at hf
      have hother : compared cfg phone s (.verifyCode p input) = false := by simp [compared, hp]
      rw [hother]
      exact ⟨hn, fun _ => hcov.congr (Nat.le_of_eq hf.1.symm) (hf.2 _ (by simp [Ne.symm hp]))⟩

/-- Without a verify of the phone nothing is compared. -/
theorem tally_compared_eq_zero {es : List Ev} (h : ∀ input, .verifyCode phone input ∉ es) :
    Machine.tally (step cfg) (compared cfg phone) t es = 0 := by
  induction es generalizing t with
  | nil => rfl
  | cons e es ih =>
    have hnot : compared cfg phone t e = false := by
      cases e with
      | verifyCode p input =>
        have hp : p ≠ phone := by
          intro hp
          exact h input (by rw [hp]; exact List.mem_cons_self)
        simp [compared, hp]
      | sendCode p c day dailyTtl delivered => rfl
      | wait ms => rfl
    have htail : ∀ input, .verifyCode phone input ∉ es := fun input hm => h input (List.mem_cons_of_mem _ hm)
    unfold Machine.tally
    rw [hnot]
    cases step cfg t e with
    | none => rfl
    | some u => simpa using ih htail

theorem InStep.init {es : List Ev} {e : Ev} (h : InStep cfg phone E t (es ++ [e])) : InStep cfg phone E t es :=
  fun pre input s hpre => h pre input s (hpre.trans (List.prefix_append _ _))

/-- **The attempt limit.** From any reachable state in which a code is stored, in
every run during which it stays: as long as the counter is in step, at most
`maxVerifyAttempts` verifies compare their input with it. -/
theorem verifyCode_limited (cfg : Config) (hmax : 1 ≤ cfg.maxVerifyAttempts) {now₀ : ℕ} {t u : Store Key}
    {phone code : String} {E : ℕ} {es : List Ev} (ht : Machine.Reachable (step cfg) (.empty now₀) t)
    (hthere : Machine.Meets (step cfg) (CodeThere phone code E) t es) (hstep : InStep cfg phone E t es)
    (hrun : Machine.run (step cfg) t es = some u) :
    (Machine.tally (step cfg) (compared cfg phone) t es : ℤ) ≤ cfg.maxVerifyAttempts := by
  have hct : Counters t ∧ Tries phone t := by
    refine Machine.reachable_inv (I := fun s => Counters s ∧ Tries phone s) step_tries ⟨Ints.empty now₀, ?_⟩ ht
    intro e he
    cases he
  have hinv : Machine.Meets (step cfg) (CodeThere phone code E) t es → InStep cfg phone E t es →
      (Machine.tally (step cfg) (compared cfg phone) t es : ℤ) ≤ cfg.maxVerifyAttempts ∧
        (u.find (.smsCode phone) = some ⟨.raw code, some E⟩ →
          Covers phone E (Machine.tally (step cfg) (compared cfg phone) t es) u) := by
    refine Machine.run_trace (I := fun es u => Machine.Meets (step cfg) (CodeThere phone code E) t es →
      InStep cfg phone E t es → (Machine.tally (step cfg) (compared cfg phone) t es : ℤ) ≤ cfg.maxVerifyAttempts ∧
        (u.find (.smsCode phone) = some ⟨.raw code, some E⟩ →
          Covers phone E (Machine.tally (step cfg) (compared cfg phone) t es) u)) ?_ ?_ hrun
    · intro _ _
      exact ⟨by simp; omega, fun _ => Or.inl rfl⟩
    · intro es s e v hs ih hev hthere hstep
      obtain ⟨hpre, hlast⟩ := Machine.meets_append hthere
      have hcode : s.find (.smsCode phone) = some ⟨.raw code, some E⟩ := (hlast s hs).1
      obtain ⟨hle, hcov⟩ := ih hpre hstep.init
      have hcs : Counters s ∧ Tries phone s :=
        Machine.run_inv (I := fun s => Counters s ∧ Tries phone s) step_tries hct hs
      rw [Machine.tally_snoc e hs]
      refine step_covers hmax hcs hcode hle (hcov hcode) (fun input he hE => ?_) hev
      subst he
      exact (hstep es input s (List.prefix_refl _) hs hE).imp tally_compared_eq_zero id
  exact (hinv hthere hstep).1

/-- A run is in step if all its steps in the last half second find the counter. -/
theorem inStep_of_meets {es : List Ev}
    (h : Machine.Meets (step cfg) (fun s _ => E < s.now + 500 → s.find (.smsTry phone) ≠ none) t es) :
    InStep cfg phone E t es := by
  rintro pre input s ⟨rest, rfl⟩ hs hE
  rw [List.append_assoc] at h
  exact Or.inr (((Machine.meets_append h).2 s hs).1 hE)

/-- Four guesses at a code, one of another phone, and a guess in the last half second. -/
def fiveGuesses : List Ev :=
  .wait 1000 :: List.replicate 4 (.verifyCode "13800000000" "000000") ++
    [.verifyCode "13900000000" "000000", .wait 298900, .verifyCode "13800000000" "000001"]

/-- The last guess finds the counter of the others: they are all compared, no more than
the limit. -/
theorem verifyCode_limited_five :
    ∃ t u, sendCode .default (.empty 0) "13800000000" "111111" "20240101" 3600 true = (.ok, t) ∧
      Machine.run (step .default) t fiveGuesses = some u ∧
      Machine.tally (step .default) (compared .default "13800000000") t fiveGuesses = 5 ∧
      (Machine.tally (step .default) (compared .default "13800000000") t fiveGuesses : ℤ) ≤
        Config.default.maxVerifyAttempts := by
  have hsend : (sendCode .default (.empty 0) "13800000000" "111111" "20240101" 3600 true).1 = .ok := by
    decide +kernel
  have hreach : Machine.Reachable (step .default) (.empty 0)
      (sendCode .default (.empty 0) "13800000000" "111111" "20240101" 3600 true).2 :=
    ⟨[.sendCode "13800000000" "111111" "20240101" 3600 true], rfl⟩
  have hthere : Machine.Meets (step .default) (CodeThere "13800000000" "111111" 300000)
      (sendCode .default (.empty 0) "13800000000" "111111" "20240101" 3600 true).2 fiveGuesses := by decide +kernel
  have hstep : InStep .default "13800000000" 300000
      (sendCode .default (.empty 0) "13800000000" "111111" "20240101" 3600 true).2 fiveGuesses :=
    inStep_of_meets (by decide +kernel)
  exact ⟨_, _, Prod.ext hsend rfl, rfl, by decide +kernel,
    verifyCode_limited .default (by decide) hreach hthere hstep rfl⟩

/-- Six guesses in the last half second of a code. -/
def lateGuesses : List Ev := .wait 299600 :: List.replicate 6 (.verifyCode "13800000000" "000000")

/-- With the default limits, six guesses in the last half second of a fresh code are
all compared with it: each one counts to `1` and deletes the counter again. -/
theorem verifyCode_unlimited :
    ∃ t u, sendCode .default (.empty 0) "13800000000" "111111" "20240101" 3600 true = (.ok, t) ∧
      Machine.Meets (step .default) (CodeThere "13800000000" "111111" 300000) t lateGuesses ∧
      Machine.run (step .default) t lateGuesses = some u ∧
      Config.default.maxVerifyAttempts <
        Machine.tally (step .default) (compared .default "13800000000") t lateGuesses := by
  have hsend : (sendCode .default (.empty 0) "13800000000" "111111" "20240101" 3600 true).1 = .ok := by
    decide +kernel
  exact ⟨_, _, Prod.ext hsend rfl, by decide +kernel, rfl, by decide +kernel⟩

end Seckill.SmsService
