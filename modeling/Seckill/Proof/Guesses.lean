import Mathlib.Algebra.Order.BigOperators.Group.Finset
import Seckill.Lib.Draws
import Seckill.Lib.Secret
import Seckill.Spec.Codes
import Seckill.Proof.Attempts

/-!
# Codes are hard to guess

`genNumericCode` draws again above `kLimit`, so every code of six digits comes from the
same number of draws: `genNumericCode_uniform`. The send script and the scripts of wrong
guesses do the same for all codes (`Alike`), so each guess excludes one code only, and
there are at most `maxVerifyAttempts`: whoever does not see the code he was sent gets
it verified for at most `maxVerifyAttempts` in a million draws (`genNumericCode_guessed`).
-/

namespace Seckill.SmsService

open Redis

/-! ## Six digits -/

theorem ofDigitChars_snoc (l : List Char) (c : Char) :
    Nat.ofDigitChars 10 (l ++ [c]) 0 = 10 * Nat.ofDigitChars 10 l 0 + (c.toNat - 48) := by
  rw [Nat.ofDigitChars_append, Nat.ofDigitChars_cons, Nat.ofDigitChars_nil]
  rfl

theorem isDigit_iff (c : Char) : c.isDigit = true ↔ 48 ≤ c.toNat ∧ c.toNat ≤ 57 := by
  unfold Char.isDigit
  simp only [ge_iff_le, Bool.and_eq_true, decide_eq_true_eq]
  exact Iff.rfl

/-- **As many digits with the same value are the same.** -/
theorem digits_eq {l l' : List Char} (hl : ∀ c ∈ l, c.isDigit = true) (hl' : ∀ c ∈ l', c.isDigit = true)
    (hlen : l.length = l'.length) (h : Nat.ofDigitChars 10 l 0 = Nat.ofDigitChars 10 l' 0) : l = l' := by
  induction l using List.reverseRecOn generalizing l' with
  | nil => exact (List.length_eq_zero_iff.1 hlen.symm).symm
  | append_singleton l c ih =>
    rcases List.eq_nil_or_concat l' with rfl | ⟨m, c', rfl⟩
    · simp at hlen
    rw [List.concat_eq_append] at *
    rw [ofDigitChars_snoc, ofDigitChars_snoc] at h
    have hc := (isDigit_iff c).1 (hl c (by simp))
    have hc' := (isDigit_iff c').1 (hl' c' (by simp))
    have hlm : l = m := ih (fun x hx => hl x (by simp [hx])) (fun x hx => hl' x (by simp [hx])) (by simpa using hlen)
      (by omega)
    have hcc : c = c' := Char.toNat_inj.1 (by omega)
    rw [hlm, hcc]

theorem ofDigitChars_lt (l : List Char) (hl : ∀ c ∈ l, c.isDigit = true) :
    Nat.ofDigitChars 10 l 0 < 10 ^ l.length := by
  induction l using List.reverseRecOn with
  | nil => simp
  | append_singleton l c ih =>
    have hc := (isDigit_iff c).1 (hl c (by simp))
    have hlt := ih fun x hx => hl x (by simp [hx])
    rw [ofDigitChars_snoc, List.length_append, List.length_singleton, Nat.pow_succ]
    omega

theorem percent06u_toList {n : ℕ} (h : n < 1000000) :
    (percent06u n).toList = (Nat.toDigits 10 n).leftpad 6 '0' := by
  have hlen : (Nat.toDigits 10 n).length ≤ 6 := (Nat.length_toDigits_le_iff (by decide) (by decide)).2 h
  unfold percent06u
  rw [String.toList_ofList, List.take_of_length_le]
  rw [List.length_leftpad]
  omega

theorem IsCode.digits {code : String} (h : IsCode code) : ∀ c ∈ code.toList, c.isDigit = true :=
  List.all_eq_true.1 h.2

/-- `%06u` of less than a million is a code. -/
theorem percent06u_isCode {n : ℕ} (h : n < 1000000) : IsCode (percent06u n) := by
  have hlen : (Nat.toDigits 10 n).length ≤ 6 := (Nat.length_toDigits_le_iff (by decide) (by decide)).2 h
  unfold IsCode
  rw [percent06u_toList h]
  refine ⟨by rw [List.length_leftpad]; omega, List.all_eq_true.2 fun c hc => ?_⟩
  rcases List.mem_append.1 hc with hc | hc
  · rw [List.eq_of_mem_replicate hc]
    rfl
  · exact Nat.isDigit_of_mem_toDigits (by decide) (by decide) hc

/-- Its value is the number. -/
theorem percent06u_value {n : ℕ} (h : n < 1000000) : Nat.ofDigitChars 10 (percent06u n).toList 0 = n := by
  rw [percent06u_toList h, List.leftpad, Nat.ofDigitChars_append, Nat.ofDigitChars_replicate_zero, Nat.mul_zero,
    Nat.ofDigitChars_toDigits (by decide) (by decide)]

/-- The code with a value. -/
theorem percent06u_eq_iff {n : ℕ} (h : n < 1000000) {code : String} (hcode : IsCode code) :
    percent06u n = code ↔ n = Nat.ofDigitChars 10 code.toList 0 := by
  constructor
  · rintro rfl
    exact (percent06u_value h).symm
  · intro hn
    have hp := percent06u_isCode h
    refine String.toList_inj.1 (digits_eq hp.digits hcode.digits (by rw [hp.1, hcode.1]) ?_)
    rw [percent06u_value h, hn]

/-! ## Uniform codes -/

instance fintypeUInt32 : Fintype UInt32 :=
  Fintype.ofEquiv (Fin (2 ^ 32)) ⟨UInt32.ofFin, UInt32.toFin, fun _ => rfl, fun _ => rfl⟩

theorem card_uint32 : Fintype.card UInt32 = 2 ^ 32 := by
  rw [Fintype.ofEquiv_card, Fintype.card_fin]

/-- What one word gives. -/
def accept (v : UInt32) : Option String := if v ≥ kLimit then none else some (percent06u (v % 1000000).toNat)

/-- Without a failure the first accepted word gives the code. -/
theorem genNumericCode_words (ws : List UInt32) : genNumericCode (ws.map some) = ws.findSome? accept := by
  induction ws with
  | nil => rfl
  | cons v ws ih =>
    rw [List.map_cons, genNumericCode, List.findSome?_cons, accept]
    split
    · exact ih
    · rfl

theorem accept_eq_some {v : UInt32} {code : String} :
    accept v = some code ↔ v.toNat < 4294000000 ∧ percent06u (v.toNat % 1000000) = code := by
  have hle : v ≥ kLimit ↔ 4294000000 ≤ v.toNat := UInt32.le_iff_toNat_le
  unfold accept
  split
  next h => simp [Nat.not_lt.2 (hle.1 h)]
  next h => simp [Nat.lt_of_not_le fun h' => h (hle.2 h')]

theorem accept_eq_none {v : UInt32} : accept v = none ↔ 4294000000 ≤ v.toNat := by
  have hle : v ≥ kLimit ↔ 4294000000 ≤ v.toNat := UInt32.le_iff_toNat_le
  unfold accept
  split
  next h => simp [hle.1 h]
  next h => simpa using fun h' => h (hle.2 h')

/-- The accepted words of a code are its value and `4293` multiples of a million more. -/
theorem fiber_accept {code : String} (hcode : IsCode code) : Draws.fiber accept code = 4294 := by
  set n := Nat.ofDigitChars 10 code.toList 0 with hn
  have hlt : n < 1000000 := by
    have h := ofDigitChars_lt code.toList hcode.digits
    rwa [hcode.1] at h
  have hiff : ∀ v : UInt32, accept v = some code ↔ v.toNat < 4294000000 ∧ v.toNat % 1000000 = n := fun v => by
    rw [accept_eq_some, percent06u_eq_iff (Nat.mod_lt _ (by decide)) hcode]
  have hsize : ∀ i : Fin 4294, i.val * 1000000 + n < 2 ^ 32 := fun i => by omega
  rw [Draws.fiber, ← Fintype.card_fin 4294]
  refine Fintype.card_congr ⟨fun v => ⟨v.val.toNat / 1000000, ?_⟩,
    fun i => ⟨UInt32.ofNatLT (i.val * 1000000 + n) (hsize i), ?_⟩, fun v => ?_, fun i => ?_⟩
  · have h := (hiff v.val).1 v.property
    omega
  · rw [hiff, UInt32.toNat_ofNatLT]
    omega
  · have h := (hiff v.val).1 v.property
    refine Subtype.ext (UInt32.toNat_inj.1 ?_)
    rw [UInt32.toNat_ofNatLT]
    show v.val.toNat / 1000000 * 1000000 + n = v.val.toNat
    omega
  · refine Fin.ext ?_
    simp only [UInt32.toNat_ofNatLT]
    omega

/-- The others are drawn again. -/
theorem rejected_accept : Draws.rejected accept = 967296 := by
  have hsize : ∀ i : Fin 967296, i.val + 4294000000 < 2 ^ 32 := fun i => by omega
  rw [Draws.rejected, ← Fintype.card_fin 967296]
  refine Fintype.card_congr ⟨fun v => ⟨v.val.toNat - 4294000000, ?_⟩,
    fun i => ⟨UInt32.ofNatLT (i.val + 4294000000) (hsize i), ?_⟩, fun v => ?_, fun i => ?_⟩
  · have h := accept_eq_none.1 v.property
    have hlt := v.val.toNat_lt
    omega
  · rw [accept_eq_none, UInt32.toNat_ofNatLT]
    omega
  · have h := accept_eq_none.1 v.property
    refine Subtype.ext (UInt32.toNat_inj.1 ?_)
    rw [UInt32.toNat_ofNatLT]
    show v.val.toNat - 4294000000 + 4294000000 = v.val.toNat
    omega
  · refine Fin.ext ?_
    simp only [UInt32.toNat_ofNatLT]
    omega

/-- Each code's share of the `k`-word draws. -/
theorem count_accept {code : String} (hcode : IsCode code) (k : ℕ) :
    1000000 * Draws.count accept k code + 967296 ^ k = 2 ^ (32 * k) := by
  have hall : 1000000 * Draws.fiber accept code + Draws.rejected accept = Fintype.card UInt32 := by
    rw [fiber_accept hcode, rejected_accept, card_uint32]
    rfl
  have h := Draws.count_share hall k
  rw [rejected_accept, card_uint32, ← Nat.pow_mul] at h
  exact h

/-- A result is a code, unless the CSPRNG failed. -/
theorem genNumericCode_isCode {draws : List (Option UInt32)} {code : String} (h : genNumericCode draws = some code) :
    IsCode code ∨ code = "" ∧ none ∈ draws := by
  induction draws with
  | nil => cases h
  | cons w draws ih =>
    cases w with
    | none =>
      right
      exact ⟨(Option.some.inj h).symm, List.mem_cons_self⟩
    | some v =>
      rw [genNumericCode] at h
      split at h
      · exact (ih h).imp id fun hno => ⟨hno.1, List.mem_cons_of_mem _ hno.2⟩
      · left
        have hv : (v % 1000000).toNat < 1000000 := by
          rw [UInt32.toNat_mod]
          exact Nat.mod_lt _ (by decide)
        rw [← Option.some.inj h]
        exact percent06u_isCode hv

/-- **Codes are uniform.** For every `k`, each of the million codes comes from the same
number of the `k`-word draws, one millionth of those in which a word is accepted; and what
comes is a code, or nothing after a failure. -/
theorem genNumericCode_uniform :
    (∀ (k : ℕ) (code : String), IsCode code →
      1000000 * Fintype.card {ws : Fin k → UInt32 // genNumericCode ((List.ofFn ws).map some) = some code} +
        967296 ^ k = 2 ^ (32 * k)) ∧
    ∀ (draws : List (Option UInt32)) (code : String), genNumericCode draws = some code →
      IsCode code ∨ code = "" ∧ none ∈ draws := by
  refine ⟨fun k code hcode => ?_, fun draws code => genNumericCode_isCode⟩
  simp only [genNumericCode_words]
  exact count_accept hcode k

/-- The code `000042`, and a failure at the second word. -/
theorem genNumericCode_uniform_small :
    (1000000 * Fintype.card {ws : Fin 3 → UInt32 // genNumericCode ((List.ofFn ws).map some) = some "000042"} +
        967296 ^ 3 = 2 ^ 96) ∧
      (IsCode "" ∨ "" = "" ∧ none ∈ [some (4294967295 : UInt32), none]) :=
  ⟨genNumericCode_uniform.1 3 "000042" (by decide),
    genNumericCode_uniform.2 [some 4294967295, none] "" (by decide)⟩

/-! ## Guesses -/

section Guesses

variable {cfg : Config} {s t : Store Key} {phone code code' day input : String} {dailyTtl : ℤ} {delivered : Bool}
  {E n : ℕ} {g : Guesser}

/-- What the send script says about the code is what its `SETEX` says. -/
theorem sendScript_alike_of {phone' : String}
    (h : Alike (Apart (Key.smsCode phone)) (setex (Key.smsCode phone') cfg.codeTtlSeconds (.raw code))
      (setex (Key.smsCode phone') cfg.codeTtlSeconds (.raw code'))) :
    Alike (Apart (.smsCode phone)) (sendScript cfg phone' day code dailyTtl)
      (sendScript cfg phone' day code' dailyTtl) := by
  unfold sendScript kSendScript
  refine alike_bind (alike_exists _) fun cd => alike_ite (alike_bind (alike_ttl _) fun _ => alike_pure _) ?_
  refine alike_bind (alike_get (by simp)) fun used => alike_bind (alike_tonumber _) fun n =>
    alike_ite (alike_pure _) ?_
  refine alike_bind h fun _ => alike_bind (alike_setex _ _ _) fun _ => ?_
  exact alike_bind (alike_incr (by simp)) fun n => alike_bind (alike_expireFirst (by simp) _ _) fun _ => alike_pure _

/-- **The send script says nothing about the code.** -/
theorem sendScript_alike :
    Alike (Apart (.smsCode phone)) (sendScript cfg phone day code dailyTtl)
      (sendScript cfg phone day code' dailyTtl) := sendScript_alike_of (alike_setex_self _ _ _)

/-- What the verify script does about a wrong guess. -/
def countWrong (phone : String) : Script Key (ℤ × ℤ) := do
  let t ← incr (.smsTry phone)
  let _ ← expire (.smsTry phone) (← ttl (.smsCode phone))
  return (-2, t)

/-- It says nothing about the code either. -/
theorem countWrong_alike : Alike (Apart (.smsCode phone)) (countWrong phone) (countWrong phone) :=
  alike_bind (alike_incr (by simp)) fun _ => alike_bind (alike_ttl _) fun _ =>
    alike_bind (alike_expire (by simp) _) fun _ => alike_pure _

/-- The phone has a code until `E`, and `n` guesses at it were counted. -/
structure Armed (cfg : Config) (phone code : String) (E n : ℕ) (s : Store Key) : Prop where
  valid : isValidPhone phone = true
  counters : Counters s ∧ Tries phone s
  cell : s.cell (.smsCode phone) = some ⟨.raw code, some E⟩
  le_max : (n : ℤ) ≤ cfg.maxVerifyAttempts
  covers : Covers phone E n s

/-- **The verdict on a guess**: too many; right; or wrong, and counted. -/
theorem Armed.verify (h : Armed cfg phone code E n s) (hnow : s.now ≤ E) (input : String) :
    (cfg.maxVerifyAttempts ≤ count s (.smsTry phone) ∧
        verifyCode cfg s phone input = (.tooManyAttempts, s.put (.smsCode phone) none)) ∨
      count s (.smsTry phone) < cfg.maxVerifyAttempts ∧
        ((code = input ∧ (verifyCode cfg s phone input).1 = .ok) ∨
          code ≠ input ∧ (verifyCode cfg s phone input).1 = .wrongCode ∧
            (verifyCode cfg s phone input).2 = (countWrong phone s).2) := by
  have hfind : s.find (.smsCode phone) = some ⟨.raw code, some E⟩ :=
    Store.find_some.2 ⟨h.cell, by simpa [Entry.alive] using hnow⟩
  have hv : verifyCode cfg s phone input =
      (onVerify (verifyScript cfg phone input s).1, (verifyScript cfg phone input s).2) :=
    if_neg (not_not.2 h.valid)
  rw [hv]
  unfold verifyScript kVerifyScript
  rw [get_bind_some _ _ _ hfind Val.noConfusion]
  simp only
  rw [h.counters.1.get_tonumber (k := Key.smsTry phone) trivial]
  by_cases hmax : cfg.maxVerifyAttempts ≤ count s (.smsTry phone)
  · rw [if_pos hmax]
    exact Or.inl ⟨hmax, rfl⟩
  right
  refine ⟨by omega, ?_⟩
  rw [if_neg hmax]
  by_cases hinput : code = input
  · rw [if_pos (show (Val.raw code).text = input from hinput)]
    exact Or.inl ⟨hinput, rfl⟩
  · rw [if_neg (show ¬(Val.raw code).text = input from hinput)]
    right
    refine ⟨hinput, ?_, rfl⟩
    obtain ⟨x, hx, -⟩ := h.counters.1.incr (k := Key.smsTry phone) trivial fun t => do
      let _ ← expire (.smsTry phone) (← ttl (.smsCode phone))
      return ((-2 : ℤ), t)
    obtain ⟨q, hq⟩ : ∃ q, (ttl (.smsCode phone) (s.put (.smsTry phone)
      (some ⟨.int (count s (.smsTry phone) + 1), x⟩))).1 = .ok q := ⟨_, rfl⟩
    rw [hx, ttl_bind _ _ _ hq, expire_bind]
    rfl

/-- A wrong guess writes the attempt counter. -/
theorem countWrong_does : (countWrong phone).Does (SameBut fun k => k = .smsTry phone) :=
  does_bind (does_incr (sameBut_counts rfl)) fun _ => does_bind does_ttl fun _ =>
    does_bind (does_expire (sameBut_counts rfl)) fun _ => does_pure _

theorem Armed.wait (h : Armed cfg phone code E n s) (ms : ℕ) : Armed cfg phone code E n (s.wait ms) :=
  ⟨h.valid, h.counters, h.cell, h.le_max, h.covers.congr (Nat.le_add_right _ _) rfl⟩

/-- **A wrong guess** before the last half second is counted. -/
theorem Armed.wrong (h : Armed cfg phone code E n s) (hmax : 1 ≤ cfg.maxVerifyAttempts) (hnow : s.now + 500 ≤ E)
    (hr : (verifyCode cfg s phone input).1 = .wrongCode)
    (hs : (verifyCode cfg s phone input).2 = (countWrong phone s).2) :
    Armed cfg phone code E (n + 1) (verifyCode cfg s phone input).2 := by
  have hsame : SameBut (fun k => k = .smsTry phone) s (verifyCode cfg s phone input).2 := by
    rw [hs]
    exact countWrong_does s
  have hcell : (verifyCode cfg s phone input).2.cell (.smsCode phone) = some ⟨.raw code, some E⟩ := by
    rw [hsame.2 _ (by simp), h.cell]
  have halive : ∀ u : Store Key, u.now = s.now → u.cell (.smsCode phone) = some ⟨.raw code, some E⟩ →
      u.find (.smsCode phone) = some ⟨.raw code, some E⟩ := fun u hu hc =>
    Store.find_some.2 ⟨hc, by simp only [Entry.alive, decide_eq_true_eq]; omega⟩
  have hcompared : compared cfg phone s (.verifyCode phone input) = true := by simp [compared, hr]
  have hboth := @verify_covers cfg s phone code E n input hmax h.counters (halive s rfl h.cell) h.le_max h.covers
    fun hlast => by omega
  rw [hcompared, if_pos rfl] at hboth
  obtain ⟨hle, hcov⟩ := hboth
  exact ⟨h.valid, step_tries s (.verifyCode phone input) _ h.counters rfl, hcell, hle, hcov (halive _ hsame.1 hcell)⟩

/-- Without a code there is nothing to guess. -/
theorem guess_gone (h : s.cell (.smsCode phone) = none) (until_ : ℕ) (g : Guesser) (answers : List VerifyResult) :
    guess cfg phone until_ g n s answers = false := by
  induction n generalizing s answers with
  | zero => rfl
  | succ n ih =>
    have hverify : ∀ (u : Store Key) (input : String), u.cell (.smsCode phone) = none →
        (verifyCode cfg u phone input).1 ≠ .ok ∧ (verifyCode cfg u phone input).2 = u := by
      intro u input hu
      have hfind : u.find (.smsCode phone) = none := by
        unfold Store.find
        rw [hu]
        rfl
      unfold verifyCode verifyScript kVerifyScript
      split
      · exact ⟨by simp, rfl⟩
      · rw [get_bind_none _ _ _ hfind]
        exact ⟨by simp [onVerify], rfl⟩
    unfold guess
    rcases g answers with ⟨ms, input⟩
    simp only
    split
    · rfl
    obtain ⟨hno, hsame⟩ := hverify (s.wait ms) input h
    rw [hsame, ih (s := s.wait ms) h]
    simp [hno]

theorem guess_succ (until_ : ℕ) (g : Guesser) (answers : List VerifyResult) :
    guess cfg phone until_ g (n + 1) s answers =
      if until_ < (s.wait (g answers).1).now + 500 then false
      else
        decide ((verifyCode cfg (s.wait (g answers).1) phone (g answers).2).1 = .ok) ||
          guess cfg phone until_ g n (verifyCode cfg (s.wait (g answers).1) phone (g answers).2).2
            (answers ++ [(verifyCode cfg (s.wait (g answers).1) phone (g answers).2).1]) := rfl

/-- The codes the phone may have, each with its store; nothing the guesser sees tells them
apart. -/
structure Suspects (cfg : Config) (phone : String) (E n : ℕ) (codes : Finset String) (F : String → Store Key) : Prop where
  armed : ∀ c ∈ codes, Armed cfg phone c E n (F c)
  apart : ∀ c ∈ codes, ∀ c' ∈ codes, Apart (.smsCode phone) (F c) (F c')

section Suspects

variable {codes : Finset String} {F : String → Store Key} {c₀ : String}

theorem Suspects.wait (h : Suspects cfg phone E n codes F) (ms : ℕ) :
    Suspects cfg phone E n codes fun c => (F c).wait ms :=
  ⟨fun c hc => (h.armed c hc).wait ms, fun c hc c' hc' => (h.apart c hc c' hc').wait ms⟩

/-- Too many guesses: every code is deleted. -/
theorem Suspects.used_up (h : Suspects cfg phone E n codes F) (hc₀ : c₀ ∈ codes) (hnow : (F c₀).now ≤ E)
    (hlimit : cfg.maxVerifyAttempts ≤ count (F c₀) (.smsTry phone)) (input : String) :
    ∀ c ∈ codes, verifyCode cfg (F c) phone input = (.tooManyAttempts, (F c).put (.smsCode phone) none) := by
  intro c hc
  have hap := h.apart c₀ hc₀ c hc
  rcases (h.armed c hc).verify (by rw [hap.now]; exact hnow) input with ⟨-, heq⟩ | ⟨hlt, -⟩
  · exact heq
  · rw [hap.count (by simp)] at hlt
    omega

/-- **A guess** within the limit is wrong for all codes but one, and tells nothing about them. -/
theorem Suspects.guess (h : Suspects cfg phone E n codes F) (hmax : 1 ≤ cfg.maxVerifyAttempts) (hc₀ : c₀ ∈ codes)
    (hnow : (F c₀).now + 500 ≤ E) (hlimit : count (F c₀) (.smsTry phone) < cfg.maxVerifyAttempts) (input : String) :
    (∀ c ∈ codes.erase input, (verifyCode cfg (F c) phone input).1 = .wrongCode) ∧
      Suspects cfg phone E (n + 1) (codes.erase input) fun c => (verifyCode cfg (F c) phone input).2 := by
  have hwrong : ∀ c ∈ codes.erase input, (verifyCode cfg (F c) phone input).1 = .wrongCode ∧
      (verifyCode cfg (F c) phone input).2 = (countWrong phone (F c)).2 := by
    intro c hc
    obtain ⟨hne, hc⟩ := Finset.mem_erase.1 hc
    have hap := h.apart c₀ hc₀ c hc
    rcases (h.armed c hc).verify (by rw [hap.now]; omega) input with ⟨hle, -⟩ | ⟨-, ⟨heq, -⟩ | ⟨-, h⟩⟩
    · rw [hap.count (by simp)] at hle
      omega
    · exact absurd heq hne
    · exact h
  refine ⟨fun c hc => (hwrong c hc).1, fun c hc => ?_, fun c hc c' hc' => ?_⟩
  · have hc' := Finset.mem_of_mem_erase hc
    exact (h.armed c hc').wrong hmax (by rw [(h.apart c₀ hc₀ c hc').now]; exact hnow) (hwrong c hc).1 (hwrong c hc).2
  · rw [(hwrong c hc).2, (hwrong c' hc').2]
    exact (countWrong_alike _ _ (h.apart c (Finset.mem_of_mem_erase hc) c' (Finset.mem_of_mem_erase hc'))).2

/-- The attempts that are left, for one more guess. -/
theorem Armed.lt_max (h : Armed cfg phone code E n s) (hmax : 1 ≤ cfg.maxVerifyAttempts) (hnow : s.now + 500 ≤ E)
    (hlimit : count s (.smsTry phone) < cfg.maxVerifyAttempts) : (n : ℤ) < cfg.maxVerifyAttempts := by
  rcases h.covers.le_count fun hlast => by omega with hn | hn <;> omega

theorem card_none_le {p : String → Bool} (hp : ∀ c ∈ codes, p c = false) (hn : (n : ℤ) ≤ cfg.maxVerifyAttempts) :
    ((codes.filter fun c => p c).card : ℤ) ≤ cfg.maxVerifyAttempts - n := by
  rw [Finset.filter_false_of_mem fun c hc => by rw [hp c hc]; exact Bool.false_ne_true]
  simpa using hn

/-- **Each guess excludes one code.** Of the codes under suspicion, at most those the
attempts are left for are guessed. -/
theorem card_guess_le (hmax : 1 ≤ cfg.maxVerifyAttempts) (m : ℕ) (answers : List VerifyResult)
    (hn : (n : ℤ) ≤ cfg.maxVerifyAttempts) (h : Suspects cfg phone E n codes F) :
    ((codes.filter fun c => SmsService.guess cfg phone E g m (F c) answers).card : ℤ) ≤
      cfg.maxVerifyAttempts - n := by
  induction m generalizing codes F answers n with
  | zero => exact card_none_le (fun _ _ => rfl) hn
  | succ m ih =>
    rcases codes.eq_empty_or_nonempty with rfl | ⟨c₀, hc₀⟩
    · simpa using hn
    rcases hg : g answers with ⟨ms, input⟩
    replace h := h.wait ms
    have hnow : ∀ c ∈ codes, ((F c).wait ms).now = ((F c₀).wait ms).now := fun c hc => (h.apart c₀ hc₀ c hc).now
    by_cases hend : E < ((F c₀).wait ms).now + 500
    · -- it is too late
      exact card_none_le (fun c hc => by rw [guess_succ, hg, if_pos (by rw [hnow c hc]; exact hend)]) hn
    have hgo : ∀ c ∈ codes, SmsService.guess cfg phone E g (m + 1) (F c) answers =
        (decide ((verifyCode cfg ((F c).wait ms) phone input).1 = .ok) ||
          SmsService.guess cfg phone E g m (verifyCode cfg ((F c).wait ms) phone input).2
            (answers ++ [(verifyCode cfg ((F c).wait ms) phone input).1])) := fun c hc => by
      rw [guess_succ, hg, if_neg (by rw [hnow c hc]; exact hend)]
    by_cases hlimit : count ((F c₀).wait ms) (.smsTry phone) < cfg.maxVerifyAttempts
    swap
    · have hused := h.used_up hc₀ (by omega) (Int.not_lt.1 hlimit) input
      refine card_none_le (fun c hc => ?_) hn
      rw [hgo c hc, hused c hc, guess_gone (Store.cell_put_self _ _ _)]
      rfl
    -- one more guess is counted, and only `input` is not wrong
    obtain ⟨hwrong, hrest⟩ := h.guess hmax hc₀ (by omega) hlimit input
    have hmore := (h.armed c₀ hc₀).lt_max hmax (by omega) hlimit
    have hle := ih (answers ++ [.wrongCode]) (by omega) hrest
    have hsub : (codes.filter fun c => SmsService.guess cfg phone E g (m + 1) (F c) answers) ⊆
        insert input ((codes.erase input).filter fun c => SmsService.guess cfg phone E g m
          (verifyCode cfg ((F c).wait ms) phone input).2 (answers ++ [.wrongCode])) := by
      intro c hc
      obtain ⟨hc, hyes⟩ := Finset.mem_filter.1 hc
      by_cases heq : c = input
      · rw [heq]
        exact Finset.mem_insert_self _ _
      have hc' := Finset.mem_erase.2 ⟨heq, hc⟩
      refine Finset.mem_insert_of_mem (Finset.mem_filter.2 ⟨hc', ?_⟩)
      rw [hgo c hc, hwrong c hc'] at hyes
      simpa using hyes
    have hcard := (Finset.card_le_card hsub).trans (Finset.card_insert_le _ _)
    omega

end Suspects

/-- A code that was sent can be guessed at. -/
theorem armed_send (h₁ : 1 ≤ cfg.codeTtlSeconds) (h₂ : 1 ≤ cfg.resendIntervalSeconds) (hmax : 1 ≤ cfg.maxVerifyAttempts)
    (hs : Counters s ∧ Tries phone s) (h : (sendCode cfg s phone code day dailyTtl delivered).1 = .ok) :
    Armed cfg phone code (s.now + cfg.codeTtlSeconds.toNat * 1000) 0
      (sendCode cfg s phone code day dailyTtl delivered).2 := by
  obtain ⟨hvalid, -, hcell, -⟩ := sendCode_ok h₁ h₂ hs.1 (Prod.ext h rfl)
  exact ⟨hvalid, step_tries s (.sendCode phone code day dailyTtl delivered) _ hs rfl, hcell, by omega, Or.inl rfl⟩

/-- Sends of two codes leave stores that differ in the code only. -/
theorem apart_send (hcode : code ≠ "") (hcode' : code' ≠ "") :
    Apart (.smsCode phone) (sendCode cfg s phone code day dailyTtl delivered).2
      (sendCode cfg s phone code' day dailyTtl delivered).2 := by
  by_cases hphone : isValidPhone phone = true
  swap
  · unfold sendCode
    rw [if_pos hphone, if_pos hphone]
    exact .refl _ s
  · have hsend : ∀ c, c ≠ "" → (sendCode cfg s phone c day dailyTtl delivered).2 =
        (sendScript cfg phone day c dailyTtl s).2 := by
      intro c hc
      unfold sendCode
      rw [if_neg (not_not.2 hphone), if_neg hc]
    rw [hsend code hcode, hsend code' hcode']
    exact (sendScript_alike s s (.refl _ s)).2

/-- **Of all codes `maxVerifyAttempts` are guessed at most.** -/
theorem card_guessed_le (h₁ : 1 ≤ cfg.codeTtlSeconds) (h₂ : 1 ≤ cfg.resendIntervalSeconds)
    (hmax : 1 ≤ cfg.maxVerifyAttempts) (hs : Counters s ∧ Tries phone s) (codes : Finset String)
    (hcodes : ∀ c ∈ codes, c ≠ "") :
    ((codes.filter fun c => guessed cfg s phone day dailyTtl delivered g n c).card : ℤ) ≤ cfg.maxVerifyAttempts := by
  have hfilter : (codes.filter fun c => guessed cfg s phone day dailyTtl delivered g n c) =
      (codes.filter fun c => (sendCode cfg s phone c day dailyTtl delivered).1 = .ok).filter fun c =>
        guess cfg phone (s.now + cfg.codeTtlSeconds.toNat * 1000) g n
          (sendCode cfg s phone c day dailyTtl delivered).2 [] := by
    rw [Finset.filter_filter]
    refine Finset.filter_congr fun c _ => ?_
    unfold guessed
    rw [Bool.and_eq_true, decide_eq_true_eq]
  have hsuspects : Suspects cfg phone (s.now + cfg.codeTtlSeconds.toNat * 1000) 0
      (codes.filter fun c => (sendCode cfg s phone c day dailyTtl delivered).1 = .ok)
      fun c => (sendCode cfg s phone c day dailyTtl delivered).2 :=
    ⟨fun c hc => armed_send h₁ h₂ hmax hs (Finset.mem_filter.1 hc).2,
      fun c hc c' hc' => apart_send (hcodes c (Finset.mem_filter.1 hc).1) (hcodes c' (Finset.mem_filter.1 hc').1)⟩
  rw [hfilter]
  exact (card_guess_le hmax n [] (by omega) hsuspects).trans (by omega)

end Guesses

/-- **Codes are hard to guess.** In every reachable state: if the code of a send is drawn by
`genNumericCode`, then for at most `maxVerifyAttempts` in a million of the `k`-word draws a
guesser who does not see it, however he chooses his guesses and their times from the answers
he gets, has it verified before its last half second. -/
theorem genNumericCode_guessed (cfg : Config) (h₁ : 1 ≤ cfg.codeTtlSeconds) (h₂ : 1 ≤ cfg.resendIntervalSeconds)
    (hmax : 1 ≤ cfg.maxVerifyAttempts) {now₀ : ℕ} {s : Store Key} (hs : Machine.Reachable (step cfg) (.empty now₀) s)
    (phone day : String) (dailyTtl : ℤ) (delivered : Bool) (g : Guesser) (n k : ℕ) :
    1000000 * (Fintype.card {ws : Fin k → UInt32 //
      (genNumericCode ((List.ofFn ws).map some)).any
        (guessed cfg s phone day dailyTtl delivered g n) = true} : ℤ) ≤ cfg.maxVerifyAttempts * 2 ^ (32 * k) := by
  have hct : Counters s ∧ Tries phone s := by
    refine Machine.reachable_inv (I := fun s => Counters s ∧ Tries phone s) step_tries ⟨Ints.empty now₀, ?_⟩ hs
    intro e he
    cases he
  set codes := (Finset.range 1000000).image percent06u with hcodes
  have hcode : ∀ c ∈ codes, IsCode c := by
    intro c hc
    obtain ⟨i, hi, rfl⟩ := Finset.mem_image.1 hc
    exact percent06u_isCode (Finset.mem_range.1 hi)
  set hits := codes.filter fun c => guessed cfg s phone day dailyTtl delivered g n c with hhits
  have hfew : (hits.card : ℤ) ≤ cfg.maxVerifyAttempts := by
    refine card_guessed_le h₁ h₂ hmax hct codes fun c hc => ?_
    rintro rfl
    exact absurd (hcode "" hc) (by decide)
  have hdraws := Draws.card_result_le accept k (guessed cfg s phone day dailyTtl delivered g n) hits
    fun v c hv hc => by
      obtain ⟨-, hv⟩ := accept_eq_some.1 hv
      refine Finset.mem_filter.2 ⟨Finset.mem_image.2 ⟨v.toNat % 1000000, ?_, hv⟩, hc⟩
      exact Finset.mem_range.2 (Nat.mod_lt _ (by decide))
  have hshare : ∀ c ∈ hits, 1000000 * Draws.count accept k c ≤ 2 ^ (32 * k) := fun c hc =>
    Nat.le.intro (count_accept (hcode c (Finset.mem_filter.1 hc).1) k)
  have hsum : 1000000 * ∑ c ∈ hits, Draws.count accept k c ≤ hits.card * 2 ^ (32 * k) := by
    rw [Finset.mul_sum]
    simpa using Finset.sum_le_card_nsmul _ _ _ hshare
  simp only [genNumericCode_words]
  calc 1000000 * (Fintype.card {ws : Fin k → UInt32 // ((List.ofFn ws).findSome? accept).any
        (guessed cfg s phone day dailyTtl delivered g n) = true} : ℤ)
      ≤ ((1000000 * ∑ c ∈ hits, Draws.count accept k c : ℕ) : ℤ) := by
        push_cast
        exact Int.mul_le_mul_of_nonneg_left (by exact_mod_cast hdraws) (by decide)
    _ ≤ ((hits.card * 2 ^ (32 * k) : ℕ) : ℤ) := by exact_mod_cast hsum
    _ = (hits.card : ℤ) * 2 ^ (32 * k) := by push_cast; rfl
    _ ≤ cfg.maxVerifyAttempts * 2 ^ (32 * k) := Int.mul_le_mul_of_nonneg_right hfew (Int.pow_nonneg (by decide))

/-- Ten guesses, one a second, with the default limits. -/
theorem genNumericCode_guessed_default :
    1000000 * (Fintype.card {ws : Fin 2 → UInt32 //
      (genNumericCode ((List.ofFn ws).map some)).any
        (guessed .default (.empty 0) "13800000000" "20240101" 3600 true
          (fun answers => (1000, percent06u answers.length)) 10) = true} : ℤ) ≤ 5 * 2 ^ 64 :=
  genNumericCode_guessed .default (by decide) (by decide) (by decide) ⟨[], rfl⟩ "13800000000" "20240101" 3600 true
    (fun answers => (1000, percent06u answers.length)) 10 2

end Seckill.SmsService
