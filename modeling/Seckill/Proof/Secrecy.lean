import Seckill.Lib.Sync
import Seckill.Spec.Http
import Seckill.Proof.Guesses

/-!
# No answer gives a code away

The response to a send never shows the code (`controllers/SmsController.cc` says so of the
success; here it is every response, and everything later): two runs of the SMS service that
differ in the codes sent to a phone are the same to its clients, as long as nobody types a
code in (`codes_secret`). The two stores stay `Twins`: they differ at most in the phone's
code, and that is a string in both.
-/

namespace Seckill.SmsService

open Redis

/-- What a client sees of a call: the response to a send, or the verdict of a verify. -/
inductive Seen
  | response (r : Response)
  | verdict (r : VerifyResult)

/-- What the client of a call sees. -/
def seen (cfg : Config) (s : Store Key) : Ev → Option Seen
  | .sendCode phone code day dailyTtl delivered => some (.response (SmsController.sendCode
      (sendCode cfg s phone code day dailyTtl delivered).1 (sendDetail cfg s phone code day dailyTtl delivered)))
  | .verifyCode phone input => some (.verdict (verifyCode cfg s phone input).1)
  | .wait _ => none

/-- The same event, or sends of two codes to the phone. -/
inductive Recoded (phone : String) : Ev → Ev → Prop
  | same (e : Ev) : Recoded phone e e
  | codes {code code' : String} (hcode : code ≠ "") (hcode' : code' ≠ "") (day : String) (dailyTtl : ℤ)
    (delivered : Bool) : Recoded phone (.sendCode phone code day dailyTtl delivered)
      (.sendCode phone code' day dailyTtl delivered)

/-- Not the phone's code, whatever it is. -/
def Misses (phone : String) (s : Store Key) : Ev → Prop
  | .verifyCode phone' input => phone' = phone → (s.find (.smsCode phone)).map (·.val.text) ≠ some input
  | _ => True

instance missesDecidable (phone : String) (s : Store Key) : ∀ e, Decidable (Misses phone s e)
  | .sendCode _ _ _ _ _ => isTrue trivial
  | .verifyCode phone' input =>
    inferInstanceAs (Decidable (phone' = phone → (s.find (.smsCode phone)).map (·.val.text) ≠ some input))
  | .wait _ => isTrue trivial

variable {cfg : Config} {s t : Store Key} {phone phone' code code' day input : String} {dailyTtl : ℤ}
  {delivered : Bool}

/-- The phone's code is a string, if it has one. -/
def CodeRaw (phone : String) (s : Store Key) : Prop := ∀ e, s.cell (.smsCode phone) = some e → ∃ v, e.val = .raw v

theorem CodeRaw.put (h : CodeRaw phone s) {k : Key} {e : Option Entry}
    (hk : k = .smsCode phone → ∀ e', e = some e' → ∃ v, e'.val = .raw v) : CodeRaw phone (s.put k e) := by
  intro e' he'
  by_cases hkk : k = .smsCode phone
  · rw [hkk, Store.cell_put_self] at he'
    exact hk hkk e' he'
  · rw [Store.cell_put_of_ne _ _ (Ne.symm hkk)] at he'
    exact h e' he'

/-- Other keys do not matter. -/
theorem codeRaw_counts {k : Key} (hk : k ≠ .smsCode phone) : Counts (Kept (CodeRaw phone)) k :=
  ⟨fun _ _ _ h => h.put fun heq => absurd heq hk, fun _ _ _ _ h => h.put fun heq => absurd heq hk,
    fun _ h => h.put fun heq => absurd heq hk⟩

theorem sendScript_codeRaw : (sendScript cfg phone' day code dailyTtl).Does (Kept (CodeRaw phone)) := by
  unfold sendScript kSendScript
  refine does_bind does_exists fun cd => ?_
  split
  · exact does_bind does_ttl fun _ => does_pure _
  · refine does_bind does_get fun used => does_bind (does_tonumber _) fun n => ?_
    split
    · exact does_pure _
    · refine does_bind (does_setex fun s x h => h.put fun _ e' he' => ⟨code, ?_⟩) fun _ => ?_
      · rw [← Option.some.inj he']
      refine does_bind (does_setex fun s _ h => h.put fun heq => Key.noConfusion heq) fun _ => ?_
      have hday : Counts (Kept (CodeRaw phone)) (.smsDay phone' day) := codeRaw_counts Key.noConfusion
      exact does_bind (does_incr hday) fun n => does_bind (does_expireFirst hday) fun _ => does_pure _

/-- **Every call keeps it a string.** -/
theorem step_codeRaw (s : Store Key) (e : Ev) (t : Store Key) (hs : CodeRaw phone s) (h : step cfg s e = some t) :
    CodeRaw phone t := by
  cases e with
  | sendCode phone' code day dailyTtl delivered =>
    rw [← Option.some.inj h]
    unfold sendCode
    split
    · exact hs
    · split
      · exact hs
      · exact sendScript_codeRaw s hs
  | verifyCode phone' input =>
    rw [← Option.some.inj h]
    refine verifyCode_does (R := Kept (CodeRaw phone)) (fun u h => h.put fun _ e' he' => ?_)
      (codeRaw_counts Key.noConfusion) s hs
    cases he'
  | wait ms =>
    rw [← Option.some.inj h]
    exact hs

/-! ## Twin stores -/

/-- The stores differ at most in the phone's code. -/
structure Twins (phone : String) (s t : Store Key) : Prop where
  apart : Apart (.smsCode phone) s t
  left : CodeRaw phone s
  right : CodeRaw phone t

/-- The send script of any phone does the same in both. -/
theorem sendScript_alike_any :
    Alike (Apart (.smsCode phone)) (sendScript cfg phone' day code dailyTtl)
      (sendScript cfg phone' day code dailyTtl) := sendScript_alike_of (alike_setex _ _ _)

/-- So does the verify script of another phone. -/
theorem verifyScript_alike_other (hphone : phone' ≠ phone) :
    Alike (Apart (.smsCode phone)) (verifyScript cfg phone' input) (verifyScript cfg phone' input) := by
  have hne : Key.smsCode phone' ≠ .smsCode phone := fun h => hphone (Key.smsCode.inj h)
  unfold verifyScript kVerifyScript
  refine alike_bind (alike_get hne) fun stored => ?_
  cases stored with
  | none => exact alike_pure _
  | some stored =>
    refine alike_bind (alike_get (by simp)) fun tries => alike_bind (alike_tonumber _) fun n => ?_
    refine alike_ite (alike_bind (alike_del _) fun _ => alike_pure _) (alike_ite ?_ ?_)
    · exact alike_bind (alike_del _) fun _ => alike_bind (alike_del _) fun _ => alike_pure _
    · exact alike_bind (alike_incr (by simp)) fun n => alike_bind (alike_ttl _) fun _ =>
        alike_bind (alike_expire (by simp) _) fun _ => alike_pure _

/-- What the verify script does about an input that is not the code there is. -/
def missed (cfg : Config) (phone : String) : Script Key (ℤ × ℤ) := do
  let tries ← tonumber ((← get (.smsTry phone)).getD (.int 0))
  if tries ≥ cfg.maxVerifyAttempts then
    let _ ← del (.smsCode phone)
    return (-3, 0)
  else countWrong phone

theorem missed_alike : Alike (Apart (.smsCode phone)) (missed cfg phone) (missed cfg phone) := by
  unfold missed
  refine alike_bind (alike_get (by simp)) fun tries => alike_bind (alike_tonumber _) fun n => ?_
  exact alike_ite (alike_bind (alike_del _) fun _ => alike_pure _) countWrong_alike

theorem verifyScript_missed {v : String} {x : Option ℕ} (hfind : s.find (.smsCode phone) = some ⟨.raw v, x⟩)
    (hv : (Val.raw v).text ≠ input) : verifyScript cfg phone input s = missed cfg phone s := by
  unfold verifyScript kVerifyScript missed countWrong
  rw [get_bind_some _ _ _ hfind Val.noConfusion]
  simp only [if_neg hv]

/-- **A wrong input gets the same verdict** in both. -/
theorem Twins.misses (h : Twins phone s t) (hs : (s.find (.smsCode phone)).map (·.val.text) ≠ some input)
    (ht : (t.find (.smsCode phone)).map (·.val.text) ≠ some input) :
    (verifyScript cfg phone input t).1 = (verifyScript cfg phone input s).1 ∧
      Apart (.smsCode phone) (verifyScript cfg phone input s).2
        (verifyScript cfg phone input t).2 := by
  have hsome := h.apart.find_isSome (.smsCode phone)
  cases hfs : s.find (.smsCode phone) with
  | none =>
    rw [hfs] at hsome
    have hft : t.find (.smsCode phone) = none := by simpa using hsome
    unfold verifyScript kVerifyScript
    rw [get_bind_none _ _ _ hfs, get_bind_none _ _ _ hft]
    exact ⟨rfl, h.apart⟩
  | some e =>
    rw [hfs] at hsome hs
    obtain ⟨e', hft⟩ := Option.isSome_iff_exists.1 hsome
    rw [hft] at ht
    obtain ⟨v, x⟩ := e
    obtain ⟨v', x'⟩ := e'
    obtain ⟨w, hw⟩ := h.left _ (Store.find_some.1 hfs).1
    obtain ⟨w', hw'⟩ := h.right _ (Store.find_some.1 hft).1
    simp only at hw hw'
    subst hw hw'
    rw [verifyScript_missed hfs (by simpa using hs), verifyScript_missed hft (by simpa using ht)]
    exact missed_alike s t h.apart

/-- Sends whose scripts do the same are seen the same. -/
theorem sendCode_alike (cfg : Config) (h : Apart (.smsCode phone) s t) (phone' day : String) (dailyTtl : ℤ)
    (delivered : Bool) (hempty : code = "" ↔ code' = "")
    (halike : Alike (Apart (.smsCode phone)) (sendScript cfg phone' day code dailyTtl)
      (sendScript cfg phone' day code' dailyTtl)) :
    seen cfg s (.sendCode phone' code day dailyTtl delivered) =
        seen cfg t (.sendCode phone' code' day dailyTtl delivered) ∧
      Apart (.smsCode phone) (sendCode cfg s phone' code day dailyTtl delivered).2
        (sendCode cfg t phone' code' day dailyTtl delivered).2 := by
  obtain ⟨hreply, hstores⟩ := halike s t h
  unfold seen sendCode sendDetail
  by_cases hphone : isValidPhone phone' = true
  · by_cases hcode : code = ""
    · simp [hphone, hcode, hempty.1 hcode, h]
    · have hcode' : code' ≠ "" := fun hc => hcode (hempty.2 hc)
      simp only [hphone, hcode, hcode', not_true, if_false, hreply, hstores, and_self]
  · simp [hphone, h]

/-- **One call.** Its client sees the same, and the stores stay twins. -/
theorem Twins.call {e e' : Ev} (h : Twins phone s t) (he : Recoded phone e e') (hs : Misses phone s e)
    (ht : Misses phone t e') :
    seen cfg s e = seen cfg t e' ∧ Option.Rel (Twins phone) (step cfg s e) (step cfg t e') := by
  -- the two runs keep their codes strings; it remains that the stores differ in the code only
  suffices hboth : seen cfg s e = seen cfg t e' ∧ ∀ s' t', step cfg s e = some s' →
      step cfg t e' = some t' → Apart (.smsCode phone) s' t' by
    refine ⟨hboth.1, ?_⟩
    obtain ⟨s', hs'⟩ : ∃ s', step cfg s e = some s' := by cases e <;> exact ⟨_, rfl⟩
    obtain ⟨t', ht'⟩ : ∃ t', step cfg t e' = some t' := by cases e' <;> exact ⟨_, rfl⟩
    rw [hs', ht']
    exact .some ⟨hboth.2 s' t' hs' ht', step_codeRaw s e s' h.left hs', step_codeRaw t e' t' h.right ht'⟩
  cases he with
  | codes hcode hcode' day dailyTtl delivered =>
    have hsend := sendCode_alike cfg h.apart phone day dailyTtl delivered (iff_of_false hcode hcode') sendScript_alike
    refine ⟨hsend.1, fun s' t' hs' ht' => ?_⟩
    rw [← Option.some.inj hs', ← Option.some.inj ht']
    exact hsend.2
  | same =>
    cases e with
    | sendCode phone' code day dailyTtl delivered =>
      have hsend := sendCode_alike cfg h.apart phone' day dailyTtl delivered (Iff.refl (code = ""))
        sendScript_alike_any
      refine ⟨hsend.1, fun s' t' hs' ht' => ?_⟩
      rw [← Option.some.inj hs', ← Option.some.inj ht']
      exact hsend.2
    | verifyCode phone' input =>
      have hverify : (verifyScript cfg phone' input t).1 = (verifyScript cfg phone' input s).1 ∧
          Apart (.smsCode phone) (verifyScript cfg phone' input s).2 (verifyScript cfg phone' input t).2 := by
        by_cases hphone : phone' = phone
        · rw [hphone] at hs ht ⊢
          exact h.misses (hs rfl) (ht rfl)
        · exact verifyScript_alike_other hphone s t h.apart
      have hresult : (verifyCode cfg t phone' input).1 = (verifyCode cfg s phone' input).1 ∧
          Apart (.smsCode phone) (verifyCode cfg s phone' input).2 (verifyCode cfg t phone' input).2 := by
        unfold verifyCode
        split
        · exact ⟨rfl, h.apart⟩
        · exact ⟨congrArg onVerify hverify.1, hverify.2⟩
      refine ⟨by rw [seen, seen, hresult.1], fun s' t' hs' ht' => ?_⟩
      rw [← Option.some.inj hs', ← Option.some.inj ht']
      exact hresult.2
    | wait ms =>
      refine ⟨rfl, fun s' t' hs' ht' => ?_⟩
      rw [← Option.some.inj hs', ← Option.some.inj ht']
      exact h.apart.wait ms

/-- **No answer gives a code away.** Two runs of the SMS service that differ in the codes
sent to a phone, in neither of which its code is typed in, show their clients the same: the
responses to all sends and the verdicts on all inputs, of this phone and any other. -/
theorem codes_secret (cfg : Config) (phone : String) (now₀ : ℕ) {es es' : List Ev}
    (hes : List.Forall₂ (Recoded phone) es es')
    (hm : Machine.Meets (step cfg) (Misses phone) (.empty now₀) es)
    (hm' : Machine.Meets (step cfg) (Misses phone) (.empty now₀) es') :
    Machine.collect (step cfg) (seen cfg) (.empty now₀) es =
      Machine.collect (step cfg) (seen cfg) (.empty now₀) es' := by
  have hempty : CodeRaw phone (.empty now₀) := by
    intro e he
    cases he
  have htwins : Twins phone (.empty now₀) (.empty now₀) := ⟨.refl _ _, hempty, hempty⟩
  exact Machine.collect_related (R := Twins phone) (E := Recoded phone) (C := Misses phone)
    (fun _ _ _ _ h he hs ht => h.call he hs ht) hes htwins hm hm'

/-- Two codes of which none is `123456`. -/
theorem codes_secret_twoCodes :
    Machine.collect (step .default) (seen .default) (.empty 0)
        [.sendCode "13800000000" "000042" "20240101" 3600 true, .verifyCode "13800000000" "123456"] =
      Machine.collect (step .default) (seen .default) (.empty 0)
        [.sendCode "13800000000" "777777" "20240101" 3600 true, .verifyCode "13800000000" "123456"] :=
  codes_secret .default "13800000000" 0
    (.cons (.codes (by decide) (by decide) _ _ _) (.cons (.same _) .nil)) (by decide) (by decide)

end Seckill.SmsService
