import Seckill.Spec.Jwt

/-!
# What a verified token says

`verify_clock`: the claims of a token do not depend on the time; the clock only
decides whether `verify` still returns them.
-/

namespace Seckill

theorem bind_ok {α β : Type} {x : Except String α} {f : α → Except String β} {b : β} :
    (x >>= f) = .ok b ↔ ∃ a, x = .ok a ∧ f a = .ok b := by
  cases x with
  | error what => exact iff_of_false (fun h => by cases h) fun ⟨a, ha, _⟩ => by cases ha
  | ok a =>
    constructor
    · exact fun h => ⟨a, rfl, h⟩
    · rintro ⟨a', ha, h⟩
      rw [← Except.ok.inj ha] at h
      exact h

theorem Json.isInt64_toInt (n : Int64) : isInt64 n.toInt = true := by
  have := n.le_toInt
  have := n.toInt_lt
  unfold isInt64
  simp only [Bool.and_eq_true, decide_eq_true_eq]
  omega

namespace Jwt

theorem verifyPayload_clock (j : Jwt) (payload : Json) {now : ℤ} {claims : JwtClaims}
    (h : j.verifyPayload payload now = .ok (some claims)) (now' : ℤ) :
    j.verifyPayload payload now' = .ok none ∨ j.verifyPayload payload now' = .ok (some claims) := by
  unfold verifyPayload at h ⊢
  -- the four members
  obtain ⟨a, ha, h⟩ := bind_ok.1 h
  obtain ⟨b, hb, h⟩ := bind_ok.1 h
  obtain ⟨c, hc, h⟩ := bind_ok.1 h
  obtain ⟨d, hd, h⟩ := bind_ok.1 h
  rw [ha, hb, hc, hd]
  simp only [bind, Except.bind] at h ⊢
  split at h
  · cases h
  rename_i hmember
  simp only [hmember]
  -- the issuer
  generalize (payload.field "iss").asString = iss at h ⊢
  cases iss with
  | error => cases h
  | ok iss =>
  simp only at h ⊢
  split at h
  · cases h
  rename_i hiss
  simp only [hiss]
  -- the expiry, where the clock comes in
  generalize (payload.field "exp").asInt64 = expiresAt at h ⊢
  cases expiresAt with
  | error => cases h
  | ok expiresAt =>
  simp only at h ⊢
  split at h
  · cases h
  by_cases hexp : now' ≥ expiresAt
  · left
    simp [hexp]
    rfl
  · right
    simp only [hexp]
    exact h

/-- **A verified token is verified with the same claims, or no longer.** -/
theorem verify_clock (j : Jwt) {token : Bytes} {nowSeconds clock : ℤ} {claims : JwtClaims}
    (h : j.verify token nowSeconds clock = .ok (some claims)) (nowSeconds' clock' : ℤ) :
    j.verify token nowSeconds' clock' = .ok none ∨ j.verify token nowSeconds' clock' = .ok (some claims) := by
  unfold verify at h ⊢
  obtain ⟨payload, hpayload, h⟩ := bind_ok.1 h
  rw [hpayload]
  cases payload with
  | none => cases h
  | some payload => exact j.verifyPayload_clock payload h (nowOr nowSeconds' clock')

end Jwt

end Seckill
