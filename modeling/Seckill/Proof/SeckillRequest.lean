import Seckill.Proof.Throws
import Seckill.Spec.Controllers

/-!
# Which bodies place an order

`handle` tests that the two ids are there, and converts what is there: null, a boolean and
a real number become an id, and a value that cannot is an exception, as is a body that has
no members. `handle_calls` and `handle_throws` say for which bodies; the handler does what
it is for exactly on the bodies of `WellTyped` (`handle_correct_iff`).
-/

namespace Seckill

namespace Json

variable {v : Json} {n : ℤ}

theorem asInt64_range (h : v.asInt64 = .ok n) : isInt64 n = true := by
  cases v with
  | null =>
    cases h
    decide
  | bool b =>
    cases h
    cases b <;> decide
  | int m =>
    simp only [asInt64] at h
    split at h
    next hm =>
      cases h
      exact hm
    next => cases h
  | real text trunc =>
    cases trunc with
    | none => cases h
    | some m =>
      simp only [asInt64] at h
      split at h
      next hm =>
        cases h
        exact hm
      next => cases h
  | str s => cases h
  | arr items => cases h
  | obj fields => cases h

theorem toInt_ofInt (h : isInt64 n = true) : (Int64.ofInt n).toInt = n := by
  unfold isInt64 at h
  simp only [Bool.and_eq_true, decide_eq_true_eq] at h
  exact Int64.toInt_ofInt_of_le h.1 h.2

theorem has_of_field {key : String} (h : v.field key ≠ .null) : v.has key = true := by
  by_contra hmissing
  exact h (field_of_not_has (Bool.eq_false_of_not_eq_true hmissing))

end Json

namespace SeckillController

variable {v : Json} {userId skuId : Int64}

/-- The body names the ids: an object with a JSON integer of 64 bits under each of the two keys. -/
inductive Names : Json → Int64 → Int64 → Prop
  | ids {fields : List (Bytes × Json)} {userId skuId : Int64}
    (user : (Json.obj fields).field "userId" = .int userId.toInt)
    (sku : (Json.obj fields).field "skuId" = .int skuId.toInt) : Names (.obj fields) userId skuId

/-- **What the handler is for**: it orders what the body names, it answers 400 where the
body names nothing, and no exception leaves it. -/
structure Correct (json : Option Json) : Prop where
  calls : ∀ userId skuId, handle json = .ok (.doSeckill userId skuId) → ∃ v ∈ json, Names v userId skuId
  answers : (¬∃ v ∈ json, ∃ userId skuId, Names v userId skuId) →
    ∃ r, handle json = .ok (.replied r) ∧ r.status = 400
  returns : ∃ h, handle json = .ok h

/-- The body has members, and if it has both ids they are integers of 64 bits. -/
def WellTyped (v : Json) : Prop :=
  v.IsRecord ∧ (v.has "userId" = true → v.has "skuId" = true → ∃ userId skuId, Names v userId skuId)

theorem handle_throws (h : ¬v.IsRecord) : ∃ what, handle (some v) = .error what := by
  obtain ⟨what, hwhat⟩ := Json.isMember_throws h "userId"
  refine ⟨what, ?_⟩
  unfold handle
  dsimp only
  rw [hwhat]
  rfl

theorem handle_missing (h : v.IsRecord) (hmissing : ¬(v.has "userId" = true ∧ v.has "skuId" = true)) :
    handle (some v) = .ok (.replied (reply 400 "missing or invalid userId/skuId" 400)) := by
  unfold handle
  dsimp only
  rw [Json.isMember_of_isRecord h, Json.isMember_of_isRecord h]
  cases huser : v.has "userId" with
  | false => rfl
  | true =>
    cases hsku : v.has "skuId" with
    | false => rfl
    | true => exact absurd ⟨huser, hsku⟩ hmissing

/-- Both ids are there: they are converted, the user first. -/
theorem handle_present (h : v.IsRecord) (huser : v.has "userId" = true) (hsku : v.has "skuId" = true) :
    handle (some v) = (v.field "userId").asInt64 >>= fun userId =>
      (v.field "skuId").asInt64 >>= fun skuId => .ok (.doSeckill (.ofInt userId) (.ofInt skuId)) := by
  unfold handle
  dsimp only
  rw [Json.isMember_of_isRecord h, Json.isMember_of_isRecord h, huser, hsku]
  rfl

/-- **The bodies that call the service**, and for whom. -/
theorem handle_calls : handle (some v) = .ok (.doSeckill userId skuId) ↔
    (v.has "userId" = true ∧ v.has "skuId" = true) ∧ (v.field "userId").asInt64 = .ok userId.toInt ∧
      (v.field "skuId").asInt64 = .ok skuId.toInt := by
  by_cases hrecord : v.IsRecord
  swap
  · obtain ⟨what, hwhat⟩ := handle_throws hrecord
    rw [hwhat]
    refine iff_of_false (fun h => by cases h) fun h => hrecord ?_
    cases v with
    | obj fields => trivial
    | _ => cases h.1.1
  by_cases hboth : v.has "userId" = true ∧ v.has "skuId" = true
  swap
  · rw [handle_missing hrecord hboth]
    exact iff_of_false (fun h => by cases h) fun h => hboth h.1
  rw [handle_present hrecord hboth.1 hboth.2]
  constructor
  · intro h
    obtain ⟨user, huser, h⟩ := bind_ok.1 h
    obtain ⟨sku, hsku, h⟩ := bind_ok.1 h
    cases h
    rw [Json.toInt_ofInt (Json.asInt64_range huser), Json.toInt_ofInt (Json.asInt64_range hsku)]
    exact ⟨hboth, huser, hsku⟩
  · rintro ⟨-, huser, hsku⟩
    rw [huser, hsku]
    change Except.ok (Handled.doSeckill (.ofInt userId.toInt) (.ofInt skuId.toInt)) = _
    rw [Int64.ofInt_toInt, Int64.ofInt_toInt]

theorem Names.has (h : Names v userId skuId) :
    v.IsRecord ∧ v.has "userId" = true ∧ v.has "skuId" = true := by
  cases h with
  | ids huser hsku =>
    refine ⟨trivial, Json.has_of_field fun hnull => ?_, Json.has_of_field fun hnull => ?_⟩
    · rw [huser] at hnull
      cases hnull
    · rw [hsku] at hnull
      cases hnull

/-- What the body names is ordered. -/
theorem Names.handle (h : Names v userId skuId) : handle (some v) = .ok (.doSeckill userId skuId) := by
  refine handle_calls.2 ⟨h.has.2, ?_⟩
  cases h with
  | ids huser hsku =>
    rw [huser, hsku]
    exact ⟨if_pos (Json.isInt64_toInt userId), if_pos (Json.isInt64_toInt skuId)⟩

/-- **The handler does what it is for exactly on these bodies**: none, one with members and
not both ids, and one with both as integers of 64 bits. On every other body it throws, or
orders what the body does not name. -/
theorem handle_correct_iff (json : Option Json) : Correct json ↔ ∀ v ∈ json, WellTyped v := by
  cases json with
  | none =>
    refine iff_of_true ⟨?_, fun _ => ⟨_, rfl, rfl⟩, ⟨_, rfl⟩⟩ (fun v hv => by cases hv)
    intro userId skuId hcall
    cases hcall
  | some v =>
    constructor
    · rintro ⟨hcalls, -, hreturns⟩ w hw
      cases hw
      have hrecord : v.IsRecord := by
        by_contra hrecord
        obtain ⟨what, hwhat⟩ := handle_throws hrecord
        obtain ⟨h, hok⟩ := hreturns
        rw [hwhat] at hok
        cases hok
      refine ⟨hrecord, fun huser hsku => ?_⟩
      -- with both ids there it does not answer, so that it calls
      obtain ⟨h, hok⟩ := hreturns
      have hpresent := hok
      rw [handle_present hrecord huser hsku] at hpresent
      obtain ⟨user, -, hpresent⟩ := bind_ok.1 hpresent
      obtain ⟨sku, -, hpresent⟩ := bind_ok.1 hpresent
      cases hpresent
      obtain ⟨w, hw, hnames⟩ := hcalls _ _ hok
      cases hw
      exact ⟨_, _, hnames⟩
    · intro h
      obtain ⟨hrecord, hnames⟩ := h v rfl
      by_cases hboth : v.has "userId" = true ∧ v.has "skuId" = true
      · obtain ⟨userId, skuId, hnamed⟩ := hnames hboth.1 hboth.2
        refine ⟨?_, fun hnone => absurd ⟨v, rfl, userId, skuId, hnamed⟩ hnone, ⟨_, hnamed.handle⟩⟩
        intro u k hcall
        rw [hnamed.handle] at hcall
        cases hcall
        exact ⟨v, rfl, hnamed⟩
      · have hanswer := handle_missing hrecord hboth
        refine ⟨?_, fun _ => ⟨_, hanswer, rfl⟩, ⟨_, hanswer⟩⟩
        intro u k hcall
        rw [hanswer] at hcall
        cases hcall

/-- An order for user 1, whom `true` does not name; and an array throws. -/
theorem handle_coerces :
    handle (some (.obj [(ascii "userId", .bool true), (ascii "skuId", .int 1)])) = .ok (.doSeckill 1 1) ∧
      ¬Correct (some (.obj [(ascii "userId", .bool true), (ascii "skuId", .int 1)])) ∧
      ¬Correct (some (.arr [])) := by
  have hcall : handle (some (.obj [(ascii "userId", .bool true), (ascii "skuId", .int 1)])) = .ok (.doSeckill 1 1) := rfl
  refine ⟨hcall, ?_, ?_⟩
  · rintro ⟨hcalls, -, -⟩
    obtain ⟨v, hv, hnames⟩ := hcalls 1 1 hcall
    cases hv
    cases hnames with
    | ids huser hsku =>
      rw [show (Json.obj _).field "userId" = .bool true from rfl] at huser
      cases huser
  · rintro ⟨-, -, h, hok⟩
    cases hok

end SeckillController

end Seckill
