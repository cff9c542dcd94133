import Mathlib.Data.FinEnum
import Seckill.Proof.GuardLaw

/-!
# Two pairs with one key

`makeKey` mixes 128 bits into 64. For one user no step loses anything, so that the skus
and the keys are in bijection (`makeKey_skus`). Two users collide on exactly one sku of
the second for every sku of the first, `twin` (`makeKey_eq_iff`).

So the sets are exact for keys and not for pairs: a request is turned away by its own pair
only, in every run that meets no twin (`ownPair_iff_noTwin`), as in every run of one user's
requests (`ownPair_of_user`).
-/

namespace Seckill

/-- The first step of `makeKey`, for the user. -/
def userHash (userId : Int64) : UInt64 := userId.toUInt64 * 0x9E3779B97F4A7C15

/-- What the second step adds to the sku. -/
def userShift (userId : Int64) : UInt64 :=
  (0x9E3779B97F4A7C15 : UInt64) + (userHash userId <<< (6 : UInt64)) + (userHash userId >>> (2 : UInt64))

/-- The sku of the other user that has the key of a pair. -/
def twin (userId skuId other : Int64) : Int64 :=
  (((userHash userId ^^^ (skuId.toUInt64 + userShift userId)) ^^^ userHash other) - userShift other).toInt64

/-- The rest of `makeKey`. -/
def finish (h : UInt64) : UInt64 :=
  let h := h ^^^ (h >>> (29 : UInt64))
  let h := h * 0xBF58476D1CE4E5B9
  h ^^^ (h >>> (32 : UInt64))

theorem finish_injective : Function.Injective finish := by
  have h29 : Function.Injective fun x : UInt64 => x ^^^ (x >>> 29) := Bits.xor_shiftRight_injective (by decide)
  have h32 : Function.Injective fun x : UInt64 => x ^^^ (x >>> 32) := Bits.xor_shiftRight_injective (by decide)
  have hmul : Function.Injective fun x : UInt64 => x * 0xBF58476D1CE4E5B9 :=
    Bits.mul_injective (d := 0x96DE1B173F119089) (by decide)
  exact h32.comp (hmul.comp h29)

/-- An injective step on words misses none. -/
theorem finish_bijective : Function.Bijective finish := Finite.injective_iff_bijective.1 finish_injective

theorem toUInt64_bijective : Function.Bijective Int64.toUInt64 :=
  Function.bijective_iff_has_inverse.2 ⟨UInt64.toInt64, Int64.toInt64_toUInt64, UInt64.toUInt64_toInt64⟩

theorem makeKey_eq (userId skuId : Int64) :
    makeKey userId skuId = finish (userHash userId ^^^ (skuId.toUInt64 + userShift userId)) := by
  unfold makeKey finish userShift
  rw [← UInt64.add_assoc, ← UInt64.add_assoc]
  rfl

theorem makeKey_bijective (u : Int64) : Function.Bijective (makeKey u) := by
  have hstages : makeKey u = finish ∘ (fun h => userHash u ^^^ h) ∘ (fun h => h + userShift u) ∘ Int64.toUInt64 :=
    funext (makeKey_eq u)
  rw [hstages]
  exact finish_bijective.comp
    ((Bits.xor_bijective (userHash u)).comp ((Bits.add_bijective (userShift u)).comp toUInt64_bijective))

/-- **Every sku of a user has a key of its own**, and every key is of a sku. So two users
share a key on one sku of the second for every sku of the first. -/
theorem makeKey_skus :
    (∀ u, Function.Bijective (makeKey u)) ∧
      (∀ u k k', makeKey u k = makeKey u k' ↔ k = k') ∧
      ∀ u u' k, ∃! k', makeKey u' k' = makeKey u k := by
  refine ⟨makeKey_bijective, fun u k k' => ?_, fun u u' k => ?_⟩
  · exact (makeKey_bijective u).injective.eq_iff
  · exact (makeKey_bijective u').existsUnique (makeKey u k)

/-- **Two pairs have one key** exactly when the second is the twin of the first. -/
theorem makeKey_eq_iff (u k u' k' : Int64) : makeKey u k = makeKey u' k' ↔ k' = twin u k u' := by
  rw [makeKey_eq, makeKey_eq, finish_injective.eq_iff]
  unfold twin
  constructor
  · intro h
    rw [h]
    have hxor : userHash u' ^^^ (k'.toUInt64 + userShift u') ^^^ userHash u' = k'.toUInt64 + userShift u' := by
      rw [UInt64.xor_comm, xor_cancel_left]
    rw [hxor, UInt64.add_sub_cancel, Int64.toInt64_toUInt64]
  · rintro rfl
    rw [UInt64.toUInt64_toInt64, UInt64.sub_add_cancel, UInt64.xor_comm (userHash u'), xor_cancel_right]

/-! ## Pairs in the sets -/

namespace InflightTokens

open Machine InflightGuard

/-- The key of a user's request for a sku. -/
def pairKey (r : Int64 × Int64) : UInt64 := makeKey r.1 r.2

/-- **A request is turned away only by its own pair.** -/
def OwnPair (s : InflightTokens (Int64 × Int64)) : Ev (Int64 × Int64) → Prop
  | .tryAcquire _ r => ∀ g', s.guard.tryAcquire (pairKey r) = some (g', false) → ∃ i, s.live i = some r
  | .release _ => True

/-- No live token is of a pair whose twin is asked for. -/
def NoTwin (s : InflightTokens (Int64 × Int64)) : Ev (Int64 × Int64) → Prop
  | .tryAcquire _ r => ∀ i r', s.live i = some r' → r' ≠ r → r.2 ≠ twin r'.1 r'.2 r.1
  | .release _ => True

variable {s : InflightTokens (Int64 × Int64)} {mode : Mode} {shards bits : UInt64}

theorem Lawful.ownPair_iff
    (h : Lawful pairKey (fun g => g.mode = .mutex ∨ g.mode = .spin) id (fun g k => g.marked k = true) s)
    (e : Ev (Int64 × Int64)) : OwnPair s e ↔ NoTwin s e := by
  cases e with
  | release i => exact Iff.rfl
  | tryAcquire i r =>
    obtain ⟨g', got, hg, hgot⟩ := h.tryAcquire view_exact r
    constructor
    · intro hown j r' hj hne htwin
      -- the twin is in the way, so a token of the pair itself would share its key
      have hkey : pairKey r' = pairKey r := (makeKey_eq_iff r'.1 r'.2 r.1 r.2).2 htwin
      have hrefused : got = false := by
        rw [← Bool.not_eq_true, hgot]
        exact fun hfree => hfree j r' hj hkey
      rw [hrefused] at hg
      obtain ⟨j', hj'⟩ := hown g' hg
      have hsame : j = j' := h.apart hj hj' hkey
      rw [hsame, hj'] at hj
      exact hne (Option.some.inj hj).symm
    · intro hno g'' hrefused
      rw [hg] at hrefused
      obtain ⟨-, rfl⟩ := Prod.mk.inj (Option.some.inj hrefused)
      have hblocked : ¬Reference.Free (fun r => id (pairKey r)) s.live r := fun hfree => Bool.false_ne_true (hgot.2 hfree)
      unfold Reference.Free at hblocked
      push Not at hblocked
      obtain ⟨j, r', hj, hkey⟩ := hblocked
      by_cases hr : r' = r
      · exact ⟨j, by rw [hj, hr]⟩
      · exact absurd ((makeKey_eq_iff r'.1 r'.2 r.1 r.2).1 hkey) (hno j r' hj hr)

theorem not_inBounds_no_shards (hm : mode = .mutex ∨ mode = .spin) (k : UInt64) :
    ¬(InflightGuard.new mode 0 bits).InBounds k := by
  intro hin
  have hfit := (new_inBounds mode 0 bits k).1 hin
  rcases hm with rfl | rfl
  · exact hfit rfl
  · exact hfit rfl

/-- Without shards no call is defined, so that no token is ever given. -/
theorem run_no_shards (hm : mode = .mutex ∨ mode = .spin) {es : List (Ev (Int64 × Int64))}
    (h : Machine.run (InflightTokens.step pairKey) (.new mode 0 bits) es = some s) : s = .new mode 0 bits := by
  refine run_inv (I := fun s => s = .new mode 0 bits) ?_ rfl h
  rintro t e t' rfl hstep
  rcases step_cases hstep with ⟨i, r, -, -, hacquire⟩ | ⟨i, r, -, hr, -⟩
  · obtain ⟨got, hg, -⟩ := tryAcquire_eq hacquire
    have hsome : ((InflightGuard.new mode 0 bits).tryAcquire (pairKey r)).isSome = true := Option.isSome_of_eq_some hg
    exact absurd (tryAcquire_isSome.1 hsome) (not_inBounds_no_shards hm _)
  · cases hr

theorem run_ownPair_iff (hm : mode = .mutex ∨ mode = .spin) {es : List (Ev (Int64 × Int64))}
    (h : Machine.run (InflightTokens.step pairKey) (.new mode shards bits) es = some s) (e : Ev (Int64 × Int64)) :
    OwnPair s e ↔ NoTwin s e := by
  by_cases hshards : shards = 0
  · subst hshards
    rw [run_no_shards hm h]
    cases e with
    | release i => exact Iff.rfl
    | tryAcquire i r =>
      refine iff_of_true (fun g' hrefused => ?_) fun j r' hj => by cases hj
      -- a call that answers is in bounds
      have hin := tryAcquire_isSome.1 (Option.isSome_of_eq_some hrefused)
      exact absurd hin (not_inBounds_no_shards hm _)
  · exact ((lawful_exact pairKey hm hshards).run view_exact h).ownPair_iff e

theorem meets_ownPair_iff (hm : mode = .mutex ∨ mode = .spin) (es : List (Ev (Int64 × Int64))) :
    Meets (InflightTokens.step pairKey) OwnPair (.new mode shards bits) es ↔
      Meets (InflightTokens.step pairKey) NoTwin (.new mode shards bits) es := by
  refine meets_iff fun t e htakes => ?_
  obtain ⟨pre, post, -, hpre⟩ := htakes
  exact run_ownPair_iff hm hpre e

/-! ### The orders of one user -/

section OneUser

variable {u : Int64} {e : Ev (Int64 × Int64)} {t : InflightTokens (Int64 × Int64)}

/-- A call for the user. -/
def OfUser (u : Int64) : Ev (Int64 × Int64) → Prop
  | .tryAcquire _ r => r.1 = u
  | .release _ => True

/-- The live tokens are all the user's. -/
def OnlyUser (u : Int64) (s : InflightTokens (Int64 × Int64)) : Prop := ∀ i r, s.live i = some r → r.1 = u

theorem OnlyUser.step (h : OnlyUser u s) (he : OfUser u e) (hstep : InflightTokens.step pairKey s e = some t) :
    OnlyUser u t := by
  intro j r' hj
  rcases step_cases hstep with ⟨i, r, rfl, -, hacquire⟩ | ⟨i, r, rfl, -, hrelease⟩
  · obtain ⟨got, -, hlive⟩ := tryAcquire_eq hacquire
    rw [hlive] at hj
    cases got with
    | false => exact h j r' hj
    | true =>
      rw [if_pos rfl, Function.update_apply] at hj
      split at hj
      · rw [← Option.some.inj hj]
        exact he
      · exact h j r' hj
  · obtain ⟨-, hlive⟩ := release_eq hrelease
    rw [hlive, Function.update_apply] at hj
    split at hj
    · cases hj
    · exact h j r' hj

/-- No sku of the user is the twin of another one. -/
theorem OnlyUser.noTwin (h : OnlyUser u s) (he : OfUser u e) : NoTwin s e := by
  cases e with
  | release i => trivial
  | tryAcquire i r =>
    intro j r' hj hne htwin
    have huser : r'.1 = r.1 := (h j r' hj).trans he.symm
    have hkey : makeKey r'.1 r'.2 = makeKey r.1 r.2 := (makeKey_eq_iff r'.1 r'.2 r.1 r.2).2 htwin
    rw [huser] at hkey
    exact hne (Prod.ext huser ((makeKey_bijective r.1).injective hkey))

/-- **Orders of one user for different skus never meet**: in every run of the user's
requests, one is turned away only by a live token of its own sku. -/
theorem ownPair_of_user (hm : mode = .mutex ∨ mode = .spin) {es : List (Ev (Int64 × Int64))}
    (hes : ∀ e ∈ es, OfUser u e) : Meets (InflightTokens.step pairKey) OwnPair (.new mode shards bits) es := by
  have hnew : OnlyUser u (.new mode shards bits) := fun i r hi => by cases hi
  rw [meets_ownPair_iff hm]
  refine meets_of_inv (fun s e t hs he hstep => ?_) (fun s e hs he => ?_) hnew (meets_of_forall hes _)
  · exact OnlyUser.step hs he hstep
  · exact OnlyUser.noTwin hs he

end OneUser

/-! ### Exactness -/

/-- **When the sets are exact for pairs.** In every state a run reaches, and at every step
of every run: a request is turned away only by a live token of its own pair if and only if
no live token is of another pair whose twin it is. -/
theorem ownPair_iff_noTwin (hm : mode = .mutex ∨ mode = .spin) (shards bits : UInt64) (es : List (Ev (Int64 × Int64)))
    (s : InflightTokens (Int64 × Int64))
    (h : Machine.run (InflightTokens.step pairKey) (.new mode shards bits) es = some s) :
    (∀ e, OwnPair s e ↔ NoTwin s e) ∧
      (Meets (InflightTokens.step pairKey) OwnPair (.new mode shards bits) es ↔
        Meets (InflightTokens.step pairKey) NoTwin (.new mode shards bits) es) := by
  exact ⟨run_ownPair_iff hm h, meets_ownPair_iff hm es⟩

/-- User 1 has asked for the sku 1. -/
def firstPair : List (Ev (Int64 × Int64)) := [.tryAcquire 0 (1, 1)]

/-- **User 2 is turned away from a sku nobody has asked for.** -/
theorem blocked_by_another_pair :
    ∃ s, Machine.run (InflightTokens.step pairKey) (.new .mutex 64 65536) firstPair = some s ∧
      (∃ g', s.guard.tryAcquire (makeKey 2 2948231536559054789) = some (g', false)) ∧
      ∀ i, s.live i ≠ some (2, 2948231536559054789) := by
  have hrun : ((Machine.run (InflightTokens.step pairKey) (.new .mutex 64 65536) firstPair).bind fun s =>
      (s.guard.tryAcquire (makeKey 2 2948231536559054789)).map Prod.snd) = some false := by decide +kernel
  obtain ⟨s, hs, hanswer⟩ := Option.bind_eq_some_iff.1 hrun
  obtain ⟨⟨g', got⟩, hg, rfl⟩ := Option.map_eq_some_iff.1 hanswer
  refine ⟨s, hs, ⟨g', hg⟩, fun i hi => ?_⟩
  -- the only token there can be is user 1's
  obtain ⟨t, hstep, ht⟩ := run_cons.1 hs
  cases ht
  rcases step_cases hstep with ⟨j, r, he, -, hacquire⟩ | ⟨j, r, he, -, -⟩
  · cases he
    obtain ⟨got, -, hlive⟩ := tryAcquire_eq hacquire
    rw [hlive] at hi
    split at hi
    · rw [Function.update_apply] at hi
      split at hi
      · exact absurd (Option.some.inj hi) (by decide)
      · cases hi
    · cases hi
  · cases he

theorem ownPair_iff_noTwin_firstPair :
    ∃ s, Machine.run (InflightTokens.step pairKey) (.new .mutex 64 65536) firstPair = some s ∧
      ∀ e, OwnPair s e ↔ NoTwin s e := by
  have hrun : (Machine.run (InflightTokens.step pairKey) (.new .mutex 64 65536) firstPair).isSome = true := by
    decide +kernel
  obtain ⟨s, hs⟩ := Option.isSome_iff_exists.1 hrun
  exact ⟨s, hs, (ownPair_iff_noTwin (Or.inl rfl) 64 65536 firstPair s hs).1⟩

end InflightTokens

end Seckill
