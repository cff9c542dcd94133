import Mathlib.Data.LawfulXor.Basic
import Mathlib.Data.Nat.Bitwise
import Mathlib.Tactic.Common

/-!
# Packed bit arrays

A bitmap is an array of 64-bit words. `mask i` is the word whose only set bit
is bit `i mod 64`; testing, setting and clearing a bit of a word go through
it. `bitAt a w j` reads bit `j` of word `w`.

* `and_mask_eq_zero`: the test `word & mask == 0` reads one bit.
* `bitAt_set`, `bitAt_clear`: or-ing (and-not-ing) a mask into one word changes
  that bit of that word and nothing else.

Shifts and masks of 32-bit words are powers of two in arithmetic
(`toNat_shiftLeft`, `toNat_shiftRight`, `toNat_and_low`), and or-ing words whose
bits do not overlap adds them (`toNat_or_of_lt`). The steps of a multiplicative mix are
injective (`xor_shiftRight_injective`, `mul_injective`), and those that take in another
word are undone by it (`xor_bijective`, `add_bijective`).
-/

namespace Bits

/-- The word whose only set bit is bit `i mod 64`. -/
def mask (i : UInt64) : UInt64 := 1 <<< (i &&& 63)

theorem toNat_and_63 (i : UInt64) : (i &&& 63).toNat = i.toNat % 64 := by
  rw [UInt64.toNat_and, show (63 : UInt64).toNat = 2 ^ 6 - 1 from rfl, Nat.and_two_pow_sub_one_eq_mod]

theorem testBit_mask (i : UInt64) (j : ℕ) : (mask i).toNat.testBit j = decide (i.toNat % 64 = j) := by
  have hi : i.toNat % 64 < 64 := Nat.mod_lt _ (by decide)
  have h : (mask i).toNat = 2 ^ (i.toNat % 64) := by
    rw [mask, UInt64.toNat_shiftLeft, toNat_and_63, show (1 : UInt64).toNat = 1 from rfl, Nat.mod_mod,
      Nat.one_shiftLeft]
    exact Nat.mod_eq_of_lt (Nat.pow_lt_pow_right (by decide) hi)
  rw [h, Nat.testBit_two_pow]

/-- **Testing a mask reads one bit.** -/
theorem and_mask_eq_zero (w i : UInt64) :
    w &&& mask i = 0 ↔ w.toNat.testBit (i.toNat % 64) = false := by
  rw [← UInt64.toNat_inj, UInt64.toNat_and, show (0 : UInt64).toNat = 0 from rfl]
  constructor
  · intro h
    have := congrArg (fun n => n.testBit (i.toNat % 64)) h
    simpa [Nat.testBit_and, testBit_mask] using this
  · intro h
    apply Nat.eq_of_testBit_eq
    intro j
    rw [Nat.testBit_and, testBit_mask, Nat.zero_testBit]
    by_cases hj : i.toNat % 64 = j
    · subst hj; simp [h]
    · simp [hj]

theorem testBit_or_mask (w i : UInt64) (j : ℕ) :
    (w ||| mask i).toNat.testBit j = (w.toNat.testBit j || decide (i.toNat % 64 = j)) := by
  rw [UInt64.toNat_or, Nat.testBit_or, testBit_mask]

theorem testBit_and_not_mask (w i : UInt64) (j : ℕ) :
    (w &&& ~~~mask i).toNat.testBit j = (w.toNat.testBit j && !decide (i.toNat % 64 = j)) := by
  by_cases hj : j < 64
  · have hn : (~~~mask i).toNat.testBit j = !decide (i.toNat % 64 = j) := by
      rw [← testBit_mask, ← UInt64.toNat_toBitVec, ← UInt64.toNat_toBitVec, UInt64.toBitVec_not,
        BitVec.testBit_toNat, BitVec.testBit_toNat, BitVec.getLsbD_not]
      simp [hj]
    rw [UInt64.toNat_and, Nat.testBit_and, hn]
  · have hw : w.toNat.testBit j = false :=
      Nat.testBit_lt_two_pow (lt_of_lt_of_le w.toNat_lt (Nat.pow_le_pow_right (by decide) (by omega)))
    rw [UInt64.toNat_and, Nat.testBit_and, hw]; simp

/-- Bit `j` of word `w` of the bitmap (clear outside of it). -/
def bitAt (a : Array UInt64) (w j : ℕ) : Bool := (a.getD w 0).toNat.testBit j

theorem bitAt_replicate (n w j : ℕ) : bitAt (Array.replicate n 0) w j = false := by
  unfold bitAt
  by_cases h : w < n <;> simp [h]

variable {a : Array UInt64} {w : ℕ} {before : UInt64}

theorem bitAt_eq (h : a[w]? = some before) (j : ℕ) : bitAt a w j = before.toNat.testBit j := by
  unfold bitAt
  rw [Array.getD_eq_getD_getElem?, h]; rfl

/-- **Setting a bit** leaves every other bit of every word as it was. -/
theorem bitAt_set (h : a[w]? = some before) (i : UInt64) (w' j : ℕ) :
    bitAt (a.setIfInBounds w (before ||| mask i)) w' j =
      (bitAt a w' j || decide (w = w' ∧ i.toNat % 64 = j)) := by
  obtain ⟨hw, -⟩ := Array.getElem?_eq_some_iff.1 h
  by_cases hww : w = w'
  · subst hww
    have h' : (a.setIfInBounds w (before ||| mask i))[w]? = some (before ||| mask i) := by simp [hw]
    rw [bitAt_eq h, bitAt_eq h', testBit_or_mask]
    simp
  · unfold bitAt
    simp [Array.getD_eq_getD_getElem?, hww]

theorem modify_eq_setIfInBounds {α : Type*} {a : Array α} {w : ℕ} {before : α} (h : a[w]? = some before)
    (f : α → α) : a.modify w f = a.setIfInBounds w (f before) := by
  obtain ⟨hw, -⟩ := Array.getElem?_eq_some_iff.1 h
  apply Array.ext_getElem?
  intro i
  rw [Array.getElem?_modify, Array.getElem?_setIfInBounds]
  by_cases hi : w = i
  · subst hi
    rw [if_pos rfl, if_pos rfl, if_pos hw, h]
    rfl
  · rw [if_neg hi, if_neg hi]

/-- Setting a bit of a word in place. -/
theorem bitAt_modify (hw : w < a.size) (i : UInt64) (w' j : ℕ) :
    bitAt (a.modify w (· ||| mask i)) w' j = (bitAt a w' j || decide (w = w' ∧ i.toNat % 64 = j)) := by
  have hword : a[w]? = some a[w] := Array.getElem?_eq_getElem hw
  rw [modify_eq_setIfInBounds hword, bitAt_set hword]

/-- **Clearing a bit** leaves every other bit of every word as it was. -/
theorem bitAt_clear (h : a[w]? = some before) (i : UInt64) (w' j : ℕ) :
    bitAt (a.setIfInBounds w (before &&& ~~~mask i)) w' j =
      (bitAt a w' j && !decide (w = w' ∧ i.toNat % 64 = j)) := by
  obtain ⟨hw, -⟩ := Array.getElem?_eq_some_iff.1 h
  by_cases hww : w = w'
  · subst hww
    have h' : (a.setIfInBounds w (before &&& ~~~mask i))[w]? = some (before &&& ~~~mask i) := by simp [hw]
    rw [bitAt_eq h, bitAt_eq h', testBit_and_not_mask]
    simp
  · unfold bitAt
    simp [Array.getD_eq_getD_getElem?, hww]

/-! ## Words by arithmetic -/

theorem toNat_toUInt32 {n : ℕ} (h : n < 2 ^ 32) : n.toUInt32.toNat = n := by
  rw [Nat.toUInt32_eq, UInt32.toNat_ofNat', Nat.mod_eq_of_lt h]

theorem toNat_shiftLeft (x : UInt32) {k : ℕ} (hk : k < 32) :
    (x <<< k.toUInt32).toNat = x.toNat * 2 ^ k % 2 ^ 32 := by
  have h : k.toUInt32.toNat % 32 = k := by rw [toNat_toUInt32 (by omega), Nat.mod_eq_of_lt hk]
  rw [UInt32.toNat_shiftLeft, h, Nat.shiftLeft_eq]

theorem toNat_shiftRight (x : UInt32) {k : ℕ} (hk : k < 32) :
    (x >>> k.toUInt32).toNat = x.toNat / 2 ^ k := by
  have h : k.toUInt32.toNat % 32 = k := by rw [toNat_toUInt32 (by omega), Nat.mod_eq_of_lt hk]
  rw [UInt32.toNat_shiftRight, h, Nat.shiftRight_eq_div_pow]

/-- A mask of the `k` lowest bits. -/
theorem toNat_and_low (x : UInt32) {k : ℕ} (hk : k < 32) :
    (x &&& (2 ^ k - 1 : ℕ).toUInt32).toNat = x.toNat % 2 ^ k := by
  have hlt : 2 ^ k < 2 ^ 32 := Nat.pow_lt_pow_right (by decide) hk
  rw [UInt32.toNat_and, toNat_toUInt32 (by omega), Nat.and_two_pow_sub_one_eq_mod]

/-- **Or-ing words whose bits do not overlap adds them.** -/
theorem toNat_or_of_lt {x y : UInt32} (k : ℕ) (hx : 2 ^ k ∣ x.toNat) (hy : y.toNat < 2 ^ k) :
    (x ||| y).toNat = x.toNat + y.toNat := by
  obtain ⟨q, hq⟩ := hx
  rw [UInt32.toNat_or, hq, Nat.two_pow_add_eq_or_of_lt hy]

/-! ## Mixing -/

/-- **Mixing a word with its own higher bits** loses nothing. -/
theorem xor_shiftRight_injective {k : UInt64} (hk : 0 < k.toNat % 64) :
    Function.Injective fun x : UInt64 => x ^^^ (x >>> k) := by
  intro x y hxy
  have hxy : x ^^^ (x >>> k) = y ^^^ (y >>> k) := hxy
  -- what differs is its own shift, and so nothing
  have hself : (x ^^^ y) ^^^ ((x ^^^ y) >>> k) = 0 := by
    rw [UInt64.shiftRight_xor]
    calc x ^^^ y ^^^ ((x >>> k) ^^^ (y >>> k)) = (x ^^^ (x >>> k)) ^^^ (y ^^^ (y >>> k)) := by ac_rfl
      _ = 0 := by rw [hxy, UInt64.xor_self]
  have hshift := congrArg UInt64.toNat (UInt64.xor_eq_zero_iff.1 hself)
  rw [UInt64.toNat_shiftRight, Nat.shiftRight_eq_div_pow] at hshift
  have hzero : (x ^^^ y).toNat = 0 := by
    by_contra hne
    have hlt := Nat.div_lt_self (Nat.pos_of_ne_zero hne) (Nat.one_lt_two_pow hk.ne')
    omega
  exact UInt64.xor_eq_zero_iff.1 (UInt64.toNat_inj.1 hzero)

/-- A product with a factor that has an inverse loses nothing. -/
theorem mul_injective {c d : UInt64} (h : c * d = 1) : Function.Injective fun x : UInt64 => x * c := by
  intro x y hxy
  have hxy : x * c = y * c := hxy
  calc x = x * c * d := by rw [UInt64.mul_assoc, h, UInt64.mul_one]
    _ = y * c * d := by rw [hxy]
    _ = y := by rw [UInt64.mul_assoc, h, UInt64.mul_one]

theorem xor_bijective (c : UInt64) : Function.Bijective fun x : UInt64 => c ^^^ x :=
  Function.Involutive.bijective fun x => xor_cancel_left c x

/-- A wrapping sum is undone by the difference. -/
theorem add_bijective (c : UInt64) : Function.Bijective fun x : UInt64 => x + c :=
  Function.bijective_iff_has_inverse.2
    ⟨fun x => x - c, fun x => UInt64.add_sub_cancel x c, fun x => UInt64.sub_add_cancel x c⟩

end Bits
