import Seckill.Spec.InflightGuard

/-!
# What the gate guarantees

Each back end is a set of marks. `tryAcquire_spec`: an acquisition is granted
exactly when the key's mark is clear, and sets that mark only. `release_spec`: a
release clears that mark only. Two keys share a mark when `slot` says so: in the
modes with hash sets only a key with itself.

`SameShape`: the operations never change the configuration or the sizes of the
arrays, so a key that could be acquired can be released (`release_isSome`).
-/

namespace Seckill.InflightGuard

variable {g g' : InflightGuard} {key : UInt64}

/-- The configuration and the sizes of the arrays. -/
structure SameShape (g g' : InflightGuard) : Prop where
  mode : g'.mode = g.mode
  shards : g'.shards = g.shards
  bits : g'.bits = g.bits
  sets : g'.sets.size = g.sets.size
  bitmap : g'.bitmap.size = g.bitmap.size

theorem SameShape.trans {g'' : InflightGuard} (h : SameShape g g') (h' : SameShape g' g'') : SameShape g g'' :=
  ⟨h'.mode.trans h.mode, h'.shards.trans h.shards, h'.bits.trans h.bits, h'.sets.trans h.sets,
    h'.bitmap.trans h.bitmap⟩

theorem SameShape.slot (h : SameShape g g') : g'.slot = g.slot := by
  funext k
  unfold InflightGuard.slot word
  rw [h.mode, h.bits]

theorem SameShape.word_eq (h : SameShape g g') : g'.word = g.word := by
  funext k
  unfold InflightGuard.word
  rw [h.bits]

theorem isSome_of_size {α : Type} {a b : Array α} (h : a.size = b.size) (i : ℕ) :
    a[i]?.isSome = b[i]?.isSome := by
  by_cases hi : i < b.size <;> simp [hi, h]

theorem SameShape.release_isSome (h : SameShape g g') (key : UInt64) :
    (g'.release key).isSome = (g.release key).isSome := by
  unfold release word shard
  rw [h.mode, h.bits, h.shards]
  cases g.mode with
  | none => rfl
  | mutex | spin =>
    simp only [apply_ite Option.isSome, Option.isSome_map, isSome_of_size h.sets]
  | atomic =>
    simp only [apply_ite Option.isSome, Option.isSome_map, isSome_of_size h.bitmap]

theorem tryAcquire_shape {got : Bool} (h : g.tryAcquire key = some (g', got)) : SameShape g g' := by
  unfold tryAcquire countAcquired countRejected at h
  split at h
  · cases h; exact ⟨rfl, rfl, rfl, rfl, rfl⟩
  all_goals
    split at h
    · cases h
    · obtain ⟨x, -, hx⟩ := Option.map_eq_some_iff.1 h
      split at hx <;> cases hx <;> exact ⟨by simp, by simp, by simp, by simp, by simp⟩

/-- An answered call is in one of the two counters. -/
theorem tryAcquire_counts {got : Bool} (h : g.tryAcquire key = some (g', got)) :
    g'.acquired = g.acquired + (if got = true then 1 else 0) ∧
      g'.rejected = g.rejected + if got = false then 1 else 0 := by
  unfold tryAcquire countAcquired countRejected at h
  split at h
  · cases h; exact ⟨rfl, rfl⟩
  all_goals
    split at h
    · cases h
    · obtain ⟨x, -, hx⟩ := Option.map_eq_some_iff.1 h
      split at hx <;> cases hx <;> exact ⟨rfl, rfl⟩

theorem release_counts (h : g.release key = some g') : g'.acquired = g.acquired ∧ g'.rejected = g.rejected := by
  unfold release at h
  split at h
  · cases h; exact ⟨rfl, rfl⟩
  all_goals
    split at h
    · cases h
    · obtain ⟨x, -, hx⟩ := Option.map_eq_some_iff.1 h
      cases hx; exact ⟨rfl, rfl⟩

theorem release_shape (h : g.release key = some g') : SameShape g g' := by
  unfold release at h
  split at h
  · cases h; exact ⟨rfl, rfl, rfl, rfl, rfl⟩
  all_goals
    split at h
    · cases h
    · obtain ⟨x, -, hx⟩ := Option.map_eq_some_iff.1 h
      cases hx; exact ⟨by simp, by simp, by simp, by simp, by simp⟩

/-- A key that can be acquired can be released. -/
theorem release_isSome {got : Bool} (h : g.tryAcquire key = some (g', got)) :
    (g'.release key).isSome = true := by
  rw [(tryAcquire_shape h).release_isSome key]
  unfold tryAcquire at h
  unfold release
  cases hm : g.mode with
  | none => rfl
  | mutex | spin | atomic =>
    simp only [hm] at h ⊢
    split at h
    · cases h
    · rename_i h0
      obtain ⟨x, hx, -⟩ := Option.map_eq_some_iff.1 h
      simp [h0, hx]

/-! ## The hash sets -/

theorem getD_set (sets : Array (List UInt64)) {i : ℕ} (hi : i < sets.size) (l : List UInt64) (j : ℕ) :
    (sets.setIfInBounds i l).getD j [] = if i = j then l else sets.getD j [] := by
  by_cases hij : i = j
  · subst hij; simp [hi]
  · simp [Array.getD_eq_getD_getElem?, hij]

theorem contains_insert {set : List UInt64} (h : g.sets[g.shard key]? = some set) (k : UInt64) :
    ((g.sets.setIfInBounds (g.shard key) (key :: set)).getD (g.shard k) []).contains k =
      ((g.sets.getD (g.shard k) []).contains k || decide (key = k)) := by
  obtain ⟨hi, hs⟩ := Array.getElem?_eq_some_iff.1 h
  rw [getD_set _ hi]
  by_cases hk : key = k
  · subst hk; simp
  · split
    · -- another key of the same shard
      rename_i hsh
      rw [← hsh, show g.sets.getD (g.shard key) [] = set by simp [hi, hs]]
      simp [hk, Ne.symm hk]
    · simp [hk]

theorem contains_erase {set : List UInt64} (h : g.sets[g.shard key]? = some set) (k : UInt64) :
    ((g.sets.setIfInBounds (g.shard key) (set.filter (· ≠ key))).getD (g.shard k) []).contains k =
      ((g.sets.getD (g.shard k) []).contains k && !decide (key = k)) := by
  obtain ⟨hi, hs⟩ := Array.getElem?_eq_some_iff.1 h
  rw [getD_set _ hi]
  by_cases hk : key = k
  · subst hk; simp
  · split
    · rename_i hsh
      rw [← hsh, show g.sets.getD (g.shard key) [] = set by simp [hi, hs]]
      rw [Bool.eq_iff_iff]
      simp [hk, Ne.symm hk]
    · simp [hk]

/-! ## The bitmap -/

theorem slot_atomic_eq (hm : g.mode = .atomic) (k : UInt64) :
    g.slot key = g.slot k ↔ g.word key = g.word k ∧ key.toNat % 64 = k.toNat % 64 := by
  simp only [slot, hm]
  omega

theorem marked_atomic (hm : g.mode = .atomic) (k : UInt64) :
    g.marked k = Bits.bitAt g.bitmap (g.word k) (k.toNat % 64) := by
  unfold marked
  rw [hm]

/-- **A call in mode `atomic` reads one bit**, and sets it and no other. -/
theorem tryAcquire_bitmap {got : Bool} (hm : g.mode = .atomic) (h : g.tryAcquire key = some (g', got)) :
    got = !Bits.bitAt g.bitmap (g.word key) (key.toNat % 64) ∧
      ∀ w j, Bits.bitAt g'.bitmap w j =
        (Bits.bitAt g.bitmap w j || decide (g.word key = w ∧ key.toNat % 64 = j)) := by
  unfold tryAcquire countAcquired countRejected at h
  simp only [hm] at h
  split at h
  · cases h
  obtain ⟨before, hb, hx⟩ := Option.map_eq_some_iff.1 h
  -- `fetch_or` answers the word before: the bit was clear, or the key is refused
  have hbit := Bits.and_mask_eq_zero before key
  split at hx <;> cases hx <;> rename_i hc <;> refine ⟨?_, fun w j => Bits.bitAt_set hb key w j⟩
  · rw [Bits.bitAt_eq hb, hbit.1 hc]
    rfl
  · have hset : before.toNat.testBit (key.toNat % 64) = true := by simpa using mt hbit.2 hc
    rw [Bits.bitAt_eq hb, hset]
    rfl

/-- **A release clears one bit** and no other. -/
theorem release_bitmap (hm : g.mode = .atomic) (h : g.release key = some g') (w j : ℕ) :
    Bits.bitAt g'.bitmap w j =
      (Bits.bitAt g.bitmap w j && !decide (g.word key = w ∧ key.toNat % 64 = j)) := by
  unfold release at h
  simp only [hm] at h
  split at h
  · cases h
  obtain ⟨before, hb, hx⟩ := Option.map_eq_some_iff.1 h
  cases hx
  exact Bits.bitAt_clear hb key w j

theorem slot_exact_eq (hm : g.mode ≠ .atomic) (k : UInt64) : g.slot key = g.slot k ↔ key = k := by
  unfold slot
  split
  all_goals first | contradiction | exact UInt64.toNat_inj

/-! ## The law of the gate -/

/-- **An acquisition is granted exactly when the key's mark is clear**, and sets
that mark and no other. -/
theorem tryAcquire_spec {got : Bool} (hm : g.mode ≠ .none) (h : g.tryAcquire key = some (g', got)) :
    got = !g.marked key ∧ ∀ k, g'.marked k = (g.marked k || decide (g.slot key = g.slot k)) := by
  cases hmode : g.mode with
  | none => contradiction
  | mutex | spin =>
    unfold tryAcquire countAcquired countRejected at h
    simp only [hmode, slot_exact_eq (show g.mode ≠ .atomic by simp [hmode])] at h ⊢
    split at h
    · cases h
    obtain ⟨set, hset, hx⟩ := Option.map_eq_some_iff.1 h
    -- the mark of a key is its membership in the set of its shard
    have hget : g.marked key = set.contains key := by
      simp only [marked, hmode, Array.getD_eq_getD_getElem?, hset, Option.getD_some]
    split at hx <;> cases hx <;> rename_i hc
    · refine ⟨by rw [hget, hc]; rfl, fun k => ?_⟩
      by_cases hk : key = k
      · subst hk
        rw [hget, hc, Bool.true_or]
        simpa only [marked, hmode, shard] using hget.trans hc
      · simp [marked, hmode, shard, hk]
    · refine ⟨by rw [hget]; simpa using hc, fun k => ?_⟩
      simpa [marked, hmode, shard] using contains_insert hset k
  | atomic =>
    obtain ⟨hgot, hbits⟩ := tryAcquire_bitmap hmode h
    have hshape := tryAcquire_shape h
    refine ⟨by rw [hgot, marked_atomic hmode], fun k => ?_⟩
    rw [marked_atomic (hshape.mode.trans hmode), marked_atomic hmode, hshape.word_eq, hbits]
    simp only [slot_atomic_eq hmode]

/-- **A release clears the key's mark** and no other. -/
theorem release_spec (hm : g.mode ≠ .none) (h : g.release key = some g') (k : UInt64) :
    g'.marked k = (g.marked k && !decide (g.slot key = g.slot k)) := by
  cases hmode : g.mode with
  | none => contradiction
  | mutex | spin =>
    unfold release at h
    simp only [hmode, slot_exact_eq (show g.mode ≠ .atomic by simp [hmode])] at h ⊢
    split at h
    · cases h
    obtain ⟨set, hset, hx⟩ := Option.map_eq_some_iff.1 h
    cases hx
    simpa [marked, hmode, shard] using contains_erase hset k
  | atomic =>
    have hshape := release_shape h
    rw [marked_atomic (hshape.mode.trans hmode), marked_atomic hmode, hshape.word_eq, release_bitmap hmode h]
    simp only [slot_atomic_eq hmode]

@[simp] theorem new_mode (mode : Mode) (shards bits : UInt64) : (new mode shards bits).mode = mode := by
  cases mode <;> rfl

/-- A new gate has no mark. -/
theorem marked_new (mode : Mode) (shards bits key : UInt64) : (new mode shards bits).marked key = false := by
  cases mode with
  | none => rfl
  | mutex | spin =>
    simp only [new, marked, Array.getD_eq_getD_getElem?, Array.getElem?_replicate]
    split <;> rfl
  | atomic => exact Bits.bitAt_replicate _ _ _

end Seckill.InflightGuard
