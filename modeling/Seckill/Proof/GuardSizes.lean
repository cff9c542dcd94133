import Seckill.Proof.Bundle
import Seckill.Proof.Guard
import Seckill.Spec.InflightTokens

/-!
# The sizes of the gate

`InBounds g key`: a call for `key` divides by no zero and indexes within its arrays.

* `lock_inBounds`: the gate that `buildBundle` makes of a configuration.
* `sizes_iff_configured`: the numbers with which the calls are defined.
-/

namespace Seckill

namespace InflightGuard

variable {g g' : InflightGuard} {key : UInt64} {mode : Mode} {shards bits : UInt64}

/-- **A call for the key is defined**: no division by zero, and the index is within the
array. -/
def InBounds (g : InflightGuard) (key : UInt64) : Prop :=
  match g.mode with
  | .none => True
  | .mutex | .spin => g.shards ≠ 0 ∧ g.shard key < g.sets.size
  | .atomic => g.bits ≠ 0 ∧ g.word key < g.bitmap.size

/-- The sizes with which every key is in bounds: some shards, or some bits whose words
can be counted. -/
def SizesFit (mode : Mode) (shards bits : UInt64) : Prop :=
  match mode with
  | .none => True
  | .mutex | .spin => shards ≠ 0
  | .atomic => bits ≠ 0 ∧ bits.toNat + 63 < 2 ^ 64

theorem isSome_ite_map {α β : Type} {p : Prop} [Decidable p] {a : Array α} {i : ℕ} {f : α → β} :
    (if p then none else a[i]?.map f).isSome = true ↔ ¬p ∧ i < a.size := by
  split
  next hp => simp [hp]
  next hp => simp [hp]

theorem tryAcquire_isSome : (g.tryAcquire key).isSome = true ↔ g.InBounds key := by
  unfold tryAcquire InBounds
  cases g.mode with
  | none => exact iff_of_true rfl trivial
  | mutex | spin | atomic => exact isSome_ite_map

theorem release_isSome_iff : (g.release key).isSome = true ↔ g.InBounds key := by
  unfold release InBounds
  cases g.mode with
  | none => exact iff_of_true rfl trivial
  | mutex | spin | atomic => exact isSome_ite_map

theorem SameShape.inBounds (h : SameShape g g') : g'.InBounds key ↔ g.InBounds key := by
  rw [← release_isSome_iff, ← release_isSome_iff, h.release_isSome]

theorem shard_lt (h : shards ≠ 0) (key : UInt64) : (key % shards).toNat < shards.toNat := by
  have hpos : 0 < shards.toNat := Nat.pos_of_ne_zero fun h0 => h (UInt64.toNat_inj.1 h0)
  rw [UInt64.toNat_mod]
  exact Nat.mod_lt _ hpos

theorem word_toNat (g : InflightGuard) (key : UInt64) : g.word key = key.toNat % g.bits.toNat / 64 := by
  unfold word
  rw [UInt64.toNat_shiftRight, UInt64.toNat_mod, show (6 : UInt64).toNat % 64 = 6 from rfl,
    Nat.shiftRight_eq_div_pow]

theorem words_toNat (bits : UInt64) : ((bits + 63) / 64).toNat = (bits.toNat + 63) % 2 ^ 64 / 64 := by
  rw [UInt64.toNat_div, UInt64.toNat_add, show (64 : UInt64).toNat = 64 from rfl, show (63 : UInt64).toNat = 63 from rfl]

/-- The words cover the bits exactly when their number does not wrap: where it does, there
is no word at all. -/
theorem word_lt_iff (h : bits ≠ 0) (key : UInt64) :
    key.toNat % bits.toNat / 64 < (bits.toNat + 63) % 2 ^ 64 / 64 ↔ bits.toNat + 63 < 2 ^ 64 := by
  have hpos : 0 < bits.toNat := Nat.pos_of_ne_zero fun h0 => h (UInt64.toNat_inj.1 h0)
  have hmod := Nat.mod_lt key.toNat hpos
  have hlt := bits.toNat_lt
  omega

/-- **A new gate is in bounds**, for any key, exactly when its sizes fit. -/
theorem new_inBounds (mode : Mode) (shards bits key : UInt64) :
    (new mode shards bits).InBounds key ↔ SizesFit mode shards bits := by
  cases mode with
  | none => exact Iff.rfl
  | mutex | spin =>
    unfold InBounds SizesFit new shard
    dsimp only
    rw [Array.size_replicate]
    exact ⟨fun h => h.1, fun h => ⟨h, shard_lt h key⟩⟩
  | atomic =>
    unfold InBounds SizesFit
    rw [word_toNat]
    unfold new
    dsimp only
    rw [Array.size_replicate, words_toNat]
    exact and_congr_right fun h => word_lt_iff h key

end InflightGuard

/-! ## Every reachable state -/

namespace InflightTokens

open Machine InflightGuard

variable {ρ : Type} {key : ρ → UInt64} {s s' : InflightTokens ρ} {e : Ev ρ}

theorem tryAcquire_eq {i : ℕ} {r : ρ} (h : s.tryAcquire key i r = some s') :
    ∃ got, s.guard.tryAcquire (key r) = some (s'.guard, got) ∧
      s'.live = if got then Function.update s.live i (some r) else s.live := by
  obtain ⟨⟨g, got⟩, hg, rfl⟩ := Option.map_eq_some_iff.1 h
  exact ⟨got, hg, rfl⟩

theorem release_eq {i : ℕ} {r : ρ} (h : s.release key i r = some s') :
    s.guard.release (key r) = some s'.guard ∧ s'.live = Function.update s.live i none := by
  obtain ⟨g, hg, rfl⟩ := Option.map_eq_some_iff.1 h
  exact ⟨hg, rfl⟩

/-- What a step does. -/
theorem step_cases (h : step key s e = some s') :
    (∃ i r, e = .tryAcquire i r ∧ s.live i = none ∧ s.tryAcquire key i r = some s') ∨
      ∃ i r, e = .release i ∧ s.live i = some r ∧ s.release key i r = some s' := by
  cases e with
  | tryAcquire i r =>
    left
    unfold step at h
    dsimp only at h
    split at h
    · cases h
    next hnone => exact ⟨i, r, rfl, Option.not_isSome_iff_eq_none.1 hnone, h⟩
  | release i =>
    right
    obtain ⟨r, hr, hs'⟩ := Option.bind_eq_some_iff.1 h
    exact ⟨i, r, rfl, hr, hs'⟩

theorem step_shape (h : step key s e = some s') : SameShape s.guard s'.guard := by
  rcases step_cases h with ⟨i, r, -, -, hacquire⟩ | ⟨i, r, -, -, hrelease⟩
  · obtain ⟨got, hgot, -⟩ := tryAcquire_eq hacquire
    exact tryAcquire_shape hgot
  · exact release_shape (release_eq hrelease).1

/-- **No run changes the configuration** or the sizes of the arrays. -/
theorem run_shape {mode : Mode} {shards bits : UInt64} {es : List (Ev ρ)}
    (h : run (step key) (.new mode shards bits) es = some s) : SameShape (.new mode shards bits) s.guard :=
  run_inv (I := fun s => SameShape (.new mode shards bits) s.guard)
    (fun _ _ _ hshape hstep => hshape.trans (step_shape hstep)) ⟨rfl, rfl, rfl, rfl, rfl⟩ h

/-- In every state a run reaches, every key is in bounds exactly when the sizes fit. -/
theorem run_inBounds {mode : Mode} {shards bits : UInt64} {es : List (Ev ρ)}
    (h : run (step key) (.new mode shards bits) es = some s) (k : UInt64) :
    s.guard.InBounds k ↔ SizesFit mode shards bits :=
  (run_shape h).inBounds.trans (new_inBounds mode shards bits k)

/-! ## The configured sizes -/

/-- An `int` as a `size_t`. -/
def size (n : Int32) : UInt64 := (sizeT n.toInt).toUInt64

/-- The configurations that are safe: some shards, or some bits and not one of the 63
negative numbers whose bits need a word more than a `size_t` counts. -/
def Configured (mode : Mode) (shards bits : Int32) : Prop :=
  match mode with
  | .none => True
  | .mutex | .spin => shards.toInt ≠ 0
  | .atomic => bits.toInt ≠ 0 ∧ ¬(-63 ≤ bits.toInt ∧ bits.toInt ≤ -1)

instance (mode : Mode) (shards bits : Int32) : Decidable (Configured mode shards bits) :=
  match mode with
  | .none => isTrue trivial
  | .mutex | .spin => inferInstanceAs (Decidable (shards.toInt ≠ 0))
  | .atomic => inferInstanceAs (Decidable (bits.toInt ≠ 0 ∧ ¬(-63 ≤ bits.toInt ∧ bits.toInt ≤ -1)))

theorem toNat_size (n : Int32) : (size n).toNat = (n.toInt % 2 ^ 64).toNat := by
  have hlt : (n.toInt % 2 ^ 64).toNat < 2 ^ 64 := by omega
  unfold size sizeT
  rw [Nat.toUInt64_eq, UInt64.toNat_ofNat', Nat.mod_eq_of_lt hlt]

theorem size_ne_zero (n : Int32) : size n ≠ 0 ↔ n.toInt ≠ 0 := by
  have hle := n.le_toInt
  have hlt := n.toInt_lt
  rw [ne_eq, ← UInt64.toNat_inj, toNat_size, show (0 : UInt64).toNat = 0 from rfl]
  omega

theorem sizesFit_size (mode : Mode) (shards bits : Int32) :
    SizesFit mode (size shards) (size bits) ↔ Configured mode shards bits := by
  cases mode with
  | none => exact Iff.rfl
  | mutex | spin => exact size_ne_zero shards
  | atomic =>
    refine and_congr (size_ne_zero bits) ?_
    have hle := bits.le_toInt
    have hlt := bits.toInt_lt
    rw [toNat_size]
    omega

/-- A number that is read as an `int` is one. -/
theorem exists_int32 {v : Json} (h : v.IsCfgInt) {d : ℤ} (hd : Json.isInt d = true) :
    ∃ n : Int32, n.toInt = v.intOr d := by
  have hint : Json.isInt (v.intOr d) = true := by
    cases v with
    | int n => exact h
    | real text trunc =>
      cases trunc with
      | none => exact h.elim
      | some n => exact h.1
    | null | bool b | str t | arr items | obj fields => exact hd
  unfold Json.isInt at hint
  simp only [Bool.and_eq_true, decide_eq_true_eq] at hint
  exact ⟨.ofInt (v.intOr d), Int32.toInt_ofInt_of_le hint.1 hint.2⟩

/-- The guard of a configuration has sizes that were an `int`. -/
theorem lock_eq {D : Type} {asDouble : Json → D} {redis : Bool} {cc : Json} {b : AppBundle D}
    (h : buildBundle asDouble redis cc = .ok b) :
    ∃ shards bits : Int32, shards.toInt = (cc.knob "seckill_lock" "shards").intOr 64 ∧
      bits.toInt = (cc.knob "seckill_lock" "bits").intOr 65536 ∧ b.lock = .new b.mode (size shards) (size bits) := by
  obtain ⟨hreads, rfl⟩ := buildBundle_ok.1 h
  obtain ⟨shards, hshards⟩ := exists_int32 hreads.shards (d := 64) (by decide)
  obtain ⟨bits, hbits⟩ := exists_int32 hreads.bits (d := 65536) (by decide)
  refine ⟨shards, bits, hshards, hbits, ?_⟩
  unfold AppBundle.lock size
  rw [hshards, hbits]
  rfl

/-- **The gate that the application constructs**, in every state a run reaches: every key is
in bounds exactly when the numbers of its configuration are safe. -/
theorem lock_inBounds {D : Type} {asDouble : Json → D} {redis : Bool} {cc : Json} {b : AppBundle D}
    (h : buildBundle asDouble redis cc = .ok b) :
    ∃ shards bits : Int32, shards.toInt = (cc.knob "seckill_lock" "shards").intOr 64 ∧
      bits.toInt = (cc.knob "seckill_lock" "bits").intOr 65536 ∧
        ∀ es s, run (step key) ⟨b.lock, fun _ => none⟩ es = some s →
          ∀ k, s.guard.InBounds k ↔ Configured b.mode shards bits := by
  obtain ⟨shards, bits, hshards, hbits, hlock⟩ := lock_eq h
  refine ⟨shards, bits, hshards, hbits, fun es s hrun k => ?_⟩
  rw [hlock] at hrun
  exact (run_inBounds hrun k).trans (sizesFit_size b.mode shards bits)

/-- **The sizes of the gate.** Whatever the mode and the two numbers are, in every state a
run reaches and for every key: the calls divide by no zero and their indexes are within
the arrays that were allocated, if and only if the configuration is safe. The words of the
bitmap are counted in a `size_t` that wraps. -/
theorem sizes_iff_configured (mode : Mode) (shards bits : Int32) (es : List (Ev UInt64)) (s : InflightTokens UInt64)
    (h : run (step id) (.new mode (size shards) (size bits)) es = some s) (key : UInt64) :
    (((s.guard.tryAcquire key).isSome = true ∧ (s.guard.release key).isSome = true ∧ s.guard.InBounds key) ↔
        Configured mode shards bits) ∧
      (mode = .atomic → s.guard.bitmap.size = ((size bits).toNat + 63) % 2 ^ 64 / 64) ∧
      (mode = .mutex ∨ mode = .spin → s.guard.sets.size = (size shards).toNat) := by
  have hinBounds := (run_inBounds h key).trans (sizesFit_size mode shards bits)
  have hshape := run_shape h
  refine ⟨?_, ?_, ?_⟩
  · rw [tryAcquire_isSome, release_isSome_iff, and_self, and_self]
    exact hinBounds
  · rintro rfl
    rw [hshape.bitmap, ← words_toNat]
    exact Array.size_replicate
  · rintro (rfl | rfl)
    · rw [hshape.sets]
      exact Array.size_replicate
    · rw [hshape.sets]
      exact Array.size_replicate

/-- No shards, and one bit less than none. -/
theorem first_call_undefined :
    (InflightGuard.new .mutex (size 0) (size 65536)).tryAcquire (makeKey 1 1) = none ∧
      (InflightGuard.new .atomic (size 64) (size (-1))).tryAcquire (makeKey 1 1) = none := by
  decide +kernel

theorem sizes_iff_configured_one : ∃ s, run (step id) (.new .atomic (size 64) (size 1)) [.tryAcquire 0 7] = some s ∧
    s.guard.bitmap.size = 1 ∧ (s.guard.release 7).isSome = true := by
  have hrun : (run (step id) (.new .atomic (size 64) (size 1) : InflightTokens UInt64) [.tryAcquire 0 7]).isSome = true := by
    decide +kernel
  obtain ⟨s, hs⟩ := Option.isSome_iff_exists.1 hrun
  obtain ⟨hiff, hwords, -⟩ := sizes_iff_configured .atomic 64 1 _ s hs 7
  obtain ⟨-, hrelease, -⟩ := hiff.2 (by decide)
  exact ⟨s, hs, (hwords rfl).trans (by decide +kernel), hrelease⟩

end InflightTokens

end Seckill
