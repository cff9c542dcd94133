import Seckill.Lib.Redis

/-!
# Scripts and secrets

Two stores are `Apart k` if they differ at most in the value under `k`: it is there in
both, to the same time, or in neither. Two scripts are `Alike R` if on stores related
by `R` they give the same reply and leave stores related by `R`. A script that reads
`k` only through `EXISTS` and `TTL` is so, with itself: its replies say nothing about
the value. There is one rule for each way to build a script.
-/

namespace Redis

variable {K : Type} {k k' : K} {s t : Store K}

/-- The stores differ at most in the value under `k`. -/
structure Apart (k : K) (s t : Store K) : Prop where
  now : t.now = s.now
  other : ∀ k', k' ≠ k → t.cell k' = s.cell k'
  expireAt : (t.cell k).map Entry.expireAt = (s.cell k).map Entry.expireAt

theorem Apart.refl (k : K) (s : Store K) : Apart k s s := ⟨rfl, fun _ _ => rfl, rfl⟩

theorem Apart.wait (h : Apart k s t) (ms : ℕ) : Apart k (s.wait ms) (t.wait ms) :=
  ⟨congrArg (· + ms) h.now, h.other, h.expireAt⟩

/-- Another key reads the same. -/
theorem Apart.find (h : Apart k s t) (hk : k' ≠ k) : t.find k' = s.find k' := by
  unfold Store.find
  rw [h.other k' hk, h.now]

theorem Apart.count (h : Apart k s t) (hk : k' ≠ k) : count t k' = count s k' := count_congr (h.find hk)

theorem map_expireAt_find (s : Store K) (k : K) :
    (s.find k).map Entry.expireAt =
      ((s.cell k).map Entry.expireAt).filter fun x => Entry.alive s.now ⟨.other, x⟩ := by
  unfold Store.find
  cases s.cell k with
  | none => rfl
  | some e =>
    have halive : Entry.alive s.now ⟨.other, e.expireAt⟩ = e.alive s.now := rfl
    by_cases ha : e.alive s.now = true <;> simp [Option.filter, halive, ha]

/-- Of `k` itself the time is the same. -/
theorem Apart.find_expireAt (h : Apart k s t) : (t.find k).map Entry.expireAt = (s.find k).map Entry.expireAt := by
  rw [map_expireAt_find, map_expireAt_find, h.expireAt, h.now]

theorem Apart.find_isSome (h : Apart k s t) (k' : K) : (t.find k').isSome = (s.find k').isSome := by
  by_cases hk : k' = k
  · have hmap := congrArg Option.isSome h.find_expireAt
    rwa [Option.isSome_map, Option.isSome_map, ← hk] at hmap
  · rw [h.find hk]

/-- The two scripts have the same reply, and their stores stay related. -/
def Alike (R : Store K → Store K → Prop) {α : Type} (x y : Script K α) : Prop :=
  ∀ s t, R s t → (y t).1 = (x s).1 ∧ R (x s).2 (y t).2

variable {α β : Type} {R : Store K → Store K → Prop}

theorem alike_pure (a : α) : Alike R (Pure.pure a : Script K α) (Pure.pure a) := fun _ _ h => ⟨rfl, h⟩

theorem alike_bind {x y : Script K α} {f g : α → Script K β} (h : Alike R x y) (hf : ∀ a, Alike R (f a) (g a)) :
    Alike R (x >>= f) (y >>= g) := by
  intro s t hst
  obtain ⟨hreply, hstores⟩ := h s t hst
  rw [Script.bind_run, Script.bind_run]
  revert hreply hstores
  rcases x s with ⟨r, s'⟩
  rcases y t with ⟨r', t'⟩
  rintro (rfl : r' = r) hstores
  cases r' with
  | ok a => exact hf a s' t' hstores
  | error err => exact ⟨rfl, hstores⟩

theorem alike_ite {p : Prop} [Decidable p] {x x' y y' : Script K α} (h : Alike R x x') (h' : Alike R y y') :
    Alike R (if p then x else y) (if p then x' else y') := by
  split
  · exact h
  · exact h'

theorem alike_tonumber (v : Val) : Alike R (tonumber v : Script K ℤ) (tonumber v) := by
  intro s t h
  unfold tonumber
  cases v.number? with
  | none => exact ⟨rfl, h⟩
  | some n => exact ⟨rfl, h⟩

/-! ## The commands -/

theorem alike_exists (k' : K) : Alike (Apart k) (exists_ k') (exists_ k') := fun _ _ h =>
  ⟨congrArg Except.ok (h.find_isSome k'), h⟩

theorem alike_get (hk : k' ≠ k) : Alike (Apart k) (get k') (get k') := by
  intro s t h
  unfold get
  rw [h.find hk]
  split
  · exact ⟨rfl, h⟩
  · exact ⟨rfl, h⟩

theorem alike_ttl (k' : K) : Alike (Apart k) (ttl k') (ttl k') := by
  intro s t h
  refine ⟨?_, h⟩
  have hmap : (t.find k').map Entry.expireAt = (s.find k').map Entry.expireAt := by
    by_cases hk : k' = k
    · rw [hk]
      exact h.find_expireAt
    · rw [h.find hk]
  have hread : ∀ u : Store K, (ttl k' u).1 = .ok (match (u.find k').map Entry.expireAt with
      | none => -2
      | some none => -1
      | some (some x) => (((x - u.now + 500) / 1000 : ℕ) : ℤ)) := by
    intro u
    unfold ttl
    cases u.find k' with
    | none => rfl
    | some e => cases he : e.expireAt <;> simp [he]
  rw [hread, hread, hmap, h.now]

variable [DecidableEq K]

/-- The same is written to another key. -/
theorem Apart.put (h : Apart k s t) (k' : K) (e : Option Entry) : Apart k (s.put k' e) (t.put k' e) := by
  refine ⟨h.now, fun k'' hk => ?_, ?_⟩
  · by_cases hkk : k'' = k'
    · rw [hkk, Store.cell_put_self, Store.cell_put_self]
    · rw [Store.cell_put_of_ne _ _ hkk, Store.cell_put_of_ne _ _ hkk, h.other k'' hk]
  · by_cases hkk : k = k'
    · rw [hkk, Store.cell_put_self, Store.cell_put_self]
    · rw [Store.cell_put_of_ne _ _ hkk, Store.cell_put_of_ne _ _ hkk, h.expireAt]

/-- Two values are written to `k`. -/
theorem Apart.put_self (h : Apart k s t) (v w : Val) (x : Option ℕ) :
    Apart k (s.put k (some ⟨v, x⟩)) (t.put k (some ⟨w, x⟩)) := by
  refine ⟨h.now, fun k' hk => ?_, ?_⟩
  · rw [Store.cell_put_of_ne _ _ hk, Store.cell_put_of_ne _ _ hk, h.other k' hk]
  · rw [Store.cell_put_self, Store.cell_put_self]
    rfl

theorem alike_setex (k' : K) (seconds : ℤ) (v : Val) : Alike (Apart k) (setex k' seconds v) (setex k' seconds v) := by
  intro s t h
  unfold setex
  split
  · exact ⟨rfl, h⟩
  · rw [h.now]
    exact ⟨rfl, h.put k' _⟩

/-- Two secrets are stored. -/
theorem alike_setex_self (seconds : ℤ) (v w : Val) : Alike (Apart k) (setex k seconds v) (setex k seconds w) := by
  intro s t h
  unfold setex
  split
  · exact ⟨rfl, h⟩
  · rw [h.now]
    exact ⟨rfl, h.put_self v w _⟩

theorem alike_incr (hk : k' ≠ k) : Alike (Apart k) (incr k') (incr k') := by
  intro s t h
  unfold incr
  rw [h.find hk]
  split
  · exact ⟨rfl, h.put k' _⟩
  · split
    · exact ⟨rfl, h⟩
    · exact ⟨rfl, h.put k' _⟩

theorem alike_expire (hk : k' ≠ k) (seconds : ℤ) : Alike (Apart k) (expire k' seconds) (expire k' seconds) := by
  intro s t h
  unfold expire
  rw [h.find hk, h.now]
  split
  · exact ⟨rfl, h⟩
  · split
    · exact ⟨rfl, h.put k' _⟩
    · exact ⟨rfl, h.put k' _⟩

theorem alike_expireFirst (hk : k' ≠ k) (n seconds : ℤ) :
    Alike (Apart k) (expireFirst k' n seconds) (expireFirst k' n seconds) := by
  unfold expireFirst
  exact alike_ite (alike_expire hk seconds) (alike_pure false)

theorem alike_del (k' : K) : Alike (Apart k) (del k') (del k') := fun _ _ h =>
  ⟨congrArg Except.ok (h.find_isSome k'), h.put k' none⟩

end Redis
