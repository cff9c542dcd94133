import Seckill.Spec.SkuCache

/-!
# What the sku cache serves

What is under a key is what Redis has (`stored`) and what L1 has and did not let
expire (`localValue`). `get_cases`: a hit serves one of the two. `setex_wrote`: a
write whose command does not fail leaves its value under its key (`Holds`), and
under another key what was there, or nothing in L1.

`Fresh c key v`: under the key there is nothing but `v`, if anything at all. It is
kept by time and by the writes of other keys, and restored by a write of `v`.
-/

namespace Seckill.SkuCache

open Redis

variable {cfg : Config} {c c' : SkuCache} {key : Key} {v : String}

/-- The string Redis has under a key. -/
def stored (c : SkuCache) (key : Key) : Option String := (c.redis.find key).map fun e => e.val.text

theorem stored_congr (h : c'.redis = c.redis) (key : Key) : c'.stored key = c.stored key := by
  unfold stored
  rw [h]

/-- The string L1 has under a key, not expired. -/
def localValue (c : SkuCache) (key : Key) : Option String :=
  c.local_.bind fun l => (l.find key).bind fun item =>
    if item.expireAt ≤ c.redis.now then none else some item.value

/-- Redis has the value under the key, and L1 has no other. -/
structure Holds (c : SkuCache) (key : Key) (v : String) : Prop where
  stored : c.stored key = some v
  localValue : ∀ s, c.localValue key = some s → s = v

/-- Under the key there is no value but this one. -/
structure Fresh (c : SkuCache) (key : Key) (v : String) : Prop where
  stored : ∀ s, c.stored key = some s → s = v
  localValue : ∀ s, c.localValue key = some s → s = v

theorem Holds.fresh (h : c.Holds key v) : c.Fresh key v :=
  ⟨fun s hs => by rw [h.stored] at hs; exact (Option.some.inj hs).symm, h.localValue⟩

/-! ## Reading -/

theorem getLocal_value (key : Key) (c : SkuCache) : (getLocal key c).1 = c.localValue key := by
  unfold getLocal localValue LocalLruCache.get
  cases c.local_ with
  | none => rfl
  | some l =>
    simp only [Option.bind_some]
    cases l.find key with
    | none => rfl
    | some item => simp only [Option.bind_some]; split <;> rfl

theorem getLocal_redis (key : Key) (c : SkuCache) : (getLocal key c).2.redis = c.redis := by
  unfold getLocal
  split <;> rfl

/-- A GET that does not fail serves what Redis has, if that is not empty. -/
theorem getRedis_value (key : Key) (c : SkuCache) : (getRedis none key c).1 = (c.stored key).filter (· ≠ "") := by
  unfold getRedis issue exec stored
  rcases Redis.get_cases key c.redis with h | ⟨e, err, hfind, hother, h⟩
  · simp only [h]
    cases c.redis.find key with
    | none => simp
    | some e =>
      by_cases he : e.val.text = "" <;> simp [he, Option.filter]
  · simp only [h]
    rw [hfind, Option.map_some, hother]
    rfl

/-- L1 first. -/
theorem get_local (henabled : cfg.enabled = true) (err : Option String) (h : c.localValue key = some v) :
    (get cfg err key c).1 = some v := by
  rw [← getLocal_value] at h
  unfold get
  rw [if_neg (by simp [henabled])]
  cases hl : getLocal key c with
  | mk l c₁ =>
    rw [hl] at h
    simp only at h
    subst h
    rfl

/-- Then Redis. -/
theorem get_redis (henabled : cfg.enabled = true) (err : Option String) (h : c.localValue key = none) :
    ∃ c₁ : SkuCache, c₁.redis = c.redis ∧ (get cfg err key c).1 = (getRedis err key c₁).1 := by
  rw [← getLocal_value] at h
  refine ⟨(getLocal key c).2, getLocal_redis key c, ?_⟩
  unfold get
  rw [if_neg (by simp [henabled])]
  cases hl : getLocal key c with
  | mk l c₁ =>
    rw [hl] at h
    simp only at h
    subst h
    rfl

/-- What the two levels say of a key: L1, or else Redis if the GET does not fail. -/
def tells (cfg : Config) (err : Option String) (key : Key) (c : SkuCache) : Option String :=
  if ¬cfg.enabled then none
  else match c.localValue key, err with
    | some v, _ => some v
    | none, none => (c.stored key).filter (· ≠ "")
    | none, some _ => none

/-- **What a read serves.** -/
theorem get_tells (cfg : Config) (err : Option String) (key : Key) (c : SkuCache) :
    (get cfg err key c).1 = c.tells cfg err key := by
  unfold tells
  by_cases henabled : cfg.enabled = true
  · rw [if_neg (by simp [henabled])]
    cases hl : c.localValue key with
    | some w => exact get_local henabled err hl
    | none =>
      obtain ⟨c₁, hredis, hget⟩ := get_redis henabled err hl
      rw [hget]
      cases err with
      | some what => rfl
      | none =>
        rw [getRedis_value]
        exact congrArg (Option.filter _) (stored_congr hredis key)
  · rw [if_pos henabled, get, if_pos henabled]

/-- **A hit** serves what L1 or Redis has. -/
theorem get_cases {err : Option String} (h : (get cfg err key c).1 = some v) :
    c.localValue key = some v ∨ c.stored key = some v := by
  rw [get_tells] at h
  unfold tells at h
  split at h
  · cases h
  · split at h
    · rename_i hl
      exact Or.inl (hl.trans h)
    · exact Or.inr (Option.filter_eq_some_iff.1 h).1
    · cases h

/-- A fresh key is served fresh. -/
theorem Fresh.get {err : Option String} {s : String} (h : c.Fresh key v) (hs : (get cfg err key c).1 = some s) :
    s = v := by
  rcases get_cases hs with hl | hr
  · exact h.localValue s hl
  · exact h.stored s hr

/-- With a healthy Redis, what is held is served. -/
theorem Holds.get (h : c.Holds key v) (henabled : cfg.enabled = true) (hv : v ≠ "") :
    (get cfg none key c).1 = some v := by
  cases hl : c.localValue key with
  | some w =>
    rw [get_local henabled none hl, h.localValue w hl]
  | none =>
    obtain ⟨c₁, hredis, hget⟩ := get_redis henabled none hl
    rw [hget, getRedis_value, stored_congr hredis, h.stored]
    simp [Option.filter, hv]

/-! ## Time -/

theorem stored_wait {s : String} (ms : ℕ) (h : (c.wait ms).stored key = some s) : c.stored key = some s := by
  obtain ⟨e, he, rfl⟩ := Option.map_eq_some_iff.1 h
  have hfind : (c.redis.wait ms).find key = some e := he
  rw [Store.find_wait, Option.filter_eq_some_iff] at hfind
  unfold stored
  rw [hfind.1]
  rfl

theorem localValue_wait {s : String} (ms : ℕ) (h : (c.wait ms).localValue key = some s) :
    c.localValue key = some s := by
  obtain ⟨l, hl, h⟩ := Option.bind_eq_some_iff.1 h
  obtain ⟨item, hitem, h⟩ := Option.bind_eq_some_iff.1 h
  have hlocal : c.local_ = some l := hl
  have hnow : (c.wait ms).redis.now = c.redis.now + ms := rfl
  split at h
  next => cases h
  next hexp =>
    rw [hnow] at hexp
    unfold localValue
    rw [hlocal, Option.bind_some, hitem, Option.bind_some, if_neg (by push_cast at hexp; omega)]
    exact h

theorem Fresh.wait (h : c.Fresh key v) (ms : ℕ) : (c.wait ms).Fresh key v :=
  ⟨fun s hs => h.stored s (stored_wait ms hs), fun s hs => h.localValue s (localValue_wait ms hs)⟩

/-! ## Writing -/

/-- **What one write of `v` under `key` does**: the clock stands, and without an error
the value is held; every other key has what it had, or nothing in L1. -/
structure Wrote (key : Key) (v : String) (c c' : SkuCache) : Prop where
  now : c'.redis.now = c.redis.now
  err : c.stats.err ≤ c'.stats.err
  self : c'.stats.err = c.stats.err → c'.Holds key v
  stored : ∀ k, k ≠ key → c'.stored k = c.stored k
  localValue : ∀ k, k ≠ key → c'.localValue k = c.localValue k ∨ c'.localValue k = none

/-- The command of a write: it took effect, or its error was counted. -/
theorem issue_setex (err : Option String) (key : Key) (value : String) (ttl : ℤ) (c : SkuCache) :
    (issue err (Redis.setex key ttl (.raw value)) c).2.local_ = c.local_ ∧
      ((issue err (Redis.setex key ttl (.raw value)) c).2.redis = c.redis ∧
          (issue err (Redis.setex key ttl (.raw value)) c).2.stats.err = c.stats.err + 1 ∨
        (issue err (Redis.setex key ttl (.raw value)) c).2.redis =
            c.redis.put key (some ⟨.raw value, some (c.redis.now + ttl.toNat * 1000)⟩) ∧
          (issue err (Redis.setex key ttl (.raw value)) c).2.stats.err = c.stats.err) := by
  unfold issue exec Redis.setex
  cases err with
  | some what => exact ⟨rfl, Or.inl ⟨rfl, rfl⟩⟩
  | none =>
    dsimp only
    split
    next a s h =>
      split at h
      next => cases h
      next => cases h; exact ⟨rfl, Or.inr ⟨rfl, rfl⟩⟩
    next what s h =>
      split at h
      next => cases h; exact ⟨rfl, Or.inl ⟨rfl, rfl⟩⟩
      next => cases h

/-- What L1 answers after a `put`, unless it evicted the key. -/
theorem localValue_put {d : SkuCache} (hlocal : d.local_ = c.local_) (hnow : d.redis.now = c.redis.now) (key : Key)
    (value : String) (ttl : ℤ) (k : Key) :
    localValue { d with local_ := d.local_.map fun l => l.put d.redis.now key value ttl } k =
        (if k = key then (c.local_.bind fun _ => if (d.redis.now : ℤ) + ttl * 1000 ≤ d.redis.now then none else some value)
          else c.localValue k) ∨
      localValue { d with local_ := d.local_.map fun l => l.put d.redis.now key value ttl } k = none := by
  unfold localValue
  rw [hlocal]
  cases c.local_ with
  | none => exact Or.inr rfl
  | some l =>
    simp only [Option.map_some, Option.bind_some]
    rcases Lru.find_put l key k ⟨value, (d.redis.now : ℤ) + ttl * 1000⟩ with h | h
    · left
      unfold LocalLruCache.put
      rw [h]
      split
      next => rfl
      next => rw [hnow]
    · right
      unfold LocalLruCache.put
      rw [h]
      rfl

theorem setex_wrote (henabled : cfg.enabled = true) (err : Option String) (key : Key) (value : String) (ttl : ℤ)
    (c : SkuCache) : Wrote key value c (setex cfg err key value ttl c) := by
  obtain ⟨hlocal, hredis⟩ := issue_setex err key value ttl { c with stats := { c.stats with write := c.stats.write + 1 } }
  unfold setex
  rw [if_neg (by simp [henabled])]
  set d := (issue err (Redis.setex key ttl (.raw value)) { c with stats := { c.stats with write := c.stats.write + 1 } }).2
  have hnow : d.redis.now = c.redis.now := by
    rcases hredis with ⟨h, -⟩ | ⟨h, -⟩
    · rw [h]
    · rw [h, Store.put_now]
  -- L1 is written whatever became of the command
  have hput := localValue_put (c := c) (d := d) hlocal hnow key value ttl
  have herr : d.redis = c.redis ∧ d.stats.err = c.stats.err + 1 ∨
      d.redis = c.redis.put key (some ⟨.raw value, some (c.redis.now + ttl.toNat * 1000)⟩) ∧
        d.stats.err = c.stats.err := hredis
  refine ⟨hnow, ?_, ?_, ?_, ?_⟩
  · change c.stats.err ≤ d.stats.err
    omega
  · intro hclean
    have hsame : d.stats.err = c.stats.err := hclean
    have hwritten := (herr.resolve_left fun h => by omega).1
    constructor
    · have hfind : d.redis.find key = some ⟨.raw value, some (c.redis.now + ttl.toNat * 1000)⟩ := by
        rw [hwritten, Store.find_put_self, Option.filter_eq_some_iff]
        exact ⟨rfl, by simp [Entry.alive]⟩
      change (d.redis.find key).map _ = _
      rw [hfind]
      rfl
    · intro s hs
      rcases hput key with hk | hk
      · rw [hk, if_pos rfl] at hs
        obtain ⟨l, -, hs⟩ := Option.bind_eq_some_iff.1 hs
        split at hs
        next => cases hs
        next => exact (Option.some.inj hs).symm
      · rw [hk] at hs
        cases hs
  · intro k hk
    change (d.redis.find k).map _ = (c.redis.find k).map _
    rcases herr with ⟨h, -⟩ | ⟨h, -⟩
    · rw [h]
    · rw [h, Store.find_put_of_ne _ _ hk]
  · intro k hk
    rcases hput k with h | h
    · left
      rw [h, if_neg hk]
    · exact Or.inr h

theorem Wrote.fresh {k : Key} {w : String} (h : Wrote key v c c') (hk : k ≠ key) (hc : c.Fresh k w) : c'.Fresh k w := by
  constructor
  · intro s hs
    rw [h.stored k hk] at hs
    exact hc.stored s hs
  · intro s hs
    rcases h.localValue k hk with hsame | hnone
    · exact hc.localValue s (hsame ▸ hs)
    · rw [hnone] at hs
      cases hs

theorem Wrote.holds {k : Key} {w : String} (h : Wrote key v c c') (hk : k ≠ key) (hc : c.Holds k w) : c'.Holds k w :=
  ⟨(h.stored k hk).trans hc.stored, (h.fresh hk hc.fresh).localValue⟩

/-! ## Several writes -/

/-- The writes of these values under these keys, in turn. -/
inductive Writes : List (Key × String) → SkuCache → SkuCache → Prop
  | nil (c : SkuCache) : Writes [] c c
  | cons {key : Key} {v : String} {ws : List (Key × String)} {c c' c'' : SkuCache} (h : Wrote key v c c')
      (hs : Writes ws c' c'') : Writes ((key, v) :: ws) c c''

variable {ws : List (Key × String)}

theorem Writes.eq_of_nil (hs : Writes [] c c') : c' = c := by
  cases hs
  rfl

theorem Writes.snoc {c'' : SkuCache} (hs : Writes ws c c') (h : Wrote key v c' c'') :
    Writes (ws ++ [(key, v)]) c c'' := by
  induction hs with
  | nil c => exact .cons h (.nil _)
  | cons h' _ ih => exact .cons h' (ih h)

theorem Writes.err (hs : Writes ws c c') : c.stats.err ≤ c'.stats.err := by
  induction hs with
  | nil c => exact Nat.le_refl _
  | cons h _ ih => exact Nat.le_trans h.err ih

theorem Writes.holds_other (hs : Writes ws c c') (hkey : key ∉ ws.map Prod.fst) (h : c.Holds key v) :
    c'.Holds key v := by
  induction hs with
  | nil c => exact h
  | cons h' _ ih =>
    rw [List.map_cons, List.mem_cons, not_or] at hkey
    exact ih hkey.2 (h'.holds hkey.1 h)

theorem Writes.fresh_other (hs : Writes ws c c') (hkey : key ∉ ws.map Prod.fst) (h : c.Fresh key v) :
    c'.Fresh key v := by
  induction hs with
  | nil c => exact h
  | cons h' _ ih =>
    rw [List.map_cons, List.mem_cons, not_or] at hkey
    exact ih hkey.2 (h'.fresh hkey.1 h)

/-- **Every value written is held**, under different keys and without an error. -/
theorem Writes.holds (hs : Writes ws c c') (hkeys : (ws.map Prod.fst).Nodup) (hclean : c'.stats.err = c.stats.err)
    (hmem : (key, v) ∈ ws) : c'.Holds key v := by
  induction hs with
  | nil c => cases hmem
  | cons h hs ih =>
    rw [List.map_cons, List.nodup_cons] at hkeys
    have hfirst := h.err
    have hrest := hs.err
    rcases List.mem_cons.1 hmem with heq | hmem
    · obtain ⟨rfl, rfl⟩ := Prod.mk.inj heq
      exact hs.holds_other hkeys.1 (h.self (by omega))
    · exact ih hkeys.2 (by omega) hmem

end Seckill.SkuCache
