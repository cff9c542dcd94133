import Seckill.Proof.SkuCache

/-!
# With and without L1

`answers_local`: with a healthy Redis a sequence of operations gets the same answers
with L1 and without it. The two runs keep the same store and the same queue
(`Mirrors`), and L1 has nothing that Redis does not have too, at least as long
(`Backed`): a hit in L1 is what the GET would have been.

An eviction only takes entries from L1. An expiry is no later in L1: its entry ends
when the TTL is over, the one in Redis just after that.
-/

namespace Seckill.SkuCache

open Redis

variable {cfg : Config} {c d : SkuCache} {redis : Store Key} {l : LocalLruCache} {key : Key} {v : String}

/-! ## L1 backed by Redis -/

/-- What L1 has, not expired, Redis has too, and for no shorter time. -/
def Backed (redis : Store Key) (l : LocalLruCache) : Prop :=
  ∀ key item, l.find key = some item → (redis.now : ℤ) < item.expireAt →
    item.value ≠ "" ∧ ∃ e, redis.cell key = some e ∧ e.val.text = item.value ∧
      ∀ t : ℕ, e.expireAt = some t → item.expireAt ≤ t

theorem Backed.new (redis : Store Key) (capacity : ℕ) : Backed redis (.new capacity) := by
  intro key item h
  cases h

/-- A table with fewer entries is backed as well. -/
theorem Backed.mono {l' : LocalLruCache} (h : Backed redis l)
    (hsub : ∀ key item, l'.find key = some item → l.find key = some item) : Backed redis l' :=
  fun key item hitem => h key item (hsub key item hitem)

theorem Backed.wait (h : Backed redis l) (ms : ℕ) : Backed (redis.wait ms) l := by
  intro key item hitem hlive
  have hbefore : (redis.now : ℤ) < item.expireAt := by
    rw [Store.wait_now] at hlive
    push_cast at hlive
    omega
  exact h key item hitem hbefore

theorem Backed.get (h : Backed redis l) (now : ℕ) (key : Key) : Backed redis (l.get now key).2 := by
  refine h.mono fun k item hitem => ?_
  unfold LocalLruCache.get at hitem
  split at hitem
  next => exact hitem
  next =>
    split at hitem
    next =>
      rw [Lru.find_erase] at hitem
      split at hitem
      · cases hitem
      · exact hitem
    next => rwa [Lru.find_touch] at hitem

/-- A delete in both levels. -/
theorem Backed.del (h : Backed redis l) (key : Key) : Backed (redis.put key none) (l.erase key) := by
  intro k item hitem hlive
  rw [Lru.find_erase] at hitem
  split at hitem
  next => cases hitem
  next hne =>
    rw [Store.cell_put_of_ne _ _ hne]
    exact h k item hitem hlive

/-- A write to both levels, with the same TTL. -/
theorem Backed.put (h : Backed redis l) (key : Key) (hv : v ≠ "") {ttl : ℤ} (httl : 1 ≤ ttl) :
    Backed (redis.put key (some ⟨.raw v, some (redis.now + ttl.toNat * 1000)⟩)) (l.put redis.now key v ttl) := by
  intro k item hitem hlive
  rcases Lru.find_put l key k ⟨v, (redis.now : ℤ) + ttl * 1000⟩ with hfind | hfind
  · unfold LocalLruCache.put at hitem
    rw [hfind] at hitem
    by_cases hk : k = key
    · rw [if_pos hk] at hitem
      obtain rfl := Option.some.inj hitem
      rw [hk, Store.cell_put_self]
      refine ⟨hv, _, rfl, rfl, fun t ht => ?_⟩
      obtain rfl := Option.some.inj ht
      push_cast
      omega
    · rw [if_neg hk] at hitem
      rw [Store.cell_put_of_ne _ _ hk]
      exact h k item hitem hlive
  · -- the new entry, or another one, did not fit
    unfold LocalLruCache.put at hitem
    rw [hfind] at hitem
    cases hitem

/-- **A hit in L1 is what Redis would have said.** -/
theorem Backed.stored (h : ∀ l, c.local_ = some l → Backed c.redis l) (hv : c.localValue key = some v) :
    c.stored key = some v ∧ v ≠ "" := by
  obtain ⟨l, hl, hv⟩ := Option.bind_eq_some_iff.1 hv
  obtain ⟨item, hitem, hv⟩ := Option.bind_eq_some_iff.1 hv
  split at hv
  next => cases hv
  next hlive =>
    obtain rfl := Option.some.inj hv
    obtain ⟨hne, e, hcell, htext, hexpire⟩ := h l hl key item hitem (by omega)
    refine ⟨?_, hne⟩
    have halive : e.alive c.redis.now = true := by
      unfold Entry.alive
      split
      next => rfl
      next t ht =>
        have := hexpire t ht
        rw [decide_eq_true_eq]
        omega
    unfold SkuCache.stored
    rw [Store.find_some.2 ⟨hcell, halive⟩, Option.map_some, htext]

/-! ## The two runs -/

/-- A cache with L1, perhaps, and one without it: the same Redis, the same queue of deletes. -/
structure Mirrors (c d : SkuCache) : Prop where
  redis : c.redis = d.redis
  delayed : c.delayed = d.delayed
  without : d.local_ = none
  backed : ∀ l, c.local_ = some l → Backed c.redis l

theorem issue_kept {α : Type} (err : Option String) (x : Script Key α) (c : SkuCache) :
    (issue err x c).2.redis = (exec err x c.redis).2 ∧ (issue err x c).2.local_ = c.local_ ∧
      (issue err x c).2.delayed = c.delayed := by
  unfold issue
  split
  next h => rw [h]; exact ⟨rfl, rfl, rfl⟩
  next h => rw [h]; exact ⟨rfl, rfl, rfl⟩

theorem getRedis_kept (key : Key) (c : SkuCache) :
    (getRedis none key c).2.redis = c.redis ∧ (getRedis none key c).2.local_ = c.local_ ∧
      (getRedis none key c).2.delayed = c.delayed := by
  unfold getRedis issue exec
  rcases Redis.get_cases key c.redis with h | ⟨e, err, -, -, h⟩
  · simp only [h]
    split <;> exact ⟨rfl, rfl, rfl⟩
  · rw [h]
    exact ⟨rfl, rfl, rfl⟩

/-- A read changes nothing but the order of L1, and drops what expired. -/
theorem get_kept (cfg : Config) (key : Key) (c : SkuCache) :
    (get cfg none key c).2.redis = c.redis ∧ (get cfg none key c).2.delayed = c.delayed ∧
      ((get cfg none key c).2.local_ = c.local_ ∨
        (get cfg none key c).2.local_ = c.local_.map fun l => (l.get c.redis.now key).2) := by
  have hlocal : (getLocal key c).2.redis = c.redis ∧ (getLocal key c).2.delayed = c.delayed ∧
      (getLocal key c).2.local_ = c.local_.map fun l => (l.get c.redis.now key).2 := by
    unfold getLocal
    split
    next h => rw [h]; exact ⟨rfl, rfl, rfl⟩
    next h => rw [h]; exact ⟨rfl, rfl, rfl⟩
  unfold get
  split
  · exact ⟨rfl, rfl, Or.inl rfl⟩
  · split
    next h =>
      rw [h] at hlocal
      exact ⟨hlocal.1, hlocal.2.1, Or.inr hlocal.2.2⟩
    next c₁ h =>
      rw [h] at hlocal
      obtain ⟨hredis, hl, hdelayed⟩ := getRedis_kept key c₁
      exact ⟨hredis.trans hlocal.1, hdelayed.trans hlocal.2.1, Or.inr (hl.trans hlocal.2.2)⟩

/-- **The same answer from both.** -/
theorem Mirrors.answer (h : Mirrors c d) (key : Key) : (get cfg none key c).1 = (get cfg none key d).1 := by
  rw [get_tells, get_tells]
  unfold tells
  have hstored : d.stored key = c.stored key := stored_congr h.redis.symm key
  have hnone : d.localValue key = none := by
    unfold localValue
    rw [h.without]
    rfl
  split
  · rfl
  · rw [hnone, hstored]
    cases hl : c.localValue key with
    | none => rfl
    | some v =>
      obtain ⟨hv, hne⟩ := Backed.stored h.backed hl
      simp [hv, hne, Option.filter]

theorem Mirrors.get (h : Mirrors c d) (key : Key) : Mirrors (get cfg none key c).2 (get cfg none key d).2 := by
  obtain ⟨hredis, hdelayed, hlocal⟩ := get_kept cfg key c
  obtain ⟨hredis', hdelayed', hlocal'⟩ := get_kept cfg key d
  refine ⟨by rw [hredis, hredis', h.redis], by rw [hdelayed, hdelayed', h.delayed], ?_, fun l hl => ?_⟩
  · rcases hlocal' with heq | heq
    · rw [heq, h.without]
    · rw [heq, h.without]
      rfl
  · rw [hredis]
    rcases hlocal with heq | heq
    · rw [heq] at hl
      exact h.backed l hl
    · rw [heq] at hl
      obtain ⟨l₀, hl₀, rfl⟩ := Option.map_eq_some_iff.1 hl
      exact (h.backed l₀ hl₀).get _ key

/-- A command in both runs, and what is done to L1 after it. -/
theorem Mirrors.issue {α : Type} (h : Mirrors c d) (x : Script Key α) (f : LocalLruCache → LocalLruCache)
    (hf : ∀ l, Backed c.redis l → Backed (x c.redis).2 (f l)) {c' d' : SkuCache}
    (hc : c' = { (SkuCache.issue none x c).2 with local_ := (SkuCache.issue none x c).2.local_.map f })
    (hd : d' = { (SkuCache.issue none x d).2 with local_ := (SkuCache.issue none x d).2.local_.map f }) :
    Mirrors c' d' := by
  obtain ⟨hredis, hlocal, hdelayed⟩ := issue_kept none x c
  obtain ⟨hredis', hlocal', hdelayed'⟩ := issue_kept none x d
  subst hc hd
  refine ⟨?_, ?_, ?_, fun l hl => ?_⟩
  · change (SkuCache.issue none x c).2.redis = (SkuCache.issue none x d).2.redis
    rw [hredis, hredis', h.redis]
  · change (SkuCache.issue none x c).2.delayed = (SkuCache.issue none x d).2.delayed
    rw [hdelayed, hdelayed', h.delayed]
  · change (SkuCache.issue none x d).2.local_.map f = none
    rw [hlocal', h.without]
    rfl
  · change (SkuCache.issue none x c).2.local_.map f = some l at hl
    change Backed (SkuCache.issue none x c).2.redis l
    rw [hlocal] at hl
    obtain ⟨l₀, hl₀, rfl⟩ := Option.map_eq_some_iff.1 hl
    rw [hredis]
    exact hf l₀ (h.backed l₀ hl₀)

theorem Mirrors.setex (h : Mirrors c d) (key : Key) (hv : v ≠ "") {ttl : ℤ} (httl : 1 ≤ ttl) :
    Mirrors (setex cfg none key v ttl c) (setex cfg none key v ttl d) := by
  unfold SkuCache.setex
  split
  · exact h
  · -- counting the write changes nothing that is compared
    have hwrite : Mirrors { c with stats := { c.stats with write := c.stats.write + 1 } }
        { d with stats := { d.stats with write := d.stats.write + 1 } } := ⟨h.redis, h.delayed, h.without, h.backed⟩
    have hnow : ∀ c : SkuCache, (SkuCache.issue none (Redis.setex key ttl (.raw v)) c).2.redis.now = c.redis.now := by
      intro c
      rw [(issue_kept none _ c).1]
      unfold exec Redis.setex
      rw [if_neg (by omega)]
      rfl
    refine hwrite.issue (Redis.setex key ttl (.raw v)) (fun l => l.put c.redis.now key v ttl) (fun l hl => ?_) ?_ ?_
    · unfold Redis.setex
      rw [if_neg (by omega)]
      exact hl.put key hv httl
    · dsimp only
      rw [hnow]
    · dsimp only
      rw [hnow, h.redis]

theorem Mirrors.del (h : Mirrors c d) (key : Key) : Mirrors (del cfg none key c) (del cfg none key d) := by
  unfold SkuCache.del
  split
  · exact h
  · exact h.issue (Redis.del key) (fun l => l.erase key) (fun l hl => hl.del key) rfl rfl

theorem Mirrors.schedule (h : Mirrors c d) (keys : List Key) :
    Mirrors (scheduleDelayedDelete cfg keys c) (scheduleDelayedDelete cfg keys d) := by
  unfold scheduleDelayedDelete
  split
  · refine ⟨h.redis, ?_, h.without, h.backed⟩
    change c.delayed ++ [(c.redis.now + cfg.doubleDeleteMs, keys)] = d.delayed ++ [(d.redis.now + cfg.doubleDeleteMs, keys)]
    rw [h.delayed, h.redis]
  · exact h

theorem Mirrors.invalidate (h : Mirrors c d) (skuId : Int64) :
    Mirrors (invalidate cfg none skuId c) (invalidate cfg none skuId d) := by
  unfold SkuCache.invalidate
  split
  · exact h
  · refine Mirrors.schedule (h.issue _ (fun l => (l.erase (.skuItem skuId)).erase .skuList) (fun l hl => ?_) rfl rfl) _
    exact (hl.del (.skuItem skuId)).del .skuList

theorem Mirrors.invalidateItem (h : Mirrors c d) (skuId : Int64) :
    Mirrors (invalidateItem cfg none skuId c) (invalidateItem cfg none skuId d) := by
  unfold SkuCache.invalidateItem
  split
  · exact h
  · exact (h.del _).schedule _

theorem Mirrors.invalidateList (h : Mirrors c d) :
    Mirrors (invalidateList cfg none c) (invalidateList cfg none d) := by
  unfold SkuCache.invalidateList
  split
  · exact h
  · exact (h.del _).schedule _

theorem Mirrors.dels (keys : List Key) (h : Mirrors c d) :
    Mirrors (keys.foldl (fun c key => SkuCache.del cfg none key c) c)
      (keys.foldl (fun c key => SkuCache.del cfg none key c) d) := by
  induction keys generalizing c d with
  | nil => exact h
  | cons key keys ih => exact ih (h.del key)

theorem Mirrors.wait (h : Mirrors c d) (ms : ℕ) : Mirrors (c.wait ms) (d.wait ms) := by
  refine ⟨?_, h.delayed, h.without, fun l hl => (h.backed l hl).wait ms⟩
  change c.redis.wait ms = d.redis.wait ms
  rw [h.redis]

/-- The delay thread fires in both runs, or in neither. -/
theorem Mirrors.fireDelayed (h : Mirrors c d) :
    Mirrors ((fireDelayed cfg (fun _ => none) c).getD c) ((fireDelayed cfg (fun _ => none) d).getD d) := by
  unfold SkuCache.fireDelayed
  rw [← h.delayed, ← h.redis]
  split
  · exact h
  · split
    · exact h
    · rw [Option.getD_some, Option.getD_some]
      exact Mirrors.dels _ ⟨rfl, rfl, h.without, h.backed⟩

/-! ## Operations -/

/-- An operation of the cache with the jitter drawn for it, the delay thread taking a
task that is due, or time that passes. -/
inductive Op
  | getList
  | getDetail (skuId : Int64)
  | setList (draw : ℤ) (json : String)
  | setDetail (draw : ℤ) (skuId : Int64) (json : String)
  | setNull (draw : ℤ) (skuId : Int64)
  | invalidate (skuId : Int64)
  | invalidateItem (skuId : Int64)
  | invalidateList
  | fireDelayed
  | wait (ms : ℕ)

/-- The answer, to a read, and the cache after the operation. -/
def perform (cfg : Config) (c : SkuCache) : Op → Option (Option String) × SkuCache
  | .getList => (some (getList cfg none c).1, (getList cfg none c).2)
  | .getDetail skuId => (some (getDetail cfg none skuId c).1, (getDetail cfg none skuId c).2)
  | .setList draw json => (none, setList cfg ⟨draw, none⟩ json c)
  | .setDetail draw skuId json => (none, setDetail cfg ⟨draw, none⟩ skuId json c)
  | .setNull draw skuId => (none, setNull cfg ⟨draw, none⟩ skuId c)
  | .invalidate skuId => (none, SkuCache.invalidate cfg none skuId c)
  | .invalidateItem skuId => (none, SkuCache.invalidateItem cfg none skuId c)
  | .invalidateList => (none, SkuCache.invalidateList cfg none c)
  | .fireDelayed => (none, (SkuCache.fireDelayed cfg (fun _ => none) c).getD c)
  | .wait ms => (none, c.wait ms)

/-- The answers of the reads, in turn. -/
def answers (cfg : Config) : SkuCache → List Op → List (Option String)
  | _, [] => []
  | c, op :: ops => (perform cfg c op).1.toList ++ answers cfg (perform cfg c op).2 ops

/-- A write has a value that is not empty, and a TTL of at least a second. -/
def Op.Lasts (cfg : Config) : Op → Prop
  | .setList draw json => json ≠ "" ∧ 1 ≤ ttlWithJitter cfg draw cfg.listTtlSeconds
  | .setDetail draw _ json => json ≠ "" ∧ 1 ≤ ttlWithJitter cfg draw cfg.detailTtlSeconds
  | .setNull draw _ => 1 ≤ ttlWithJitter cfg draw cfg.nullTtlSeconds
  | _ => True

/-- **One operation**: the same answer, and the two runs mirror each other still. -/
theorem Mirrors.perform {op : Op} (h : Mirrors c d) (hop : op.Lasts cfg) :
    (SkuCache.perform cfg c op).1 = (SkuCache.perform cfg d op).1 ∧
      Mirrors (SkuCache.perform cfg c op).2 (SkuCache.perform cfg d op).2 := by
  cases op with
  | getList => exact ⟨congrArg some (h.answer _), h.get _⟩
  | getDetail skuId => exact ⟨congrArg some (h.answer _), h.get _⟩
  | setList draw json => exact ⟨rfl, h.setex _ hop.1 hop.2⟩
  | setDetail draw skuId json => exact ⟨rfl, h.setex _ hop.1 hop.2⟩
  | setNull draw skuId => exact ⟨rfl, h.setex _ (by decide) hop⟩
  | invalidate skuId => exact ⟨rfl, h.invalidate skuId⟩
  | invalidateItem skuId => exact ⟨rfl, h.invalidateItem skuId⟩
  | invalidateList => exact ⟨rfl, h.invalidateList⟩
  | fireDelayed => exact ⟨rfl, h.fireDelayed⟩
  | wait ms => exact ⟨rfl, h.wait ms⟩

theorem Mirrors.answers {ops : List Op} (h : Mirrors c d) (hops : ∀ op ∈ ops, op.Lasts cfg) :
    SkuCache.answers cfg c ops = SkuCache.answers cfg d ops := by
  induction ops generalizing c d with
  | nil => rfl
  | cons op ops ih =>
    rw [List.forall_mem_cons] at hops
    obtain ⟨hanswer, hmirrors⟩ := h.perform hops.1
    unfold SkuCache.answers
    rw [hanswer, ih hmirrors hops.2]

theorem mirrors_new (cfg : Config) (redis : Store Key) :
    Mirrors (new { cfg with localEnabled := true } redis) (new { cfg with localEnabled := false } redis) := by
  refine ⟨rfl, rfl, rfl, fun l hl => ?_⟩
  obtain rfl := Option.some.inj hl
  exact Backed.new redis cfg.localCapacity

/-- The configuration is read for L1 only when the cache is made. -/
theorem answers_config (cfg : Config) (b : Bool) (c : SkuCache) (ops : List Op) :
    answers { cfg with localEnabled := b } c ops = answers cfg c ops := by
  induction ops generalizing c with
  | nil => rfl
  | cons op ops ih =>
    have hperform : perform { cfg with localEnabled := b } c op = perform cfg c op := by
      cases op <;> rfl
    unfold answers
    rw [hperform, ih]

/-- **L1 changes no answer.** With a healthy Redis, whatever its content, values that are
not empty and TTLs of a second at least, every sequence of operations gets the same
answers with L1, of any capacity, as without it. -/
theorem answers_local (cfg : Config) (redis : Store Key) (ops : List Op) (hops : ∀ op ∈ ops, op.Lasts cfg) :
    answers { cfg with localEnabled := true } (new { cfg with localEnabled := true } redis) ops =
      answers { cfg with localEnabled := false } (new { cfg with localEnabled := false } redis) ops := by
  rw [answers_config cfg true, answers_config cfg false]
  exact (mirrors_new cfg redis).answers hops

/-- A write of each kind, an expiry in between, and a delete. -/
def mixed : List Op :=
  [.setDetail 3 7 "a", .getDetail 7, .setNull 0 8, .wait 60000, .getDetail 8, .getDetail 7, .invalidateItem 7,
    .getDetail 7, .setList 0 "b", .getList]

theorem answers_local_mixed :
    answers { Config.default with localEnabled := true } (new { Config.default with localEnabled := true } (.empty 0)) mixed =
      [some "a", some kNullValue, some "a", none, some "b"] ∧
    answers { Config.default with localEnabled := false } (new { Config.default with localEnabled := false } (.empty 0)) mixed =
      [some "a", some kNullValue, some "a", none, some "b"] := by
  have hwith : answers { Config.default with localEnabled := true }
      (new { Config.default with localEnabled := true } (.empty 0)) mixed =
        [some "a", some kNullValue, some "a", none, some "b"] := by decide +kernel
  have hsame := answers_local Config.default (.empty 0) mixed (by
    intro op hop
    simp only [mixed, List.mem_cons, List.not_mem_nil, or_false] at hop
    rcases hop with rfl | rfl | rfl | rfl | rfl | rfl | rfl | rfl | rfl | rfl <;>
      simp [Op.Lasts, ttlWithJitter, Config.default])
  exact ⟨hwith, hsame ▸ hwith⟩

end Seckill.SkuCache
