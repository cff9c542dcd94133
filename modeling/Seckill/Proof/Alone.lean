import Seckill.Proof.Levels
import Seckill.Proof.ReadPath

/-!
# What nothing interrupts

`SkuCache` and `SkuReads` have each operation as one function, `ReadPath` as steps. The
steps with their effects applied in turn, and no other event between them, do what the
function does to Redis, L1 and the queue of the delay thread (`At`, `Leads`).

* `read_alone`: a read, with the answer of `listSkus` or `detailSku`;
* `order_alone`: the invalidation of an order;
* `fireDelayed_alone`: the delay thread and its deletes.
-/

namespace Seckill.ReadPath

open Redis
open SeckillService (Config Answer ReadIo)

variable {cfg : Config} {c : SkuCache} {s t : State} {r : ℕ} {key : Key} {table : SkuTable} {p : Read}
  {fs : List Effect} {query : Query}

/-- The cache of the state is `c`, but for the counters; the effects `fs` are on their
way, and request `r` is at `p`. -/
structure At (c : SkuCache) (table : SkuTable) (r : ℕ) (p : Read) (fs : List Effect) (s : State) : Prop where
  redis : s.redis = c.redis
  local_ : s.local_ = c.local_
  delayed : s.delayed.map (fun task => (task.fireAt, task.keys)) = c.delayed
  table : s.table = table
  read : s.reads r = p
  pending : s.pending = fs

theorem At.set (h : At c table r p fs s) (p' : Read) : At c table r p' fs (s.set r p') :=
  ⟨h.redis, h.local_, h.delayed, h.table, Function.update_self _ _ _, h.pending⟩

/-- The counters do not matter. -/
theorem At.congr {c' : SkuCache} (h : At c table r p fs s) (hredis : c'.redis = c.redis) (hlocal : c'.local_ = c.local_)
    (hdelayed : c'.delayed = c.delayed) : At c' table r p fs s :=
  ⟨h.redis.trans hredis.symm, h.local_.trans hlocal.symm, h.delayed.trans hdelayed.symm, h.table, h.read, h.pending⟩

theorem At.issue (h : At c table r p fs s) (henabled : cfg.cache.enabled = true) (gs : List Effect) :
    At c table r p (fs ++ gs) (issue cfg gs s) := by
  unfold ReadPath.issue
  rw [if_pos henabled]
  refine ⟨h.redis, h.local_, h.delayed, h.table, h.read, ?_⟩
  dsimp only
  rw [h.pending]

/-- A few steps lead there. -/
def Leads (cfg : Config) (s : State) (c : SkuCache) (table : SkuTable) (r : ℕ) (p : Read) (fs : List Effect) : Prop :=
  ∃ es t, Machine.run (step cfg) s es = some t ∧ At c table r p fs t

theorem At.leads (h : At c table r p fs s) : Leads cfg s c table r p fs := ⟨[], s, rfl, h⟩

/-- One step, and from where it leads. -/
theorem Leads.cons {e : Ev} {c' : SkuCache} {p' : Read} {fs' : List Effect} (he : step cfg s e = some t)
    (h : Leads cfg t c' table r p' fs') : Leads cfg s c' table r p' fs' := by
  obtain ⟨es, u, hu, hat⟩ := h
  exact ⟨e :: es, u, Machine.run_cons.2 ⟨t, he, hu⟩, hat⟩

theorem Leads.trans {c' : SkuCache} {p' : Read} {fs' : List Effect} (h : Leads cfg s c table r p fs)
    (h' : ∀ t, At c table r p fs t → Leads cfg t c' table r p' fs') : Leads cfg s c' table r p' fs' := by
  obtain ⟨es, t, ht, hat⟩ := h
  obtain ⟨es', u, hu, hat'⟩ := h' t hat
  exact ⟨es ++ es', u, Machine.run_append.2 ⟨t, ht, hu⟩, hat'⟩

/-! ## Effects in turn -/

/-- The first effect on the way. -/
theorem At.apply {f : Effect} (h : At c table r p (f :: fs) s) (err : Option String) :
    step cfg s (.apply 0 err) = perform cfg err { s with pending := fs } f := by
  unfold step applyStep
  rw [h.pending]
  rfl

/-- A `SETEX`. -/
theorem At.command (cfg : Config) {value : String} {ttl : ℤ} {stamp : Stamp}
    (h : At c table r p (.write .redis key value ttl stamp :: fs) s) (err : Option String) :
    ∃ t, step cfg s (.apply 0 err) = some t ∧
      At (SkuCache.issue err (Redis.setex key ttl (.raw value)) c).2 table r p fs t := by
  obtain ⟨hredis, hlocal, hdelayed⟩ := SkuCache.issue_kept err (Redis.setex key ttl (.raw value)) c
  have hat : At c table r p fs { s with pending := fs } := ⟨h.redis, h.local_, h.delayed, h.table, h.read, rfl⟩
  rw [h.apply err]
  unfold perform
  dsimp only
  split
  next store hok =>
    refine ⟨_, rfl, ?_, hat.local_.trans hlocal.symm, hat.delayed.trans hdelayed.symm, hat.table, hat.read, rfl⟩
    rw [hredis, ← h.redis, hok]
  next what store herr =>
    refine ⟨_, rfl, ?_, hat.local_.trans hlocal.symm, hat.delayed.trans hdelayed.symm, hat.table, hat.read, rfl⟩
    rw [hredis, ← h.redis, herr]

theorem At.put (cfg : Config) {value : String} {ttl : ℤ} {stamp : Stamp}
    (h : At c table r p (.write .local_ key value ttl stamp :: fs) s) :
    ∃ t, step cfg s (.apply 0 none) = some t ∧
      At { c with local_ := c.local_.map fun l => l.put c.redis.now key value ttl } table r p fs t := by
  refine ⟨_, h.apply none, h.redis, ?_, h.delayed, h.table, h.read, rfl⟩
  dsimp only
  rw [h.local_, h.redis]

/-- `setex`. -/
theorem At.setex {value : String} {ttl : ℤ} {stamp : Stamp}
    (h : At c table r p (.write .redis key value ttl stamp :: .write .local_ key value ttl stamp :: fs) s)
    (henabled : cfg.cache.enabled = true) (err : Option String) :
    Leads cfg s (c.setex cfg.cache err key value ttl) table r p fs := by
  unfold SkuCache.setex
  rw [if_neg (by simp [henabled])]
  have hcounted : At { c with stats := { c.stats with write := c.stats.write + 1 } } table r p
      (.write .redis key value ttl stamp :: .write .local_ key value ttl stamp :: fs) s := h.congr rfl rfl rfl
  obtain ⟨s₁, h₁, hat₁⟩ := hcounted.command cfg err
  obtain ⟨s₂, h₂, hat₂⟩ := hat₁.put cfg
  exact .cons h₁ (.cons h₂ hat₂.leads)

/-- A `DEL`, by any script that deletes these keys. -/
theorem At.delete (cfg : Config) {keys : List Key} {second : Option ℕ}
    (h : At c table r p (.delete .redis keys second :: fs) s) {α : Type} (x : Script Key α)
    (hx : ∀ store, (x store).2 = (delAll keys store).2) (err : Option String) :
    ∃ t, step cfg s (.apply 0 err) = some t ∧ At (SkuCache.issue err x c).2 table r p fs t := by
  obtain ⟨hredis, hlocal, hdelayed⟩ := SkuCache.issue_kept err x c
  refine ⟨_, h.apply err, ?_, h.local_.trans hlocal.symm, h.delayed.trans hdelayed.symm, h.table, h.read, rfl⟩
  rw [hredis, ← h.redis]
  cases err with
  | some what => rfl
  | none => exact (hx s.redis).symm

theorem At.erase (cfg : Config) {keys : List Key} {second : Option ℕ}
    (h : At c table r p (.delete .local_ keys second :: fs) s) :
    ∃ t, step cfg s (.apply 0 none) = some t ∧
      At { c with local_ := c.local_.map fun l => keys.foldl (fun l key => l.erase key) l } table r p fs t := by
  refine ⟨_, h.apply none, h.redis, ?_, h.delayed, h.table, h.read, rfl⟩
  dsimp only
  rw [h.local_]

theorem At.schedule (cfg : Config) {keys : List Key} {order : Option ℕ}
    (h : At c table r p (.schedule keys order :: fs) s) :
    ∃ t, step cfg s (.apply 0 none) = some t ∧ At (c.scheduleDelayedDelete cfg.cache keys) table r p fs t := by
  refine ⟨_, h.apply none, ?_⟩
  unfold scheduleDelayedDelete SkuCache.scheduleDelayedDelete
  split
  · refine ⟨h.redis, h.local_, ?_, h.table, h.read, rfl⟩
    dsimp only
    rw [List.map_append, h.delayed, h.redis]
    rfl
  · exact ⟨h.redis, h.local_, h.delayed, h.table, h.read, rfl⟩

/-- `invalidate`. -/
theorem At.invalidate {skuId : Int64} {order : Option ℕ}
    (h : At c table r p (.delete .redis [.skuItem skuId, .skuList] none :: .delete .local_ [.skuItem skuId] none ::
      .delete .local_ [.skuList] none :: .schedule [.skuItem skuId, .skuList] order :: fs) s)
    (henabled : cfg.cache.enabled = true) (err : Option String) :
    Leads cfg s (c.invalidate cfg.cache err skuId) table r p fs := by
  unfold SkuCache.invalidate
  rw [if_neg (by simp [henabled])]
  let both : Script Key Unit := do
    let _ ← Redis.del (.skuItem skuId)
    let _ ← Redis.del .skuList
  obtain ⟨s₁, h₁, hat₁⟩ := h.delete cfg both (fun store => rfl) err
  obtain ⟨s₂, h₂, hat₂⟩ := hat₁.erase cfg
  obtain ⟨s₃, h₃, hat₃⟩ := hat₂.erase cfg
  obtain ⟨s₄, h₄, hat₄⟩ := hat₃.schedule cfg
  refine .cons h₁ (.cons h₂ (.cons h₃ (.cons h₄ (At.leads ?_))))
  dsimp only [List.foldl_cons, List.foldl_nil] at hat₄
  rwa [Option.map_map] at hat₄

/-- `del`. -/
theorem At.del {second : Option ℕ}
    (h : At c table r p (.delete .redis [key] second :: .delete .local_ [key] second :: fs) s)
    (henabled : cfg.cache.enabled = true) (err : Option String) : Leads cfg s (c.del cfg.cache err key) table r p fs := by
  unfold SkuCache.del
  rw [if_neg (by simp [henabled])]
  obtain ⟨s₁, h₁, hat₁⟩ := h.delete cfg (Redis.del key) (fun store => rfl) err
  obtain ⟨s₂, h₂, hat₂⟩ := hat₁.erase cfg
  exact .cons h₁ (.cons h₂ hat₂.leads)

/-- `invalidateItem` and `invalidateList`. -/
theorem At.delSchedule {order : Option ℕ}
    (h : At c table r p (.delete .redis [key] none :: .delete .local_ [key] none :: .schedule [key] order :: fs) s)
    (henabled : cfg.cache.enabled = true) (err : Option String) :
    Leads cfg s ((c.del cfg.cache err key).scheduleDelayedDelete cfg.cache [key]) table r p fs := by
  refine (h.del henabled err).trans fun t hat => ?_
  obtain ⟨u, hu, hat'⟩ := hat.schedule cfg
  exact .cons hu hat'.leads

/-! ## The lookup -/

/-- What is done at once about a string that does not parse. -/
def repairAtOnce (cfg : Config) (err : Option String) (c : SkuCache) : Query → SkuCache
  | .list => c.invalidateList cfg.cache err
  | .detail skuId => c.invalidate cfg.cache err skuId

/-- The lookup at once. -/
def lookup (cfg : Config) (query : Query) (io : ReadIo) (c : SkuCache) : Option Answer × SkuCache :=
  match c.get cfg.cache io.get query.key with
  | (none, c) => (none, c)
  | (some value, c) => match decode cfg query value with
    | some a => (some a, c)
    | none => (none, repairAtOnce cfg io.del c query)

theorem listLookup_eq (io : ReadIo) (c : SkuCache) : SeckillService.listLookup cfg io c = lookup cfg .list io c := by
  unfold SeckillService.listLookup lookup SkuCache.getList Query.key
  cases c.get cfg.cache io.get .skuList with
  | mk hit c₁ =>
    cases hit with
    | none => rfl
    | some value =>
      dsimp only [decode]
      cases cfg.json.fromJson value with
      | none => rfl
      | some v => cases v <;> rfl

theorem detailLookup_eq (hbloom : cfg.bloomEnabled = false) (bloom : Option BloomFilter) (skuId : Int64) (io : ReadIo)
    (c : SkuCache) : SeckillService.detailLookup cfg bloom skuId io c = lookup cfg (.detail skuId) io c := by
  unfold SeckillService.detailLookup lookup SkuCache.getDetail Query.key
  rw [if_neg (by simp [hbloom])]
  cases c.get cfg.cache io.get (.skuItem skuId) with
  | mk hit c₁ =>
    cases hit with
    | none => rfl
    | some value =>
      dsimp only [decode]
      split
      · rfl
      · cases cfg.json.fromJson value with
        | none => rfl
        | some v => cases v <;> rfl

/-- The GET. -/
theorem At.getRedis (h : At c table r (.get query) fs s) (cfg : Config) (err : Option String) :
    ∃ t, step cfg s (.get r err) = some t ∧ At (c.getRedis err query.key).2 table r
      (.reply query (c.getRedis err query.key).1 s.redis.now) fs t := by
  have hstep : step cfg s (.get r err) = getStep s r err := rfl
  rw [hstep, getStep, h.read]
  refine ⟨_, rfl, ?_⟩
  cases err with
  | some what =>
    have hcounted : At (c.getRedis (some what) query.key).2 table r (.get query) fs s := h.congr rfl rfl rfl
    exact hcounted.set _
  | none =>
    obtain ⟨hredis, hlocal, hdelayed⟩ := SkuCache.getRedis_kept query.key c
    have htext : ((s.redis.find query.key).map Entry.val).map Val.text = c.stored query.key := by
      rw [Option.map_map, h.redis]
      rfl
    rw [SkuCache.getRedis_value, ← htext]
    have hat := h.congr hredis hlocal hdelayed
    simp only [exec]
    rcases get_cases query.key s.redis with hget | ⟨e, what, hfind, hother, hget⟩
    · rw [hget]
      exact hat.set _
    · -- what is no string is taken for a miss
      rw [hget, hfind]
      simp only [Option.map_some, hother]
      exact hat.set _

/-- The call of a read. -/
def call (r : ℕ) : Query → Ev
  | .list => .listSkus r
  | .detail skuId => .detailSku r skuId

theorem step_call (cfg : Config) (s : State) (r : ℕ) (query : Query) :
    step cfg s (call r query) = readStep cfg s r query := by
  cases query <;> rfl

theorem get_hit {c' : SkuCache} {value : String} (henabled : cfg.cache.enabled = true) (err : Option String)
    (h : SkuCache.getLocal key c = (some value, c')) :
    ∃ stats, c.get cfg.cache err key = (some value, { c' with stats }) := by
  unfold SkuCache.get
  rw [if_neg (by simp [henabled]), h]
  exact ⟨_, rfl⟩

theorem get_miss {c' : SkuCache} (henabled : cfg.cache.enabled = true) (err : Option String)
    (h : SkuCache.getLocal key c = (none, c')) : c.get cfg.cache err key = SkuCache.getRedis err key c' := by
  unfold SkuCache.get
  rw [if_neg (by simp [henabled]), h]

/-- The call up to the reply: a hit in L1, or else the GET. -/
theorem At.get (h : At c table r .idle fs s) (henabled : cfg.cache.enabled = true) (query : Query)
    (err : Option String) :
    Leads cfg s (c.get cfg.cache err query.key).2 table r
      (.reply query (c.get cfg.cache err query.key).1 s.redis.now) fs := by
  have hcall := step_call cfg s r query
  unfold readStep at hcall
  rw [h.read] at hcall
  dsimp only at hcall
  rw [if_neg (by simp [henabled])] at hcall
  cases hl : s.local_ with
  | none =>
    rw [hl] at hcall
    -- there is no L1
    have hmiss : SkuCache.getLocal query.key c = (none, c) := by
      unfold SkuCache.getLocal
      rw [← h.local_, hl]
    obtain ⟨t, ht, hat'⟩ := (h.set (.get query)).getRedis cfg err
    rw [get_miss henabled err hmiss]
    exact .cons hcall (.cons ht hat'.leads)
  | some l =>
    rw [hl] at hcall
    dsimp only at hcall
    cases hlook : l.get s.redis.now query.key with
    | mk hit l' =>
      rw [hlook] at hcall
      have hlocal : SkuCache.getLocal query.key c = (hit, { c with local_ := some l' }) := by
        unfold SkuCache.getLocal
        rw [← h.local_, hl, ← h.redis]
        dsimp only
        rw [hlook]
      have hat : At { c with local_ := some l' } table r .idle fs { s with local_ := some l' } :=
        ⟨h.redis, rfl, h.delayed, h.table, h.read, h.pending⟩
      cases hit with
      | none =>
        obtain ⟨t, ht, hat'⟩ := (hat.set (.get query)).getRedis cfg err
        rw [get_miss henabled err hlocal]
        exact .cons hcall (.cons ht hat'.leads)
      | some value =>
        obtain ⟨stats, hhit⟩ := get_hit henabled err hlocal
        have hcounted : At { c with local_ := some l', stats } table r .idle fs { s with local_ := some l' } :=
          hat.congr rfl rfl rfl
        rw [hhit]
        exact .cons hcall (hcounted.set _).leads

/-- Where the callback of the lookup goes: to the answer, or to the SELECT. -/
def next (query : Query) (looked : ℕ) : Option Answer → Read
  | some a => .answered query a looked
  | none => .select query looked

/-- **The lookup.** -/
theorem At.lookup (h : At c table r .idle [] s) (henabled : cfg.cache.enabled = true) (query : Query) (io : ReadIo) :
    Leads cfg s (lookup cfg query io c).2 table r (next query s.redis.now (lookup cfg query io c).1) [] := by
  refine (h.get henabled query io.get).trans fun t hat => ?_
  have hreply : step cfg t (.reply r) = replyStep cfg t r := rfl
  unfold replyStep at hreply
  rw [hat.read] at hreply
  unfold ReadPath.lookup
  cases hget : c.get cfg.cache io.get query.key with
  | mk hit c₁ =>
    rw [hget] at hat hreply
    cases hit with
    | none => exact .cons hreply (hat.set _).leads
    | some value =>
      dsimp only at hreply ⊢
      cases hdecode : decode cfg query value with
      | some a =>
        rw [hdecode] at hreply
        exact .cons hreply (hat.set _).leads
      | none =>
        rw [hdecode] at hreply
        refine .cons hreply ?_
        cases query with
        | list =>
          have hissued := ((hat.issue henabled [.delete .redis [.skuList] none, .delete .local_ [.skuList] none]).issue
            henabled [.schedule [.skuList] none]).set (.select .list s.redis.now)
          have hdeleted := hissued.delSchedule henabled io.del
          have hrepair : repairAtOnce cfg io.del c₁ .list =
              (c₁.del cfg.cache io.del .skuList).scheduleDelayedDelete cfg.cache [.skuList] := if_neg (by simp [henabled])
          rw [← hrepair] at hdeleted
          exact hdeleted
        | detail skuId =>
          have hissued := (hat.issue henabled [.delete .redis [.skuItem skuId, .skuList] none,
            .delete .local_ [.skuItem skuId] none, .delete .local_ [.skuList] none,
            .schedule [.skuItem skuId, .skuList] none]).set (.select (.detail skuId) s.redis.now)
          exact hissued.invalidate henabled io.del

/-! ## The database -/

/-- What is written back at once. -/
def writeAtOnce (cfg : Config) (io : SkuCache.Io) (t : SkuTable) (c : SkuCache) : Query → SkuCache
  | .list => c.setList cfg.cache io (cfg.json.toCompactJson (.arr ((t.first 100).map itemJson)))
  | .detail skuId => match t.find skuId with
    | none => c.setNull cfg.cache io skuId
    | some row => c.setDetail cfg.cache io skuId (cfg.json.toCompactJson (itemJson row))

theorem At.write (h : At c table r p [] s) (cfg : Config) (key : Key) (value : String) (ttl : ℤ) (stamp : Stamp)
    (err : Option String) (p' : Read) :
    Leads cfg ((ReadPath.setex cfg key value ttl stamp s).set r p') (c.setex cfg.cache err key value ttl) table r p'
      [] := by
  by_cases henabled : cfg.cache.enabled = true
  · have hissued := (h.issue henabled [.write .redis key value ttl stamp, .write .local_ key value ttl stamp]).set p'
    exact hissued.setex henabled err
  · have hnothing : ReadPath.setex cfg key value ttl stamp s = s := if_neg henabled
    have hnothing' : c.setex cfg.cache err key value ttl = c := if_pos henabled
    rw [hnothing, hnothing']
    exact (h.set p').leads

/-- **The SELECT and its callback.** -/
theorem At.select {looked : ℕ} (h : At c table r (.select query looked) [] s) (io : SkuCache.Io)
    (hdraw : Draws cfg io.draw) :
    Leads cfg s (writeAtOnce cfg io table c query) table r (.answered query (answer query table) looked) [] := by
  have hselect : step cfg s (.select r none) = selectStep s r none := rfl
  unfold selectStep at hselect
  rw [h.read] at hselect
  refine .cons hselect ?_
  have hat := h.set (.selected query looked s.table s.stamp)
  set s₁ := s.set r (.selected query looked s.table s.stamp)
  have hanswer : step cfg s₁ (.answer r io.draw) = answerStep cfg s₁ r io.draw := rfl
  unfold answerStep at hanswer
  rw [hat.read] at hanswer
  dsimp only at hanswer
  rw [if_neg (not_not.2 hdraw), h.table] at hanswer
  refine .cons hanswer ?_
  cases query with
  | list => exact hat.write cfg _ _ _ _ io.err _
  | detail skuId =>
    unfold writeBack writeAtOnce
    dsimp only
    cases table.find skuId with
    | none => exact hat.write cfg _ _ _ _ io.err _
    | some row => exact hat.write cfg _ _ _ _ io.err _

/-! ## The whole read -/

/-- `listSkus` and `detailSku` with a SELECT that does not fail. -/
def readAtOnce (cfg : Config) (io : ReadIo) (table : SkuTable) (c : SkuCache) : Query → Answer × SkuCache
  | .list => SeckillService.listSkus cfg io (.ok table) c
  | .detail skuId => SeckillService.detailSku cfg none skuId io (.ok table) c

theorem queryDetailFromDb_eq (skuId : Int64) (w : Bool) (io : SkuCache.Io) (c : SkuCache) :
    SeckillService.queryDetailFromDb cfg skuId w (.ok table) io c =
      (answer (.detail skuId) table, if w then writeAtOnce cfg io table c (.detail skuId) else c) := by
  unfold SeckillService.queryDetailFromDb answer writeAtOnce
  dsimp only
  cases table.find skuId <;> rfl

theorem readAtOnce_disabled (henabled : ¬cfg.cache.enabled = true) (io : ReadIo) (c : SkuCache) (query : Query) :
    readAtOnce cfg io table c query = (answer query table, c) := by
  cases query with
  | list => exact if_neg henabled
  | detail skuId =>
    unfold readAtOnce SeckillService.detailSku
    dsimp only
    rw [if_neg henabled, queryDetailFromDb_eq]
    rfl

theorem readAtOnce_hit {io : ReadIo} {c₁ : SkuCache} {a : Answer} (hbloom : cfg.bloomEnabled = false)
    (henabled : cfg.cache.enabled = true) (h : lookup cfg query io c = (some a, c₁)) :
    readAtOnce cfg io table c query = (a, c₁) := by
  cases query with
  | list =>
    unfold readAtOnce SeckillService.listSkus
    dsimp only
    rw [if_pos henabled, listLookup_eq, h]
  | detail skuId =>
    unfold readAtOnce SeckillService.detailSku
    dsimp only
    rw [if_pos henabled, detailLookup_eq hbloom, h]

theorem readAtOnce_miss {io : ReadIo} {c₁ : SkuCache} (hbloom : cfg.bloomEnabled = false)
    (henabled : cfg.cache.enabled = true) (h : lookup cfg query io c = (none, c₁)) :
    readAtOnce cfg io table c query = (answer query table, writeAtOnce cfg io.write table c₁ query) := by
  cases query with
  | list =>
    unfold readAtOnce SeckillService.listSkus
    dsimp only
    rw [if_pos henabled, listLookup_eq, h]
    rfl
  | detail skuId =>
    unfold readAtOnce SeckillService.detailSku
    dsimp only
    rw [if_pos henabled, detailLookup_eq hbloom, h]
    exact queryDetailFromDb_eq skuId true io.write c₁

/-- **A read that nothing interrupts** ends with the answer it has at once, and leaves
the same cache. -/
theorem read_alone (hbloom : cfg.bloomEnabled = false) (h : At c table r .idle [] s) (query : Query) (io : ReadIo)
    (hdraw : Draws cfg io.write.draw) :
    Leads cfg s (readAtOnce cfg io table c query).2 table r
      (.answered query (readAtOnce cfg io table c query).1 s.redis.now) [] := by
  by_cases henabled : cfg.cache.enabled = true
  · have hlookup := h.lookup henabled query io
    cases hl : lookup cfg query io c with
    | mk hit c₁ =>
      rw [hl] at hlookup
      cases hit with
      | some a =>
        rw [readAtOnce_hit hbloom henabled hl]
        exact hlookup
      | none =>
        rw [readAtOnce_miss hbloom henabled hl]
        exact hlookup.trans fun t hat => hat.select io.write hdraw
  · -- the cache is off: the SELECT at once, and what is written goes nowhere
    have hcall := step_call cfg s r query
    unfold readStep at hcall
    rw [h.read] at hcall
    dsimp only at hcall
    rw [if_pos (by simp [henabled])] at hcall
    have hnothing : writeAtOnce cfg io.write table c query = c := by
      cases query with
      | list => exact if_pos henabled
      | detail skuId =>
        unfold writeAtOnce
        dsimp only
        cases table.find skuId <;> exact if_pos henabled
    have hselect : Leads cfg (s.set r (.select query s.redis.now)) (writeAtOnce cfg io.write table c query) table r
        (.answered query (answer query table) s.redis.now) [] := (h.set _).select io.write hdraw
    rw [hnothing] at hselect
    rw [readAtOnce_disabled henabled]
    exact .cons hcall hselect

/-! ## Orders and the delay thread -/

/-- **The invalidation of an order** that nothing interrupts. -/
theorem order_alone {q : ℕ} {order : Order} (h : At c table r p [] s) (hq : s.orders q = some order)
    (htold : order.told = false) (err : Option String) :
    Leads cfg s (c.invalidateOnOrder cfg.cache err order.skuId) table r p [] := by
  have hstep : step cfg s (.invalidateOnOrder q) = invalidateOnOrderStep cfg s q := rfl
  unfold invalidateOnOrderStep at hstep
  rw [hq] at hstep
  dsimp only at hstep
  rw [if_neg (by simp [htold])] at hstep
  refine .cons hstep ?_
  -- telling the order is beside what is compared
  have htell : ∀ {fs : List Effect} {u : State}, At c table r p fs u → At c table r p fs { u with
      orders := Function.update s.orders q (some { order with told := true }) } :=
    fun hu => ⟨hu.redis, hu.local_, hu.delayed, hu.table, hu.read, hu.pending⟩
  unfold invalidateOnOrder SkuCache.invalidateOnOrder
  by_cases henabled : cfg.cache.enabled = true
  · cases cfg.cache.invalidateOnOrder with
    | item =>
      have hissued := htell ((h.issue henabled [.delete .redis [.skuItem order.skuId] none,
        .delete .local_ [.skuItem order.skuId] none]).issue henabled [.schedule [.skuItem order.skuId] (some q)])
      have hitem : c.invalidateItem cfg.cache err order.skuId =
          (c.del cfg.cache err (.skuItem order.skuId)).scheduleDelayedDelete cfg.cache [.skuItem order.skuId] :=
        if_neg (by simp [henabled])
      dsimp only
      rw [hitem]
      exact hissued.delSchedule henabled err
    | itemAndList =>
      have hissued := htell (h.issue henabled [.delete .redis [.skuItem order.skuId, .skuList] none,
        .delete .local_ [.skuItem order.skuId] none, .delete .local_ [.skuList] none,
        .schedule [.skuItem order.skuId, .skuList] (some q)])
      exact hissued.invalidate henabled err
    | none => exact (htell h).leads
  · -- the cache is off
    have hissue : ∀ fs u, issue cfg fs u = u := fun fs u => if_neg henabled
    cases cfg.cache.invalidateOnOrder with
    | item =>
      have hitem : c.invalidateItem cfg.cache err order.skuId = c := if_pos henabled
      unfold invalidateItem del
      dsimp only
      rw [hissue, hissue, hitem]
      exact (htell h).leads
    | itemAndList =>
      have hboth : c.invalidate cfg.cache err order.skuId = c := if_pos henabled
      unfold invalidate
      dsimp only
      rw [hissue, hboth]
      exact (htell h).leads
    | none => exact (htell h).leads

/-- The deletes of a task, one key after the other. -/
theorem At.dels {order : Option ℕ} (henabled : cfg.cache.enabled = true) (err : Key → Option String)
    (keys : List Key) : ∀ (c : SkuCache) (s : State),
      At c table r p (keys.flatMap fun key => [.delete .redis [key] order, .delete .local_ [key] order]) s →
      Leads cfg s (keys.foldl (fun c key => c.del cfg.cache (err key) key) c) table r p [] := by
  induction keys with
  | nil => exact fun c s h => h.leads
  | cons key keys ih => exact fun c s h => (h.del henabled (err key)).trans fun t hat => ih _ t hat

theorem At.issueDels (h : At c table r p fs s) (henabled : cfg.cache.enabled = true) (order : Option ℕ)
    (keys : List Key) :
    At c table r p (fs ++ keys.flatMap fun key => [.delete .redis [key] order, .delete .local_ [key] order])
      (keys.foldl (fun s key => ReadPath.del cfg key order s) s) := by
  induction keys generalizing fs s with
  | nil =>
    rw [List.flatMap_nil, List.append_nil]
    exact h
  | cons key keys ih =>
    rw [List.flatMap_cons, ← List.append_assoc]
    exact ih (h.issue henabled _)

/-- **The delay thread** with a task that is due, where nothing interrupts it. -/
theorem fireDelayed_alone {c' : SkuCache} (h : At c table r p [] s) (henabled : cfg.cache.enabled = true)
    (err : Key → Option String) (hfire : c.fireDelayed cfg.cache err = some c') : Leads cfg s c' table r p [] := by
  unfold SkuCache.fireDelayed at hfire
  have hstep : step cfg s .fireDelayed = fireDelayedStep cfg s := rfl
  unfold fireDelayedStep at hstep
  cases hdelayed : s.delayed with
  | nil =>
    rw [← h.delayed, hdelayed] at hfire
    cases hfire
  | cons task rest =>
    have hqueue : c.delayed = (task.fireAt, task.keys) :: rest.map fun task => (task.fireAt, task.keys) := by
      rw [← h.delayed, hdelayed]
      rfl
    rw [hqueue] at hfire
    rw [hdelayed] at hstep
    dsimp only at hfire hstep
    rw [← h.redis] at hfire
    split at hfire
    · cases hfire
    next hdue =>
      rw [if_neg hdue] at hstep
      rw [← Option.some.inj hfire]
      have htaken : At { c with delayed := rest.map fun task => (task.fireAt, task.keys) } table r p []
          { s with delayed := rest } := ⟨h.redis, h.local_, rfl, h.table, h.read, h.pending⟩
      have hissued := htaken.issueDels henabled task.order task.keys
      rw [List.nil_append] at hissued
      exact .cons hstep (At.dels henabled err task.keys _ _ (hissued.congr h.redis rfl rfl))

end Seckill.ReadPath
