import Seckill.Proof.WarmCache
import Seckill.Spec.ReadPath

/-!
# What a step of the read path does

One structure for all steps (`Did`): what a level has afterwards it had before, or a
pending write put it there; what is pending was, or comes from the result of a SELECT,
an order or a task of the delay thread; and where a request is now. `step_did` proves
it step by step, everything about runs uses it alone.

`Grounded`: whatever a level has, a SELECT of the run read (`Saw`).
-/

namespace Seckill.ReadPath

open Redis
open SeckillService (Config Answer itemText)

variable {cfg : Config} {s s' t : State} {e : Ev} {r : ℕ} {key : Key}

/-! ## What a level has -/

/-- What is under a key, expired or not: the string and the time it expires at. -/
structure Holding where
  value : String
  deadline : Option ℤ

def held : Level → State → Key → Option Holding
  | .redis, s, key => (s.redis.cell key).map fun e => ⟨e.val.text, e.expireAt.map Nat.cast⟩
  | .local_, s, key => (s.local_.bind fun l => l.find key).map fun item => ⟨item.value, some item.expireAt⟩

/-- The string under a key was made of these rows, the list's of some first ones. -/
def Carries (cfg : Config) (table : SkuTable) : Key → String → Prop
  | .skuItem skuId, value => value = itemText cfg table skuId
  | .skuList, value => ∃ n, value = cfg.json.toCompactJson (.arr ((table.first n).map itemJson))
  | _, _ => False

/-- The longest TTL of a sku's key, in seconds. -/
def itemTtl (cfg : Config) : ℤ :=
  max cfg.cache.detailTtlSeconds cfg.cache.nullTtlSeconds + max cfg.cache.jitterSeconds 0

/-- The time from the SELECT to a write that takes effect with this event: Redis
refuses a TTL that is not positive. -/
def lag (s : State) : Ev → Option ℤ
  | .apply i none => match s.pending[i]? with
    | some (.write level _ _ ttlSeconds stamp) =>
      if level = .redis ∧ ttlSeconds ≤ 0 then none else some (s.redis.now - stamp.time)
    | _ => none
  | _ => none

/-- The result of a SELECT that a request has: the rows and when they were read. -/
def Read.result : Read → Option (SkuTable × Stamp)
  | .selected _ _ table stamp => some (table, stamp)
  | .warmSelected _ table stamp => some (table, stamp)
  | _ => none

/-! ## One step -/

/-- What may be issued in a state. -/
def Issues (cfg : Config) (s : State) : Effect → Prop
  | .write _ key value ttlSeconds stamp => ∃ r table, (s.reads r).result = some (table, stamp) ∧
      Carries cfg table key value ∧ ∀ skuId, key = .skuItem skuId → ttlSeconds ≤ itemTtl cfg
  | .delete _ _ second => ∀ q, second = some q →
      ∃ task ∈ s.delayed, task.order = some q ∧ task.fireAt ≤ s.redis.now
  | .schedule _ order => ∀ q, order = some q → (s.orders q).isSome

/-- What request `r` may become by the event. -/
def Becomes (cfg : Config) (s : State) (e : Ev) (r : ℕ) : Read → Prop
  | .reply query value looked => looked = s.redis.now ∧ ∀ v, value = some v → ∃ level x,
      held level s query.key = some x ∧ x.value = v ∧ ∀ d, x.deadline = some d → (looked : ℤ) ≤ d
  | .select query looked => looked = s.redis.now ∨ ∃ value, s.reads r = .reply query value looked
  | .selected query looked table stamp =>
      e = .select r none ∧ s.reads r = .select query looked ∧ table = s.table ∧ stamp = s.stamp
  | .answered query a looked => (∃ v, s.reads r = .reply query (some v) looked ∧ decode cfg query v = some a) ∨
      ∃ table stamp, s.reads r = .selected query looked table stamp ∧ a = answer query table
  | .warmSelected _ table stamp => e = .warmSelect r none ∧ table = s.table ∧ stamp = s.stamp
  | _ => True

/-- **What a step does.** -/
structure Did (cfg : Config) (s : State) (e : Ev) (t : State) : Prop where
  now : s.redis.now ≤ t.redis.now
  held : ∀ level key x, held level t key = some x →
    held level s key = some x ∧ t.stampOf level key = s.stampOf level key ∨
      ∃ (ttl : ℤ) (stamp : Stamp), .write level key x.value ttl stamp ∈ s.pending ∧
        x.deadline = some ((s.redis.now : ℤ) + ttl * 1000) ∧ t.stampOf level key = stamp ∧
        lag s e = some ((s.redis.now : ℤ) - stamp.time)
  pending : ∀ f ∈ t.pending, f ∈ s.pending ∨ Issues cfg s f
  delayed : ∀ task ∈ t.delayed, task ∈ s.delayed ∨ ∃ keys order, .schedule keys order ∈ s.pending ∧
    task = ⟨s.redis.now + cfg.cache.doubleDeleteMs, keys, order⟩
  reads : ∀ r, t.reads r = s.reads r ∨ Becomes cfg s e r (t.reads r)
  orders : ∀ q o, s.orders q = some o → ∃ o', t.orders q = some o' ∧ o'.time = o.time
  commits : ∀ q o, t.orders q = some o → s.orders q = none → o.time = s.redis.now

/-- A lookup in L1 leaves no entry that was not there. -/
theorem find_of_find_get {l : LocalLruCache} {now : ℕ} {key' : Key} {item : LocalLruCache.Item}
    (h : (l.get now key').2.find key = some item) : l.find key = some item := by
  unfold LocalLruCache.get at h
  split at h
  next => exact h
  next =>
    split at h
    next =>
      rw [Lru.find_erase] at h
      split at h
      · cases h
      · exact h
    next => rwa [Lru.find_touch] at h

/-! ### Effects are added -/

/-- Effects with the property `P` were issued, and nothing else was done. -/
def Adds (P : Effect → Prop) (s t : State) : Prop :=
  ∃ fs, t = { s with pending := s.pending ++ fs } ∧ ∀ f ∈ fs, P f

variable {P : Effect → Prop}

theorem Adds.refl (s : State) : Adds P s s := by
  refine ⟨[], ?_, fun f hf => by cases hf⟩
  rw [List.append_nil]

theorem Adds.trans {u : State} (h : Adds P s t) (h' : Adds P t u) : Adds P s u := by
  obtain ⟨fs, rfl, hfs⟩ := h
  obtain ⟨gs, rfl, hgs⟩ := h'
  refine ⟨fs ++ gs, by rw [List.append_assoc], fun f hf => ?_⟩
  rcases List.mem_append.1 hf with hf | hf
  · exact hfs f hf
  · exact hgs f hf

theorem issue_adds {fs : List Effect} (hfs : ∀ f ∈ fs, P f) (s : State) : Adds P s (issue cfg fs s) := by
  unfold issue
  split
  · exact ⟨fs, rfl, hfs⟩
  · exact .refl s

theorem setex_adds {value : String} {ttl : ℤ} {stamp : Stamp} (h : ∀ level, P (.write level key value ttl stamp))
    (s : State) : Adds P s (setex cfg key value ttl stamp s) := by
  refine issue_adds (fun f hf => ?_) s
  rcases List.mem_pair.1 hf with rfl | rfl <;> exact h _

theorem del_adds {second : Option ℕ} (h : ∀ level, P (.delete level [key] second)) (s : State) :
    Adds P s (del cfg key second s) := by
  refine issue_adds (fun f hf => ?_) s
  rcases List.mem_pair.1 hf with rfl | rfl <;> exact h _

/-- An invalidation: first deletes, and a task with the order it is for. -/
theorem invalidate_adds {order : Option ℕ} (hdel : ∀ level keys, P (.delete level keys none))
    (hschedule : ∀ keys, P (.schedule keys order)) (skuId : Int64) (s : State) :
    Adds P s (invalidate cfg skuId order s) := by
  refine issue_adds (fun f hf => ?_) s
  simp only [List.mem_cons, List.not_mem_nil, or_false] at hf
  rcases hf with rfl | rfl | rfl | rfl
  · exact hdel _ _
  · exact hdel _ _
  · exact hdel _ _
  · exact hschedule _

theorem del_schedule_adds {order : Option ℕ} (hdel : ∀ level keys, P (.delete level keys none))
    (hschedule : ∀ keys, P (.schedule keys order)) (key : Key) (s : State) :
    Adds P s (issue cfg [.schedule [key] order] (del cfg key none s)) := by
  refine (del_adds (fun level => hdel level _) s).trans (issue_adds (fun f hf => ?_) _)
  rw [List.mem_singleton.1 hf]
  exact hschedule _

theorem repair_adds (hdel : ∀ level keys, P (.delete level keys none)) (hschedule : ∀ keys, P (.schedule keys none))
    (query : Query) (s : State) : Adds P s (repair cfg query s) := by
  cases query with
  | list => exact del_schedule_adds hdel hschedule _ s
  | detail skuId => exact invalidate_adds hdel hschedule skuId s

theorem invalidateOnOrder_adds {q : ℕ} (hdel : ∀ level keys, P (.delete level keys none))
    (hschedule : ∀ keys, P (.schedule keys (some q))) (skuId : Int64) (s : State) :
    Adds P s (invalidateOnOrder cfg skuId q s) := by
  unfold invalidateOnOrder
  split
  · exact del_schedule_adds hdel hschedule _ s
  · exact invalidate_adds hdel hschedule skuId s
  · exact .refl s

theorem dels_adds {order : Option ℕ} (h : ∀ level keys, P (.delete level keys order)) (keys : List Key) :
    ∀ s, Adds P s (keys.foldl (fun s key => del cfg key order s) s) := by
  induction keys with
  | nil => exact fun s => .refl s
  | cons key keys ih => exact fun s => (del_adds (fun level => h level _) s).trans (ih _)

/-! ### Writes -/

theorem ttlWithJitter_le {draw : ℤ} (h : Draws cfg draw) (base : ℤ) :
    SkuCache.ttlWithJitter cfg.cache draw base ≤ base + max cfg.cache.jitterSeconds 0 := by
  have hdraw := h.2
  unfold SkuCache.ttlWithJitter
  split <;> omega

/-- What may be written for a table: under a key what is made of its rows, with a TTL
of a sku's key no longer than that. -/
def Made (cfg : Config) (table : SkuTable) (stamp : Stamp) : Effect → Prop
  | .write _ key value ttlSeconds stamp' => stamp' = stamp ∧ Carries cfg table key value ∧
      ∀ skuId, key = .skuItem skuId → ttlSeconds ≤ itemTtl cfg
  | _ => False

theorem Made.issues {f : Effect} {table : SkuTable} {stamp : Stamp} (h : Made cfg table stamp f)
    (hr : (s.reads r).result = some (table, stamp)) : Issues cfg s f := by
  cases f with
  | write level key value ttl stamp' =>
    obtain ⟨rfl, hcarries, httl⟩ := h
    exact ⟨r, table, hr, hcarries, httl⟩
  | delete level keys second => exact h.elim
  | schedule keys order => exact h.elim

theorem setList_adds (draw : ℤ) (table : SkuTable) (stamp : Stamp) (n : ℕ) (s : State) :
    Adds (Made cfg table stamp) s
      (setList cfg draw (cfg.json.toCompactJson (.arr ((table.first n).map itemJson))) stamp s) :=
  setex_adds (fun level => ⟨rfl, ⟨n, rfl⟩, fun skuId h => by cases h⟩) s

theorem setDetail_adds {draw : ℤ} {table : SkuTable} {row : SkuRow} (hdraw : Draws cfg draw) (stamp : Stamp)
    (hrow : row ∈ table.rows) (s : State) :
    Adds (Made cfg table stamp) s (setDetail cfg draw row.id (cfg.json.toCompactJson (itemJson row)) stamp s) := by
  have httl : SkuCache.ttlWithJitter cfg.cache draw cfg.cache.detailTtlSeconds ≤ itemTtl cfg := by
    have hjitter := ttlWithJitter_le hdraw cfg.cache.detailTtlSeconds
    unfold itemTtl
    omega
  exact setex_adds (fun level => ⟨rfl, (SeckillService.itemText_of_mem hrow).symm, fun _ _ => httl⟩) s

theorem setNull_adds {draw : ℤ} {table : SkuTable} {skuId : Int64} (hdraw : Draws cfg draw) (stamp : Stamp)
    (hrow : table.find skuId = none) (s : State) :
    Adds (Made cfg table stamp) s (setNull cfg draw skuId stamp s) := by
  have httl : SkuCache.ttlWithJitter cfg.cache draw cfg.cache.nullTtlSeconds ≤ itemTtl cfg := by
    have hjitter := ttlWithJitter_le hdraw cfg.cache.nullTtlSeconds
    unfold itemTtl
    omega
  have htext : SkuCache.kNullValue = itemText cfg table skuId := by
    unfold itemText
    rw [hrow]
  exact setex_adds (fun level => ⟨rfl, htext, fun _ _ => httl⟩) s

/-- **A read writes back what it read.** -/
theorem writeBack_adds {draw : ℤ} (hdraw : Draws cfg draw) (table : SkuTable) (stamp : Stamp) (query : Query)
    (s : State) : Adds (Made cfg table stamp) s (writeBack cfg draw table stamp query s) := by
  cases query with
  | list => exact setList_adds draw table stamp 100 s
  | detail skuId =>
    unfold writeBack
    dsimp only
    cases hfind : table.find skuId with
    | none => exact setNull_adds hdraw stamp hfind s
    | some row =>
      have hid : row.id = skuId := by simpa using List.find?_some hfind
      rw [← hid]
      exact setDetail_adds hdraw stamp (SeckillService.mem_rows_of_find hfind) s

/-- **A warm-up writes the rows it read.** -/
theorem warmLoop_adds {draw : ℕ → ℤ} {table : SkuTable} (stamp : Stamp) (rows : List SkuRow)
    (hrows : ∀ row ∈ rows, row ∈ table.rows) : ∀ i listArr s, (∀ j < i + rows.length, Draws cfg (draw j)) →
      Adds (Made cfg table stamp) s (warmLoop cfg draw stamp i listArr s rows).2.2 := by
  induction rows with
  | nil => exact fun i listArr s _ => .refl s
  | cons row rows ih =>
    intro i listArr s hdraws
    rw [List.forall_mem_cons] at hrows
    have hfirst : Draws cfg (draw i) := hdraws i (by rw [List.length_cons]; omega)
    refine (setDetail_adds hfirst stamp hrows.1 s).trans (ih hrows.2 _ _ _ fun j hj => hdraws j ?_)
    rw [List.length_cons]
    omega

/-- Its list is of the first rows, as many as fit. -/
theorem warmLoop_list (draw : ℕ → ℤ) (stamp : Stamp) (rows : List SkuRow) : ∀ i listArr s,
    (warmLoop cfg draw stamp i listArr s rows).1 = listArr ++ (rows.map itemJson).take (100 - listArr.length) := by
  induction rows with
  | nil => intro i listArr s; simp [warmLoop]
  | cons row rows ih =>
    intro i listArr s
    rw [warmLoop, ih, List.map_cons, SeckillService.append_take_room]

/-! ### The steps, one by one -/

/-- A step that writes and deletes nothing. -/
theorem Did.quiet (hnow : s.redis.now ≤ t.redis.now) (hcell : t.redis.cell = s.redis.cell)
    (hlocal : ∀ key item, (t.local_.bind fun l => l.find key) = some item →
      (s.local_.bind fun l => l.find key) = some item)
    (hstamp : t.stampOf = s.stampOf) (hpending : ∀ f ∈ t.pending, f ∈ s.pending ∨ Issues cfg s f)
    (hdelayed : ∀ task ∈ t.delayed, task ∈ s.delayed)
    (hreads : ∀ r, t.reads r = s.reads r ∨ Becomes cfg s e r (t.reads r))
    (horders : ∀ q o, s.orders q = some o → ∃ o', t.orders q = some o' ∧ o'.time = o.time)
    (hcommits : ∀ q o, t.orders q = some o → s.orders q = none → o.time = s.redis.now) : Did cfg s e t := by
  refine ⟨hnow, fun level key x hx => Or.inl ⟨?_, by rw [hstamp]⟩, hpending, fun task h => Or.inl (hdelayed task h),
    hreads, horders, hcommits⟩
  cases level with
  | redis => rwa [ReadPath.held, hcell] at hx
  | local_ =>
    obtain ⟨item, hitem, rfl⟩ := Option.map_eq_some_iff.1 hx
    exact Option.map_eq_some_iff.2 ⟨item, hlocal key item hitem, rfl⟩

theorem same_orders (s : State) : ∀ q o, s.orders q = some o → ∃ o', s.orders q = some o' ∧ o'.time = o.time :=
  fun _ o h => ⟨o, h, rfl⟩

theorem no_commits (s : State) : ∀ q o, s.orders q = some o → s.orders q = none → o.time = s.redis.now := by
  intro q o h hnone
  rw [hnone] at h
  cases h

theorem update_reads {p : Read} (h : Becomes cfg s e r p) (r' : ℕ) :
    Function.update s.reads r p r' = s.reads r' ∨ Becomes cfg s e r' (Function.update s.reads r p r') := by
  by_cases hr : r' = r
  · subst hr
    rw [Function.update_self]
    exact Or.inr h
  · exact Or.inl (Function.update_of_ne hr _ _)

theorem mem_pending_append {fs : List Effect} (hfs : ∀ f ∈ fs, P f) : ∀ f ∈ s.pending ++ fs, f ∈ s.pending ∨ P f := by
  intro f hf
  rcases List.mem_append.1 hf with hf | hf
  · exact Or.inl hf
  · exact Or.inr (hfs f hf)

/-- A request moves on, having issued something perhaps. -/
theorem Adds.did (h : Adds (Issues cfg s) s s') {p : Read} (hp : Becomes cfg s e r p) :
    Did cfg s e (s'.set r p) := by
  obtain ⟨fs, rfl, hfs⟩ := h
  exact .quiet (Nat.le_refl _) rfl (fun _ _ h => h) rfl (mem_pending_append hfs) (fun _ h => h) (update_reads hp)
    (same_orders s) (no_commits s)

theorem Becomes.did {p : Read} (hp : Becomes cfg s e r p) : Did cfg s e (s.set r p) := (Adds.refl s).did hp

theorem Adds.mono {Q : Effect → Prop} (h : Adds P s t) (hPQ : ∀ f, P f → Q f) : Adds Q s t := by
  obtain ⟨fs, rfl, hfs⟩ := h
  exact ⟨fs, rfl, fun f hf => hPQ f (hfs f hf)⟩

/-- A look into L1 moves an entry to the front, or drops one. -/
theorem Becomes.lookup {p : Read} (hp : Becomes cfg s e r p) {l : LocalLruCache} (hl : s.local_ = some l) (now : ℕ)
    (key : Key) : Did cfg s e ({ s with local_ := some (l.get now key).2 }.set r p) := by
  refine .quiet (Nat.le_refl _) rfl (fun key' item hitem => ?_) rfl (fun _ hf => Or.inl hf) (fun _ h => h)
    (update_reads hp) (same_orders s) (no_commits s)
  rw [hl]
  exact find_of_find_get hitem

/-- A hit in L1 is an entry that has not expired. -/
theorem held_of_get {l : LocalLruCache} {value : String} (hl : s.local_ = some l)
    (h : (l.get s.redis.now key).1 = some value) :
    ∃ x, held .local_ s key = some x ∧ x.value = value ∧ ∀ d, x.deadline = some d → (s.redis.now : ℤ) ≤ d := by
  unfold LocalLruCache.get at h
  split at h
  next => cases h
  next item hitem =>
    split at h
    next => cases h
    next hlive =>
      refine ⟨⟨item.value, some item.expireAt⟩, by simp [held, hl, hitem], Option.some.inj h, fun d hd => ?_⟩
      rw [← Option.some.inj hd]
      omega

theorem readStep_did {query : Query} (h : readStep cfg s r query = some t) : Did cfg s e t := by
  unfold readStep at h
  split at h
  next =>
    split at h
    · rw [← Option.some.inj h]
      exact Becomes.did (Or.inl rfl)
    · split at h
      next =>
        rw [← Option.some.inj h]
        exact Becomes.did trivial
      next l hl =>
        dsimp only at h
        split at h
        next value hget =>
          rw [← Option.some.inj h]
          obtain ⟨x, hx, hvalue, hlive⟩ := held_of_get hl hget
          have hp : Becomes cfg s e r (.reply query (some value) s.redis.now) :=
            ⟨rfl, fun v hv => ⟨.local_, x, hx, hvalue.trans (Option.some.inj hv), hlive⟩⟩
          exact hp.lookup hl _ _
        next =>
          rw [← Option.some.inj h]
          have hp : Becomes cfg s e r (.get query) := trivial
          exact hp.lookup hl _ _
  next => cases h

theorem getStep_did {err : Option String} (h : getStep s r err = some t) : Did cfg s e t := by
  unfold getStep at h
  split at h
  next query hr =>
    rw [← Option.some.inj h]
    have hredis : (exec err (Redis.get query.key) s.redis).2 = s.redis := by
      cases err with
      | some what => rfl
      | none => exact get_same query.key s.redis
    rw [hredis]
    apply Becomes.did
    refine ⟨rfl, fun v hv => ?_⟩
    cases err with
    | some what => cases hv
    | none =>
      -- what Redis serves is alive
      split at hv
      next reply hreply =>
        obtain ⟨htext, -⟩ := Option.filter_eq_some_iff.1 hv
        obtain ⟨val, hval, hv⟩ := Option.map_eq_some_iff.1 htext
        have hreply' : (Redis.get query.key s.redis).1 = .ok reply := hreply
        rcases get_cases query.key s.redis with hget | ⟨e, what, -, -, hget⟩
        swap
        · rw [hget] at hreply'
          cases hreply'
        rw [hget] at hreply'
        rw [← Except.ok.inj hreply'] at hval
        obtain ⟨entry, hfind, rfl⟩ := Option.map_eq_some_iff.1 hval
        obtain ⟨hcell, halive⟩ := Store.find_some.1 hfind
        refine ⟨.redis, ⟨entry.val.text, entry.expireAt.map Nat.cast⟩, by simp [ReadPath.held, hcell], hv, ?_⟩
        intro d hd
        obtain ⟨n, hn, rfl⟩ := Option.map_eq_some_iff.1 hd
        rw [Entry.alive, hn] at halive
        exact_mod_cast of_decide_eq_true halive
      next => cases hv
  next => cases h

theorem replyStep_did (h : replyStep cfg s r = some t) : Did cfg s e t := by
  unfold replyStep at h
  split at h
  next query looked hr =>
    rw [← Option.some.inj h]
    exact Becomes.did (Or.inr ⟨none, hr⟩)
  next query value looked hr =>
    split at h
    next a ha =>
      rw [← Option.some.inj h]
      exact Becomes.did (Or.inl ⟨value, hr, ha⟩)
    next =>
      rw [← Option.some.inj h]
      refine Adds.did (repair_adds (fun _ _ => ?_) (fun _ => ?_) query s) (Or.inr ⟨some value, hr⟩)
      · exact fun q hq => by cases hq
      · exact fun q hq => by cases hq
  next => cases h

theorem selectStep_did {err : Option String} (h : selectStep s r err = some t) : Did cfg s (.select r err) t := by
  unfold selectStep at h
  split at h
  next query looked hr =>
    cases err with
    | some what =>
      rw [← Option.some.inj h]
      exact Becomes.did trivial
    | none =>
      rw [← Option.some.inj h]
      exact Becomes.did ⟨rfl, hr, rfl, rfl⟩
  next => cases h

theorem answerStep_did {draw : ℤ} (h : answerStep cfg s r draw = some t) : Did cfg s e t := by
  unfold answerStep at h
  split at h
  next query looked table stamp hr =>
    split at h
    · cases h
    next hdraw =>
      rw [← Option.some.inj h]
      have hwrites := writeBack_adds (not_not.1 hdraw) table stamp query s
      refine (hwrites.mono fun f hf => hf.issues (r := r) ?_).did (Or.inr ⟨table, stamp, hr, rfl⟩)
      rw [hr]
      rfl
  next => cases h

theorem warmCacheStep_did {limit : ℤ} (h : warmCacheStep s r limit = some t) : Did cfg s e t := by
  unfold warmCacheStep at h
  split at h
  · rw [← Option.some.inj h]
    exact Becomes.did trivial
  · cases h

theorem warmSelectStep_did {err : Option String} (h : warmSelectStep s r err = some t) :
    Did cfg s (.warmSelect r err) t := by
  unfold warmSelectStep at h
  split at h
  · cases err with
    | some what =>
      rw [← Option.some.inj h]
      exact Becomes.did trivial
    | none =>
      rw [← Option.some.inj h]
      exact Becomes.did ⟨rfl, rfl, rfl⟩
  · cases h

theorem warmStep_did {draw : ℕ → ℤ} (h : warmStep cfg s r draw = some t) : Did cfg s e t := by
  unfold warmStep at h
  split at h
  next limit table stamp hr =>
    dsimp only at h
    split at h
    · cases h
    next hdraws =>
      rw [← Option.some.inj h]
      have hdraw := not_not.1 hdraws
      set rows := table.first limit.toNat
      have hrows : ∀ row ∈ rows, row ∈ table.rows := fun row hrow => SeckillService.mem_rows_of_first hrow
      have hitems : Adds (Made cfg table stamp) s (warmLoop cfg draw stamp 0 [] s rows).2.2 :=
        warmLoop_adds stamp rows hrows 0 [] s fun j hj => hdraw j (by omega)
      have hlist : (warmLoop cfg draw stamp 0 [] s rows).1 = (table.first (min 100 limit.toNat)).map itemJson := by
        have hcut : rows.take 100 = table.first (min 100 limit.toNat) := List.take_take
        rw [warmLoop_list, List.nil_append, List.length_nil, Nat.sub_zero, ← List.map_take, hcut]
      have hissued : ∀ f, Made cfg table stamp f → Issues cfg s f := fun f hf => hf.issues (r := r) (by rw [hr]; rfl)
      refine Adds.did (Adds.mono ?_ hissued) trivial
      split
      · rw [hlist]
        exact hitems.trans (setList_adds _ table stamp _ _)
      · exact hitems
  next => cases h

theorem commitStep_did {q : ℕ} {skuId : Int64} (h : commitStep s q skuId = some t) : Did cfg s e t := by
  unfold commitStep at h
  split at h
  next row hq hrow =>
    split at h
    · rw [← Option.some.inj h]
      refine .quiet (Nat.le_refl _) rfl (fun _ _ h => h) rfl (fun _ hf => Or.inl hf) (fun _ h => h)
        (fun _ => Or.inl rfl) ?_ ?_
      · -- the orders there were are other orders
        intro q' o ho
        have hne : q' ≠ q := fun heq => by rw [heq, hq] at ho; cases ho
        exact ⟨o, (Function.update_of_ne hne _ _).trans ho, rfl⟩
      · intro q' o ho hnone
        dsimp only at ho
        by_cases hq' : q' = q
        · rw [hq', Function.update_self] at ho
          rw [← Option.some.inj ho]
        · rw [Function.update_of_ne hq', hnone] at ho
          cases ho
    · cases h
  next => cases h

theorem invalidateOnOrderStep_did {q : ℕ} (h : invalidateOnOrderStep cfg s q = some t) : Did cfg s e t := by
  unfold invalidateOnOrderStep at h
  split at h
  next order hq =>
    split at h
    · cases h
    · rw [← Option.some.inj h]
      have hadds : Adds (Issues cfg s) s (invalidateOnOrder cfg order.skuId q s) := by
        refine invalidateOnOrder_adds (fun _ _ => ?_) (fun _ => ?_) _ s
        · exact fun q hq => by cases hq
        · intro q' hq'
          rw [← Option.some.inj hq', hq]
          rfl
      obtain ⟨fs, hfs, hissued⟩ := hadds
      rw [hfs]
      refine .quiet (Nat.le_refl _) rfl (fun _ _ h => h) rfl (mem_pending_append hissued) (fun _ h => h)
        (fun _ => Or.inl rfl) ?_ ?_
      · -- it is told, its commit stays
        intro q' o ho
        by_cases hq' : q' = q
        · subst hq'
          rw [hq] at ho
          exact ⟨_, Function.update_self _ _ _, by rw [← Option.some.inj ho]⟩
        · exact ⟨o, (Function.update_of_ne hq' _ _).trans ho, rfl⟩
      · -- and nothing is committed
        intro q' o ho hnone
        have hne : q' ≠ q := fun heq => by rw [heq, hq] at hnone; cases hnone
        dsimp only at ho
        rw [Function.update_of_ne hne, hnone] at ho
        cases ho
  next => cases h

theorem fireDelayedStep_did (h : fireDelayedStep cfg s = some t) : Did cfg s e t := by
  unfold fireDelayedStep at h
  split at h
  next => cases h
  next task rest hdelayed =>
    split at h
    · cases h
    next hdue =>
      have hmem : task ∈ s.delayed := by rw [hdelayed]; exact List.mem_cons_self
      have hadds : Adds (Issues cfg s) { s with delayed := rest }
          (task.keys.foldl (fun s key => del cfg key task.order s) { s with delayed := rest }) :=
        dels_adds (fun _ _ q hq => ⟨task, hmem, hq, by omega⟩) _ _
      obtain ⟨fs, hfs, hissued⟩ := hadds
      rw [← Option.some.inj h, hfs]
      refine .quiet (Nat.le_refl _) rfl (fun _ _ h => h) rfl (mem_pending_append hissued) (fun task' hrest => ?_)
        (fun _ => Or.inl rfl) (same_orders s) (no_commits s)
      rw [hdelayed]
      exact List.mem_cons_of_mem _ hrest

/-! ### Effects happen -/

/-- The state with one effect less to come. -/
def State.without (s : State) (i : ℕ) : State := { s with pending := s.pending.eraseIdx i }

theorem held_without (level : Level) (s : State) (i : ℕ) : held level (s.without i) = held level s := by
  cases level <;> rfl

theorem stampOf_update (f : Level → Key → Stamp) (level level' : Level) (key key' : Key) (stamp : Stamp) :
    Function.update f level (Function.update (f level) key stamp) level' key' =
      if level' = level ∧ key' = key then stamp else f level' key' := by
  by_cases hlevel : level' = level
  · subst hlevel
    rw [Function.update_self, Function.update_apply]
    simp
  · rw [Function.update_of_ne hlevel, if_neg fun h => hlevel h.1]

/-- An effect on a level: no more than that level and its stamps changes. -/
theorem Did.level {i : ℕ} (hnow : t.redis.now = s.redis.now) (hpending : t.pending = s.pending.eraseIdx i)
    (hdelayed : t.delayed = s.delayed) (hreads : t.reads = s.reads) (horders : t.orders = s.orders)
    (hheld : ∀ level key x, ReadPath.held level t key = some x →
      ReadPath.held level s key = some x ∧ t.stampOf level key = s.stampOf level key ∨
        ∃ (ttl : ℤ) (stamp : Stamp), .write level key x.value ttl stamp ∈ s.pending ∧
          x.deadline = some ((s.redis.now : ℤ) + ttl * 1000) ∧ t.stampOf level key = stamp ∧
          lag s e = some ((s.redis.now : ℤ) - stamp.time)) : Did cfg s e t := by
  refine ⟨Nat.le_of_eq hnow.symm, hheld, fun f hf => Or.inl ?_, fun task h => Or.inl ?_, fun r => Or.inl ?_, ?_, ?_⟩
  · rw [hpending] at hf
    exact List.eraseIdx_subset hf
  · rwa [hdelayed] at h
  · rw [hreads]
  · rw [horders]
    exact same_orders s
  · rw [horders]
    exact no_commits s

theorem setex_did {i : ℕ} {value : String} {ttl : ℤ} {stamp : Stamp} {err : Option String}
    (hi : s.pending[i]? = some (.write .redis key value ttl stamp))
    (h : perform cfg err (s.without i) (.write .redis key value ttl stamp) = some t) :
    Did cfg s (.apply i err) t := by
  have hrefused : Did cfg s (.apply i err) (s.without i) := by
    refine .level rfl rfl rfl rfl rfl fun level key x hx => Or.inl ⟨?_, rfl⟩
    rwa [held_without] at hx
  unfold perform exec Redis.setex at h
  cases err with
  | some what =>
    rw [← Option.some.inj h]
    exact hrefused
  | none =>
    dsimp only at h
    by_cases httl : ttl ≤ 0
    · -- Redis refuses a TTL that is not positive
      rw [if_pos httl] at h
      rw [← Option.some.inj h]
      exact hrefused
    · rw [if_neg httl] at h
      rw [← Option.some.inj h]
      refine .level rfl rfl rfl rfl rfl fun level key' x hx => ?_
      dsimp only
      rw [stampOf_update]
      cases level with
      | local_ => exact Or.inl ⟨hx, if_neg fun h => absurd h.1 (by decide)⟩
      | redis =>
        by_cases hkey : key' = key
        · right
          subst hkey
          rw [held, Store.cell_put_self, Option.map_some, Option.some.injEq] at hx
          subst hx
          refine ⟨ttl, stamp, List.mem_of_getElem? hi, ?_, if_pos ⟨rfl, rfl⟩, ?_⟩
          · -- the TTL counts from now
            have hnat : ((s.redis.now + ttl.toNat * 1000 : ℕ) : ℤ) = s.redis.now + ttl * 1000 := by
              push_cast
              omega
            exact congrArg some hnat
          · rw [lag, hi]
            exact if_neg fun hboth => httl hboth.2
        · left
          rw [held, Store.cell_put_of_ne _ _ hkey] at hx
          exact ⟨hx, if_neg fun h => hkey h.2⟩

theorem put_did {i : ℕ} {value : String} {ttl : ℤ} {stamp : Stamp} {err : Option String}
    (hi : s.pending[i]? = some (.write .local_ key value ttl stamp))
    (h : perform cfg err (s.without i) (.write .local_ key value ttl stamp) = some t) :
    Did cfg s (.apply i err) t := by
  unfold perform at h
  dsimp only at h
  split at h
  · cases h
  next herr =>
    rw [← Option.some.inj h]
    refine .level rfl rfl rfl rfl rfl fun level key' x hx => ?_
    dsimp only
    rw [stampOf_update]
    cases level with
    | redis => exact Or.inl ⟨hx, if_neg fun h => absurd h.1 (by decide)⟩
    | local_ =>
      obtain ⟨item, hitem, rfl⟩ := Option.map_eq_some_iff.1 hx
      obtain ⟨l', hl', hfind⟩ := Option.bind_eq_some_iff.1 hitem
      obtain ⟨l, hl, rfl⟩ := Option.map_eq_some_iff.1 hl'
      rcases Lru.find_put l key key' ⟨value, (s.redis.now : ℤ) + ttl * 1000⟩ with hput | hput
      · have hthere := hput.symm.trans hfind
        by_cases hkey : key' = key
        · right
          rw [if_pos hkey] at hthere
          obtain rfl := Option.some.inj hthere
          subst hkey
          refine ⟨ttl, stamp, List.mem_of_getElem? hi, rfl, if_pos ⟨rfl, rfl⟩, ?_⟩
          rw [not_not.1 herr, lag, hi]
          exact if_neg fun hboth => absurd hboth.1 (by decide)
        · left
          rw [if_neg hkey] at hthere
          have hlocal : s.local_ = some l := hl
          refine ⟨?_, if_neg fun h => hkey h.2⟩
          rw [held, hlocal, Option.bind_some, hthere, Option.map_some]
      · -- the entry, or the one of another key, did not fit
        cases hput.symm.trans hfind

/-- `DEL` leaves no more than there was, and nothing under its keys. -/
theorem delAll_cell (keys : List Key) : ∀ store : Store Key, (delAll keys store).2.now = store.now ∧
    ∀ key, (delAll keys store).2.cell key = if key ∈ keys then none else store.cell key := by
  unfold delAll
  induction keys with
  | nil => exact fun store => ⟨rfl, fun key => (if_neg List.not_mem_nil).symm⟩
  | cons key keys ih =>
    intro store
    obtain ⟨hnow, hcell⟩ := ih (store.put key none)
    refine ⟨hnow, fun key' => ?_⟩
    rw [List.foldl_cons, hcell]
    by_cases hin : key' ∈ keys
    · rw [if_pos hin, if_pos (List.mem_cons_of_mem _ hin)]
    · by_cases hkey : key' = key
      · rw [if_neg hin, hkey, Store.cell_put_self, if_pos List.mem_cons_self]
      · rw [if_neg hin, Store.cell_put_of_ne _ _ hkey, if_neg (by simp [hkey, hin])]

/-- The deletes in L1 too. -/
theorem erase_find (keys : List Key) : ∀ (l : LocalLruCache) (key : Key),
    (keys.foldl (fun l key => l.erase key) l).find key = if key ∈ keys then none else l.find key := by
  induction keys with
  | nil => exact fun l key => (if_neg List.not_mem_nil).symm
  | cons key keys ih =>
    intro l key'
    rw [List.foldl_cons, ih, Lru.find_erase]
    by_cases hin : key' ∈ keys
    · rw [if_pos hin, if_pos (List.mem_cons_of_mem _ hin)]
    · by_cases hkey : key' = key
      · rw [if_neg hin, if_pos hkey, hkey, if_pos List.mem_cons_self]
      · rw [if_neg hin, if_neg hkey, if_neg (by simp [hkey, hin])]

/-- What a delete leaves: under its keys nothing. -/
theorem perform_delete {level : Level} {keys : List Key} {second : Option ℕ} {err : Option String}
    (h : perform cfg err s (.delete level keys second) = some t) :
    t.redis.now = s.redis.now ∧ t.pending = s.pending ∧ t.delayed = s.delayed ∧ t.reads = s.reads ∧
      t.orders = s.orders ∧ t.stampOf = s.stampOf ∧
      (∀ level' key x, held level' t key = some x → held level' s key = some x) ∧
      (err = none → ∀ key ∈ keys, held level t key = none) := by
  cases level with
  | redis =>
    rw [perform, Option.some.injEq] at h
    subst h
    obtain ⟨hnow, hcell⟩ := delAll_cell keys s.redis
    cases err with
    | some what =>
      -- the DEL is lost
      refine ⟨rfl, rfl, rfl, rfl, rfl, rfl, fun level key x hx => ?_, fun h => by cases h⟩
      cases level <;> exact hx
    | none =>
      refine ⟨hnow, rfl, rfl, rfl, rfl, rfl, fun level key x hx => ?_, fun _ key hkey => ?_⟩
      · cases level with
        | local_ => exact hx
        | redis =>
          simp only [held, exec, hcell] at hx ⊢
          split at hx
          · cases hx
          · exact hx
      · simp only [held, exec, hcell, if_pos hkey, Option.map_none]
  | local_ =>
    unfold perform at h
    dsimp only at h
    split at h
    · cases h
    · rw [← Option.some.inj h]
      refine ⟨rfl, rfl, rfl, rfl, rfl, rfl, fun level key x hx => ?_, fun _ key hkey => ?_⟩
      · cases level with
        | redis => exact hx
        | local_ =>
          cases hl : s.local_ with
          | none => simp [held, hl] at hx
          | some l =>
            simp only [held, hl, Option.map_some, Option.bind_some, erase_find] at hx ⊢
            split at hx
            · cases hx
            · exact hx
      · cases hl : s.local_ with
        | none => rfl
        | some l => simp only [held, Option.map_some, Option.bind_some, erase_find, if_pos hkey, Option.map_none]

theorem applyStep_did {i : ℕ} {err : Option String} (h : applyStep cfg s i err = some t) :
    Did cfg s (.apply i err) t := by
  unfold applyStep at h
  split at h
  next f hi =>
    cases f with
    | write level key value ttl stamp =>
      cases level with
      | redis => exact setex_did hi h
      | local_ => exact put_did hi h
    | delete level keys second =>
      obtain ⟨hnow, hpending, hdelayed, hreads, horders, hstamp, hheld, -⟩ := perform_delete h
      refine .level hnow hpending hdelayed hreads horders fun level' key x hx => Or.inl ⟨?_, ?_⟩
      · rw [← held_without level' s i]
        exact hheld level' key x hx
      · rw [hstamp]
    | schedule keys order =>
      unfold perform scheduleDelayedDelete at h
      dsimp only at h
      split at h
      · cases h
      · split at h
        · rw [← Option.some.inj h]
          refine ⟨Nat.le_refl _, fun level key x hx => Or.inl ⟨?_, rfl⟩, fun f hf => Or.inl (List.eraseIdx_subset hf),
            fun task htask => ?_, fun _ => Or.inl rfl, same_orders s, no_commits s⟩
          · cases level <;> exact hx
          · -- the delay thread is there: one task more
            rcases List.mem_append.1 htask with hbefore | hnew
            · exact Or.inl hbefore
            · exact Or.inr ⟨keys, order, List.mem_of_getElem? hi, List.mem_singleton.1 hnew⟩
        · rw [← Option.some.inj h]
          refine .level rfl rfl rfl rfl rfl fun level key x hx => Or.inl ⟨?_, rfl⟩
          cases level <;> exact hx
  next => cases h

/-- **Every step.** -/
theorem step_did (h : step cfg s e = some t) : Did cfg s e t := by
  cases e with
  | detailSku r skuId => exact readStep_did h
  | listSkus r => exact readStep_did h
  | get r err => exact getStep_did h
  | reply r => exact replyStep_did h
  | select r err => exact selectStep_did h
  | answer r draw => exact answerStep_did h
  | warmCache r limit => exact warmCacheStep_did h
  | warmSelect r err => exact warmSelectStep_did h
  | warm r draw => exact warmStep_did h
  | commit q skuId => exact commitStep_did h
  | invalidateOnOrder q => exact invalidateOnOrderStep_did h
  | update table =>
    cases h
    exact .quiet (Nat.le_refl _) rfl (fun _ _ h => h) rfl (fun _ hf => Or.inl hf) (fun _ h => h) (fun _ => Or.inl rfl)
      (same_orders s) (no_commits s)
  | fireDelayed => exact fireDelayedStep_did h
  | apply i err => exact applyStep_did h
  | wait ms =>
    cases h
    exact .quiet (Nat.le_add_right _ _) rfl (fun _ _ h => h) rfl (fun _ hf => Or.inl hf) (fun _ h => h)
      (fun _ => Or.inl rfl) (same_orders s) (no_commits s)

/-! ## Runs -/

variable {s₀ : State} {es : List Ev} {table : SkuTable} {stamp : Stamp}

/-- In this state of the run a SELECT read the table. -/
def Saw (cfg : Config) (s₀ : State) (es : List Ev) (v : State) : Prop :=
  ∃ r, Machine.Takes (step cfg) s₀ es v (.select r none) ∨ Machine.Takes (step cfg) s₀ es v (.warmSelect r none)

theorem Saw.snoc {v : State} (h : Saw cfg s₀ es v) (e : Ev) : Saw cfg s₀ (es ++ [e]) v := by
  obtain ⟨r, h | h⟩ := h
  · exact ⟨r, Or.inl (h.snoc e)⟩
  · exact ⟨r, Or.inr (h.snoc e)⟩

/-- These rows were read at this moment. -/
def Known (cfg : Config) (s₀ : State) (es : List Ev) (table : SkuTable) (stamp : Stamp) : Prop :=
  ∃ v, Saw cfg s₀ es v ∧ v.table = table ∧ v.stamp = stamp

theorem Known.snoc (h : Known cfg s₀ es table stamp) (e : Ev) : Known cfg s₀ (es ++ [e]) table stamp := by
  obtain ⟨v, hsaw, htable, hstamp⟩ := h
  exact ⟨v, hsaw.snoc e, htable, hstamp⟩

/-- **Everything was read**: what a request, a pending write or a level has. -/
structure Grounded (cfg : Config) (s₀ : State) (es : List Ev) (s : State) : Prop where
  reads : ∀ r table stamp, (s.reads r).result = some (table, stamp) → Known cfg s₀ es table stamp
  pending : ∀ level key value ttl stamp, .write level key value ttl stamp ∈ s.pending →
    ∃ table, Known cfg s₀ es table stamp ∧ Carries cfg table key value ∧
      ∀ skuId, key = .skuItem skuId → ttl ≤ itemTtl cfg
  held : ∀ level key x, held level s key = some x →
    ∃ table, Known cfg s₀ es table (s.stampOf level key) ∧ Carries cfg table key x.value

/-- The result of a SELECT is from this step, or the request had it. -/
theorem Did.result (h : Did cfg s e t) (hr : (t.reads r).result = some (table, stamp)) :
    (s.reads r).result = some (table, stamp) ∨
      (e = .select r none ∨ e = .warmSelect r none) ∧ table = s.table ∧ stamp = s.stamp := by
  rcases h.reads r with heq | hnew
  · rw [heq] at hr
    exact Or.inl hr
  · -- only the two SELECTs give a request rows
    right
    cases hread : t.reads r with
    | selected query looked table' stamp' =>
      rw [hread] at hr hnew
      obtain ⟨rfl, rfl⟩ := Prod.mk.inj (Option.some.inj hr)
      exact ⟨Or.inl hnew.1, hnew.2.2.1, hnew.2.2.2⟩
    | warmSelected limit table' stamp' =>
      rw [hread] at hr hnew
      obtain ⟨rfl, rfl⟩ := Prod.mk.inj (Option.some.inj hr)
      exact ⟨Or.inr hnew.1, hnew.2.1, hnew.2.2⟩
    | idle | get | reply | select | answered | failed | warmSelect | warmed =>
      rw [hread] at hr
      cases hr

/-- Both levels are empty at first. -/
theorem held_init (cfg : Config) (now : ℕ) (table : SkuTable) (level : Level) (key : Key) :
    held level (State.init cfg now table) key = none := by
  cases level with
  | redis => rfl
  | local_ =>
    unfold held State.init
    dsimp only
    split <;> rfl

theorem Grounded.init (cfg : Config) (now : ℕ) (table : SkuTable) :
    Grounded cfg (State.init cfg now table) [] (State.init cfg now table) := by
  refine ⟨fun r table stamp h => (by cases h), fun _ _ _ _ _ h => absurd h List.not_mem_nil, fun level key x hx => ?_⟩
  rw [held_init] at hx
  cases hx

theorem Grounded.step (h : Grounded cfg s₀ es s) (hrun : Machine.run (step cfg) s₀ es = some s)
    (he : step cfg s e = some t) : Grounded cfg s₀ (es ++ [e]) t := by
  have hdid := step_did he
  refine ⟨fun r table stamp hr => ?_, fun level key value ttl stamp hwrite => ?_, fun level key x hx => ?_⟩
  · rcases hdid.result hr with hbefore | ⟨hselect, rfl, rfl⟩
    · exact (h.reads r table stamp hbefore).snoc e
    · refine ⟨s, ⟨r, ?_⟩, rfl, rfl⟩
      rcases hselect with rfl | rfl
      · exact Or.inl (Machine.takes_last _ hrun)
      · exact Or.inr (Machine.takes_last _ hrun)
  · rcases hdid.pending _ hwrite with hbefore | ⟨r, table, hr, hcarries, httl⟩
    · obtain ⟨table, hknown, hcarries⟩ := h.pending level key value ttl stamp hbefore
      exact ⟨table, hknown.snoc e, hcarries⟩
    · exact ⟨table, (h.reads r table stamp hr).snoc e, hcarries, httl⟩
  · rcases hdid.held level key x hx with ⟨hbefore, hstamp⟩ | ⟨ttl, stamp, hwrite, -, hstamp, -⟩
    · obtain ⟨table, hknown, hcarries⟩ := h.held level key x hbefore
      rw [hstamp]
      exact ⟨table, hknown.snoc e, hcarries⟩
    · -- what is written now was pending
      obtain ⟨table, hknown, hcarries, -⟩ := h.pending level key x.value ttl stamp hwrite
      rw [hstamp]
      exact ⟨table, hknown.snoc e, hcarries⟩

theorem run_grounded {now : ℕ} {table : SkuTable}
    (h : Machine.run (step cfg) (State.init cfg now table) es = some s) :
    Grounded cfg (State.init cfg now table) es s :=
  Machine.run_trace (I := Grounded cfg (State.init cfg now table)) (Grounded.init cfg now table)
    (fun _ _ _ _ hrun h he => h.step hrun he) h

end Seckill.ReadPath
