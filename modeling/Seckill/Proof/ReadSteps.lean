import Seckill.Proof.Alone

/-!
# How a request goes on

`Goes` has one rule for each way a read or a warm-up can move, with what it moves on:
the level that has the key, what its GET got, whether the string parses, whether its
SELECT failed. `step_keeps`: no step moves a request otherwise; and what else a step may
do to Redis and to the writes on their way (`Keeps`).
-/

namespace Seckill.ReadPath

open Redis
open SeckillService (Config Answer)

variable {cfg : Config} {s s' t : State} {e : Ev} {r : ℕ} {p : Read}

/-- The shortest TTL of a sku's key, in seconds. -/
def leastTtl (cfg : Config) : ℤ := min cfg.cache.detailTtlSeconds cfg.cache.nullTtlSeconds

/-- A write of a sku is for so long at least. -/
def LongEnough (cfg : Config) : Effect → Prop
  | .write _ (.skuItem _) _ ttlSeconds _ => leastTtl cfg ≤ ttlSeconds
  | _ => True

/-- What a GET makes of what Redis has: nothing after an error. -/
def got (err : Option String) (key : Key) (s : State) : Option String :=
  match (exec err (Redis.get key) s.redis).1 with
  | .ok reply => (reply.map Val.text).filter (· ≠ "")
  | .error _ => none

/-- The request a step belongs to. -/
def Ev.request : Ev → Option ℕ
  | .detailSku r _ | .listSkus r | .get r _ | .reply r | .select r _ | .answer r _ | .warmCache r _ | .warmSelect r _
  | .warm r _ => some r
  | .commit _ _ | .invalidateOnOrder _ | .update _ | .fireDelayed | .apply _ _ | .wait _ => none

theorem request_call (r : ℕ) (query : Query) : (call r query).request = some r := by
  cases query <;> rfl

/-- **How request `r` goes on**, by which event and where to. -/
inductive Goes (cfg : Config) (s : State) (r : ℕ) : Ev → Read → Prop
  | direct {query : Query} (hr : s.reads r = .idle) (hdisabled : ¬cfg.cache.enabled) :
      Goes cfg s r (call r query) (.select query s.redis.now)
  | ask {query : Query} (hr : s.reads r = .idle) (henabled : cfg.cache.enabled = true) :
      Goes cfg s r (call r query) (.get query)
  | hit {query : Query} {l : LocalLruCache} {v : String} (hr : s.reads r = .idle) (henabled : cfg.cache.enabled = true)
      (hl : s.local_ = some l) (hv : (l.get s.redis.now query.key).1 = some v) :
      Goes cfg s r (call r query) (.reply query (some v) s.redis.now)
  | got {query : Query} {err : Option String} (hr : s.reads r = .get query) :
      Goes cfg s r (.get r err) (.reply query (got err query.key s) s.redis.now)
  | miss {query : Query} {looked : ℕ} (hr : s.reads r = .reply query none looked) :
      Goes cfg s r (.reply r) (.select query looked)
  | decoded {query : Query} {v : String} {looked : ℕ} {a : Answer} (hr : s.reads r = .reply query (some v) looked)
      (ha : decode cfg query v = some a) : Goes cfg s r (.reply r) (.answered query a looked)
  | broken {query : Query} {v : String} {looked : ℕ} (hr : s.reads r = .reply query (some v) looked)
      (hv : decode cfg query v = none) : Goes cfg s r (.reply r) (.select query looked)
  | failed {query : Query} {looked : ℕ} {what : String} (hr : s.reads r = .select query looked) :
      Goes cfg s r (.select r (some what)) (.failed query)
  | selected {query : Query} {looked : ℕ} (hr : s.reads r = .select query looked) :
      Goes cfg s r (.select r none) (.selected query looked s.table s.stamp)
  | answered {query : Query} {looked : ℕ} {table : SkuTable} {stamp : Stamp} {draw : ℤ}
      (hr : s.reads r = .selected query looked table stamp) :
      Goes cfg s r (.answer r draw) (.answered query (answer query table) looked)
  | warm {limit : ℤ} (hr : s.reads r = .idle) :
      Goes cfg s r (.warmCache r limit) (.warmSelect (if limit < 1 then 1 else limit))
  | warmFailed {limit : ℤ} {what : String} (hr : s.reads r = .warmSelect limit) :
      Goes cfg s r (.warmSelect r (some what)) (.warmed false 0)
  | warmSelected {limit : ℤ} (hr : s.reads r = .warmSelect limit) :
      Goes cfg s r (.warmSelect r none) (.warmSelected limit s.table s.stamp)
  | warmed {limit : ℤ} {table : SkuTable} {stamp : Stamp} {draw : ℕ → ℤ} {n : ℕ}
      (hr : s.reads r = .warmSelected limit table stamp) : Goes cfg s r (.warm r draw) (.warmed true n)

/-- It is moved by its own steps only. -/
theorem Goes.request (h : Goes cfg s r e p) : e.request = some r := by
  cases h with
  | direct | ask | hit => exact request_call r _
  | _ => rfl

/-- The others stay where they are. -/
theorem Goes.update (h : Goes cfg s r e p) (r' : ℕ) :
    e.request ≠ some r' ∧ Function.update s.reads r p r' = s.reads r' ∨
      Goes cfg s r' e (Function.update s.reads r p r') := by
  by_cases hr : r' = r
  · right
    rwa [hr, Function.update_self]
  · left
    refine ⟨?_, Function.update_of_ne hr _ _⟩
    rw [h.request]
    exact fun heq => hr (Option.some.inj heq).symm

/-- **What a step keeps.** -/
structure Keeps (cfg : Config) (s : State) (e : Ev) (t : State) : Prop where
  pending : ∀ f ∈ t.pending, f ∈ s.pending ∨ LongEnough cfg f
  cell : (∃ i err, e = .apply i err) ∨ t.redis.cell = s.redis.cell
  reads : ∀ r, e.request ≠ some r ∧ t.reads r = s.reads r ∨ Goes cfg s r e (t.reads r)

/-- Request `r` moves on, having issued nothing. -/
theorem Goes.keeps (h : Goes cfg s r e p) (hpending : s'.pending = s.pending) (hcell : s'.redis.cell = s.redis.cell)
    (hreads : s'.reads = s.reads) : Keeps cfg s e (s'.set r p) := by
  refine ⟨fun f hf => Or.inl (hpending ▸ hf), Or.inr hcell, fun r' => ?_⟩
  rw [show (s'.set r p).reads = Function.update s.reads r p by rw [← hreads]; rfl]
  exact h.update r'

/-- Request `r` moves on, having issued something perhaps. -/
theorem Adds.keeps (h : Adds (LongEnough cfg) s s') (hp : Goes cfg s r e p) : Keeps cfg s e (s'.set r p) := by
  obtain ⟨fs, rfl, hfs⟩ := h
  exact ⟨mem_pending_append hfs, Or.inr rfl, hp.update⟩

/-- The database, the orders and the delay thread ask for nothing. -/
theorem Adds.keeps_reads (h : Adds (LongEnough cfg) s s') (he : e.request = none) (ht : t.pending = s'.pending)
    (hcell : t.redis.cell = s'.redis.cell) (hreads : t.reads = s'.reads) : Keeps cfg s e t := by
  obtain ⟨fs, rfl, hfs⟩ := h
  refine ⟨fun f hf => ?_, Or.inr hcell, fun r => Or.inl ⟨by simp [he], congrFun hreads r⟩⟩
  rw [ht] at hf
  exact mem_pending_append hfs f hf

theorem leastTtl_le_detail (cfg : Config) : leastTtl cfg ≤ cfg.cache.detailTtlSeconds := by
  unfold leastTtl
  omega

theorem leastTtl_le_null (cfg : Config) : leastTtl cfg ≤ cfg.cache.nullTtlSeconds := by
  unfold leastTtl
  omega

theorem leastTtl_le_jitter {draw base : ℤ} (h : Draws cfg draw) (hbase : leastTtl cfg ≤ base) :
    leastTtl cfg ≤ SkuCache.ttlWithJitter cfg.cache draw base := by
  have hdraw := h.1
  unfold SkuCache.ttlWithJitter
  split <;> omega

/-- A row or a placeholder is written for long enough. -/
theorem setex_long {value : String} {draw base : ℤ} {stamp : Stamp} (h : Draws cfg draw) (hbase : leastTtl cfg ≤ base)
    (skuId : Int64) (s : State) : Adds (LongEnough cfg) s
      (setex cfg (.skuItem skuId) value (SkuCache.ttlWithJitter cfg.cache draw base) stamp s) :=
  setex_adds (fun _ => leastTtl_le_jitter h hbase) s

theorem setList_long {draw : ℤ} {json : String} {stamp : Stamp} (s : State) :
    Adds (LongEnough cfg) s (setList cfg draw json stamp s) := setex_adds (fun _ => trivial) s

theorem writeBack_long {draw : ℤ} (h : Draws cfg draw) (table : SkuTable) (stamp : Stamp) (query : Query) (s : State) :
    Adds (LongEnough cfg) s (writeBack cfg draw table stamp query s) := by
  cases query with
  | list => exact setList_long s
  | detail skuId =>
    unfold writeBack
    dsimp only
    split
    · exact setex_long h (leastTtl_le_null cfg) skuId s
    · exact setex_long h (leastTtl_le_detail cfg) skuId s

theorem warmLoop_long {draw : ℕ → ℤ} {stamp : Stamp} (rows : List SkuRow) : ∀ i listArr s,
    (∀ j < i + rows.length, Draws cfg (draw j)) →
      Adds (LongEnough cfg) s (warmLoop cfg draw stamp i listArr s rows).2.2 := by
  induction rows with
  | nil => exact fun i listArr s _ => .refl s
  | cons row rows ih =>
    intro i listArr s hdraws
    have hfirst : Draws cfg (draw i) := hdraws i (by rw [List.length_cons]; omega)
    refine (setex_long hfirst (leastTtl_le_detail cfg) row.id s).trans (ih _ _ _ fun j hj => hdraws j ?_)
    rw [List.length_cons]
    omega

/-! ## The steps -/

theorem readStep_keeps (query : Query) (h : readStep cfg s r query = some t) : Keeps cfg s (call r query) t := by
  unfold readStep at h
  split at h
  next hr =>
    split at h
    next hdisabled =>
      rw [← Option.some.inj h]
      exact (Adds.refl s).keeps (.direct hr hdisabled)
    next henabled =>
      rw [not_not] at henabled
      split at h
      next =>
        rw [← Option.some.inj h]
        exact (Adds.refl s).keeps (.ask hr henabled)
      next l hl =>
        rw [← Option.some.inj h]
        refine Goes.keeps ?_ rfl rfl rfl
        split
        next v hv => exact .hit hr henabled hl hv
        next => exact .ask hr henabled
  next => cases h

theorem getStep_keeps {err : Option String} (h : getStep s r err = some t) : Keeps cfg s (.get r err) t := by
  unfold getStep at h
  split at h
  next query hr =>
    rw [← Option.some.inj h]
    have hredis : (exec err (Redis.get query.key) s.redis).2 = s.redis := by
      cases err with
      | some what => rfl
      | none => exact get_same query.key s.redis
    rw [hredis]
    exact (Adds.refl s).keeps (.got hr)
  next => cases h

theorem replyStep_keeps (h : replyStep cfg s r = some t) : Keeps cfg s (.reply r) t := by
  unfold replyStep at h
  split at h
  next query looked hr =>
    rw [← Option.some.inj h]
    exact (Adds.refl s).keeps (.miss hr)
  next query value looked hr =>
    split at h
    next a ha =>
      rw [← Option.some.inj h]
      exact (Adds.refl s).keeps (.decoded hr ha)
    next hdecode =>
      rw [← Option.some.inj h]
      exact Adds.keeps (repair_adds (fun _ _ => trivial) (fun _ => trivial) query s) (.broken hr hdecode)
  next => cases h

theorem selectStep_keeps {err : Option String} (h : selectStep s r err = some t) : Keeps cfg s (.select r err) t := by
  unfold selectStep at h
  split at h
  next query looked hr =>
    split at h
    · rw [← Option.some.inj h]
      exact (Adds.refl s).keeps (.failed hr)
    · rw [← Option.some.inj h]
      exact (Adds.refl s).keeps (.selected hr)
  next => cases h

theorem answerStep_keeps {draw : ℤ} (h : answerStep cfg s r draw = some t) : Keeps cfg s (.answer r draw) t := by
  unfold answerStep at h
  split at h
  next query looked table stamp hr =>
    split at h
    · cases h
    next hdraw =>
      rw [← Option.some.inj h]
      exact (writeBack_long (not_not.1 hdraw) table stamp query s).keeps (.answered hr)
  next => cases h

theorem warmCacheStep_keeps {limit : ℤ} (h : warmCacheStep s r limit = some t) :
    Keeps cfg s (.warmCache r limit) t := by
  unfold warmCacheStep at h
  split at h
  next hr =>
    rw [← Option.some.inj h]
    exact (Adds.refl s).keeps (.warm hr)
  next => cases h

theorem warmSelectStep_keeps {err : Option String} (h : warmSelectStep s r err = some t) :
    Keeps cfg s (.warmSelect r err) t := by
  unfold warmSelectStep at h
  split at h
  next limit hr =>
    split at h
    · rw [← Option.some.inj h]
      exact (Adds.refl s).keeps (.warmFailed hr)
    · rw [← Option.some.inj h]
      exact (Adds.refl s).keeps (.warmSelected hr)
  next => cases h

theorem warmStep_keeps {draw : ℕ → ℤ} (h : warmStep cfg s r draw = some t) : Keeps cfg s (.warm r draw) t := by
  unfold warmStep at h
  split at h
  next limit table stamp hr =>
    dsimp only at h
    split at h
    · cases h
    next hdraws =>
      rw [← Option.some.inj h]
      have hdraw := not_not.1 hdraws
      have hitems : Adds (LongEnough cfg) s (warmLoop cfg draw stamp 0 [] s (table.first limit.toNat)).2.2 :=
        warmLoop_long _ 0 [] s fun j hj => hdraw j (by omega)
      refine Adds.keeps ?_ (.warmed hr)
      split
      · exact hitems.trans (setList_long _)
      · exact hitems
  next => cases h

theorem perform_frame {err : Option String} {f : Effect} (h : perform cfg err s f = some t) :
    t.pending = s.pending ∧ t.reads = s.reads := by
  unfold perform scheduleDelayedDelete at h
  split at h
  case h_1 =>
    split at h
    all_goals
      rw [← Option.some.inj h]
      exact ⟨rfl, rfl⟩
  case h_2 =>
    rw [← Option.some.inj h]
    exact ⟨rfl, rfl⟩
  all_goals
    split at h
    · cases h
    · rw [← Option.some.inj h]
      first
        | exact ⟨rfl, rfl⟩
        | split <;> exact ⟨rfl, rfl⟩

/-- An effect happens: there is one less to come. -/
theorem perform_keeps {i : ℕ} {err : Option String} {f : Effect} (h : perform cfg err (s.without i) f = some t) :
    Keeps cfg s (.apply i err) t := by
  have hless := perform_frame h
  refine ⟨fun f hf => Or.inl ?_, Or.inl ⟨i, err, rfl⟩,
    fun r => Or.inl ⟨(Option.some_ne_none r).symm, congrFun hless.2 r⟩⟩
  rw [hless.1] at hf
  exact List.eraseIdx_subset hf

/-- **Every step.** -/
theorem step_keeps (h : step cfg s e = some t) : Keeps cfg s e t := by
  cases e with
  | detailSku r skuId => exact readStep_keeps (.detail skuId) h
  | listSkus r => exact readStep_keeps .list h
  | get r err => exact getStep_keeps h
  | reply r => exact replyStep_keeps h
  | select r err => exact selectStep_keeps h
  | answer r draw => exact answerStep_keeps h
  | warmCache r limit => exact warmCacheStep_keeps h
  | warmSelect r err => exact warmSelectStep_keeps h
  | warm r draw => exact warmStep_keeps h
  | commit q skuId =>
    have hstep : commitStep s q skuId = some t := h
    unfold commitStep at hstep
    split at hstep
    · split at hstep
      · rw [← Option.some.inj hstep]
        exact (Adds.refl s).keeps_reads rfl (by simp) rfl rfl
      · cases hstep
    · cases hstep
  | invalidateOnOrder q =>
    have hstep : invalidateOnOrderStep cfg s q = some t := h
    unfold invalidateOnOrderStep at hstep
    split at hstep
    next order hq =>
      split at hstep
      · cases hstep
      · rw [← Option.some.inj hstep]
        exact (invalidateOnOrder_adds (fun _ _ => trivial) (fun _ => trivial) order.skuId s).keeps_reads rfl rfl rfl rfl
    next => cases hstep
  | update table =>
    cases h
    exact (Adds.refl s).keeps_reads rfl (by simp) rfl rfl
  | fireDelayed =>
    have hstep : fireDelayedStep cfg s = some t := h
    unfold fireDelayedStep at hstep
    split at hstep
    next => cases hstep
    next task rest hdelayed =>
      split at hstep
      · cases hstep
      next hdue =>
        obtain ⟨fs, hfs, hlong⟩ : Adds (LongEnough cfg) { s with delayed := rest }
          (task.keys.foldl (fun s key => del cfg key task.order s) { s with delayed := rest }) :=
          dels_adds (fun _ _ => trivial) _ _
        rw [hfs] at hstep
        rw [← Option.some.inj hstep]
        exact ⟨mem_pending_append hlong, Or.inr rfl, fun r => Or.inl ⟨(Option.some_ne_none r).symm, rfl⟩⟩
  | apply i err =>
    have hstep : applyStep cfg s i err = some t := h
    unfold applyStep at hstep
    split at hstep
    · exact perform_keeps hstep
    · cases hstep
  | wait ms =>
    cases h
    exact (Adds.refl s).keeps_reads rfl (by simp) rfl rfl

end Seckill.ReadPath
