import Seckill.Proof.ReadPath

/-!
# How old an answer of `detailSku` is

`detailSku_recent`: an answer is what a SELECT of the run read of the same sku, and no
older than the TTL and the time a write takes (`maxAge`), counted from the lookup.

A write puts its value under a deadline that is at most `maxAge` after the SELECT
(`Timely.held`), and nothing moves a deadline: not a hit, not an eviction, not a
delete that fails. A lookup serves what has not expired, so what a reply has is no
older (`Timely.reply`).
-/

namespace Seckill.ReadPath

open SeckillService (Config itemText Faithful)

variable {cfg : Config} {s t s₀ : State} {e : Ev} {es : List Ev} {g : ℤ} {skuId : Int64} {table : SkuTable}

/-- The TTL of a sku's key at its longest, and the time from the SELECT to the write. -/
def maxAge (cfg : Config) (g : ℤ) : ℤ := itemTtl cfg * 1000 + g

/-- What was written for a sku is read as the database's answer. -/
theorem decode_itemText (hj : Faithful cfg.json table) (skuId : Int64) :
    decode cfg (.detail skuId) (itemText cfg table skuId) = some (answer (.detail skuId) table) := by
  unfold decode itemText answer
  dsimp only
  cases hfind : table.find skuId with
  | none => rfl
  | some row =>
    have hparsed := hj.item row (SeckillService.mem_rows_of_find hfind)
    have hne : cfg.json.toCompactJson (itemJson row) ≠ SkuCache.kNullValue := by
      intro heq
      rw [heq, hj.nil] at hparsed
      cases hparsed
    dsimp only
    rw [if_neg hne, hparsed]
    rfl

/-- **No value outlives its time.** -/
structure Timely (cfg : Config) (g : ℤ) (s₀ : State) (es : List Ev) (s : State) : Prop where
  held : ∀ level skuId x, held level s (.skuItem skuId) = some x →
    ∃ d, x.deadline = some d ∧ d ≤ (s.stampOf level (.skuItem skuId)).time + maxAge cfg g
  reply : ∀ r skuId v looked, s.reads r = .reply (.detail skuId) (some v) looked →
    ∃ table stamp, Known cfg s₀ es table stamp ∧ v = itemText cfg table skuId ∧ (looked : ℤ) ≤ stamp.time + maxAge cfg g
  looked : ∀ r query value looked, s.reads r = .reply query value looked ∨ s.reads r = .select query looked →
    looked ≤ s.redis.now
  selected : ∀ r query looked table stamp, s.reads r = .selected query looked table stamp → looked ≤ stamp.time

theorem Timely.init (cfg : Config) (g : ℤ) (now : ℕ) (table : SkuTable) :
    Timely cfg g (State.init cfg now table) [] (State.init cfg now table) := by
  refine ⟨fun level skuId x hx => ?_, fun r skuId v looked h => ?_, fun r query value looked h => ?_,
    fun r query looked table stamp h => ?_⟩
  · rw [held_init] at hx
    cases hx
  · cases h
  · rcases h with h | h <;> cases h
  · cases h

theorem Timely.step (h : Timely cfg g s₀ es s) (hground : Grounded cfg s₀ es s) (hlag : ∀ n ∈ lag s e, n ≤ g)
    (he : step cfg s e = some t) : Timely cfg g s₀ (es ++ [e]) t := by
  have hdid := step_did he
  have hnow := hdid.now
  refine ⟨fun level skuId x hx => ?_, fun r skuId v looked hr => ?_, fun r query value looked hr => ?_,
    fun r query looked table stamp hr => ?_⟩
  · rcases hdid.held level _ x hx with ⟨hbefore, hstamp⟩ | ⟨ttl, stamp, hwrite, hdeadline, hstamp, hlag'⟩
    · rw [hstamp]
      exact h.held level skuId x hbefore
    · -- the write: its TTL begins now, at most `g` after the SELECT
      obtain ⟨table, -, -, httl⟩ := hground.pending level _ _ ttl stamp hwrite
      have hage := hlag _ hlag'
      have hlong := httl skuId rfl
      refine ⟨_, hdeadline, ?_⟩
      rw [hstamp, maxAge]
      omega
  · rcases hdid.reads r with heq | hnew
    · rw [heq] at hr
      obtain ⟨table, stamp, hknown, hv, hage⟩ := h.reply r skuId v looked hr
      exact ⟨table, stamp, hknown.snoc e, hv, hage⟩
    · rw [hr] at hnew
      -- a hit has not expired
      obtain ⟨level, x, hx, rfl, hlive⟩ := hnew.2 v rfl
      obtain ⟨d, hd, hdle⟩ := h.held level skuId x hx
      obtain ⟨table, hknown, hcarries⟩ := hground.held level _ x hx
      exact ⟨table, _, hknown.snoc e, hcarries, Int.le_trans (hlive d hd) hdle⟩
  · -- a request looks when it asks, and not again
    rcases hdid.reads r with heq | hnew
    · rw [heq] at hr
      exact (h.looked r query value looked hr).trans hnow
    · rcases hr with hr | hr
      · rw [hr] at hnew
        rw [hnew.1]
        exact hnow
      · rw [hr] at hnew
        rcases hnew with rfl | ⟨value', hreply⟩
        · exact hnow
        · exact (h.looked r query value' looked (Or.inl hreply)).trans hnow
  · rcases hdid.reads r with heq | hnew
    · rw [heq] at hr
      exact h.selected r query looked table stamp hr
    · rw [hr] at hnew
      -- it selects what it looked for and did not find
      obtain ⟨-, hselect, -, rfl⟩ := hnew
      exact h.looked r query none looked (Or.inr hselect)

/-- **An answer of `detailSku` is recent.** Where every write of the run takes effect
within `g` of its SELECT, an answer is the row, or the absence, of the same sku in a
table that a SELECT read before it, and not earlier than `maxAge` before the lookup. -/
theorem detailSku_recent {now : ℕ} {table₀ : SkuTable} {r looked : ℕ} {a : SeckillService.Answer}
    (hj : Machine.Meets (step cfg) (fun v _ => Faithful cfg.json v.table) (State.init cfg now table₀) es)
    (hlag : Machine.Meets (step cfg) (fun v e => ∀ n ∈ lag v e, n ≤ g) (State.init cfg now table₀) es)
    (hrun : Machine.run (step cfg) (State.init cfg now table₀) es = some s) (he : step cfg s e = some t)
    (hnew : t.reads r ≠ s.reads r) (hanswer : t.reads r = .answered (.detail skuId) a looked) :
    ∃ v, Saw cfg (State.init cfg now table₀) es v ∧ (looked : ℤ) - max (maxAge cfg g) 0 ≤ v.redis.now ∧
      a = answer (.detail skuId) v.table := by
  have hground := run_grounded hrun
  have htimely : Timely cfg g (State.init cfg now table₀) es s :=
    Machine.run_trace_of (Timely.init cfg g now table₀)
      (fun es s e t hrun h hlag he => h.step (run_grounded hrun) hlag he) hlag hrun
  rcases (step_did he).reads r with heq | hbecomes
  · exact absurd heq hnew
  · rw [hanswer] at hbecomes
    rcases hbecomes with ⟨value, hreply, hdecode⟩ | ⟨table, stamp, hselected, rfl⟩
    · -- from the cache
      obtain ⟨table, stamp, ⟨v, hsaw, rfl, rfl⟩, rfl, hage⟩ := htimely.reply r skuId value looked hreply
      have hfaithful : Faithful cfg.json v.table := by
        obtain ⟨r', hselect | hselect⟩ := hsaw
        · exact hselect.meets hj
        · exact hselect.meets hj
      rw [decode_itemText hfaithful] at hdecode
      refine ⟨v, hsaw, ?_, (Option.some.inj hdecode).symm⟩
      change (looked : ℤ) ≤ v.redis.now + maxAge cfg g at hage
      omega
    · -- from the database
      obtain ⟨v, hsaw, rfl, rfl⟩ := hground.reads r table stamp (by rw [hselected]; rfl)
      have hlooked : looked ≤ v.redis.now := htimely.selected r _ looked _ _ hselected
      refine ⟨v, hsaw, ?_, rfl⟩
      omega

/-! ## A sku that was sold meanwhile -/

/-- One sku. -/
def oneSku : SkuTable :=
  ⟨[⟨1, ascii "sku-1", 50, 50, ascii "2026-09-01 00:00:00", ascii "2026-12-31 23:59:59"⟩], by decide⟩

/-- What is written of it before an order and after. -/
def oneSkuTexts : List Json := SeckillService.jsonOf oneSku ++
  [.arr ((oneSku.deduct 1).rows.map itemJson)] ++ (oneSku.deduct 1).rows.map itemJson

def oneConfig : Config where
  json := ⟨SeckillService.plainJson, fun s => oneSkuTexts.find? fun v => SeckillService.plainJson v = s⟩
  cache := { SkuCache.Config.default with localEnabled := true }
  bloomEnabled := false

theorem oneConfig_faithful {table : SkuTable} (h : ∀ v ∈ SeckillService.jsonOf table, v ∈ oneSkuTexts) :
    Faithful oneConfig.json table :=
  SeckillService.plainJson_faithful (by decide +kernel) (by decide +kernel) (by decide +kernel) h

/-- A miss is written back, late, and to L1 only: the `SETEX` fails. The sku is sold, the
delete has not come yet, and a minute after its SELECT the old row is in L1. -/
def soldMeanwhile : List Ev :=
  [.detailSku 0 1, .get 0 none, .reply 0, .select 0 none, .wait 20, .answer 0 7, .apply 0 (some "timeout"), .wait 10,
    .apply 0 none, .commit 0 1, .invalidateOnOrder 0, .wait 60000, .detailSku 1 1]

def start : State := State.init oneConfig 100000 oneSku

theorem oneSku_faithful {table : SkuTable}
    (h : table.rows = oneSku.rows ∨ table.rows = (oneSku.deduct 1).rows) : Faithful oneConfig.json table := by
  apply oneConfig_faithful
  have hjson : SeckillService.jsonOf table = SeckillService.jsonOf oneSku ∨
      SeckillService.jsonOf table = SeckillService.jsonOf (oneSku.deduct 1) := by
    unfold SeckillService.jsonOf SkuTable.first
    rcases h with h | h
    · exact Or.inl (by rw [h])
    · exact Or.inr (by rw [h])
  rcases hjson with h | h
  · rw [h]
    exact fun v hv => List.mem_append_left _ (List.mem_append_left _ hv)
  · rw [h]
    intro v hv
    -- the list without rows is the same before and after
    rcases List.mem_append.1 hv with hitem | hlist
    · exact List.mem_append_right _ hitem
    · obtain ⟨n, hn, rfl⟩ := List.mem_map.1 hlist
      have hlt : n < 2 := List.mem_range.1 hn
      obtain rfl | rfl : n = 0 ∨ n = 1 := by omega
      · refine List.mem_append_left _ (List.mem_append_left _ (List.mem_append_right _ ?_))
        exact List.mem_map.2 ⟨0, by decide, rfl⟩
      · exact List.mem_append_left _ (List.mem_append_right _ (List.mem_singleton.2 rfl))

theorem start_faithful :
    Machine.Meets (step oneConfig) (fun v _ => Faithful oneConfig.json v.table) start soldMeanwhile := by
  have hrows : Machine.Meets (step oneConfig)
      (fun v _ => v.table.rows = oneSku.rows ∨ v.table.rows = (oneSku.deduct 1).rows) start soldMeanwhile := by
    decide +kernel
  exact Machine.meets_imp (fun v _ h => oneSku_faithful h) hrows

/-- Whether a request was answered for a sku, and the time of its lookup. -/
def Read.answeredFor (skuId : Int64) : Read → Option (SeckillService.Answer × ℕ)
  | .answered (.detail skuId') a looked => if skuId' = skuId then some (a, looked) else none
  | _ => none

theorem answeredFor_some {p : Read} {a : SeckillService.Answer} {looked : ℕ}
    (h : p.answeredFor skuId = some (a, looked)) : p = .answered (.detail skuId) a looked := by
  unfold Read.answeredFor at h
  split at h
  next =>
    split at h
    next hid =>
      obtain ⟨rfl, rfl⟩ := Prod.mk.inj (Option.some.inj h)
      rw [hid]
    next => cases h
  next => cases h

/-- The answer has the stock of a minute before. -/
theorem detailSku_recent_sold : ∃ t a v,
    Machine.run (step oneConfig) start (soldMeanwhile ++ [.reply 1]) = some t ∧
      t.reads 1 = .answered (.detail 1) a 160030 ∧ (t.table.find 1).map SkuRow.stock = some 49 ∧
      Saw oneConfig start soldMeanwhile v ∧ 160030 - max (maxAge oneConfig 30) 0 ≤ (v.redis.now : ℤ) ∧
      a = answer (.detail 1) v.table := by
  have hend : ((Machine.run (step oneConfig) start (soldMeanwhile ++ [.reply 1])).map fun t =>
      (((t.reads 1).answeredFor 1).map Prod.snd, (t.table.find 1).map SkuRow.stock)) = some (some 160030, some 49) := by
    decide +kernel
  have hlag : Machine.Meets (step oneConfig) (fun v e => ∀ n ∈ lag v e, n ≤ 30) start soldMeanwhile := by
    decide +kernel
  have hbefore : ((Machine.run (step oneConfig) start soldMeanwhile).map fun s => ((s.reads 1).answeredFor 1).isSome) =
      some false := by
    decide +kernel
  obtain ⟨t, ht, htold⟩ := Option.map_eq_some_iff.1 hend
  obtain ⟨hlooked, hstock⟩ := Prod.mk.inj htold
  obtain ⟨⟨a, looked⟩, hanswered, rfl⟩ := Option.map_eq_some_iff.1 hlooked
  obtain ⟨s, hs, he⟩ := Machine.run_snoc.1 ht
  obtain ⟨s', hs', hnot⟩ := Option.map_eq_some_iff.1 hbefore
  obtain rfl := Option.some.inj (hs.symm.trans hs')
  have hnew : t.reads 1 ≠ s.reads 1 := by
    intro heq
    rw [← heq, hanswered] at hnot
    cases hnot
  obtain ⟨v, hsaw, hage, ha⟩ :=
    detailSku_recent start_faithful hlag hs he hnew (answeredFor_some hanswered)
  exact ⟨t, a, v, ht, answeredFor_some hanswered, hstock, hsaw, hage, ha⟩

end Seckill.ReadPath
