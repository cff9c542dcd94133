import Seckill.Proof.ReadPath

/-!
# After the second delete of an order

`delayed_delete_clears`: if every write takes effect less than `doubleDeleteMs` after
the SELECT it carries, then from the second delete of an order on, what a level has
under the key was read after the commit.

The second delete is due `doubleDeleteMs` after the commit, at the earliest (`Due`). A
write that takes effect later than that carries a SELECT later than the commit
(`Cleared.step`), and a SELECT later than the commit saw it (`Later`).
-/

namespace Seckill.ReadPath

open SeckillService (Config)

variable {cfg : Config} {s t v s₀ : State} {e : Ev} {es : List Ev} {key : Key} {level : Level} {q : ℕ}
  {table : SkuTable}

/-! ## Time and commits -/

/-- `s` comes after `v` in a run: an order that was not committed in `v` was later. -/
structure Later (v s : State) : Prop where
  now : v.redis.now ≤ s.redis.now
  commits : ∀ q o, s.orders q = some o → v.orders q = none → v.redis.now ≤ o.time

theorem Later.refl (v : State) : Later v v := by
  refine ⟨Nat.le_refl _, fun q o ho hnone => ?_⟩
  rw [hnone] at ho
  cases ho

theorem Later.step (h : Later v s) (he : step cfg s e = some t) : Later v t := by
  have hdid := step_did he
  refine ⟨h.now.trans hdid.now, fun q o ho hnone => ?_⟩
  cases hs : s.orders q with
  | none =>
    rw [hdid.commits q o ho hs]
    exact h.now
  | some o' =>
    obtain ⟨o'', ho'', htime⟩ := hdid.orders q o' hs
    rw [ho] at ho''
    obtain rfl := Option.some.inj ho''
    rw [htime]
    exact h.commits q o' hs hnone

/-- The end of a run comes after each of its states. -/
theorem Saw.later (h : Saw cfg s₀ es v) (hrun : Machine.run (step cfg) s₀ es = some s) : Later v s := by
  have hlater : ∀ e, Machine.Takes (step cfg) s₀ es v e → Later v s := by
    rintro e ⟨pre, post, rfl, hpre⟩
    have hpost := Machine.run_rest hrun hpre
    exact Machine.run_inv (I := Later v) (fun _ _ _ h he => h.step he) (Later.refl v) hpost
  obtain ⟨r, h | h⟩ := h
  · exact hlater _ h
  · exact hlater _ h

/-! ## When the second delete is due -/

/-- Order `q` was committed, and by `time` its delay has passed. -/
def DueBy (cfg : Config) (s : State) (q : ℕ) (time : ℤ) : Prop :=
  ∃ o, s.orders q = some o ∧ o.time + cfg.cache.doubleDeleteMs ≤ time

theorem DueBy.step {time time' : ℤ} (h : DueBy cfg s q time) (htime : time ≤ time') (he : step cfg s e = some t) :
    DueBy cfg t q time' := by
  obtain ⟨o, ho, hdue⟩ := h
  obtain ⟨o', ho', heq⟩ := (step_did he).orders q o ho
  exact ⟨o', ho', by rw [heq]; omega⟩

/-- **No second delete before its time.** -/
structure Due (cfg : Config) (s : State) : Prop where
  orders : ∀ q o, s.orders q = some o → o.time ≤ s.redis.now
  schedules : ∀ keys q, .schedule keys (some q) ∈ s.pending → (s.orders q).isSome
  tasks : ∀ task ∈ s.delayed, ∀ q, task.order = some q → DueBy cfg s q task.fireAt
  deletes : ∀ level keys q, .delete level keys (some q) ∈ s.pending → DueBy cfg s q s.redis.now

theorem Due.init (cfg : Config) (now : ℕ) (table : SkuTable) : Due cfg (State.init cfg now table) :=
  ⟨fun _ _ h => (by cases h), fun _ _ h => absurd h List.not_mem_nil, fun _ h => absurd h List.not_mem_nil,
    fun _ _ _ h => absurd h List.not_mem_nil⟩

theorem Due.step (h : Due cfg s) (he : step cfg s e = some t) : Due cfg t := by
  have hdid := step_did he
  have hnow := hdid.now
  have hsome : ∀ q, (s.orders q).isSome → (t.orders q).isSome := by
    intro q hq
    obtain ⟨o, ho⟩ := Option.isSome_iff_exists.1 hq
    obtain ⟨o', ho', -⟩ := hdid.orders q o ho
    rw [ho']
    rfl
  refine ⟨fun q o ho => ?_, fun keys q hf => ?_, fun task htask q hq => ?_, fun level keys q hf => ?_⟩
  · cases hs : s.orders q with
    | none =>
      rw [hdid.commits q o ho hs]
      exact hnow
    | some o' =>
      obtain ⟨o'', ho'', htime⟩ := hdid.orders q o' hs
      have hbefore := h.orders q o' hs
      rw [ho] at ho''
      rw [Option.some.inj ho'']
      omega
  · rcases hdid.pending _ hf with hbefore | hissued
    · exact hsome q (h.schedules keys q hbefore)
    · exact hsome q (hissued q rfl)
  · rcases hdid.delayed task htask with hbefore | ⟨keys, order, hf, rfl⟩
    · exact (h.tasks task hbefore q hq).step (Int.le_refl _) he
    · -- scheduled after the commit, for `doubleDeleteMs` later
      dsimp only at hq
      subst hq
      obtain ⟨o, ho⟩ := Option.isSome_iff_exists.1 (h.schedules keys q hf)
      have hcommitted := h.orders q o ho
      have hdue : DueBy cfg s q (s.redis.now + cfg.cache.doubleDeleteMs) := ⟨o, ho, by omega⟩
      exact hdue.step (Int.le_refl _) he
  · rcases hdid.pending _ hf with hbefore | hissued
    · exact (h.deletes level keys q hbefore).step (by omega) he
    · -- issued by the delay thread, when the task was due
      obtain ⟨task, htask, horder, hfire⟩ := hissued q rfl
      exact (h.tasks task htask q horder).step (by omega) he

/-! ## What a level has after it -/

/-- The second delete of order `q` takes effect on a key of a level. -/
def deletesAgain (q : ℕ) (level : Level) (key : Key) (s : State) : Ev → Bool
  | .apply i none => match s.pending[i]? with
    | some (.delete level' keys second) => level' = level ∧ second = some q ∧ key ∈ keys
    | _ => false
  | _ => false

theorem deletesAgain_iff : deletesAgain q level key s e = true ↔
    ∃ i keys, e = .apply i none ∧ s.pending[i]? = some (.delete level keys (some q)) ∧ key ∈ keys := by
  constructor
  · intro h
    unfold deletesAgain at h
    split at h
    next i =>
      split at h
      next level' keys second hi =>
        obtain ⟨rfl, rfl, hkey⟩ := of_decide_eq_true h
        exact ⟨i, keys, rfl, hi, hkey⟩
      next => cases h
    next => cases h
  · rintro ⟨i, keys, rfl, hi, hkey⟩
    simp [deletesAgain, hi, hkey]

theorem deletesAgain_held (h : deletesAgain q level key s e = true) (he : step cfg s e = some t) :
    held level t key = none := by
  obtain ⟨i, keys, rfl, hi, hkey⟩ := deletesAgain_iff.1 h
  unfold ReadPath.step applyStep at he
  dsimp only at he
  rw [hi] at he
  obtain ⟨-, -, -, -, -, -, -, hgone⟩ := perform_delete he
  exact hgone rfl key hkey

/-- From the second delete on: the delay has passed, and what is under the key was
read after the commit. -/
def Cleared (cfg : Config) (s₀ : State) (es : List Ev) (s : State) : Prop :=
  ∀ q level key, Machine.Past (step cfg) s₀ es (fun s e => deletesAgain q level key s e = true) →
    ∃ o, s.orders q = some o ∧ o.time + cfg.cache.doubleDeleteMs ≤ s.redis.now ∧
      ∀ x, held level s key = some x → o.time < (s.stampOf level key).time

theorem Cleared.init (cfg : Config) (s₀ s : State) : Cleared cfg s₀ [] s := by
  rintro q level key ⟨_, _, ⟨pre, post, hnil, -⟩, -⟩
  exact absurd hnil.symm (by simp)

theorem Cleared.step (h : Cleared cfg s₀ es s) (hrun : Machine.run (step cfg) s₀ es = some s) (hdue : Due cfg s)
    (hlag : ∀ n ∈ lag s e, n < cfg.cache.doubleDeleteMs) (he : step cfg s e = some t) :
    Cleared cfg s₀ (es ++ [e]) t := by
  have hdid := step_did he
  have hnow := hdid.now
  rintro q level key ⟨s', e', htakes, hdelete⟩
  rcases Machine.takes_snoc.1 htakes with hbefore | ⟨rfl, hs'⟩
  · obtain ⟨o, ho, hpassed, hheld⟩ := h q level key ⟨s', e', hbefore, hdelete⟩
    obtain ⟨o', ho', htime⟩ := hdid.orders q o ho
    refine ⟨o', ho', by omega, fun x hx => ?_⟩
    rw [htime]
    rcases hdid.held level key x hx with ⟨hthere, hstamp⟩ | ⟨ttl, stamp, -, -, hstamp, hlag'⟩
    · rw [hstamp]
      exact hheld x hthere
    · -- a write after the delete: less than the delay before it there was the SELECT
      have hlate := hlag _ hlag'
      rw [hstamp]
      omega
  · -- the second delete is this step
    obtain rfl := Option.some.inj (hrun.symm.trans hs')
    obtain ⟨i, keys, -, hi, -⟩ := deletesAgain_iff.1 hdelete
    have hdueNow : DueBy cfg s q s.redis.now := hdue.deletes level keys q (List.mem_of_getElem? hi)
    have hdueAfter : DueBy cfg t q t.redis.now := hdueNow.step (by omega) he
    obtain ⟨o, ho, hpassed⟩ := hdueAfter
    refine ⟨o, ho, hpassed, fun x hx => ?_⟩
    rw [deletesAgain_held hdelete he] at hx
    cases hx

/-- **The second delete is enough.** Where every write of the run takes effect less
than `doubleDeleteMs` after its SELECT, what a level has under a key after the second
delete of an order took effect there is what a SELECT read when the order was committed. -/
theorem delayed_delete_clears {now : ℕ} {x : Holding}
    (hlag : Machine.Meets (step cfg) (fun v e => ∀ n ∈ lag v e, n < cfg.cache.doubleDeleteMs)
      (State.init cfg now table) es)
    (hrun : Machine.run (step cfg) (State.init cfg now table) es = some s)
    (hdelete : Machine.Past (step cfg) (State.init cfg now table) es fun s e => deletesAgain q level key s e = true)
    (hx : held level s key = some x) :
    ∃ v, Saw cfg (State.init cfg now table) es v ∧ v.stamp = s.stampOf level key ∧ Carries cfg v.table key x.value ∧
      (v.orders q).isSome := by
  have hdue : ∀ {es s}, Machine.run (step cfg) (State.init cfg now table) es = some s → Due cfg s :=
    Machine.run_inv (fun _ _ _ h he => h.step he) (Due.init cfg now table)
  have hcleared : Cleared cfg (State.init cfg now table) es s :=
    Machine.run_trace_of (Cleared.init cfg _ _)
      (fun _ _ _ _ hrun h hlag he => h.step hrun (hdue hrun) hlag he) hlag hrun
  obtain ⟨o, ho, -, hheld⟩ := hcleared q level key hdelete
  obtain ⟨table', ⟨v, hsaw, rfl, hstamp⟩, hcarries⟩ := (run_grounded hrun).held level key x hx
  refine ⟨v, hsaw, hstamp, hcarries, ?_⟩
  -- a SELECT before the commit was not later than it
  by_contra hnot
  have hnone : v.orders q = none := Option.not_isSome_iff_eq_none.1 hnot
  have hbefore : v.redis.now ≤ o.time := (hsaw.later hrun).commits q o ho hnone
  have hafter : o.time < v.redis.now := by
    have hlate := hheld x hx
    rw [← hstamp] at hlate
    exact hlate
  omega

/-! ## A fill that is too late -/

def doubleConfig : Config where
  json := SeckillService.plainCpp SeckillService.twoSkus
  cache := { SkuCache.Config.default with
    localEnabled := true, doubleDeleteMs := 500, invalidateOnOrder := .itemAndList }
  bloomEnabled := false

def twoSkusStart : State := State.init doubleConfig 0 SeckillService.twoSkus

/-- A sku is read, then sold, and the old row is written after the first deletes. -/
def lateFill : List Ev :=
  [.detailSku 0 1, .get 0 none, .reply 0, .select 0 none, .wait 100, .commit 0 1, .invalidateOnOrder 0,
    .apply 0 none, .apply 0 none, .apply 0 none, .apply 0 none, .answer 0 0, .wait 300, .apply 0 none, .apply 0 none]

/-- The delay thread deletes the sku's key and the list's. -/
def secondDelete : List Ev := [.wait 200, .fireDelayed, .apply 0 none, .apply 0 none, .apply 0 none, .apply 0 none]

/-- The next read fills both levels. -/
def refill : List Ev :=
  [.detailSku 1 1, .get 1 none, .reply 1, .select 1 none, .answer 1 0, .apply 0 none, .apply 0 none]

/-- What Redis and L1 have under the key of sku 1. -/
def texts (s : State) : Option String × Option String :=
  ((held .redis s (.skuItem 1)).map Holding.value, (held .local_ s (.skuItem 1)).map Holding.value)

/-- The text of sku 1 in a table. -/
def textIn (table : SkuTable) : Option String := some (SeckillService.itemText doubleConfig table 1)

example : (Machine.run (step doubleConfig) twoSkusStart lateFill).map texts =
    some (textIn SeckillService.twoSkus, textIn SeckillService.twoSkus) := by
  decide +kernel

theorem delayed_delete_clears_late : ∃ (s : State) (x : Holding) (v : State),
    Machine.run (step doubleConfig) twoSkusStart (lateFill ++ secondDelete ++ refill) = some s ∧
      texts s = (textIn (SeckillService.twoSkus.deduct 1), textIn (SeckillService.twoSkus.deduct 1)) ∧
      held .local_ s (.skuItem 1) = some x ∧ Saw doubleConfig twoSkusStart (lateFill ++ secondDelete ++ refill) v ∧
      v.stamp = s.stampOf .local_ (.skuItem 1) ∧ Carries doubleConfig v.table (.skuItem 1) x.value ∧
      (v.orders 0).isSome := by
  have hend : (Machine.run (step doubleConfig) twoSkusStart (lateFill ++ secondDelete ++ refill)).map texts =
      some (textIn (SeckillService.twoSkus.deduct 1), textIn (SeckillService.twoSkus.deduct 1)) := by
    decide +kernel
  have hlag : Machine.Meets (step doubleConfig) (fun v e => ∀ n ∈ lag v e, n < doubleConfig.cache.doubleDeleteMs)
      twoSkusStart (lateFill ++ secondDelete ++ refill) := by
    decide +kernel
  have hdue : ((Machine.run (step doubleConfig) twoSkusStart (lateFill ++ secondDelete.take 3)).map fun s =>
      deletesAgain 0 .local_ (.skuItem 1) s (.apply 0 none)) = some true := by
    decide +kernel
  obtain ⟨s, hs, htexts⟩ := Option.map_eq_some_iff.1 hend
  obtain ⟨s', hs', hdelete⟩ := Option.map_eq_some_iff.1 hdue
  obtain ⟨x, hx, -⟩ := Option.map_eq_some_iff.1 (Prod.mk.inj htexts).2
  obtain ⟨v, hsaw, hstamp, hcarries, hseen⟩ :=
    delayed_delete_clears hlag hs ⟨s', .apply 0 none, ⟨_, secondDelete.drop 4 ++ refill, rfl, hs'⟩, hdelete⟩ hx
  exact ⟨s, x, v, hs, htexts, hx, hsaw, hstamp, hcarries, hseen⟩

end Seckill.ReadPath
