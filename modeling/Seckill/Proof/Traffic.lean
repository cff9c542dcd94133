import Seckill.Proof.Freshness
import Seckill.Proof.Orders
import Seckill.Spec.Traffic

/-!
# The stock a customer sees

The two tables of the whole stay one (`Agree`): the stock the reads select is the
committed stock of the orders, and an order of the read path is a request whose COMMIT
took effect. So the stock that `detailSku` shows is the first stock less the orders at a
recent moment, and never less than what is left (`displayed_stock`). The reads do not get
in the way of the orders (`order_step`).
-/

namespace Seckill

/-! ## The reads leave the tables alone -/

namespace ReadPath

open SeckillService (Config)

variable {cfg : Config} {s t : State} {e : Ev} {r : ℕ}

/-- The event is none of an order or of the table. -/
def Ev.reads : Ev → Bool
  | .commit _ _ | .invalidateOnOrder _ | .update _ => false
  | _ => true

/-- The tables of skus and of orders are the same. -/
def SameRows (s t : State) : Prop := t.table = s.table ∧ t.orders = s.orders

theorem Adds.sameRows {P : Effect → Prop} (h : Adds P s t) : SameRows s t := by
  obtain ⟨fs, rfl, -⟩ := h
  exact ⟨rfl, rfl⟩

theorem readStep_sameRows {query : Query} (h : readStep cfg s r query = some t) : SameRows s t := by
  unfold readStep at h
  split at h
  · split at h
    · cases h
      exact ⟨rfl, rfl⟩
    · split at h
      · cases h
        exact ⟨rfl, rfl⟩
      · cases h
        exact ⟨rfl, rfl⟩
  · cases h

theorem replyStep_sameRows (h : replyStep cfg s r = some t) : SameRows s t := by
  unfold replyStep at h
  split at h
  · cases h
    exact ⟨rfl, rfl⟩
  next query value looked _ =>
    split at h
    · cases h
      exact ⟨rfl, rfl⟩
    · cases h
      exact (repair_adds (P := fun _ => True) (fun _ _ => trivial) (fun _ => trivial) query s).sameRows
  · cases h

theorem writeBack_sameRows (draw : ℤ) (table : SkuTable) (stamp : Stamp) (query : Query) (s : State) :
    SameRows s (writeBack cfg draw table stamp query s) := by
  have hsetex : ∀ key value ttl, SameRows s (setex cfg key value ttl stamp s) := fun key value ttl =>
    (setex_adds (P := fun _ => True) (fun _ => trivial) s).sameRows
  unfold writeBack
  split
  · exact hsetex _ _ _
  · split
    · exact hsetex _ _ _
    · exact hsetex _ _ _

theorem warmLoop_sameRows (draw : ℕ → ℤ) (stamp : Stamp) (rows : List SkuRow) : ∀ i listArr s,
    SameRows s (warmLoop cfg draw stamp i listArr s rows).2.2 := by
  induction rows with
  | nil => exact fun i listArr s => ⟨rfl, rfl⟩
  | cons row rows ih =>
    intro i listArr s
    have hone : SameRows s (setDetail cfg (draw i) row.id (cfg.json.toCompactJson (itemJson row)) stamp s) :=
      (setex_adds (P := fun _ => True) (fun _ => trivial) s).sameRows
    have hrest := ih (i + 1) (if listArr.length < 100 then listArr ++ [itemJson row] else listArr)
      (setDetail cfg (draw i) row.id (cfg.json.toCompactJson (itemJson row)) stamp s)
    exact ⟨hrest.1.trans hone.1, hrest.2.trans hone.2⟩

theorem warmStep_sameRows {draw : ℕ → ℤ} (h : warmStep cfg s r draw = some t) : SameRows s t := by
  unfold warmStep at h
  split at h
  next limit table stamp _ =>
    dsimp only at h
    split at h
    · cases h
    · have hloop : SameRows s (warmLoop cfg draw stamp 0 [] s (table.first limit.toNat)).2.2 :=
        warmLoop_sameRows draw stamp (table.first limit.toNat) 0 [] s
      cases h
      split
      · have hlist : ∀ u draw' json, SameRows u (setList cfg draw' json stamp u) := fun u draw' json =>
          (setex_adds (P := fun _ => True) (fun _ => trivial) u).sameRows
        have hset := hlist (warmLoop cfg draw stamp 0 [] s (table.first limit.toNat)).2.2
          (draw (warmLoop cfg draw stamp 0 [] s (table.first limit.toNat)).2.1)
          (cfg.json.toCompactJson (.arr (warmLoop cfg draw stamp 0 [] s (table.first limit.toNat)).1))
        exact ⟨hset.1.trans hloop.1, hset.2.trans hloop.2⟩
      · exact hloop
  next => cases h

theorem perform_sameRows {err : Option String} {f : Effect} (h : perform cfg err s f = some t) : SameRows s t := by
  cases f with
  | write level key value ttl stamp =>
    cases level with
    | redis =>
      simp only [perform] at h
      split at h <;> cases h <;> exact ⟨rfl, rfl⟩
    | local_ =>
      simp only [perform] at h
      split at h <;> cases h
      exact ⟨rfl, rfl⟩
  | delete level keys second =>
    cases level with
    | redis =>
      cases h
      exact ⟨rfl, rfl⟩
    | local_ =>
      simp only [perform] at h
      split at h <;> cases h
      exact ⟨rfl, rfl⟩
  | schedule keys order =>
    simp only [perform] at h
    split at h <;> cases h
    unfold scheduleDelayedDelete
    split <;> exact ⟨rfl, rfl⟩

theorem applyStep_sameRows {i : ℕ} {err : Option String} (h : applyStep cfg s i err = some t) : SameRows s t := by
  unfold applyStep at h
  split at h
  · exact perform_sameRows (s := { s with pending := s.pending.eraseIdx i }) h
  · cases h

/-- **A step of the reads** leaves the skus and the orders alone. -/
theorem step_sameRows (he : e.reads = true) (h : step cfg s e = some t) : SameRows s t := by
  cases e with
  | detailSku r skuId => exact readStep_sameRows h
  | listSkus r => exact readStep_sameRows h
  | reply r => exact replyStep_sameRows h
  | warm r draw => exact warmStep_sameRows h
  | apply i err => exact applyStep_sameRows h
  | get r err =>
    simp only [step, getStep] at h
    split at h
    · cases h
      exact ⟨rfl, rfl⟩
    · cases h
  | select r err =>
    simp only [step, selectStep] at h
    split at h
    · split at h <;> cases h <;> exact ⟨rfl, rfl⟩
    · cases h
  | answer r draw =>
    simp only [step, answerStep] at h
    split at h
    next query looked table stamp _ =>
      split at h
      · cases h
      · cases h
        exact writeBack_sameRows draw table stamp query s
    next => cases h
  | warmCache r limit =>
    simp only [step, warmCacheStep] at h
    split at h
    · cases h
      exact ⟨rfl, rfl⟩
    · cases h
  | warmSelect r err =>
    simp only [step, warmSelectStep] at h
    split at h
    · split at h <;> cases h <;> exact ⟨rfl, rfl⟩
    · cases h
  | commit q skuId | invalidateOnOrder q | update table => cases he
  | fireDelayed =>
    simp only [step, fireDelayedStep] at h
    split at h
    · cases h
    next task rest _ =>
      split at h
      · cases h
      · cases h
        exact (dels_adds (P := fun _ => True) (fun _ _ => trivial) task.keys { s with delayed := rest }).sameRows
  | wait ms =>
    cases h
    exact ⟨rfl, rfl⟩

/-- **The commit of an order** takes one item off its row. -/
theorem commitStep_cases {q : ℕ} {skuId : Int64} (h : commitStep s q skuId = some t) :
    ∃ row, s.orders q = none ∧ s.table.find skuId = some row ∧ 0 < row.stock ∧
      t.table = s.table.deduct skuId ∧
      t.orders = Function.update s.orders q (some ⟨skuId, s.redis.now, false⟩) := by
  unfold commitStep at h
  split at h
  next row hq hrow =>
    split at h
    next hpos =>
      cases h
      exact ⟨row, hq, hrow, hpos, rfl, rfl⟩
    next => cases h
  next => cases h

theorem commitStep_of {q : ℕ} {skuId : Int64} {row : SkuRow} (hq : s.orders q = none)
    (hrow : s.table.find skuId = some row) (hpos : 0 < row.stock) : ∃ t, commitStep s q skuId = some t := by
  unfold commitStep
  rw [hq, hrow]
  exact ⟨_, if_pos hpos⟩

/-- **The cache is told** of an order, once. -/
theorem invalidateOnOrderStep_cases {q : ℕ} (h : invalidateOnOrderStep cfg s q = some t) :
    ∃ o, s.orders q = some o ∧ o.told = false ∧ t.table = s.table ∧
      t.orders = Function.update s.orders q (some { o with told := true }) := by
  unfold invalidateOnOrderStep at h
  split at h
  next o ho =>
    split at h
    · cases h
    next htold =>
      cases h
      have hsame : SameRows s (invalidateOnOrder cfg o.skuId q s) :=
        (invalidateOnOrder_adds (P := fun _ => True) (fun _ _ => trivial) (fun _ => trivial) o.skuId s).sameRows
      exact ⟨o, ho, by simpa using htold, hsame.1, rfl⟩
  next => cases h

theorem invalidateOnOrderStep_of {q : ℕ} {o : Order} (ho : s.orders q = some o) (htold : o.told = false) :
    ∃ t, invalidateOnOrderStep cfg s q = some t := by
  unfold invalidateOnOrderStep
  rw [ho]
  exact ⟨_, if_neg (by rw [htold]; exact Bool.false_ne_true)⟩

theorem answer_none {table : SkuTable} {skuId : Int64} (h : table.find skuId = none) :
    answer (.detail skuId) table = (false, .null) := by
  simp only [answer, h]

theorem answer_some {table : SkuTable} {skuId : Int64} {row : SkuRow} (h : table.find skuId = some row) :
    answer (.detail skuId) table = (true, itemJson row) := by
  simp only [answer, h]

/-- **An answer is of a table that was read** at most `maxAge` before the lookup. -/
theorem answered_known {es : List Ev} {s₀ : State} {g : ℤ} {skuId : Int64} {a : SeckillService.Answer} {looked : ℕ}
    (hground : Grounded cfg s₀ es s) (htimely : Timely cfg g s₀ es s)
    (hj : ∀ v, Saw cfg s₀ es v → SeckillService.Faithful cfg.json v.table)
    (h : Becomes cfg s e r (.answered (.detail skuId) a looked)) :
    ∃ v, Saw cfg s₀ es v ∧ (looked : ℤ) ≤ v.redis.now + max (maxAge cfg g) 0 ∧ a = answer (.detail skuId) v.table := by
  rcases h with ⟨value, hreply, hdecode⟩ | ⟨table, stamp, hselected, rfl⟩
  · obtain ⟨table, stamp, ⟨v, hsaw, rfl, rfl⟩, rfl, hage⟩ := htimely.reply r skuId value looked hreply
    rw [decode_itemText (hj v hsaw)] at hdecode
    change (looked : ℤ) ≤ v.redis.now + maxAge cfg g at hage
    exact ⟨v, hsaw, by omega, (Option.some.inj hdecode).symm⟩
  · obtain ⟨v, hsaw, rfl, rfl⟩ := hground.reads r table stamp (by rw [hselected]; rfl)
    have hlooked : looked ≤ v.redis.now := htimely.selected r _ looked _ _ hselected
    exact ⟨v, hsaw, by omega, rfl⟩

end ReadPath

theorem SkuTable.find_deduct (table : SkuTable) (skuId k : Int64) :
    (table.deduct skuId).find k =
      if k = skuId then (table.find k).map fun row => { row with stock := row.stock - 1 } else table.find k := by
  unfold SkuTable.find SkuTable.deduct
  rw [List.find?_map]
  have hid : ((fun row : SkuRow => decide (row.id = k)) ∘
      fun row => if row.id = skuId then { row with stock := row.stock - 1 } else row) = fun row => decide (row.id = k) := by
    funext row
    simp only [Function.comp_apply]
    split <;> rfl
  rw [hid]
  cases hfind : table.rows.find? fun row => decide (row.id = k) with
  | none => split <;> rfl
  | some row =>
    have hrow : row.id = k := by simpa using List.find?_some hfind
    subst hrow
    rw [Option.map_some]
    split <;> rfl

namespace Traffic

open Machine
open SeckillService (Config Faithful)

variable {cfg : Config} {d₀ : Db} {s t : State} {e : Ev} {r : ℕ}

/-! ## One table -/

/-- What the read path knows of a request: its committed order, and whether the commit
callback told the cache. -/
def OrderOf (q : Req) : Option ReadPath.Order → Prop
  | none => q.pc.isCommitted = false
  | some o => q.pc.isCommitted = true ∧ o.skuId = q.skuId ∧ (o.told = false ↔ q.pc = .committed true)

/-- The two have the same stocks and the same orders. -/
structure Agree (s : State) : Prop where
  stock : stocks s.2.table = s.1.db.stock
  orders : ∀ r, OrderOf (s.1.req r) (s.2.orders r)

theorem Agree.init (cfg : Config) (now : ℕ) (table : SkuTable) (orders : List Order) (guard : InflightGuard) :
    Agree (init cfg now table orders guard) := ⟨rfl, fun _ => rfl⟩

theorem parts_onCommit (s : Seckill.State) (r : ℕ) : parts s (.order (.onCommit r)) =
    some (some (.onCommit r), if (s.req r).pc = .committed true then some (.invalidateOnOrder r) else none) := rfl

/-- **What a step of the whole is**: a COMMIT; a commit callback that tells the cache; any
other event of the orders; an event of the reads. -/
theorem step_cases (h : step cfg s e = some t) :
    (∃ r, e = .order (.commit r true) ∧ Seckill.step s.1 (.commit r true) = some t.1 ∧
        ReadPath.step cfg s.2 (.commit r (s.1.req r).skuId) = some t.2) ∨
      (∃ r, e = .order (.onCommit r) ∧ (s.1.req r).pc = .committed true ∧
        Seckill.step s.1 (.onCommit r) = some t.1 ∧ ReadPath.step cfg s.2 (.invalidateOnOrder r) = some t.2) ∨
      (∃ e', e = .order e' ∧ e' ≠ .crash ∧ (∀ r, e' ≠ .commit r true) ∧
        (∀ r, e' = .onCommit r → (s.1.req r).pc ≠ .committed true) ∧ Seckill.step s.1 e' = some t.1 ∧ t.2 = s.2) ∨
      ∃ e', e = .read e' ∧ e'.reads = true ∧ t.1 = s.1 ∧ ReadPath.step cfg s.2 e' = some t.2 := by
  obtain ⟨p, hp, h₁, h₂⟩ := sync_eq_some.1 h
  cases e with
  | read e =>
    right; right; right
    cases e with
    | commit q skuId | invalidateOnOrder q | update table => cases hp
    | _ =>
      cases hp
      exact ⟨_, rfl, rfl, (Option.some.inj h₁).symm, h₂⟩
  | order e =>
    cases e with
    | crash => cases hp
    | commit r ok =>
      cases ok with
      | true =>
        cases hp
        exact Or.inl ⟨r, rfl, h₁, h₂⟩
      | false =>
        cases hp
        exact Or.inr (Or.inr (Or.inl ⟨_, rfl, by simp, by simp, by simp, h₁, (Option.some.inj h₂).symm⟩))
    | onCommit r =>
      cases hp
      by_cases hpc : (s.1.req r).pc = .committed true
      · dsimp only at h₂
        rw [if_pos hpc] at h₂
        exact Or.inr (Or.inl ⟨r, rfl, hpc, h₁, h₂⟩)
      · dsimp only at h₂
        rw [if_neg hpc] at h₂
        refine Or.inr (Or.inr (Or.inl ⟨_, rfl, by simp, by simp, ?_, h₁, (Option.some.inj h₂).symm⟩))
        rintro r' heq
        obtain rfl := Seckill.Ev.onCommit.inj heq
        exact hpc
    | _ =>
      cases hp
      exact Or.inr (Or.inr (Or.inl ⟨_, rfl, by simp, by simp, by simp, h₁, (Option.some.inj h₂).symm⟩))

/-- **A committed request stays where it is** until its commit callback. -/
theorem committed_stays {s t : Seckill.State} {e : Seckill.Ev} (h : Seckill.step s e = some t) (hcrash : e ≠ .crash)
    (hr : (s.req r).pc.isCommitted = true) (hclosed : e = .onCommit r → (s.req r).pc ≠ .committed true) :
    (t.req r).pc = (s.req r).pc ∧ (t.req r).skuId = (s.req r).skuId := by
  rcases step_move h r with heq | hmove
  · rw [heq]
    exact ⟨rfl, rfl⟩
  · generalize t.req r = q at hmove ⊢
    cases hmove with
    | dropped hd => exact ⟨rfl, rfl⟩
    | crashed => exact absurd rfl hcrash
    | @closed ok hpc =>
      cases ok with
      | true => exact absurd hpc (hclosed rfl)
      | false =>
        rw [hpc] at hr
        cases hr
    | committed hpc hd =>
      rw [Pc.not_committed_of_active hpc] at hr
      cases hr
    | commitFailed hpc =>
      rw [Pc.not_committed_of_active hpc] at hr
      cases hr
    | called got hpc | turnedAway hpc hg | opened hpc | noTx hpc | updateFailed what hpc | updated hpc hd
    | updateAnswered hpc ha | deducted hpc ha | insertFailed what hpc | inserted hpc hd | insertAnswered hpc ha
    | ordered hpc ha | rolledBack hpc =>
      rw [hpc] at hr
      cases hr

theorem OrderOf.keep {q q' : Req} {o : Option ReadPath.Order} (h : OrderOf q o) (hpc : q'.pc = q.pc)
    (hsku : q'.skuId = q.skuId) : OrderOf q' o := by
  unfold OrderOf at h ⊢
  rwa [hpc, hsku]

/-- **The tables stay one.** -/
theorem Agree.step (hi : Inv d₀ s.1) (ha : Agree s) (h : step cfg s e = some t) : Agree t := by
  rcases step_cases h with ⟨r, -, h₁, h₂⟩ | ⟨r, -, hpc, h₁, h₂⟩ | ⟨e', -, hcrash, hcommit, hclosed, h₁, h₂⟩ |
    ⟨e', -, he, h₁, h₂⟩
  · -- one item is sold, in both
    obtain ⟨row, -, -, -, htable, horders⟩ := ReadPath.commitStep_cases h₂
    obtain ⟨hact, hlive, ⟨-, d, hd, ht⟩ | ⟨hno, -⟩⟩ := commitStep_cases h₁
    swap
    · cases hno
    have hx := hi.tx_commit ((hi.req r).ordered hact hlive) hd
    rw [Db.commit_eq hx] at hd
    refine ⟨?_, fun r' => ?_⟩
    · rw [ht, ← Option.some.inj hd, htable]
      funext k
      have hk := congrFun ha.stock k
      unfold stocks at hk ⊢
      rw [SkuTable.find_deduct, State.set_db]
      dsimp only [Req.order] at hk ⊢
      by_cases hsku : k = (s.1.req r).skuId
      · rw [if_pos hsku, hsku, Function.update_self, ← ha.stock, stocks, Option.map_map, Option.map_map]
        rfl
      · rw [if_neg hsku, Function.update_of_ne hsku, hk]
    · rw [ht, horders, State.set_req]
      by_cases hr : r' = r
      · rw [if_pos hr, hr, Function.update_self]
        exact ⟨rfl, rfl, ⟨fun _ => rfl, fun _ => rfl⟩⟩
      · rw [if_neg hr, Function.update_of_ne hr]
        exact ha.orders r'
  · -- the order is told
    obtain ⟨o, ho, -, htable, horders⟩ := ReadPath.invalidateOnOrderStep_cases h₂
    obtain ⟨ok, inv, hpc', ht⟩ := onCommitStep_cases h₁
    have hok : ok = true := by
      rw [hpc] at hpc'
      exact (Pc.committed.inj hpc').symm
    refine ⟨?_, fun r' => ?_⟩
    · rw [ht, htable]
      exact ha.stock
    · rw [ht, horders, State.set_req]
      by_cases hr : r' = r
      · have hold := ha.orders r
        rw [ho] at hold
        rw [if_pos hr, hr, Function.update_self, hok]
        exact ⟨rfl, hold.2.1, by simp [Req.answerAt, Req.answer]⟩
      · rw [if_neg hr, Function.update_of_ne hr]
        exact ha.orders r'
  · refine ⟨?_, fun r => ?_⟩
    · rw [h₂, ha.stock]
      rcases step_tables hi h₁ with hsame | ⟨r, heq, -⟩
      · exact hsame.1.symm
      · exact absurd heq (hcommit r)
    · rw [h₂]
      have hold := ha.orders r
      cases ho : s.2.orders r with
      | none =>
        rw [ho] at hold
        refine Bool.eq_false_iff.2 fun hyes => ?_
        rcases (step_committed h₁ r).1 hyes with hbefore | heq
        · rw [show (s.1.req r).pc.isCommitted = false from hold] at hbefore
          cases hbefore
        · exact hcommit r heq
      | some o =>
        rw [ho] at hold
        obtain ⟨hpc, hsku⟩ := committed_stays h₁ hcrash hold.1 (hclosed r)
        exact hold.keep hpc hsku
  · obtain ⟨htable, horders⟩ := ReadPath.step_sameRows he h₂
    refine ⟨?_, fun r => ?_⟩
    · rw [htable, h₁]
      exact ha.stock
    · rw [horders, h₁]
      exact ha.orders r

/-- The ledger and the agreement, together. -/
def Sound (d₀ : Db) (s : State) : Prop := Inv d₀ s.1 ∧ Agree s

theorem step_sound (s : State) (e : Ev) (t : State) (h : Sound d₀ s) (hs : step cfg s e = some t) : Sound d₀ t := by
  refine ⟨?_, h.2.step h.1 hs⟩
  rcases step_cases hs with ⟨r, -, h₁, -⟩ | ⟨r, -, -, h₁, -⟩ | ⟨e', -, -, -, -, h₁, -⟩ | ⟨e', -, -, h₁, -⟩
  · exact step_inv _ _ _ h.1 h₁
  · exact step_inv _ _ _ h.1 h₁
  · exact step_inv _ _ _ h.1 h₁
  · rw [h₁]
    exact h.1

theorem init_sound (cfg : Config) (now : ℕ) (table : SkuTable) (orders : List Order) (guard : InflightGuard) :
    Sound (.init (stocks table) orders) (init cfg now table orders guard) :=
  ⟨init_inv _ _ _, .init cfg now table orders guard⟩

/-- **The reads do not hinder the orders**: what an order can do alone, it can do here. -/
theorem order_step {t₁ : Seckill.State} {e : Seckill.Ev} (h : Sound d₀ s) (hcrash : e ≠ .crash)
    (hs : Seckill.step s.1 e = some t₁) : ∃ t₂, step cfg s (.order e) = some (t₁, t₂) := by
  have halone : parts s.1 (.order e) = some (some e, none) → ∃ t₂, step cfg s (.order e) = some (t₁, t₂) :=
    fun hparts => ⟨s.2, sync_eq_some.2 ⟨_, hparts, hs, rfl⟩⟩
  cases e with
  | crash => exact absurd rfl hcrash
  | commit r ok =>
    cases ok with
    | false => exact halone rfl
    | true =>
      -- the row is there and has stock, and the order is new
      obtain ⟨hact, hlive, ⟨-, d, hd, -⟩ | ⟨hno, -⟩⟩ := commitStep_cases hs
      swap
      · cases hno
      have hx := h.1.tx_commit ((h.1.req r).ordered hact hlive) hd
      obtain ⟨n, hn, hpos⟩ := h.1.db.left r _ _ hx rfl
      rw [← h.2.stock] at hn
      obtain ⟨row, hrow, rfl⟩ := Option.map_eq_some_iff.1 hn
      have hnone : s.2.orders r = none := by
        have hold := h.2.orders r
        cases ho : s.2.orders r with
        | none => rfl
        | some o =>
          rw [ho] at hold
          have hyes := hold.1
          rw [Pc.not_committed_of_active hact] at hyes
          cases hyes
      obtain ⟨t₂, ht₂⟩ := ReadPath.commitStep_of hnone hrow hpos
      exact ⟨t₂, sync_eq_some.2 ⟨_, rfl, hs, ht₂⟩⟩
  | onCommit r =>
    by_cases hpc : (s.1.req r).pc = .committed true
    swap
    · refine halone ?_
      rw [parts_onCommit, if_neg hpc]
    · have hold := h.2.orders r
      cases ho : s.2.orders r with
      | none =>
        rw [ho] at hold
        have hno : (s.1.req r).pc.isCommitted = false := hold
        rw [hpc] at hno
        cases hno
      | some o =>
        rw [ho] at hold
        obtain ⟨t₂, ht₂⟩ : ∃ t₂, ReadPath.invalidateOnOrderStep cfg s.2 r = some t₂ :=
          ReadPath.invalidateOnOrderStep_of ho (hold.2.2.2 hpc)
        have hparts := parts_onCommit s.1 r
        rw [if_pos hpc] at hparts
        exact ⟨t₂, sync_eq_some.2 ⟨_, hparts, hs, ht₂⟩⟩
  | _ => exact halone rfl

/-! ## What a customer sees -/

/-- The time from the SELECT to a write that takes effect with this event. -/
def lag (s : State) : Ev → Option ℤ
  | .read e => ReadPath.lag s.2 e
  | .order _ => none

theorem lag_part {e' : ReadPath.Ev} (h : (parts s.1 e).bind Prod.snd = some e') : ReadPath.lag s.2 e' = lag s e := by
  cases e with
  | read e =>
    cases e with
    | commit q skuId | invalidateOnOrder q | update table => cases h
    | _ =>
      cases h
      rfl
  | order e =>
    cases e with
    | commit r ok =>
      cases ok with
      | false => cases h
      | true =>
        cases h
        rfl
    | onCommit r =>
      unfold parts at h
      simp only [Option.bind_some] at h
      split at h
      · cases h
        rfl
      · cases h
    | _ => cases h

/-- Orders are only added. -/
theorem sold_mono {es : List Ev} (h : Sound d₀ s) (hrun : run (step cfg) s es = some t) (k : Int64) :
    s.1.db.sold k ≤ t.1.db.sold k := by
  have hboth : Sound d₀ t ∧ s.1.db.sold k ≤ t.1.db.sold k := by
    refine run_inv (I := fun t => Sound d₀ t ∧ s.1.db.sold k ≤ t.1.db.sold k) ?_ ⟨h, Nat.le_refl _⟩ hrun
    rintro u e v ⟨hu, hle⟩ hv
    refine ⟨step_sound u e v hu hv, hle.trans ?_⟩
    have hstep : ∀ e', Seckill.step u.1 e' = some v.1 → u.1.db.sold k ≤ v.1.db.sold k := by
      intro e' he'
      unfold Db.sold
      rcases step_tables hu.1 he' with ⟨-, hsame⟩ | ⟨r, -, n, -, -, -, -, hnew⟩
      · rw [hsame]
      · rw [hnew, List.countP_append]
        exact Nat.le_add_right _ _
    rcases step_cases hv with ⟨r, -, h₁, -⟩ | ⟨r, -, -, h₁, -⟩ | ⟨e', -, -, -, -, h₁, -⟩ | ⟨e', -, -, h₁, -⟩
    · exact hstep _ h₁
    · exact hstep _ h₁
    · exact hstep _ h₁
    · rw [h₁]
  exact hboth.2

/-- **The stock a customer sees** was the stock a moment ago, and there is not more left.
In every run of orders and reads, whatever fails, in which a write takes effect within `g`
of its SELECT: a new answer of `detailSku` has the first stock less the orders added by a
moment not earlier than `maxAge` before its lookup; and what is left now is no more. -/
theorem displayed_stock (cfg : Config) (now : ℕ) (table : SkuTable) (orders : List Order) (guard : InflightGuard)
    (es : List Ev) (g : ℤ) (r looked : ℕ) (skuId : Int64) (a : SeckillService.Answer)
    (hj : Meets (step cfg) (fun v _ => Faithful cfg.json v.2.table) (init cfg now table orders guard) es)
    (hlag : Meets (step cfg) (fun v e => ∀ n ∈ lag v e, n ≤ g) (init cfg now table orders guard) es)
    (hrun : run (step cfg) (init cfg now table orders guard) es = some s) (hs : step cfg s e = some t)
    (hnew : t.2.reads r ≠ s.2.reads r) (hanswer : t.2.reads r = .answered (.detail skuId) a looked) :
    ∃ pre v, pre <+: es ∧ run (step cfg) (init cfg now table orders guard) pre = some v ∧
      (looked : ℤ) ≤ v.2.redis.now + max (ReadPath.maxAge cfg g) 0 ∧
      (stocks table skuId = none ∧ a = (false, .null) ∨
        ∃ n row left, stocks table skuId = some n ∧ a = (true, itemJson row) ∧ row.id = skuId ∧
          row.stock = n - (v.1.db.sold skuId - (orders.countP fun o => o.skuId = skuId) : ℤ) ∧
          t.1.db.stock skuId = some left ∧ left ≤ row.stock) := by
  set s₀ := init cfg now table orders guard with hs₀
  have hsound := run_inv step_sound (init_sound cfg now table orders guard) hrun
  have hsound' := step_sound s e t hsound hs
  -- the reads see a run of their own
  have hreads : run (ReadPath.step cfg) s₀.2 (rights Seckill.step (ReadPath.step cfg) parts s₀ es) = some s.2 :=
    sync_right hrun
  have hground := ReadPath.run_grounded hreads
  have hlag' : Meets (ReadPath.step cfg) (fun v e => ∀ n ∈ ReadPath.lag v e, n ≤ g) s₀.2
      (rights Seckill.step (ReadPath.step cfg) parts s₀ es) := by
    refine meets_of_takes fun v b htakes => ?_
    obtain ⟨w, e', hw, rfl, hpart⟩ := takes_right hrun v b htakes
    rw [lag_part hpart]
    exact hw.meets hlag
  have htimely : ReadPath.Timely cfg g s₀.2 (rights Seckill.step (ReadPath.step cfg) parts s₀ es) s.2 :=
    run_trace_of (ReadPath.Timely.init cfg g now table)
      (fun es s e t hrun h hlag he => h.step (ReadPath.run_grounded hrun) hlag he) hlag' hreads
  have hbecomes : ∃ b, ReadPath.Becomes cfg s.2 b r (.answered (.detail skuId) a looked) := by
    obtain ⟨p, -, -, hright⟩ := sync_eq_some.1 hs
    cases hp : p.2 with
    | none =>
      rw [hp] at hright
      rw [← Option.some.inj hright] at hnew
      exact absurd rfl hnew
    | some b =>
      rw [hp] at hright
      rcases (ReadPath.step_did hright).reads r with hsame | hb
      · exact absurd hsame hnew
      · rw [hanswer] at hb
        exact ⟨b, hb⟩
  obtain ⟨b, hb⟩ := hbecomes
  -- what was selected was selected in a state of the whole
  have hwhole : ∀ v, ReadPath.Saw cfg s₀.2 (rights Seckill.step (ReadPath.step cfg) parts s₀ es) v →
      ∃ w e, Takes (step cfg) s₀ es w e ∧ w.2 = v := by
    rintro v ⟨q, hv | hv⟩
    · obtain ⟨w, e', hw, hwv, -⟩ := takes_right hrun v _ hv
      exact ⟨w, e', hw, hwv⟩
    · obtain ⟨w, e', hw, hwv, -⟩ := takes_right hrun v _ hv
      exact ⟨w, e', hw, hwv⟩
  obtain ⟨v, hsaw, hage, ha⟩ := ReadPath.answered_known hground htimely (fun v hv => by
    obtain ⟨w, e', hw, rfl⟩ := hwhole v hv
    exact hw.meets hj) hb
  obtain ⟨w, e', ⟨pre, post, hes, hw⟩, rfl⟩ := hwhole v hsaw
  have hwsound := run_inv step_sound (init_sound cfg now table orders guard) hw
  have hrest : run (step cfg) w (e' :: post) = some s := run_rest (by rw [← hes]; exact hrun) hw
  have hsold := sold_mono hwsound (run_snoc.2 ⟨s, hrest, hs⟩) skuId
  refine ⟨pre, w, ⟨e' :: post, hes.symm⟩, hw, hage, ?_⟩
  have hthen := hwsound.1.db.stock skuId
  rw [← hwsound.2.stock] at hthen
  have hleft := hsound'.1.db.stock skuId
  change stocks w.2.table skuId = (stocks table skuId).map _ at hthen
  change t.1.db.stock skuId = (stocks table skuId).map _ at hleft
  cases hn : stocks table skuId with
  | none =>
    rw [hn, Option.map_none] at hthen
    rw [ReadPath.answer_none (Option.map_eq_none_iff.1 hthen)] at ha
    exact Or.inl ⟨rfl, ha⟩
  | some n =>
    rw [hn, Option.map_some] at hthen hleft
    obtain ⟨row, hrow, hstock⟩ := Option.map_eq_some_iff.1 hthen
    rw [ReadPath.answer_some hrow] at ha
    have hid : row.id = skuId := by
      unfold SkuTable.find at hrow
      simpa using List.find?_some hrow
    refine Or.inr ⟨n, row, _, rfl, ha, hid, ?_, hleft, ?_⟩
    · rw [hstock]
      change n + ((orders.countP fun o => o.skuId = skuId : ℕ) : ℤ) - (w.1.db.sold skuId : ℤ) = _
      omega
    · rw [hstock]
      omega

/-! ## One sku, sold meanwhile -/

open ReadPath (oneSku oneConfig oneSku_faithful)

def start : State := init oneConfig 100000 oneSku [] (.new .mutex 64 65536)

/-- A read writes its row back to L1 only, the sku is sold, and another read comes a minute
later. -/
def soldMeanwhile : List Ev :=
  [.detailSku 0 1, .get 0 none, .reply 0, .select 0 none, .wait 20, .answer 0 7, .apply 0 (some "timeout"), .wait 10,
    .apply 0 none].map .read ++ (oneOrder 0 7 1).map .order ++ [.wait 60000, .detailSku 1 1].map .read

/-- The answer has one item that is sold. -/
theorem displayed_stock_sold : ∃ t row left,
    run (step oneConfig) start (soldMeanwhile ++ [.read (.reply 1)]) = some t ∧
      t.2.reads 1 = .answered (.detail 1) (true, itemJson row) 160030 ∧ t.1.db.stock 1 = some left ∧ left ≤ row.stock := by
  have hend : ((run (step oneConfig) start (soldMeanwhile ++ [.read (.reply 1)])).map fun t =>
      (((t.2.reads 1).answeredFor 1).map Prod.snd, t.1.db.stock 1)) = some (some 160030, some 49) := by
    decide +kernel
  have hlag : Meets (step oneConfig) (fun v e => ∀ n ∈ lag v e, n ≤ 30) start soldMeanwhile := by
    decide +kernel
  have hrows : Meets (step oneConfig)
      (fun v _ => v.2.table.rows = oneSku.rows ∨ v.2.table.rows = (oneSku.deduct 1).rows) start soldMeanwhile := by
    decide +kernel
  have hj : Meets (step oneConfig) (fun v _ => Faithful oneConfig.json v.2.table) start soldMeanwhile :=
    meets_imp (fun v _ h => oneSku_faithful h) hrows
  have hbefore : ((run (step oneConfig) start soldMeanwhile).map fun s => ((s.2.reads 1).answeredFor 1).isSome) =
      some false := by
    decide +kernel
  obtain ⟨t, ht, htold⟩ := Option.map_eq_some_iff.1 hend
  obtain ⟨hlooked, hstock⟩ := Prod.mk.inj htold
  obtain ⟨⟨a, looked⟩, hanswered, rfl⟩ := Option.map_eq_some_iff.1 hlooked
  obtain ⟨s, hs, he⟩ := run_snoc.1 ht
  obtain ⟨s', hs', hnot⟩ := Option.map_eq_some_iff.1 hbefore
  obtain rfl := Option.some.inj (hs.symm.trans hs')
  have hnew : t.2.reads 1 ≠ s.2.reads 1 := by
    intro heq
    rw [← heq, hanswered] at hnot
    cases hnot
  have hanswer := ReadPath.answeredFor_some hanswered
  obtain ⟨pre, v, -, -, -, ⟨hno, -⟩ | ⟨n, row, left, -, rfl, -, -, hleft, hle⟩⟩ :=
    displayed_stock oneConfig 100000 oneSku [] (.new .mutex 64 65536) soldMeanwhile 30 1 _ 1 a hj hlag hs he hnew hanswer
  · exact absurd hno (by decide)
  · exact ⟨t, row, left, ht, hanswer, hleft, hle⟩

end Traffic

end Seckill
