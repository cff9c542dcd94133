import Seckill.Spec.Mysql

/-!
# The order ledger balances

`d.OK d₀`: since `d₀` the committed stock of every sku went down by one for
each new order of it, no stock became negative and no order was doubled; an open
transaction that decremented a row holds its lock (so nobody else has), the row
still has stock, and an order it inserted is new.

Every statement keeps it (`begin_ok`, `deduct_ok`, `insertOrder_ok`,
`rollback_ok`), and so does the COMMIT of a transaction that did both halves of
an order (`commit_ok`).
-/

namespace Seckill

variable {d₀ : Db}

/-- The ledger is balanced since `d₀`, and its open transactions can commit. -/
structure Db.OK (d d₀ : Db) : Prop where
  stock : ∀ k, d.stock k = (d₀.stock k).map fun n => n + (d₀.sold k : ℤ) - (d.sold k : ℤ)
  known : ∀ o ∈ d.orders, o ∈ d₀.orders ∨ (d₀.stock o.skuId).isSome = true
  nonneg : ∀ k n, d.stock k = some n → 0 ≤ n ∨ d₀.stock k = some n
  nodup : d₀.orders.Nodup → d.orders.Nodup
  owned : ∀ k r, d.lock k = some r ↔ ∃ t, d.tx r = some t ∧ t.dec = some k
  left : ∀ r t k, d.tx r = some t → t.dec = some k → ∃ n, d.stock k = some n ∧ 0 < n
  fresh : ∀ r t o, d.tx r = some t → t.ins = some o → t.dec = some o.skuId ∧ o ∉ d.orders

namespace Db

variable {d d' : Db} {r : ℕ} {k : Int64} {o : Order} {t : Tx} {n : ℕ}

theorem init_ok (stock : Int64 → Option ℤ) (orders : List Order) :
    (Db.init stock orders).OK (.init stock orders) where
  stock k := by simp [Db.init]
  known o ho := Or.inl ho
  nonneg k n hk := Or.inr hk
  nodup h := h
  owned k r := by simp [Db.init]
  left r t k ht := by simp [Db.init] at ht
  fresh r t o ht := by simp [Db.init] at ht

theorem tx_set (r r' : ℕ) (x : Option Tx) :
    Function.update d.tx r x r' = if r' = r then x else d.tx r' := by
  rw [Function.update_apply]

/-- A change of `r`'s work that keeps its lock. -/
theorem set_ok (h : d.OK d₀) (hr : ∀ t', d.tx r = some t' → t'.dec = t.dec)
    (hn : d.tx r = none → t.dec = none)
    (hf : ∀ o, t.ins = some o → t.dec = some o.skuId ∧ o ∉ d.orders) :
    Db.OK { d with tx := Function.update d.tx r (some t) } d₀ where
  stock := h.stock
  known := h.known
  nonneg := h.nonneg
  nodup := h.nodup
  owned k r' := by
    rw [h.owned k r']
    simp only [tx_set]
    by_cases hr' : r' = r
    · subst hr'
      simp only [if_true, Option.some.injEq, exists_eq_left']
      constructor
      · rintro ⟨t', ht', hd⟩; rw [← hr t' ht', hd]
      · intro hd
        cases hx : d.tx r' with
        | none => rw [hn hx] at hd; cases hd
        | some t' => exact ⟨t', rfl, by rw [hr t' hx, hd]⟩
    · simp only [if_neg hr']
  left r' t' k ht' hd := by
    simp only [tx_set] at ht'
    split at ht'
    · rename_i he; subst he
      cases ht'
      cases hx : d.tx r' with
      | none => rw [hn hx] at hd; cases hd
      | some t₁ => exact h.left r' t₁ k hx (by rw [hr t₁ hx, hd])
    · exact h.left r' t' k ht' hd
  fresh r' t' o ht' ho := by
    simp only [tx_set] at ht'
    split at ht'
    · cases ht'; exact hf o ho
    · exact h.fresh r' t' o ht' ho

theorem begin_ok (h : d.OK d₀) (hr : d.tx r = none) : (d.begin r).OK d₀ :=
  set_ok h (fun t' ht' => by rw [hr] at ht'; cases ht') (fun _ => rfl) (fun o ho => by cases ho)

/-- **The UPDATE keeps the ledger balanced**; 0 rows mean there was nothing to take. -/
theorem deduct_ok (h : d.OK d₀) (ht : d.tx r = some ⟨none, none⟩)
    (hd : d.deduct r k = some (d', n)) :
    d'.OK d₀ ∧ d'.stock = d.stock ∧ d'.orders = d.orders ∧
      (n = 0 ∧ d' = d ∧ (∀ m, d.stock k = some m → m ≤ 0) ∨
        n = 1 ∧ d'.tx = Function.update d.tx r (some ⟨some k, none⟩)) := by
  unfold deduct at hd
  rw [ht] at hd
  cases hl : d.lock k with
  | some r' => rw [hl] at hd; cases hd
  | none =>
    rw [hl] at hd
    simp only at hd
    cases hs : d.stock k with
    | none =>
      rw [hs] at hd; cases hd
      exact ⟨h, rfl, rfl, Or.inl ⟨rfl, rfl, fun m hm => by cases hm⟩⟩
    | some m =>
      rw [hs] at hd
      simp only at hd
      split at hd <;> cases hd
      · -- there is stock: `r` gets the lock
        rename_i hm
        refine ⟨⟨h.stock, h.known, h.nonneg, h.nodup, ?_, ?_, ?_⟩, rfl, rfl, Or.inr ⟨rfl, rfl⟩⟩
        · intro k' r'
          have hold := h.owned k' r'
          simp only [Function.update_apply]
          by_cases hk : k' = k
          · subst hk
            rw [hl] at hold
            by_cases hr : r' = r
            · subst hr; simp
            · simpa [hr, Ne.symm hr] using hold
          · by_cases hr : r' = r
            · subst hr; rw [ht] at hold; simpa [hk, Ne.symm hk] using hold
            · simpa [hk, hr] using hold
        · intro r' t' k' ht' hk'
          simp only [tx_set] at ht'
          split at ht'
          · cases ht'; cases hk'; exact ⟨m, hs, hm⟩
          · exact h.left r' t' k' ht' hk'
        · intro r' t' o ht' ho
          simp only [tx_set] at ht'
          split at ht'
          · cases ht'; cases ho
          · exact h.fresh r' t' o ht' ho
      · -- no stock: 0 rows
        rename_i hm
        exact ⟨h, rfl, rfl, Or.inl ⟨rfl, rfl, fun m' hm' => by cases hm'; omega⟩⟩

/-- **The INSERT keeps the ledger balanced.** -/
theorem insertOrder_ok (h : d.OK d₀) (ht : d.tx r = some ⟨some o.skuId, none⟩)
    (hi : d.insertOrder r o = some (d', n)) :
    d'.OK d₀ ∧ d'.stock = d.stock ∧ d'.orders = d.orders ∧
      (n = 0 ∧ d' = d ∧ o ∈ d.orders ∨
        n = 1 ∧ d'.tx = Function.update d.tx r (some ⟨some o.skuId, some o⟩)) := by
  unfold insertOrder at hi
  rw [ht, Option.map_some] at hi
  split at hi <;> cases hi
  · rename_i hm; exact ⟨h, rfl, rfl, Or.inl ⟨rfl, rfl, hm⟩⟩
  · rename_i hm
    refine ⟨set_ok h ?_ ?_ ?_, rfl, rfl, Or.inr ⟨rfl, rfl⟩⟩
    · intro t' ht'; rw [ht] at ht'; cases ht'; rfl
    · intro hn; rw [ht] at hn; cases hn
    · intro o' ho'; cases ho'; exact ⟨rfl, hm⟩

theorem unlock_iff (h : d.OK d₀) (k : Int64) (r' : ℕ) :
    d.unlock r k = some r' ↔ ∃ t, Function.update d.tx r none r' = some t ∧ t.dec = some k := by
  have hold := h.owned k r'
  unfold unlock
  rw [tx_set]
  by_cases hr : r' = r
  · subst hr
    by_cases hl : d.lock k = some r'
    · simp [hl]
    · simp [hl]
  · rw [if_neg hr, ← hold]
    by_cases hl : d.lock k = some r
    · simp [hl, Ne.symm hr]
    · rw [if_neg hl]

theorem rollback_ok (h : d.OK d₀) : (d.rollback r).OK d₀ where
  stock := h.stock
  known := h.known
  nonneg := h.nonneg
  nodup := h.nodup
  owned := unlock_iff h
  left r' t' k ht' hd := by
    simp only [rollback, tx_set] at ht'
    split at ht'
    · cases ht'
    · exact h.left r' t' k ht' hd
  fresh r' t' o ht' ho := by
    simp only [rollback, tx_set] at ht'
    split at ht'
    · cases ht'
    · exact h.fresh r' t' o ht' ho

/-- **COMMIT of a whole order**: the sku loses one item and gains one order. -/
theorem commit_eq (ht : d.tx r = some ⟨some o.skuId, some o⟩) :
    d.commit r = some
      { stock := Function.update d.stock o.skuId ((d.stock o.skuId).map (· - 1))
        orders := d.orders ++ [o]
        lock := d.unlock r
        tx := Function.update d.tx r none } := by
  unfold commit
  rw [ht, Option.map_some]

/-- The transaction that has decremented a row has its lock, so nobody else has. -/
theorem OK.dec_other {r' : ℕ} {t t' : Tx} {k k' : Int64} (h : d.OK d₀) (ht : d.tx r = some t) (hk : t.dec = some k)
    (hr : r' ≠ r) (ht' : d.tx r' = some t') (hk' : t'.dec = some k') : k' ≠ k := by
  rintro rfl
  have h1 := (h.owned k' r').2 ⟨t', ht', hk'⟩
  have h2 := (h.owned k' r).2 ⟨t, ht, hk⟩
  rw [h1] at h2
  exact hr (Option.some.inj h2)

/-- **COMMIT of a whole order keeps the ledger balanced.** Nobody else's work is
on the committed row: the transaction holds its lock until now. -/
theorem commit_ok (h : d.OK d₀) (ht : d.tx r = some ⟨some o.skuId, some o⟩)
    (hc : d.commit r = some d') : d'.OK d₀ := by
  rw [commit_eq ht] at hc
  cases hc
  obtain ⟨n, hn, hpos⟩ := h.left r _ _ ht rfl
  obtain ⟨-, hnew⟩ := h.fresh r _ _ ht rfl
  have hother : ∀ r' t' k', r' ≠ r → d.tx r' = some t' → t'.dec = some k' → k' ≠ o.skuId :=
    fun r' t' k' hr => h.dec_other ht rfl hr
  refine ⟨?_, ?_, ?_, ?_, unlock_iff h, ?_, ?_⟩
  · -- one less in stock, one more sold
    intro k
    simp only [Function.update_apply, sold, List.countP_append, List.countP_singleton]
    have := h.stock k
    split
    · rename_i hk; subst hk
      rw [this, Option.map_map]
      congr 1
      funext m
      simp [sold]; omega
    · rename_i hk; simpa [Ne.symm hk, sold] using this
  · -- the sku of the new order is in the table
    intro o' ho'
    rcases List.mem_append.1 ho' with ho' | ho'
    · exact h.known o' ho'
    · rw [List.mem_singleton.1 ho']
      have := h.stock o.skuId
      rw [hn] at this
      cases hs : d₀.stock o.skuId with
      | none => rw [hs] at this; cases this
      | some m => exact Or.inr rfl
  · intro k m hk
    simp only [Function.update_apply] at hk
    split at hk
    · rw [hn, Option.map_some] at hk; cases hk; exact Or.inl (by omega)
    · exact h.nonneg k m hk
  · -- no order twice: the new one was not there
    intro h₀
    rw [List.nodup_append]
    refine ⟨h.nodup h₀, by simp, ?_⟩
    intro a ha b hb hab
    rw [hab, List.mem_singleton.1 hb] at ha
    exact hnew ha
  · -- the others' rows are other rows
    intro r' t' k' ht' hd
    simp only [tx_set] at ht'
    split at ht'
    · cases ht'
    · rename_i hr
      simp only [Function.update_of_ne (hother r' t' k' hr ht' hd)]
      exact h.left r' t' k' ht' hd
  · -- and their orders other orders
    intro r' t' o' ht' ho'
    simp only [tx_set] at ht'
    split at ht'
    · cases ht'
    · rename_i hr
      obtain ⟨h1, h2⟩ := h.fresh r' t' o' ht' ho'
      refine ⟨h1, fun hmem => ?_⟩
      rcases List.mem_append.1 hmem with hmem | hmem
      · exact h2 hmem
      · exact hother r' t' _ hr ht' h1 (by rw [List.mem_singleton.1 hmem])

theorem abortAll_ok (h : d.OK d₀) : d.abortAll.OK d₀ where
  stock := h.stock
  known := h.known
  nonneg := h.nonneg
  nodup := h.nodup
  owned k r := by simp [abortAll]
  left r t k ht := by simp [abortAll] at ht
  fresh r t o ht := by simp [abortAll] at ht

end Db

end Seckill
