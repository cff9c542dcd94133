import Seckill.Proof.BloomFilter

/-!
# No sku is lost by a rebuild

The filter of a snapshot lets every id of the snapshot through, so a publication
keeps what the calls before it published as long as its own snapshot has all of
those ids (`InOrder`). Since skus are only inserted, that is so when nothing is
inserted between a call's SELECT and its publication (`meets_inOrder`).

* `rebuildBloom_keeps`: in every run whose publications are in order, an id that
  was in the table at the SELECT of a call that reported success passes.
* `rebuildBloom_loses`: two overlapping calls publish the older snapshot last.
-/

namespace Seckill.RebuildBloom

open Machine

variable {cfg : Config} {s t : State} {e : Ev} {r : ℕ} {skuId : Int64}

/-- The ids a call's SELECT returned. -/
def Call.snapshot : Call → Option (List Int64)
  | .selected ids | .published ids | .reported true _ ids => some ids
  | _ => none

/-- The ids of the filter a call published. -/
def Call.publishedIds : Call → List Int64
  | .published ids | .reported true _ ids => ids
  | _ => []

/-- **Publications in order**: what a call publishes has all the ids of every
snapshot published before. -/
def InOrder (s : State) : Ev → Prop
  | .publish r => ∀ ids, s.call r = .selected ids → ∀ r', (s.call r').publishedIds ⊆ ids
  | _ => True

@[simp] theorem set_skus (s : State) (r : ℕ) (c : Call) : (s.set r c).skus = s.skus := rfl

@[simp] theorem set_bloom (s : State) (r : ℕ) (c : Call) : (s.set r c).bloom = s.bloom := rfl

theorem set_call (s : State) (r : ℕ) (c : Call) (r' : ℕ) :
    (s.set r c).call r' = if r' = r then c else s.call r' := by
  simp only [State.set, Function.update_apply]

/-- What a step does to the calls: nothing, or call `r` goes on. -/
inductive Goes (cfg : Config) (s : State) (r : ℕ) : Ev → Call → Prop
  | disabled (h : s.call r = .idle) : Goes cfg s r (.rebuildBloom r) (.reported true 0 [])
  | query (h : s.call r = .idle) : Goes cfg s r (.rebuildBloom r) .querying
  | select (h : s.call r = .querying) : Goes cfg s r (.select r false) (.selected s.skus)
  | fail (h : s.call r = .querying) : Goes cfg s r (.select r true) .failed
  | publish (ids : List Int64) (h : s.call r = .selected ids) : Goes cfg s r (.publish r) (.published ids)
  | report (ids : List Int64) (h : s.call r = .published ids) :
      Goes cfg s r (.report r) (.reported true ids.length ids)
  | reportFail (h : s.call r = .failed) : Goes cfg s r (.report r) (.reported false 0 [])

/-- **The steps.** A call goes on, publishing its filter if it does so; or a sku is
inserted; or a request looks at the filter. -/
theorem step_cases (h : step cfg s e = some t) :
    (∃ r c, Goes cfg s r e c ∧ t.call = (s.set r c).call ∧ t.skus = s.skus ∧
      t.bloom = match c with
        | .published ids => some (fresh cfg ids)
        | _ => s.bloom) ∨
    (∃ skuId, e = .insertSku skuId ∧ t = { s with skus := skuId :: s.skus }) ∨
    (∃ skuId, e = .detailSku skuId ∧ t.call = s.call ∧ t.skus = s.skus ∧ t.bloom = s.bloom) := by
  cases e with
  | rebuildBloom r =>
    left
    simp only [step, rebuildBloomStep] at h
    split at h
    next hidle =>
      injection h with h
      subst h
      by_cases hb : cfg.bloomEnabled = true
      · exact ⟨r, .querying, .query hidle, by simp [hb], rfl, rfl⟩
      · exact ⟨r, .reported true 0 [], .disabled hidle, by simp [hb], rfl, rfl⟩
    next => cases h
  | select r fails =>
    left
    simp only [step, selectStep] at h
    split at h
    next hquerying =>
      injection h with h
      subst h
      cases fails with
      | false => exact ⟨r, .selected s.skus, .select hquerying, rfl, rfl, rfl⟩
      | true => exact ⟨r, .failed, .fail hquerying, rfl, rfl, rfl⟩
    next => cases h
  | publish r =>
    left
    simp only [step, publishStep] at h
    split at h
    next ids hselected =>
      injection h with h
      subst h
      exact ⟨r, .published ids, .publish ids hselected, rfl, rfl, rfl⟩
    next => cases h
  | report r =>
    left
    simp only [step, reportStep] at h
    split at h
    next ids hpublished =>
      injection h with h
      subst h
      exact ⟨r, .reported true ids.length ids, .report ids hpublished, rfl, rfl, rfl⟩
    next hfailed =>
      injection h with h
      subst h
      exact ⟨r, .reported false 0 [], .reportFail hfailed, rfl, rfl, rfl⟩
    next => cases h
  | insertSku skuId =>
    simp only [step] at h
    split at h
    · cases h
    · injection h with h
      exact Or.inr (Or.inl ⟨skuId, rfl, h.symm⟩)
  | detailSku skuId =>
    simp only [step, Option.some.injEq] at h
    -- whatever it is told, a lookup writes nothing
    refine Or.inr (Or.inr ⟨skuId, rfl, ?_⟩)
    split at h <;> subst h <;> exact ⟨rfl, rfl, rfl⟩

/-- A call that goes on keeps its snapshot. -/
theorem Goes.snapshot {c : Call} (h : Goes cfg s r e c) {ids : List Int64}
    (hids : (s.call r).snapshot = some ids) : c.snapshot = some ids := by
  cases h with
  | disabled h | query h | select h | fail h | reportFail h =>
    rw [h] at hids
    cases hids
  | publish ids' h | report ids' h =>
    rw [h] at hids
    exact hids

/-- **A snapshot stays what it is.** -/
theorem step_snapshot (h : step cfg s e = some t) {ids : List Int64} (hids : (s.call r).snapshot = some ids) :
    (t.call r).snapshot = some ids := by
  rcases step_cases h with ⟨r', c, hgoes, hcall, -, -⟩ | ⟨_, -, rfl⟩ | ⟨_, -, hcall, -, -⟩
  · rw [hcall, set_call]
    split
    next heq => subst heq; exact hgoes.snapshot hids
    next => exact hids
  · exact hids
  · rw [hcall]
    exact hids

/-- **The snapshot is the table at the SELECT.** -/
theorem snapshot_of_takes {skus : List Int64} {es : List Ev} (hrun : run (step cfg) (.init skus) es = some s)
    {s₁ : State} (htakes : Takes (step cfg) (.init skus) es s₁ (.select r false)) :
    (s.call r).snapshot = some s₁.skus := by
  revert s₁
  refine run_trace (I := fun es s => ∀ {s₁}, Takes (step cfg) (.init skus) es s₁ (.select r false) →
    (s.call r).snapshot = some s₁.skus) ?_ ?_ hrun
  · intro s₁ htakes
    obtain ⟨pre, post, hnil, -⟩ := htakes
    simp at hnil
  · intro es s e t hes ih hstep s₁ htakes
    rcases takes_snoc.1 htakes with hbefore | ⟨rfl, hnow⟩
    · exact step_snapshot hstep (ih hbefore)
    · -- the SELECT is the last step, and `s₁` the state before it
      rw [hes] at hnow
      obtain rfl := Option.some.inj hnow
      rcases step_cases hstep with ⟨r', c, hgoes, hcall, -, -⟩ | ⟨_, he, -⟩ | ⟨_, he, -⟩
      · cases hgoes with
        | select h => rw [hcall, set_call, if_pos rfl]; rfl
      · cases he
      · cases he

/-- What was published passes. -/
def Published (s : State) : Prop := ∀ r, ∀ skuId ∈ (s.call r).publishedIds, bloomAllows s.bloom skuId = true

/-- A call that goes on publishes, or has published what it had. -/
theorem Goes.publishedIds {c : Call} (h : Goes cfg s r e c) :
    (∃ ids, e = .publish r ∧ s.call r = .selected ids ∧ c = .published ids) ∨
      (c.publishedIds = (s.call r).publishedIds ∧ ∀ ids, c ≠ .published ids) := by
  cases h with
  | publish ids h => exact Or.inl ⟨ids, rfl, h, rfl⟩
  | disabled h | query h | select h | fail h | reportFail h | report _ h =>
    right
    rw [h]
    exact ⟨rfl, fun ids hc => by cases hc⟩

/-- **A publication in order loses nothing**; the other steps change no filter. -/
theorem step_published (hs : Published s) (hin : InOrder s e) (h : step cfg s e = some t) : Published t := by
  intro r' skuId hmem
  rcases step_cases h with ⟨r, c, hgoes, hcall, -, hbloom⟩ | ⟨_, -, rfl⟩ | ⟨_, -, hcall, -, hbloom⟩
  · rw [hcall, set_call] at hmem
    rcases hgoes.publishedIds with ⟨ids, rfl, hselected, rfl⟩ | ⟨hsame, hnot⟩
    · have hids : skuId ∈ ids := by
        split at hmem
        next => exact hmem
        next => exact hin ids hselected r' hmem
      rw [hbloom]
      exact bloomAllows_fresh cfg hids
    · have hold : skuId ∈ (s.call r').publishedIds := by
        split at hmem
        next heq => rw [heq, ← hsame]; exact hmem
        next => exact hmem
      have hkeep : t.bloom = s.bloom := by
        rw [hbloom]
        split
        next _ ids => exact absurd rfl (hnot ids)
        next => rfl
      rw [hkeep]
      exact hs r' skuId hold
  · exact hs r' skuId hmem
  · rw [hcall] at hmem
    rw [hbloom]
    exact hs r' skuId hmem

/-- **No sku is lost by a rebuild.** In every run whose publications are in order:
once a call of `rebuildBloom` has reported success, no sku that was in the table
when its SELECT ran is rejected. -/
theorem rebuildBloom_keeps {skus : List Int64} {es : List Ev} (hrun : run (step cfg) (.init skus) es = some s)
    (horder : Meets (step cfg) InOrder (.init skus) es) {s₁ : State} {n : ℕ} {ids : List Int64}
    (hselect : Takes (step cfg) (.init skus) es s₁ (.select r false)) (hskus : skuId ∈ s₁.skus)
    (hreported : s.call r = .reported true n ids) : rejects cfg s skuId = false := by
  have hpub : Published s := by
    refine run_inv_of (I := Published) (fun s e t hs hin h => step_published hs hin h) ?_ horder hrun
    intro r skuId hmem
    cases hmem
  have hsnapshot := snapshot_of_takes hrun hselect
  rw [hreported] at hsnapshot
  have hids : ids = s₁.skus := Option.some.inj hsnapshot
  have hallows : bloomAllows s.bloom skuId = true := by
    apply hpub r
    rw [hreported]
    change skuId ∈ ids
    rw [hids]
    exact hskus
  unfold rejects
  rw [hallows]
  simp

/-- Snapshots are of a table that only grows. -/
def Grown (s : State) : Prop := ∀ r ids, (s.call r).snapshot = some ids → ids ⊆ s.skus

theorem step_grown (hs : Grown s) (h : step cfg s e = some t) : Grown t := by
  intro r ids hids
  rcases step_cases h with ⟨r', c, hgoes, hcall, hskus, -⟩ | ⟨_, -, rfl⟩ | ⟨_, -, hcall, hskus, -⟩
  · rw [hcall, set_call] at hids
    rw [hskus]
    split at hids
    next =>
      cases hgoes with
      | select => exact fun x hx => Option.some.inj hids ▸ hx
      | publish ids' hold | report ids' hold => exact hs r' ids (by rw [hold]; exact hids)
      | disabled => exact Option.some.inj hids ▸ List.nil_subset _
      | query | fail | reportFail => cases hids
    next => exact hs r ids hids
  · exact fun x hx => List.mem_cons_of_mem _ (hs r ids hids hx)
  · rw [hcall] at hids
    rw [hskus]
    exact hs r ids hids

/-- Nothing was inserted since the SELECT whose filter is published. -/
def Current (s : State) : Ev → Prop
  | .publish r => match s.call r with
    | .selected ids => s.skus ⊆ ids
    | _ => True
  | _ => True

instance (s : State) (e : Ev) : Decidable (Current s e) := by
  unfold Current
  split
  · split <;> infer_instance
  · infer_instance

theorem Call.snapshot_of_published {c : Call} (h : skuId ∈ c.publishedIds) : c.snapshot = some c.publishedIds := by
  unfold Call.publishedIds at h ⊢
  split at h
  next => rfl
  next => rfl
  next => cases h

/-- **Rebuilds that no insertion interrupts are in order.** -/
theorem meets_inOrder {skus : List Int64} {es : List Ev} (h : Meets (step cfg) Current (.init skus) es) :
    Meets (step cfg) InOrder (.init skus) es := by
  refine meets_of_inv (I := Grown) (fun s e t hs _ h => step_grown hs h) ?_ ?_ h
  · intro s e hs hcurrent
    cases e with
    | publish r =>
      intro ids hselected r' x hx
      simp only [Current, hselected] at hcurrent
      exact hcurrent (hs r' _ (Call.snapshot_of_published hx) hx)
    | rebuildBloom | select | report | insertSku | detailSku => trivial
  · intro r ids hids
    cases hids

/-! ## Fixed runs -/

/-- A filter for ten skus with one false positive in a hundred. -/
def tenSkus : Config := ⟨true, true, ⟨96, 7, by decide⟩⟩

/-- Sku 8 is inserted between two rebuilds. -/
def inTurn : List Ev :=
  [.rebuildBloom 0, .select 0 false, .publish 0, .report 0, .insertSku 8, .rebuildBloom 1, .select 1 false,
    .publish 1, .report 1]

theorem rebuildBloom_keeps_inTurn :
    ∃ s, run (step tenSkus) (.init [7]) inTurn = some s ∧ s.call 1 = .reported true 2 [8, 7] ∧
      rejects tenSkus s 8 = false := by
  have hclosed : (run (step tenSkus) (.init [7]) inTurn).map (fun s => s.call 1) =
      some (.reported true 2 [8, 7]) := by decide +kernel
  have hbefore : (run (step tenSkus) (.init [7]) (inTurn.take 6)).map (fun s => s.skus) = some [8, 7] := by
    decide +kernel
  obtain ⟨s, hrun, hcall⟩ := Option.map_eq_some_iff.1 hclosed
  obtain ⟨s₁, hrun₁, hskus⟩ := Option.map_eq_some_iff.1 hbefore
  have horder : Meets (step tenSkus) InOrder (.init [7]) inTurn := meets_inOrder (by decide +kernel)
  have hselect : Takes (step tenSkus) (.init [7]) inTurn s₁ (.select 1 false) :=
    ⟨inTurn.take 6, inTurn.drop 7, rfl, hrun₁⟩
  exact ⟨s, hrun, hcall, rebuildBloom_keeps hrun horder hselect (by rw [hskus]; decide) hcall⟩

/-- Sku 8 is inserted between the SELECTs of two calls, and the first publishes last. -/
def crossed : List Ev :=
  [.rebuildBloom 0, .select 0 false, .insertSku 8, .rebuildBloom 1, .select 1 false, .publish 1, .report 1,
    .publish 0, .report 0]

/-- **Overlapping calls lose a sku**: call 1, whose SELECT had sku 8, reported
success, and `detailSku` rejects sku 8. -/
theorem rebuildBloom_loses :
    ∃ s s₁, run (step tenSkus) (.init [7]) crossed = some s ∧
      Takes (step tenSkus) (.init [7]) crossed s₁ (.select 1 false) ∧ 8 ∈ s₁.skus ∧
      s.call 1 = .reported true 2 [8, 7] ∧ rejects tenSkus s 8 = true := by
  have hclosed : (run (step tenSkus) (.init [7]) crossed).map (fun s => (s.call 1, rejects tenSkus s 8)) =
      some (.reported true 2 [8, 7], true) := by decide +kernel
  have hbefore : (run (step tenSkus) (.init [7]) (crossed.take 4)).map (fun s => s.skus) = some [8, 7] := by
    decide +kernel
  obtain ⟨s, hrun, hs⟩ := Option.map_eq_some_iff.1 hclosed
  obtain ⟨hcall, hrejects⟩ := Prod.mk.inj hs
  obtain ⟨s₁, hrun₁, hskus⟩ := Option.map_eq_some_iff.1 hbefore
  exact ⟨s, s₁, hrun, ⟨crossed.take 4, crossed.drop 5, rfl, hrun₁⟩, by rw [hskus]; decide, hcall, hrejects⟩

end Seckill.RebuildBloom
