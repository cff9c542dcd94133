import Seckill.Proof.Gate
import Seckill.Proof.OrderAnswers

/-!
# What `DUPLICATE_ORDER` means

Two places answer it. The INSERT that found the row answers for an order that is
there, and orders stay (`run_orders`). The in-flight gate answers for another request
of the same user and sku, whose outcome is still open: that one may sell out or fail,
and then there is no order.

So when nothing is in progress any more, a request that was answered
`DUPLICATE_ORDER` has its order, or the gate turned it away (`TurnedAway`) for a
request that came to nothing: `duplicate_order`.
-/

namespace Seckill

open Machine

variable {d₀ : Db} {s t : State} {r : ℕ} {e : Ev}

/-! ## Who answers it -/

/-- The request was, or is about to be, told that its order is a duplicate. -/
def Req.duplicate (q : Req) : Prop := q.heard (.inserted (.ok 0)) (false, "DUPLICATE_ORDER")

theorem insertAnswer_duplicate {o : Outcome} (h : insertAnswer o = some (false, "DUPLICATE_ORDER")) : o = .ok 0 :=
  (statementAnswer_refusal error_ne_duplicate (insertAnswer_eq o ▸ h)).1

theorem updateAnswer_ne_duplicate (o : Outcome) : updateAnswer o ≠ some (false, "DUPLICATE_ORDER") := by
  intro h
  rw [updateAnswer_eq] at h
  exact absurd (statementAnswer_refusal error_ne_duplicate h).2 (by decide)

/-- The gate turned the call `e` of request `r` away. -/
def Refuses (s : State) (r : ℕ) (e : Ev) : Prop :=
  ∃ u k g, e = .call r u k ∧ s.guard.tryAcquire (makeKey u k) = some (g, false) ∧ (s.req r).pc = .idle

/-- **Only an INSERT that finds the order, or the gate, calls a request a duplicate.** -/
theorem step_duplicate (hi : Inv d₀ s) (hs : step s e = some t) (r : ℕ) (h : (t.req r).duplicate) :
    (s.req r).duplicate ∨ (t.req r).order ∈ s.db.orders ∨
      Refuses s r e ∧ (t.req r).pc = .refused ∧ e = .call r (t.req r).userId (t.req r).skuId := by
  rcases step_move hs r with heq | hmove
  · rw [heq] at h
    exact Or.inl h
  · generalize t.req r = q at hmove h ⊢
    cases hmove with
    | called got hpc => simp [Req.called, Req.duplicate, Req.heard] at h
    | turnedAway hpc hg => exact Or.inr (Or.inr ⟨⟨_, _, _, rfl, hg, hpc⟩, rfl, rfl⟩)
    | dropped hd => exact Or.inl h
    | opened hpc => exact Or.inl (Req.heard_at (p := .updating) (by simp) h)
    | noTx hpc => exact Or.inl ((Req.heard_answerAt (by simp) h).resolve_right (by decide))
    | inserted hpc hd =>
      obtain ⟨-, -, -, ⟨-, -, hmem⟩ | ⟨rfl, -⟩⟩ := Db.insertOrder_ok hi.db (hi.tx_inserting hpc hd) hd
      · exact Or.inr (Or.inl hmem)
      · exact Or.inl (Req.heard_at (by simp) h)
    | updateAnswered hpc ha =>
      left
      rcases Req.heard_answerAt (by simp) h with h | rfl
      · exact h
      · exact absurd ha (updateAnswer_ne_duplicate _)
    | deducted hpc ha => exact Or.inl (Req.heard_at (p := .inserting) (by simp) h)
    | insertAnswered hpc ha =>
      left
      rcases Req.heard_answerAt (by simp) h with h | rfl
      · exact h
      · rw [insertAnswer_duplicate ha] at hpc
        exact Or.inl hpc
    | closed hpc =>
      rename_i ok
      exact Or.inl ((Req.heard_answerAt (by simp) h).resolve_right (by cases ok <;> decide))
    | updateFailed | updated | insertFailed | ordered | committed | commitFailed | rolledBack =>
      exact Or.inl (Req.heard_at (by simp) h)
    | crashed =>
      rcases h with h | h
      · cases hpc : (s.req r).pc <;> simp [Req.crashed, hpc, Pc.crash] at h
      · exact Or.inl (Or.inr h)

/-- A request the gate turned away stays turned away. -/
theorem step_refused (hs : step s e = some t) (h : (s.req r).pc = .refused) : (t.req r).pc = .refused := by
  rcases step_move hs r with heq | hmove
  · rw [heq, h]
  · generalize t.req r = q at hmove ⊢
    cases hmove with
    | dropped hd => exact h
    | crashed => simp [Req.crashed, h, Pc.crash]
    | called got hpc | turnedAway hpc | opened hpc | noTx hpc => rw [h] at hpc; cases hpc
    | updateFailed what hpc | updated hpc | updateAnswered hpc | deducted hpc => rw [h] at hpc; cases hpc
    | insertFailed what hpc | inserted hpc | insertAnswered hpc | ordered hpc => rw [h] at hpc; cases hpc
    | closed hpc | rolledBack hpc => rw [h] at hpc; cases hpc
    | committed hact | commitFailed hact => rw [h] at hact; cases hact

/-- Orders stay. -/
theorem run_orders {es : List Ev} {o : Order} (hi : Inv d₀ s) (h : run step s es = some t) (ho : o ∈ s.db.orders) :
    o ∈ t.db.orders := by
  have hboth : Inv d₀ t ∧ o ∈ t.db.orders := by
    refine run_inv (I := fun s => Inv d₀ s ∧ o ∈ s.db.orders) ?_ ⟨hi, ho⟩ h
    rintro s e t ⟨hi, ho⟩ hs
    refine ⟨step_inv s e t hi hs, ?_⟩
    rcases step_tables hi hs with ⟨-, horders⟩ | ⟨r, -, n, -, -, -, -, horders⟩
    · rwa [horders]
    · rw [horders]
      exact List.mem_append_left _ ho
  exact hboth.2

/-- **A committed request has its order.** -/
theorem committed_order {stock₀ : Int64 → Option ℤ} {orders₀ : List Order} {guard : InflightGuard} {es : List Ev}
    (h : run step (State.init stock₀ orders₀ guard) es = some s) (hr : (s.req r).pc.isCommitted = true) :
    (s.req r).order ∈ s.db.orders := by
  obtain ⟨u, v, ⟨pre, post, rfl, hu⟩, huv, n, -, -, -, -, horders⟩ := (told_run h).sells r hr
  have hiu : Inv (.init stock₀ orders₀) u := run_inv step_inv (init_inv stock₀ orders₀ guard) hu
  have hpost := run_tail (run_rest h hu) huv
  refine run_orders (step_inv u _ v hiu huv) hpost ?_
  rw [horders]
  exact List.mem_append_right _ (List.mem_singleton_self _)

/-! ## Who is turned away -/

/-- The gate keeps its mode. -/
theorem step_mode (hs : step s e = some t) : t.guard.mode = s.guard.mode := by
  cases e with
  | call r u k =>
    obtain ⟨-, ⟨-, rfl⟩ | ⟨-, g, got, hg, rfl⟩⟩ := callStep_cases hs
    · rfl
    · exact (InflightGuard.tryAcquire_shape hg).mode
  | drop r hd =>
    obtain ⟨-, g, rfl, hg⟩ := dropStep_cases hs
    split at hg
    · exact (InflightGuard.release_shape hg).mode
    · rw [hg]; rfl
  | newTx r ok => obtain ⟨-, ⟨-, rfl⟩ | ⟨-, rfl⟩⟩ := newTxStep_cases hs <;> rfl
  | update r err => obtain ⟨-, ⟨what, -, rfl⟩ | ⟨-, d, n, -, rfl⟩⟩ := updateStep_cases hs <;> rfl
  | onUpdate r => obtain ⟨o, -, ⟨a, -, rfl⟩ | ⟨-, rfl⟩⟩ := onUpdateStep_cases hs <;> rfl
  | insert r err => obtain ⟨-, ⟨what, -, rfl⟩ | ⟨-, d, n, -, rfl⟩⟩ := insertStep_cases hs <;> rfl
  | onInsert r => obtain ⟨o, -, ⟨a, -, rfl⟩ | ⟨-, rfl⟩⟩ := onInsertStep_cases hs <;> rfl
  | commit r ok => obtain ⟨-, -, ⟨-, d, -, rfl⟩ | ⟨-, rfl⟩⟩ := commitStep_cases hs <;> rfl
  | onCommit r => obtain ⟨ok, inv, -, rfl⟩ := onCommitStep_cases hs; rfl
  | rollback r => obtain ⟨-, rfl⟩ := rollbackStep_cases hs; rfl
  | dbCrash => cases hs; rfl
  | crash => cases hs; exact InflightGuard.new_mode _ _ _

/-- The gate turned `r` away while `r'`, whose key is the same, was in progress. -/
def TurnedAway (s₀ : State) (es : List Ev) (s : State) (r r' : ℕ) : Prop :=
  (s.req r).pc = .refused ∧ r' ≠ r ∧ (s.req r').pc ≠ .idle ∧ (s.req r').key = (s.req r).key ∧
    ∃ v, Takes step s₀ es v (.call r (s.req r).userId (s.req r).skuId) ∧ (v.req r').holds = true

theorem TurnedAway.snoc {s₀ : State} {es : List Ev} {r' : ℕ} (h : TurnedAway s₀ es s r r') (hs : step s e = some t) :
    TurnedAway s₀ (es ++ [e]) t r r' := by
  obtain ⟨href, hne, hcalled, hkey, v, hv, hholds⟩ := h
  have hlater := step_later hs (r := r) (by rw [href]; simp)
  have hlater' := step_later hs hcalled
  have horder : (t.req r).userId = (s.req r).userId ∧ (t.req r).skuId = (s.req r).skuId := by
    have := hlater.order
    simpa [Req.order] using this
  have horder' : (t.req r').userId = (s.req r').userId ∧ (t.req r').skuId = (s.req r').skuId := by
    have := hlater'.order
    simpa [Req.order] using this
  refine ⟨step_refused hs href, hne, hlater'.called, ?_, v, ?_, hholds⟩
  · unfold Req.key at hkey ⊢
    rw [horder.1, horder.2, horder'.1, horder'.2, hkey]
  · rw [horder.1, horder.2]
    exact hv.snoc e

/-- **A mark that turns a call away is held** by a request with the same key. -/
theorem refuses_held {g₀ : InflightGuard} {u k : Int64} {g : InflightGuard} (hm : g₀.mode ≠ .none)
    (ha : g₀.mode ≠ .atomic) (hg : Gate g₀ s) (h : s.guard.tryAcquire (makeKey u k) = some (g, false)) :
    ∃ r', (s.req r').holds = true ∧ (s.req r').key = makeKey u k := by
  have hmode : s.guard.mode ≠ .none := by rw [hg.shape.mode]; exact hm
  obtain ⟨hgot, -⟩ := InflightGuard.tryAcquire_spec hmode h
  have hmarked : s.guard.marked (makeKey u k) = true := by simpa using hgot.symm
  obtain ⟨r', hr'⟩ := (hg.held.marks (makeKey u k)).1 hmarked
  unfold Req.mark at hr'
  split at hr'
  · rename_i hholds
    exact ⟨r', hholds, (InflightGuard.slot_exact_eq ha _).1 (Option.some.inj hr')⟩
  · cases hr'

/-- What a run says about its duplicates. -/
structure Duplicates (mode : Mode) (shards bits : UInt64) (d₀ : Db) (s₀ : State) (es : List Ev) (s : State) :
    Prop where
  inv : Inv d₀ s
  mode_eq : s.guard.mode = mode
  gate : mode ≠ .none → Gate (.new mode shards bits) s
  said : ∀ r, (s.req r).duplicate →
    (s.req r).order ∈ s.db.orders ∨ mode ≠ .none ∧ ∃ r', TurnedAway s₀ es s r r'

theorem duplicates_step {mode : Mode} {shards bits : UInt64} {s₀ : State} {es : List Ev} (ha : mode ≠ .atomic)
    (hrun : run step s₀ es = some s) (h : Duplicates mode shards bits d₀ s₀ es s) (hs : step s e = some t) :
    Duplicates mode shards bits d₀ s₀ (es ++ [e]) t where
  inv := step_inv s e t h.inv hs
  mode_eq := by rw [step_mode hs, h.mode_eq]
  gate hm := step_gate hm h.inv (h.gate hm) hs
  said r hr := by
    have hone : run step s [e] = some t := run_cons.2 ⟨t, hs, rfl⟩
    rcases step_duplicate h.inv hs r hr with hold | hmem | ⟨⟨u, k, g, he, hg, hidle⟩, href, hcall⟩
    · have hlater := step_later hs (idle_of_heard (h.inv.req r) (by simp) hold)
      rcases h.said r hold with hmem | ⟨hm, r', haway⟩
      · rw [hlater.order]
        exact Or.inl (run_orders h.inv hone hmem)
      · exact Or.inr ⟨hm, r', haway.snoc hs⟩
    · exact Or.inl (run_orders h.inv hone hmem)
    · right
      have hm : mode ≠ .none := by
        rintro rfl
        unfold InflightGuard.tryAcquire at hg
        rw [h.mode_eq] at hg
        simp at hg
      -- whose token refuses it
      obtain ⟨r', hholds, hkey⟩ := refuses_held (by simpa using hm) (by simpa using ha) (h.gate hm) hg
      -- `r` held no token: it was idle
      have hne : r' ≠ r := by
        rintro rfl
        unfold Req.holds at hholds
        rw [(h.inv.req r').bare (Or.inl hidle)] at hholds
        cases hholds
      have hcalled : (s.req r').pc ≠ .idle := by
        intro hpc
        unfold Req.holds at hholds
        rw [(h.inv.req r').bare (Or.inl hpc)] at hholds
        cases hholds
      have hlater := step_later hs hcalled
      refine ⟨hm, r', href, hne, hlater.called, ?_, s, ?_, hholds⟩
      · have horder := hlater.order
        simp only [Req.order, Order.mk.injEq] at horder
        have hids : (t.req r).userId = u ∧ (t.req r).skuId = k := by
          rw [he] at hcall
          simp only [Ev.call.injEq, true_and] at hcall
          exact ⟨hcall.1.symm, hcall.2.symm⟩
        unfold Req.key at hkey ⊢
        rw [horder.1, horder.2, hids.1, hids.2, hkey]
      · rw [← hcall]
        exact takes_last e hrun

/-- No two requests of the run share a key unless they are of one user for one sku. -/
def NoCollision (s : State) : Prop :=
  ∀ r r', (s.req r).pc ≠ .idle → (s.req r').pc ≠ .idle → (s.req r).key = (s.req r').key →
    (s.req r).order = (s.req r').order

/-- The request came to nothing: it was answered with a refusal or an error, or the process died under it. -/
def Req.inVain (q : Req) : Prop := (∃ what, q.answers = [(false, what)]) ∨ q.pc = .dead false

/-- When nothing of a request is left, it committed or came to nothing. -/
theorem Req.OK.inVain {q : Req} {x : Option Tx} (hq : q.OK x) (hidle : q.pc ≠ .idle) (hlive : q.live = [])
    (hc : q.pc.isCommitted = false) : q.inVain := by
  have hkeeps : ∀ h, h ∉ q.pc.keeps := by
    intro h hk
    have := hq.keeps h hk
    rw [hlive] at this
    cases this
  have hsaid := hq.said
  cases hpc : q.pc <;> rw [hpc] at hsaid hidle hkeeps hc <;>
    simp only [Pc.said, Pc.keeps, Pc.isCommitted] at hsaid hkeeps hc
  case closed ok =>
    rw [hc] at hsaid
    exact Or.inl ⟨_, hsaid⟩
  case dead ok =>
    rw [hc] at hpc
    exact Or.inr hpc
  all_goals first
    | exact absurd rfl hidle
    | exact absurd List.mem_cons_self (hkeeps _)
    | exact Or.inl hsaid

/-- **What a duplicate has.** In mode `none`, `mutex` or `spin`, with keys that do not
collide: when nothing is in progress any more, a request that was answered
`DUPLICATE_ORDER` has its order, or the gate turned it away while another request of
its user for its sku was in progress, and that one came to nothing. -/
theorem duplicate_order (mode : Mode) (shards bits : UInt64) (ha : mode ≠ .atomic) (stock₀ : Int64 → Option ℤ)
    (orders₀ : List Order) (es : List Ev) (s : State)
    (h : run step (State.init stock₀ orders₀ (.new mode shards bits)) es = some s) (hkeys : NoCollision s)
    (hquiet : ∀ r, (s.req r).live = []) (r : ℕ) (hr : (false, "DUPLICATE_ORDER") ∈ (s.req r).answers) :
    (s.req r).order ∈ s.db.orders ∨
      mode ≠ .none ∧ ∃ r', TurnedAway (State.init stock₀ orders₀ (.new mode shards bits)) es s r r' ∧
        (s.req r').order = (s.req r).order ∧ (s.req r').inVain := by
  have hdup : Duplicates mode shards bits (.init stock₀ orders₀)
      (State.init stock₀ orders₀ (.new mode shards bits)) es s := by
    refine run_trace ?_ (fun es s e t hrun h hs => duplicates_step ha hrun h hs) h
    refine ⟨init_inv _ _ _, InflightGuard.new_mode _ _ _, fun _ => gate_init _ _ _ _ _, fun r hr => ?_⟩
    rcases hr with hr | hr <;> cases hr
  rcases hdup.said r (Or.inr hr) with hmem | ⟨hm, r', haway⟩
  · exact Or.inl hmem
  have hcalled : (s.req r).pc ≠ .idle := by rw [haway.1]; simp
  have horder := hkeys r' r haway.2.2.1 hcalled haway.2.2.2.1
  by_cases hc : (s.req r').pc.isCommitted = true
  · left
    rw [← horder]
    exact committed_order h hc
  · refine Or.inr ⟨hm, r', haway, horder, ?_⟩
    exact (hdup.inv.req r').inVain haway.2.2.1 (hquiet r') (by simpa using hc)

/-! ## A double click -/

theorem step_uncalled (hs : step s e = some t) (h : s.req r = .idle) (he : ∀ u k, e ≠ .call r u k) :
    t.req r = .idle := by
  rcases step_move hs r with heq | hmove
  · rw [heq, h]
  · generalize t.req r = q at hmove ⊢
    have hidle : (s.req r).pc = .idle := by rw [h]; rfl
    cases hmove with
    | dropped hd => rw [h]; rfl
    | crashed => rw [h]; rfl
    | called got hpc | turnedAway hpc => exact absurd rfl (he _ _)
    | opened hpc | noTx hpc | updateFailed what hpc | updated hpc => rw [hidle] at hpc; cases hpc
    | updateAnswered hpc | deducted hpc | insertFailed what hpc | inserted hpc => rw [hidle] at hpc; cases hpc
    | insertAnswered hpc | ordered hpc | closed hpc | rolledBack hpc => rw [hidle] at hpc; cases hpc
    | committed hact | commitFailed hact => rw [hidle] at hact; cases hact

/-- A request that was not called is idle. -/
theorem run_uncalled {stock₀ : Int64 → Option ℤ} {orders₀ : List Order} {guard : InflightGuard} {es : List Ev}
    (h : run step (State.init stock₀ orders₀ guard) es = some s) (hes : ∀ u k, .call r u k ∉ es) :
    s.req r = .idle := by
  refine run_inv_of (C := fun _ e => ∀ u k, e ≠ .call r u k) (I := fun s => s.req r = .idle)
    (fun s e t hidle he hs => step_uncalled hs hidle he) rfl ?_ h
  refine meets_of_forall (D := fun e => ∀ u k, e ≠ Ev.call r u k) (fun e he u k heq => ?_) _
  rw [heq] at he
  exact hes u k he

/-- User `7` clicks twice on sku `1`; `rest` is what becomes of the first request. -/
def doubleClick (rest : List Ev) : List Ev := [.call 0 7 1, .call 1 7 1] ++ rest

/-- When the two requests of a double click are through, nothing is in progress, and no keys collided. -/
theorem doubleClick_quiet {rest : List Ev} {g : InflightGuard} (hrest : ∀ r u k, .call r u k ∉ rest)
    (h : run step (State.init oneItem [] g) (doubleClick rest) = some s)
    (h₀ : (s.req 0).live = [] ∧ (s.req 0).order = ⟨7, 1⟩) (h₁ : (s.req 1).live = [] ∧ (s.req 1).order = ⟨7, 1⟩) :
    (∀ r, (s.req r).live = []) ∧ NoCollision s := by
  have hrequest : ∀ r, (s.req r).live = [] ∧ ((s.req r).pc ≠ .idle → (s.req r).order = ⟨7, 1⟩) := by
    intro r
    by_cases hr₀ : r = 0
    · rw [hr₀]
      exact ⟨h₀.1, fun _ => h₀.2⟩
    by_cases hr₁ : r = 1
    · rw [hr₁]
      exact ⟨h₁.1, fun _ => h₁.2⟩
    have hidle : s.req r = .idle := run_uncalled h (by simp [doubleClick, hr₀, hr₁, hrest])
    rw [hidle]
    exact ⟨rfl, fun hpc => absurd rfl hpc⟩
  refine ⟨fun r => (hrequest r).1, fun r r' hr hr' _ => ?_⟩
  rw [(hrequest r).2 hr, (hrequest r').2 hr']

/-- The first request is served. -/
def served : List Ev :=
  [.drop 0 .call, .newTx 0 true, .drop 0 .newTx, .drop 0 .txArg, .update 0 none, .onUpdate 0, .drop 0 .updOk,
    .drop 0 .updErr, .insert 0 none, .onInsert 0, .drop 0 .insOk, .drop 0 .insErr, .commit 0 true, .onCommit 0,
    .drop 0 .commitCb]

/-- The first request's UPDATE fails. -/
def failed : List Ev :=
  [.drop 0 .call, .newTx 0 true, .drop 0 .newTx, .drop 0 .txArg, .update 0 (some "Lost connection"), .onUpdate 0,
    .rollback 0, .drop 0 .updOk, .drop 0 .updErr, .drop 0 .commitCb]

/-- After a double click that is served, the second click has its order, or was turned away in vain. -/
theorem duplicate_order_served :
    ∃ s, run step (State.init oneItem [] (.new .mutex 64 65536)) (doubleClick served) = some s ∧
      (false, "DUPLICATE_ORDER") ∈ (s.req 1).answers ∧
      ((s.req 1).order ∈ s.db.orders ∨
        Mode.mutex ≠ .none ∧
          ∃ r', TurnedAway (State.init oneItem [] (.new .mutex 64 65536)) (doubleClick served) s 1 r' ∧
            (s.req r').order = (s.req 1).order ∧ (s.req r').inVain) := by
  have hrun : (run step (State.init oneItem [] (.new .mutex 64 65536)) (doubleClick served)).map (fun s =>
      (((s.req 0).live, (s.req 0).order), ((s.req 1).live, (s.req 1).order), (s.req 1).answers)) =
      some (([], ⟨7, 1⟩), ([], ⟨7, 1⟩), [(false, "DUPLICATE_ORDER")]) := rfl
  obtain ⟨s, hs, hv⟩ := Option.map_eq_some_iff.1 hrun
  simp only [Prod.mk.injEq] at hv
  obtain ⟨h₀, h₁, ha⟩ := hv
  obtain ⟨hquiet, hkeys⟩ := doubleClick_quiet (by simp [served]) hs h₀ h₁
  have hanswer : (false, "DUPLICATE_ORDER") ∈ (s.req 1).answers := by rw [ha]; exact List.mem_singleton_self _
  exact ⟨s, hs, hanswer, duplicate_order .mutex 64 65536 (by decide) oneItem [] _ s hs hkeys hquiet 1 hanswer⟩

/-- After a double click whose first request fails, the second click was answered
`DUPLICATE_ORDER`, and nothing is in progress, and there is no order. -/
theorem duplicate_order_failed :
    ∃ s, run step (State.init oneItem [] (.new .mutex 64 65536)) (doubleClick failed) = some s ∧
      NoCollision s ∧ (∀ r, (s.req r).live = []) ∧ (s.req 0).answers = [(false, "DB_ERROR: Lost connection")] ∧
      (false, "DUPLICATE_ORDER") ∈ (s.req 1).answers ∧ (s.req 1).order ∉ s.db.orders := by
  have hrun : (run step (State.init oneItem [] (.new .mutex 64 65536)) (doubleClick failed)).map (fun s =>
      (((s.req 0).live, (s.req 0).order), ((s.req 1).live, (s.req 1).order), (s.req 0).answers, (s.req 1).answers,
        s.db.orders)) =
      some (([], ⟨7, 1⟩), ([], ⟨7, 1⟩), [(false, "DB_ERROR: Lost connection")], [(false, "DUPLICATE_ORDER")], []) := rfl
  obtain ⟨s, hs, hv⟩ := Option.map_eq_some_iff.1 hrun
  simp only [Prod.mk.injEq] at hv
  obtain ⟨h₀, h₁, ha₀, ha₁, ho⟩ := hv
  obtain ⟨hquiet, hkeys⟩ := doubleClick_quiet (by simp [failed]) hs h₀ h₁
  refine ⟨s, hs, hkeys, hquiet, ha₀, ?_, ?_⟩
  · rw [ha₁]
    exact List.mem_singleton_self _
  · rw [ho]
    exact List.not_mem_nil

end Seckill
