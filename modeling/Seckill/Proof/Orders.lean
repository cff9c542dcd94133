import Seckill.Proof.DoSeckill

/-!
# Orders, stock and answers

* `doSeckill_ledger`: in every reachable state, whatever fails or crashes, the
  stock sold is the number of orders.
* `doSeckill_answers`: a request's callback is called at most once, with
  `(true, "OK")` exactly when that request's transaction committed.

The second follows from four facts about a single step: what it keeps of a
request (`step_later`), which step commits (`step_committed`), which one decides
`SOLD_OUT` (`step_soldOut`), and which one changes the tables (`step_tables`).
-/

namespace Seckill

variable {d₀ : Db} {s t : State} {r : ℕ} {e : Ev}

/-! ## The ledger -/

/-- **No overselling, no lost and no doubled order.** -/
theorem doSeckill_ledger (stock₀ : Int64 → Option ℤ) (guard : InflightGuard)
    (h₀ : ∀ k n, stock₀ k = some n → 0 ≤ n) (es : List Ev) (s : State)
    (h : Machine.run step (State.init stock₀ [] guard) es = some s) :
    (∀ k n, stock₀ k = some n → ∃ m, s.db.stock k = some m ∧ 0 ≤ m ∧ n - m = s.db.sold k) ∧
      (∀ k, stock₀ k = none → s.db.stock k = none ∧ s.db.sold k = 0) ∧ s.db.orders.Nodup := by
  have hok := (Machine.run_inv step_inv (init_inv stock₀ [] guard) h).db
  refine ⟨fun k n hk => ?_, fun k hk => ?_, hok.nodup List.nodup_nil⟩
  · have hs := hok.stock k
    simp only [Db.init, Db.sold, hk, Option.map_some, List.countP_nil] at hs
    refine ⟨_, hs, ?_, by simp [Db.sold]⟩
    rcases hok.nonneg k _ hs with hn | hn
    · exact hn
    · exact h₀ k _ hn
  · have hs := hok.stock k
    simp only [Db.init, hk, Option.map_none] at hs
    refine ⟨hs, List.countP_eq_zero.2 fun o ho hok' => ?_⟩
    have hko : o.skuId = k := by simpa using hok'
    rcases hok.known o ho with hmem | hmem
    · exact List.not_mem_nil hmem
    · rw [hko] at hmem
      simp [Db.init, hk] at hmem

/-- The steps of one request that nothing disturbs. -/
def oneOrder (r : ℕ) (userId skuId : Int64) : List Ev :=
  [.call r userId skuId, .drop r .call, .newTx r true, .drop r .newTx, .drop r .txArg,
    .update r none, .onUpdate r, .drop r .updOk, .drop r .updErr,
    .insert r none, .onInsert r, .drop r .insOk, .drop r .insErr,
    .commit r true, .onCommit r, .drop r .commitCb]

/-- A shop with one item of sku `1`. -/
def oneItem : Int64 → Option ℤ := fun k => if k = 1 then some 1 else none

theorem oneItem_nonneg : ∀ k n, oneItem k = some n → 0 ≤ n := by
  intro k n hk
  unfold oneItem at hk
  split at hk
  · have := Option.some.inj hk; omega
  · cases hk

/-- The item goes to user `7`; user `8` comes too late. -/
def twoUsers : List Ev := oneOrder 0 7 1 ++ [.call 1 8 1, .newTx 1 true, .update 1 none, .onUpdate 1]

theorem doSeckill_ledger_oneItem :
    ∃ s, Machine.run step (State.init oneItem [] (.new .mutex 64 65536)) twoUsers = some s ∧
      (s.req 1).answers = [(false, "SOLD_OUT")] ∧ s.db.orders = [⟨7, 1⟩] ∧ s.db.orders.Nodup := by
  have hrun : (Machine.run step (State.init oneItem [] (.new .mutex 64 65536)) twoUsers).map
      (fun s => ((s.req 1).answers, s.db.orders)) = some ([(false, "SOLD_OUT")], [⟨7, 1⟩]) := rfl
  obtain ⟨s, hs, hv⟩ := Option.map_eq_some_iff.1 hrun
  obtain ⟨ha, ho⟩ := Prod.mk.inj hv
  exact ⟨s, hs, ha, ho, (doSeckill_ledger oneItem _ oneItem_nonneg _ s hs).2.2⟩

/-! ## What one step does to a request -/

/-- `q'` is a later state of the request `q`. -/
structure Req.Later (q q' : Req) : Prop where
  order : q'.order = q.order
  token : q'.token = q.token
  called : q'.pc ≠ .idle
  answers : ∀ a ∈ q.answers, a ∈ q'.answers

theorem Req.Later.refl {q : Req} (h : q.pc ≠ .idle) : q.Later q := ⟨rfl, rfl, h, fun _ ha => ha⟩

theorem Req.later_at {q : Req} {p : Pc} (h : p ≠ .idle) : q.Later (q.at p) := ⟨rfl, rfl, h, fun _ ha => ha⟩

theorem Req.later_answerAt {q : Req} {p : Pc} {a : Bool × String} (h : p ≠ .idle) : q.Later (q.answerAt p a) :=
  ⟨rfl, rfl, h, fun _ ha => List.mem_append_left _ ha⟩

/-- **A step keeps a request's ids, its token and its answers.** -/
theorem step_later (hs : step s e = some t) (hr : (s.req r).pc ≠ .idle) : (s.req r).Later (t.req r) := by
  rcases step_move hs r with heq | hmove
  · rw [heq]
    exact .refl hr
  · generalize t.req r = q at hmove ⊢
    cases hmove with
    | called got hpc => exact absurd hpc hr
    | turnedAway hpc hg => exact absurd hpc hr
    | dropped h => exact ⟨rfl, rfl, hr, fun _ ha => ha⟩
    | opened hpc => exact ⟨rfl, rfl, by simp [Req.opened], fun _ ha => ha⟩
    | deducted hpc ha => exact ⟨rfl, rfl, by simp [Req.deducted], fun _ ha => ha⟩
    | noTx | updateAnswered | insertAnswered | closed => exact Req.later_answerAt (by simp)
    | updateFailed | updated | insertFailed | inserted | ordered | committed | commitFailed | rolledBack =>
      exact Req.later_at (by simp)
    | crashed =>
      refine ⟨rfl, rfl, ?_, fun _ ha => ha⟩
      intro hd
      apply hr
      cases hpc : (s.req r).pc <;> simp [Req.crashed, hpc, Pc.crash] at hd ⊢

theorem Pc.isCommitted_crash (p : Pc) : p.crash.isCommitted = p.isCommitted := by cases p <;> rfl

theorem Pc.not_committed_of_active {p : Pc} (h : p.active = true) : p.isCommitted = false := by
  cases p <;> simp [Pc.active, Pc.isCommitted] at h ⊢

/-- No move but the COMMIT changes whether a request is committed. -/
theorem Move.isCommitted {q : Req} (h : Move s r e q) :
    q.pc.isCommitted = true ↔ (s.req r).pc.isCommitted = true ∨ e = .commit r true := by
  cases h with
  | called got hpc => simp [hpc, Req.called, Pc.isCommitted]
  | turnedAway hpc hg => simp [hpc, Req.turnedAway, Pc.isCommitted]
  | dropped h => simp [Req.without]
  | opened hpc => simp [hpc, Req.opened, Pc.isCommitted]
  | deducted hpc ha => simp [hpc, Req.deducted, Pc.isCommitted]
  | noTx hpc | updateAnswered hpc | insertAnswered hpc | closed hpc =>
    simp [hpc, Req.answerAt, Req.answer, Pc.isCommitted]
  | updateFailed what hpc | updated hpc | insertFailed what hpc | inserted hpc | ordered hpc | rolledBack hpc =>
    simp [hpc, Req.at, Pc.isCommitted]
  | committed hpc hd => simp [Req.at, Pc.isCommitted]
  | commitFailed hpc =>
    have hold := Pc.not_committed_of_active hpc
    simp [hold, Req.at, Pc.isCommitted.eq_def (.committed false)]
  | crashed => simp [Req.crashed, Pc.isCommitted_crash]

/-- **Only its COMMIT commits a request.** -/
theorem step_committed (hs : step s e = some t) (r : ℕ) :
    (t.req r).pc.isCommitted = true ↔ (s.req r).pc.isCommitted = true ∨ e = .commit r true := by
  rcases step_move hs r with heq | hmove
  · rw [heq, iff_self_or]
    rintro rfl
    -- its COMMIT does move the request
    obtain ⟨hact, -, ⟨-, d, -, rfl⟩ | ⟨hok, -⟩⟩ := commitStep_cases hs
    · rw [State.set_req, if_pos rfl] at heq
      rw [← heq]
      rfl
    · cases hok
  · exact hmove.isCommitted

/-- The request was, or is about to be, told that its sku is sold out. -/
def Req.soldOut (q : Req) : Prop := q.pc = .updated (.ok 0) ∨ (false, "SOLD_OUT") ∈ q.answers

/-- No error's text is a message that does not begin like one. -/
theorem error_ne {msg : String} (h : ¬"DB_ERROR: ".toList <+: msg.toList) (what : String) : "DB_ERROR: " ++ what ≠ msg := by
  rintro rfl
  rw [String.toList_append] at h
  exact h (List.prefix_append _ _)

theorem error_ne_soldOut (what : String) : "DB_ERROR: " ++ what ≠ "SOLD_OUT" := error_ne (by decide) what

/-- A refusal is the answer of the statement it belongs to, and no row was affected. -/
theorem statementAnswer_refusal {refusal msg : String} {o : Outcome} (hmsg : ∀ what, "DB_ERROR: " ++ what ≠ msg)
    (h : statementAnswer refusal o = some (false, msg)) : o = .ok 0 ∧ msg = refusal := by
  rcases statementAnswer_some h with ⟨what, -, heq⟩ | ⟨ho, heq⟩
  · exact absurd (Prod.mk.inj heq).2.symm (hmsg what)
  · exact ⟨ho, (Prod.mk.inj heq).2⟩

theorem updateAnswer_soldOut {o : Outcome} (h : updateAnswer o = some (false, "SOLD_OUT")) : o = .ok 0 :=
  (statementAnswer_refusal error_ne_soldOut (updateAnswer_eq o ▸ h)).1

theorem insertAnswer_ne_soldOut (o : Outcome) : insertAnswer o ≠ some (false, "SOLD_OUT") := by
  intro h
  rw [insertAnswer_eq] at h
  exact absurd (statementAnswer_refusal error_ne_soldOut h).2 (by decide)

/-- The request is at `p`, where `a` will be its answer, or was answered `a`. -/
def Req.heard (p : Pc) (a : Bool × String) (q : Req) : Prop := q.pc = p ∨ a ∈ q.answers

theorem Req.heard_at {q : Req} {p p₀ : Pc} {a₀ : Bool × String} (hp : p ≠ p₀) (h : (q.at p).heard p₀ a₀) :
    q.heard p₀ a₀ := by
  rcases h with h | h
  · exact absurd h hp
  · exact Or.inr h

theorem Req.heard_answerAt {q : Req} {p p₀ : Pc} {a a₀ : Bool × String} (hp : p ≠ p₀)
    (h : (q.answerAt p a).heard p₀ a₀) : q.heard p₀ a₀ ∨ a = a₀ := by
  rcases h with h | h
  · exact absurd h hp
  · rcases List.mem_append.1 h with h | h
    · exact Or.inl (Or.inr h)
    · exact Or.inr (List.mem_singleton.1 h).symm

/-- **Only an UPDATE that finds no stock sells out a request.** -/
theorem step_soldOut (hi : Inv d₀ s) (hs : step s e = some t) (r : ℕ) (hsold : (t.req r).soldOut) :
    (s.req r).soldOut ∨
      e = .update r none ∧ ∀ n, s.db.stock (t.req r).skuId = some n → n ≤ 0 := by
  rcases step_move hs r with heq | hmove
  · rw [heq] at hsold
    exact Or.inl hsold
  · generalize t.req r = q at hmove hsold ⊢
    cases hmove with
    | called got hpc => simp [Req.called, Req.soldOut] at hsold
    | turnedAway hpc hg => simp [Req.turnedAway, Req.soldOut] at hsold
    | dropped h => exact Or.inl hsold
    | opened hpc => exact Or.inl (Req.heard_at (p := .updating) (by simp) hsold)
    | noTx hpc => exact Or.inl ((Req.heard_answerAt (by simp) hsold).resolve_right (by decide))
    | updated hpc hd =>
      obtain ⟨-, -, -, ⟨-, -, hle⟩ | ⟨rfl, -⟩⟩ := Db.deduct_ok hi.db (hi.tx_updating hpc hd) hd
      · exact Or.inr ⟨rfl, hle⟩
      · exact Or.inl (Req.heard_at (by simp) hsold)
    | updateAnswered hpc ha =>
      left
      rcases Req.heard_answerAt (by simp) hsold with h | rfl
      · exact h
      · rw [updateAnswer_soldOut ha] at hpc
        exact Or.inl hpc
    | deducted hpc ha => exact Or.inl (Req.heard_at (p := .inserting) (by simp) hsold)
    | insertAnswered hpc ha =>
      left
      rcases Req.heard_answerAt (by simp) hsold with h | rfl
      · exact h
      · exact absurd ha (insertAnswer_ne_soldOut _)
    | closed hpc =>
      rename_i ok
      exact Or.inl ((Req.heard_answerAt (by simp) hsold).resolve_right (by cases ok <;> decide))
    | updateFailed | insertFailed | inserted | ordered | committed | commitFailed | rolledBack =>
      exact Or.inl (Req.heard_at (by simp) hsold)
    | crashed =>
      rcases hsold with h | h
      · cases hpc : (s.req r).pc <;> simp [Req.crashed, hpc, Pc.crash] at h
      · exact Or.inl (Or.inr h)

/-! ## What one step does to the tables -/

/-- From `s` to `t` one item of a sku was sold: its stock went down by one, and
the new order came in. -/
def Sells (s t : State) (o : Order) : Prop :=
  ∃ n, s.db.stock o.skuId = some n ∧ 0 < n ∧
    t.db.stock = Function.update s.db.stock o.skuId (some (n - 1)) ∧
    o ∉ s.db.orders ∧ t.db.orders = s.db.orders ++ [o]

/-- The tables are as they were. -/
def SameTables (s t : State) : Prop := t.db.stock = s.db.stock ∧ t.db.orders = s.db.orders

/-- **The tables change by whole orders only**, each with the COMMIT of its request. -/
theorem step_tables (hi : Inv d₀ s) (hs : step s e = some t) :
    SameTables s t ∨ ∃ r, e = .commit r true ∧ Sells s t (s.req r).order := by
  cases e with
  | call r u k =>
    obtain ⟨-, ⟨-, rfl⟩ | ⟨-, g, got, -, rfl⟩⟩ := callStep_cases hs <;> exact Or.inl ⟨rfl, rfl⟩
  | drop r hd =>
    obtain ⟨-, g, rfl, -⟩ := dropStep_cases hs
    exact Or.inl ⟨rfl, rfl⟩
  | newTx r ok =>
    obtain ⟨-, ⟨-, rfl⟩ | ⟨-, rfl⟩⟩ := newTxStep_cases hs <;> exact Or.inl ⟨rfl, rfl⟩
  | update r err =>
    obtain ⟨hpc, ⟨what, -, rfl⟩ | ⟨-, d, n, hd, rfl⟩⟩ := updateStep_cases hs
    · exact Or.inl ⟨rfl, rfl⟩
    · obtain ⟨-, hstock, horders, -⟩ := Db.deduct_ok hi.db (hi.tx_updating hpc hd) hd
      exact Or.inl ⟨hstock, horders⟩
  | onUpdate r =>
    obtain ⟨o, -, ⟨a, -, rfl⟩ | ⟨-, rfl⟩⟩ := onUpdateStep_cases hs <;> exact Or.inl ⟨rfl, rfl⟩
  | insert r err =>
    obtain ⟨hpc, ⟨what, -, rfl⟩ | ⟨-, d, n, hd, rfl⟩⟩ := insertStep_cases hs
    · exact Or.inl ⟨rfl, rfl⟩
    · obtain ⟨-, hstock, horders, -⟩ := Db.insertOrder_ok hi.db (hi.tx_inserting hpc hd) hd
      exact Or.inl ⟨hstock, horders⟩
  | onInsert r =>
    obtain ⟨o, -, ⟨a, -, rfl⟩ | ⟨-, rfl⟩⟩ := onInsertStep_cases hs <;> exact Or.inl ⟨rfl, rfl⟩
  | commit r ok =>
    obtain ⟨hact, hlive, ⟨rfl, d, hd, rfl⟩ | ⟨-, rfl⟩⟩ := commitStep_cases hs
    · -- the UPDATE and the INSERT take effect together
      refine Or.inr ⟨r, rfl, ?_⟩
      have hx0 := hi.tx_commit ((hi.req r).ordered hact hlive) hd
      obtain ⟨n, hn, hpos⟩ := hi.db.left r _ _ hx0 rfl
      obtain ⟨-, hnew⟩ := hi.db.fresh r _ _ hx0 rfl
      rw [Db.commit_eq hx0] at hd
      refine ⟨n, hn, hpos, ?_, hnew, ?_⟩ <;> rw [← Option.some.inj hd]
      · simp only [State.set_db, hn, Option.map_some]
      · rfl
    · exact Or.inl ⟨rfl, rfl⟩
  | onCommit r =>
    obtain ⟨ok, inv, -, rfl⟩ := onCommitStep_cases hs
    exact Or.inl ⟨rfl, rfl⟩
  | rollback r =>
    obtain ⟨-, rfl⟩ := rollbackStep_cases hs
    exact Or.inl ⟨rfl, rfl⟩
  | dbCrash => cases hs; exact Or.inl ⟨rfl, rfl⟩
  | crash => cases hs; exact Or.inl ⟨rfl, rfl⟩

/-! ## The answers -/

/-- Along the run, the transaction of request `r` commits order `o`. -/
def Commits (s₀ : State) (es : List Ev) (r : ℕ) (o : Order) : Prop :=
  ∃ s t, Machine.Takes step s₀ es s (.commit r true) ∧ step s (.commit r true) = some t ∧ Sells s t o

/-- What the run so far says about its requests. -/
structure Told (s₀ : State) (es : List Ev) (s : State) : Prop where
  sells : ∀ r, (s.req r).pc.isCommitted = true → Commits s₀ es r (s.req r).order
  only : ∀ r u, Machine.Takes step s₀ es u (.commit r true) → (s.req r).pc.isCommitted = true
  sold : ∀ r, (s.req r).soldOut → ∃ u, Machine.Takes step s₀ es u (.update r none) ∧
    ∀ n, u.db.stock (s.req r).skuId = some n → n ≤ 0

theorem Commits.snoc {s₀ : State} {es : List Ev} {o : Order} (h : Commits s₀ es r o) (e : Ev) :
    Commits s₀ (es ++ [e]) r o := by
  obtain ⟨u, v, hu, huv⟩ := h
  exact ⟨u, v, hu.snoc e, huv⟩

theorem idle_of_heard {q : Req} {x : Option Tx} {p : Pc} {a : Bool × String} (hq : q.OK x) (hp : p ≠ .idle)
    (h : q.heard p a) : q.pc ≠ .idle := by
  intro hpc
  have hsaid := hq.said
  rw [hpc] at hsaid
  rcases h with h | h
  · exact hp (h.symm.trans hpc)
  · change q.answers = [] at hsaid
    rw [hsaid] at h
    cases h

theorem idle_of_fresh {q : Req} {x : Option Tx} (hq : q.OK x) (h : q.pc.isCommitted = true ∨ q.soldOut) :
    q.pc ≠ .idle := by
  rcases h with h | h
  · intro hpc
    rw [hpc] at h
    cases h
  · exact idle_of_heard hq (by simp) h

theorem told_step {s₀ : State} {es : List Ev} (hrun : Machine.run step s₀ es = some s) (hi : Inv d₀ s)
    (h : Told s₀ es s) (hs : step s e = some t) : Told s₀ (es ++ [e]) t := by
  refine ⟨fun r hr => ?_, fun r u hu => ?_, fun r hr => ?_⟩
  · rcases (step_committed hs r).1 hr with hr | rfl
    · have hlater := step_later hs (idle_of_fresh (hi.req r) (Or.inl hr))
      rw [hlater.order]
      exact (h.sells r hr).snoc e
    · obtain ⟨hact, -⟩ := commitStep_cases hs
      have hpc : (s.req r).pc ≠ .idle := by intro hpc; rw [hpc] at hact; cases hact
      rw [(step_later hs hpc).order]
      rcases step_tables hi hs with hsame | ⟨r', he, hsell⟩
      · -- a COMMIT that sells nothing: excluded, the transaction holds an order
        obtain ⟨-, hlive, ⟨-, d, hd, rfl⟩ | ⟨h0, -⟩⟩ := commitStep_cases hs
        · have hx0 := hi.tx_commit ((hi.req r).ordered hact hlive) hd
          have horders := hsame.2
          rw [Db.commit_eq hx0] at hd
          rw [State.set_db, ← Option.some.inj hd] at horders
          simp at horders
        · cases h0
      · cases he
        exact ⟨s, t, Machine.takes_last _ hrun, hs, hsell⟩
  · rw [step_committed hs r]
    rcases Machine.takes_snoc.1 hu with hu | ⟨he, -⟩
    · exact Or.inl (h.only r u hu)
    · exact Or.inr he.symm
  · rcases step_soldOut hi hs r hr with hr | ⟨rfl, hle⟩
    · obtain ⟨u, hu, hle⟩ := h.sold r hr
      have hsku : (t.req r).skuId = (s.req r).skuId :=
        congrArg Order.skuId (step_later hs (idle_of_fresh (hi.req r) (Or.inr hr))).order
      rw [hsku]
      exact ⟨u, hu.snoc e, hle⟩
    · exact ⟨s, Machine.takes_last _ hrun, hle⟩

theorem told_init (stock₀ : Int64 → Option ℤ) (orders₀ : List Order) (guard : InflightGuard) (s₀ : State) :
    Told s₀ [] (State.init stock₀ orders₀ guard) where
  sells r hr := by cases hr
  only r u hu := by
    obtain ⟨pre, post, heq, -⟩ := hu
    simp at heq
  sold r hr := by
    rcases hr with h | h
    · cases h
    · cases h

theorem told_run {stock₀ : Int64 → Option ℤ} {orders₀ : List Order} {guard : InflightGuard} {es : List Ev}
    (h : Machine.run step (State.init stock₀ orders₀ guard) es = some s) :
    Told (State.init stock₀ orders₀ guard) es s := by
  refine Machine.run_trace (told_init stock₀ orders₀ guard _) ?_ h
  intro es s e t hrun htold hs
  exact told_step hrun (Machine.run_inv step_inv (init_inv stock₀ orders₀ guard) hrun) htold hs

/-- A run only adds answers. -/
theorem run_answers {es : List Ev} {a : Bool × String} (hi : Inv d₀ s)
    (h : Machine.run step s es = some t) (ha : a ∈ (s.req r).answers) : a ∈ (t.req r).answers := by
  have key : Inv d₀ t ∧ a ∈ (t.req r).answers := by
    refine Machine.run_inv (I := fun u => Inv d₀ u ∧ a ∈ (u.req r).answers) ?_ ⟨hi, ha⟩ h
    rintro u e v ⟨hu, hmem⟩ huv
    have hpc : (u.req r).pc ≠ .idle := by
      intro hpc
      have hsaid := (hu.req r).said
      rw [hpc] at hsaid
      change (u.req r).answers = [] at hsaid
      rw [hsaid] at hmem
      cases hmem
    exact ⟨step_inv u e v hu huv, (step_later huv hpc).answers a hmem⟩
  exact key.2

theorem Req.OK.length_le {q : Req} {x : Option Tx} (hq : q.OK x) : q.answers.length ≤ 1 := by
  have hsaid := hq.said
  cases hpc : q.pc <;> rw [hpc] at hsaid <;> simp only [Pc.said] at hsaid
  all_goals first
    | rw [hsaid]; simp
    | obtain ⟨what, h⟩ := hsaid; rw [h]; simp
    | rcases hsaid with h | ⟨-, what, h⟩ <;> rw [h] <;> simp

/-- Nothing is left of a request only after it answered. -/
theorem Req.OK.length_eq {q : Req} {x : Option Tx} (hq : q.OK x) (hf : q.finished) : q.answers.length = 1 := by
  obtain ⟨hidle, hdead, hlive⟩ := hf
  have hkeeps : ∀ h, h ∉ q.pc.keeps := by
    intro h hk
    have := hq.keeps h hk
    rw [hlive] at this
    cases this
  have hsaid := hq.said
  cases hpc : q.pc <;> rw [hpc] at hsaid hidle hdead hkeeps <;> simp only [Pc.said, Pc.keeps] at hsaid hkeeps
  all_goals first
    | exact absurd rfl hidle
    | exact absurd rfl (hdead _)
    | exact absurd (List.mem_cons_self) (hkeeps _)
    | rw [hsaid]; simp
    | obtain ⟨what, h⟩ := hsaid; rw [h]; simp

/-- An answer is `(true, "OK")` exactly at a committed position. -/
theorem Req.OK.ok_iff {q : Req} {x : Option Tx} (hq : q.OK x) {a : Bool × String} (ha : a ∈ q.answers) :
    a = (true, "OK") ↔ q.pc.isCommitted = true := by
  have hsaid := hq.said
  cases hpc : q.pc <;> rw [hpc] at hsaid <;> simp only [Pc.said] at hsaid
  case closed ok =>
    rw [hsaid, List.mem_singleton] at ha
    cases ok <;> simp [ha, commitAnswer, Pc.isCommitted]
  case dead ok =>
    rcases hsaid with h | ⟨hok, what, h⟩
    · rw [h] at ha; cases ha
    · rw [h, List.mem_singleton] at ha
      simp [ha, hok, Pc.isCommitted]
  all_goals first
    | rw [hsaid] at ha; cases ha
    | obtain ⟨what, h⟩ := hsaid
      rw [h, List.mem_singleton] at ha
      simp [ha, Pc.isCommitted]

/-- **The answers tell the truth.** In every reachable state request `r` was
answered at most once, and once if nothing of it is left; the answer is
`(true, "OK")` if and only if `r`'s transaction sold its item; after another
answer it never commits; `SOLD_OUT` was the state of the sku when `r`'s UPDATE
ran. Nothing but such a COMMIT touches the tables. -/
theorem doSeckill_answers (stock₀ : Int64 → Option ℤ) (orders₀ : List Order) (guard : InflightGuard)
    (es : List Ev) (s : State) (r : ℕ)
    (h : Machine.run step (State.init stock₀ orders₀ guard) es = some s) :
    (s.req r).answers.length ≤ 1 ∧
      ((s.req r).finished → (s.req r).answers.length = 1) ∧
      (∀ a ∈ (s.req r).answers,
        a = (true, "OK") ↔ Commits (State.init stock₀ orders₀ guard) es r (s.req r).order) ∧
      (∀ a ∈ (s.req r).answers, a ≠ (true, "OK") → ∀ es' s', Machine.run step s es' = some s' →
        ∀ u, ¬Machine.Takes step (State.init stock₀ orders₀ guard) (es ++ es') u (.commit r true)) ∧
      ((false, "SOLD_OUT") ∈ (s.req r).answers →
        ∃ u, Machine.Takes step (State.init stock₀ orders₀ guard) es u (.update r none) ∧
          ∀ n, u.db.stock (s.req r).skuId = some n →
            n ≤ 0 ∧ ((∀ k m, stock₀ k = some m → 0 ≤ m) → n = 0)) ∧
      ∀ u e v, Machine.Takes step (State.init stock₀ orders₀ guard) es u e → step u e = some v →
        SameTables u v ∨ ∃ r', e = .commit r' true ∧ Sells u v (u.req r').order := by
  have hinv : ∀ {es' u}, Machine.run step (State.init stock₀ orders₀ guard) es' = some u →
      Inv (.init stock₀ orders₀) u := Machine.run_inv step_inv (init_inv stock₀ orders₀ guard)
  have hi := hinv h
  have htold := told_run h
  refine ⟨(hi.req r).length_le, (hi.req r).length_eq, fun a ha => ?_, fun a ha hne es' s' h' u hu => ?_,
    fun hsold => ?_, fun u e v hu huv => ?_⟩
  · rw [(hi.req r).ok_iff ha]
    constructor
    · exact htold.sells r
    · rintro ⟨u, -, hu, -⟩
      exact htold.only r u hu
  · -- the answer is still there when the COMMIT has run, and would have to be OK
    have hrun := Machine.run_append.2 ⟨s, h, h'⟩
    have hcommitted := (told_run hrun).only r u hu
    exact hne (((hinv hrun).req r).ok_iff (run_answers hi h' ha) |>.2 hcommitted)
  · obtain ⟨u, hu, hle⟩ := htold.sold r (Or.inr hsold)
    refine ⟨u, hu, fun n hn => ⟨hle n hn, fun h₀ => ?_⟩⟩
    obtain ⟨pre, -, -, hpre⟩ := hu
    rcases (hinv hpre).db.nonneg _ n hn with hpos | hinit
    · have := hle n hn; omega
    · have := h₀ _ n hinit
      have := hle n hn
      omega
  · obtain ⟨pre, -, -, hpre⟩ := hu
    exact step_tables (hinv hpre) huv

/-- Request `0` of the shop with one item: bought. -/
theorem doSeckill_answers_oneItem :
    ∃ s, Machine.run step (State.init oneItem [] (.new .mutex 64 65536)) (oneOrder 0 7 1) = some s ∧
      (s.req 0).answers = [(true, "OK")] ∧
      Commits (State.init oneItem [] (.new .mutex 64 65536)) (oneOrder 0 7 1) 0 (s.req 0).order := by
  have hrun : (Machine.run step (State.init oneItem [] (.new .mutex 64 65536)) (oneOrder 0 7 1)).map
      (fun s => (s.req 0).answers) = some [(true, "OK")] := rfl
  obtain ⟨s, hs, ha⟩ := Option.map_eq_some_iff.1 hrun
  have hok : (true, "OK") ∈ (s.req 0).answers := by rw [ha]; exact List.mem_singleton_self _
  exact ⟨s, hs, ha, ((doSeckill_answers oneItem [] _ _ s 0 hs).2.2.1 _ hok).1 rfl⟩

end Seckill
