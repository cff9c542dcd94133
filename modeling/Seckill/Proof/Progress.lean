import Mathlib.Algebra.Group.Action.Defs
import Mathlib.Algebra.Order.BigOperators.Group.Finset
import Seckill.Proof.Duplicates

/-!
# Every order comes to an end

Requests wait for each other: the UPDATE of one for the row another one has locked.
Nobody waits for ever. A request takes at most sixteen steps, whatever happens
(`run_request`); and as long as one is in progress a step is possible that is neither a
call nor a failure (`healthy_step`): a lock is held by a request that can go on.

So a service that works finishes what it began, whoever goes first: `doSeckill_completes`.
-/

namespace Seckill

open Machine

variable {d₀ : Db} {s t : State} {r : ℕ} {e : Ev}

/-! ## How many steps a request takes -/

/-- The request a step belongs to. -/
def Ev.request : Ev → Option ℕ
  | .call r _ _ | .drop r _ | .newTx r _ | .update r _ | .onUpdate r | .insert r _ | .onInsert r
  | .commit r _ | .onCommit r | .rollback r => some r
  | .dbCrash | .crash => none

/-- The steps ahead of a request, but for the closures it has. -/
def Pc.ahead : Pc → ℕ
  | .idle => 16
  | .opening => 13
  | .updating => 8
  | .updated _ => 7
  | .inserting => 4
  | .inserted _ => 3
  | .ordered => 2
  | .committed _ | .rollingBack => 1
  | _ => 0

/-- The most steps a request can still take. -/
def Req.ahead (q : Req) : ℕ := q.pc.ahead + q.live.length

theorem Pc.one_lt_ahead {p : Pc} (h : p.active = true) : 2 ≤ p.ahead := by
  cases p <;> simp [Pc.active, Pc.ahead] at h ⊢

/-- A request with one closure less. -/
theorem Req.ahead_without {q : Req} {c : Holder} (hc : c ∈ q.live) : (q.without c).ahead < q.ahead := by
  have hlen : (q.live.filter (· ≠ c)).length < q.live.length :=
    List.length_filter_lt_length_iff_exists.2 ⟨c, hc, by simp⟩
  simpa [Req.ahead, Req.without] using hlen

/-- **A step of its own brings a request nearer to its end.** -/
theorem step_ahead_lt (hs : step s e = some t) (he : e.request = some r) : (t.req r).ahead < (s.req r).ahead := by
  cases e with
  | call r₁ u k =>
    cases he
    obtain ⟨hpc, ⟨-, rfl⟩ | ⟨-, g, got, -, rfl⟩⟩ := callStep_cases hs
    · rw [State.set_req, if_pos rfl]
      simp [Req.ahead, hpc, Req.called, Pc.ahead]; omega
    · rw [State.set_req, if_pos rfl]
      cases got <;> simp [Req.ahead, hpc, Req.called, Req.turnedAway, Pc.ahead]; omega
  | drop r₁ c =>
    cases he
    obtain ⟨hlets, g, rfl, -⟩ := dropStep_cases hs
    rw [State.set_req, if_pos rfl]
    refine Req.ahead_without ?_
    by_contra hc
    simp [step, dropStep, hc] at hs
  | newTx r₁ ok =>
    cases he
    obtain ⟨hpc, ⟨-, rfl⟩ | ⟨-, rfl⟩⟩ := newTxStep_cases hs <;> rw [State.set_req, if_pos rfl]
    · simp [Req.ahead, hpc, Req.opened, Pc.ahead]; omega
    · simp [Req.ahead, hpc, Req.answerAt, Req.answer, Pc.ahead]
  | update r₁ err =>
    cases he
    obtain ⟨hpc, ⟨what, -, rfl⟩ | ⟨-, d, n, -, rfl⟩⟩ := updateStep_cases hs <;>
      · rw [State.set_req, if_pos rfl]
        simp [Req.ahead, hpc, Req.at, Pc.ahead]
  | onUpdate r₁ =>
    cases he
    obtain ⟨o, hpc, ⟨a, -, rfl⟩ | ⟨-, rfl⟩⟩ := onUpdateStep_cases hs <;> rw [State.set_req, if_pos rfl]
    · simp [Req.ahead, hpc, Req.answerAt, Req.answer, Pc.ahead]
    · simp [Req.ahead, hpc, Req.deducted, Pc.ahead]; omega
  | insert r₁ err =>
    cases he
    obtain ⟨hpc, ⟨what, -, rfl⟩ | ⟨-, d, n, -, rfl⟩⟩ := insertStep_cases hs <;>
      · rw [State.set_req, if_pos rfl]
        simp [Req.ahead, hpc, Req.at, Pc.ahead]
  | onInsert r₁ =>
    cases he
    obtain ⟨o, hpc, ⟨a, -, rfl⟩ | ⟨-, rfl⟩⟩ := onInsertStep_cases hs <;>
      · rw [State.set_req, if_pos rfl]
        simp [Req.ahead, hpc, Req.answerAt, Req.answer, Req.at, Pc.ahead]
  | commit r₁ ok =>
    cases he
    obtain ⟨hact, -, ⟨-, d, -, rfl⟩ | ⟨-, rfl⟩⟩ := commitStep_cases hs <;>
      · rw [State.set_req, if_pos rfl]
        have hahead := Pc.one_lt_ahead hact
        change 1 + (s.req r).live.length < (s.req r).pc.ahead + (s.req r).live.length
        omega
  | onCommit r₁ =>
    cases he
    obtain ⟨ok, inv, hpc, rfl⟩ := onCommitStep_cases hs
    rw [State.set_req, if_pos rfl]
    simp [Req.ahead, hpc, Req.answerAt, Req.answer, Pc.ahead]
  | rollback r₁ =>
    cases he
    obtain ⟨hpc, rfl⟩ := rollbackStep_cases hs
    rw [State.set_req, if_pos rfl]
    simp [Req.ahead, hpc, Req.at, Pc.ahead]
  | dbCrash => cases he
  | crash => cases he

theorem Pc.ahead_crash (p : Pc) : p.crash.ahead ≤ p.ahead := by cases p <;> simp [Pc.crash, Pc.ahead]

/-- No step takes a request further from its end. -/
theorem step_ahead_le (hs : step s e = some t) (r : ℕ) : (t.req r).ahead ≤ (s.req r).ahead := by
  by_cases he : e.request = some r
  · exact (step_ahead_lt hs he).le
  rcases step_move hs r with heq | hmove
  · rw [heq]
  · generalize t.req r = q at hmove ⊢
    cases hmove with
    | crashed =>
      have hpc := Pc.ahead_crash (s.req r).pc
      simp only [Req.ahead, Req.crashed, List.length_nil]
      omega
    | called | turnedAway | dropped | opened | noTx | updateFailed | updated | updateAnswered | deducted |
      insertFailed | inserted | insertAnswered | ordered | committed | commitFailed | closed | rolledBack =>
      exact absurd rfl he

/-- **A request takes at most sixteen steps**, in any run. -/
theorem run_request {s₀ : State} (hidle : ∀ r, s₀.req r = .idle) {es : List Ev} (h : run step s₀ es = some s) (r : ℕ) :
    tally step (fun _ e => decide (e.request = some r)) s₀ es + (s.req r).ahead ≤ 16 := by
  have hone : ∀ s e t, True → True → step s e = some t →
      (t.req r).ahead + (if decide (e.request = some r) then 1 else 0) ≤ (s.req r).ahead := by
    intro s e t _ _ hs
    by_cases he : e.request = some r
    · have hlt := step_ahead_lt hs he
      simp only [he, decide_true, if_true]
      omega
    · simpa [he] using step_ahead_le hs r
  have hbound := run_potential (C := fun _ _ => True) (I := fun _ => True) (fun _ _ _ _ _ _ => trivial) hone trivial
    (meets_of_takes fun _ _ _ => trivial) h
  have hfirst : (s₀.req r).ahead = 16 := by rw [hidle r]; rfl
  omega

/-! ## Who can go on -/

/-- The closures a request at this position can have. -/
def Pc.mayHold : Pc → Holder → Bool
  | .idle, _ | .refused, _ | .dead _, _ => false
  | .opening, c | .noTx, c => c = .call ∨ c = .newTx
  | _, _ => true

/-- No request has a closure it cannot lose any more, and no transaction is left open. -/
structure Tidy (s : State) : Prop where
  holds : ∀ r, ∀ c ∈ (s.req r).live, (s.req r).pc.mayHold c = true
  isOpen : ∀ r, s.db.tx r ≠ none → (s.req r).pc.isOpen = true

theorem Move.mayHold {q : Req} (h : Move s r e q)
    (hold : ∀ c ∈ (s.req r).live, (s.req r).pc.mayHold c = true) : ∀ c ∈ q.live, q.pc.mayHold c = true := by
  intro c hc
  cases h with
  | called got hpc =>
    simp only [Req.called, List.mem_cons, List.not_mem_nil, or_false] at hc
    simpa [Req.called, Pc.mayHold] using hc
  | turnedAway hpc hg => cases hc
  | dropped c' => exact hold c (List.mem_filter.1 hc).1
  | noTx hpc =>
    have hopening := hold c hc
    rw [hpc] at hopening
    exact hopening
  | crashed => cases hc
  | opened | updateFailed | updated | updateAnswered | deducted | insertFailed | inserted | insertAnswered | ordered |
    committed | commitFailed | closed | rolledBack => rfl

/-- A step of `r` that leaves its transaction open only where it is. -/
theorem Tidy.isOpen_set {d : Db} {g : InflightGuard} {inv : List Int64} {q : Req} (h : Tidy s)
    (hx : ∀ r', r' ≠ r → d.tx r' = s.db.tx r') (hq : d.tx r ≠ none → q.pc.isOpen = true) (r' : ℕ)
    (htx : (State.set { s with db := d, guard := g, invalidated := inv } r q).db.tx r' ≠ none) :
    ((State.set { s with db := d, guard := g, invalidated := inv } r q).req r').pc.isOpen = true := by
  rw [State.set_db] at htx
  rw [State.set_req]
  by_cases hr : r' = r
  · rw [if_pos hr]
    exact hq (hr ▸ htx)
  · rw [if_neg hr]
    simp only [hx r' hr] at htx
    exact h.isOpen r' htx

/-- A step that leaves the transactions alone. -/
theorem Tidy.isOpen_same {g : InflightGuard} {inv : List Int64} {q : Req} (h : Tidy s)
    (hq : s.db.tx r ≠ none → q.pc.isOpen = true) (r' : ℕ)
    (htx : (State.set { s with guard := g, invalidated := inv } r q).db.tx r' ≠ none) :
    ((State.set { s with guard := g, invalidated := inv } r q).req r').pc.isOpen = true :=
  h.isOpen_set (d := s.db) (fun _ _ => rfl) hq r' htx

/-- **Who has an open transaction can still end it.** -/
theorem step_isOpen (hi : Inv d₀ s) (h : Tidy s) (hs : step s e = some t) (r : ℕ) (htx : t.db.tx r ≠ none) :
    (t.req r).pc.isOpen = true := by
  -- a transaction that is not open where the request is, is not open
  have hnone : ∀ {r p}, (s.req r).pc = p → p.isOpen = false → s.db.tx r = none := by
    intro r p hpc hp
    by_contra hx
    have hopen := h.isOpen r hx
    rw [hpc, hp] at hopen
    cases hopen
  cases e with
  | call r₁ u k =>
    obtain ⟨hpc, ⟨-, rfl⟩ | ⟨-, g, got, -, rfl⟩⟩ := callStep_cases hs
    · exact h.isOpen_same (fun hx => absurd (hnone hpc rfl) hx) r htx
    · exact h.isOpen_same (fun hx => absurd (hnone hpc rfl) hx) r htx
  | drop r₁ c =>
    obtain ⟨-, g, rfl, -⟩ := dropStep_cases hs
    exact h.isOpen_same (q := (s.req r₁).without c) (h.isOpen r₁) r htx
  | newTx r₁ ok =>
    obtain ⟨hpc, ⟨-, rfl⟩ | ⟨-, rfl⟩⟩ := newTxStep_cases hs
    · exact h.isOpen_set (fun r' hr => Function.update_of_ne hr _ _) (fun _ => rfl) r htx
    · exact h.isOpen_same (fun hx => absurd (hnone hpc rfl) hx) r htx
  | update r₁ err =>
    obtain ⟨hpc, ⟨what, -, rfl⟩ | ⟨-, d, n, hd, rfl⟩⟩ := updateStep_cases hs
    · exact h.isOpen_same (fun _ => rfl) r htx
    · obtain ⟨-, -, -, ⟨-, rfl, -⟩ | ⟨-, hx⟩⟩ := Db.deduct_ok hi.db (hi.tx_updating hpc hd) hd
      · exact h.isOpen_same (fun _ => rfl) r htx
      · exact h.isOpen_set (fun r' hr => by rw [hx, Function.update_of_ne hr]) (fun _ => rfl) r htx
  | onUpdate r₁ =>
    obtain ⟨o, -, ⟨a, -, rfl⟩ | ⟨-, rfl⟩⟩ := onUpdateStep_cases hs <;>
      exact h.isOpen_same (fun _ => rfl) r htx
  | insert r₁ err =>
    obtain ⟨hpc, ⟨what, -, rfl⟩ | ⟨-, d, n, hd, rfl⟩⟩ := insertStep_cases hs
    · exact h.isOpen_same (fun _ => rfl) r htx
    · obtain ⟨-, -, -, ⟨-, rfl, -⟩ | ⟨-, hx⟩⟩ := Db.insertOrder_ok hi.db (hi.tx_inserting hpc hd) hd
      · exact h.isOpen_same (fun _ => rfl) r htx
      · exact h.isOpen_set (fun r' hr => by rw [hx, Function.update_of_ne hr]) (fun _ => rfl) r htx
  | onInsert r₁ =>
    obtain ⟨o, -, ⟨a, -, rfl⟩ | ⟨-, rfl⟩⟩ := onInsertStep_cases hs <;>
      exact h.isOpen_same (fun _ => rfl) r htx
  | commit r₁ ok =>
    have hordered : (s.req r₁).pc = .ordered := by
      obtain ⟨hact, hlive, -⟩ := commitStep_cases hs
      exact (hi.req r₁).ordered hact hlive
    obtain ⟨-, -, ⟨-, d, hd, rfl⟩ | ⟨-, rfl⟩⟩ := commitStep_cases hs
    · rw [Db.commit_eq (hi.tx_commit hordered hd)] at hd
      cases hd
      exact h.isOpen_set (fun r' hr => Function.update_of_ne hr _ _)
        (fun hx => absurd (Function.update_self _ _ _) hx) r htx
    · exact h.isOpen_set (fun r' hr => Function.update_of_ne hr _ _)
        (fun hx => absurd (Function.update_self _ _ _) hx) r htx
  | onCommit r₁ =>
    obtain ⟨ok, inv, hpc, rfl⟩ := onCommitStep_cases hs
    exact h.isOpen_same (fun hx => absurd (hnone hpc rfl) hx) r htx
  | rollback r₁ =>
    obtain ⟨-, rfl⟩ := rollbackStep_cases hs
    exact h.isOpen_set (fun r' hr => Function.update_of_ne hr _ _)
      (fun hx => absurd (Function.update_self _ _ _) hx) r htx
  | dbCrash =>
    cases hs
    exact absurd rfl htx
  | crash =>
    cases hs
    exact absurd rfl htx

theorem step_tidy (hi : Inv d₀ s) (h : Tidy s) (hs : step s e = some t) : Tidy t where
  isOpen := step_isOpen hi h hs
  holds r c hc := by
    rcases step_move hs r with heq | hmove
    · rw [heq] at hc ⊢
      exact h.holds r c hc
    · exact hmove.mayHold (h.holds r) c hc

/-! ## Somebody can go on -/

/-- A step a working service takes by itself: no call, no crash, and no failure but
that of a transaction the server has lost. -/
def Healthy (s : State) : Ev → Prop
  | .call _ _ _ | .dbCrash | .crash => False
  | .newTx _ ok => ok = true
  | .update r err | .insert r err => err ≠ none → s.db.tx r = none
  | .commit r ok => ok = false → s.db.tx r = none
  | _ => True

/-- The request is in progress: something of it is left. -/
def Req.inProgress (q : Req) : Prop := q.live ≠ []

/-- A healthy step is possible. -/
def CanStep (s : State) : Prop := ∃ e t, Healthy s e ∧ step s e = some t

theorem canStep_of (he : Healthy s e) (h : (step s e).isSome = true) : CanStep s := by
  obtain ⟨t, ht⟩ := Option.isSome_iff_exists.1 h
  exact ⟨e, t, he, ht⟩

/-- What a reachable state of a service with the gate `.new mode shards bits` keeps. -/
structure Sound (mode : Mode) (shards bits : UInt64) (d₀ : Db) (s : State) : Prop where
  inv : Inv d₀ s
  mode_eq : s.guard.mode = mode
  gate : mode ≠ .none → Gate (.new mode shards bits) s
  tidy : Tidy s

section

variable {mode : Mode} {shards bits : UInt64}

theorem sound_init (mode : Mode) (shards bits : UInt64) (stock₀ : Int64 → Option ℤ) (orders₀ : List Order) :
    Sound mode shards bits (.init stock₀ orders₀) (State.init stock₀ orders₀ (.new mode shards bits)) where
  inv := init_inv _ _ _
  mode_eq := InflightGuard.new_mode _ _ _
  gate _ := gate_init _ _ _ _ _
  tidy := ⟨fun _ _ hc => absurd hc List.not_mem_nil, fun _ hx => absurd rfl hx⟩

theorem step_sound (s : State) (e : Ev) (t : State) (h : Sound mode shards bits d₀ s) (hs : step s e = some t) :
    Sound mode shards bits d₀ t where
  inv := step_inv s e t h.inv hs
  mode_eq := by rw [step_mode hs, h.mode_eq]
  gate hm := step_gate hm h.inv (h.gate hm) hs
  tidy := step_tidy h.inv h.tidy hs

/-- **A closure that may go can go.** -/
theorem Sound.drop {c : Holder} (h : Sound mode shards bits d₀ s) (hc : c ∈ (s.req r).live)
    (hl : (s.req r).pc.lets c = true) : CanStep s := by
  have hsome : (step s (.drop r c)).isSome = true := by
    by_cases hm : mode = .none
    · simp only [step, dropStep, if_pos (And.intro hc hl)]
      split
      · rw [Option.isSome_map]
        simp [InflightGuard.release, h.mode_eq, hm]
      · rfl
    · exact (h.gate hm).drop_isSome hc hl
  exact canStep_of (e := .drop r c) trivial hsome

/-- Where every closure can go, a request in progress can. -/
theorem Sound.drop_any (h : Sound mode shards bits d₀ s) (hr : (s.req r).inProgress)
    (hl : ∀ c ∈ (s.req r).live, (s.req r).pc.lets c = true) : CanStep s := by
  obtain ⟨c, hc⟩ := List.exists_mem_of_ne_nil _ hr
  exact h.drop hc (hl c hc)

/-- A request past its INSERT gets rid of its transaction, by COMMIT. -/
theorem Sound.ordered (h : Sound mode shards bits d₀ s) (hpc : (s.req r).pc = .ordered) : CanStep s := by
  by_cases htx : (s.req r).live.any Holder.hasTx = true
  · obtain ⟨c, hc, hcx⟩ := List.any_eq_true.1 htx
    refine h.drop hc ?_
    rw [hpc]
    cases c <;> first | rfl | cases hcx
  · cases hx : s.db.tx r with
    | none =>
      refine canStep_of (e := .commit r false) (fun _ => hx) ?_
      simp [step, commitStep, hpc, Pc.active, htx]
    | some x =>
      refine canStep_of (e := .commit r true) (fun hfail => by cases hfail) ?_
      simp [step, commitStep, hpc, Pc.active, htx, Db.commit, hx]

/-- A request whose callback is due can go on. -/
theorem canStep_due (hpc : (∃ o, (s.req r).pc = .updated o ∨ (s.req r).pc = .inserted o) ∨
    (∃ ok, (s.req r).pc = .committed ok) ∨ (s.req r).pc = .rollingBack) : CanStep s := by
  rcases hpc with ⟨o, hpc | hpc⟩ | ⟨ok, hpc⟩ | hpc
  · refine canStep_of (e := .onUpdate r) trivial ?_
    simp only [step, onUpdateStep, hpc]
    split <;> rfl
  · refine canStep_of (e := .onInsert r) trivial ?_
    simp only [step, onInsertStep, hpc]
    split <;> rfl
  · exact canStep_of (e := .onCommit r) trivial (by simp [step, onCommitStep, hpc])
  · exact canStep_of (e := .rollback r) trivial (by simp [step, rollbackStep, hpc])

/-- The INSERT waits for nobody. -/
theorem canStep_inserting (hpc : (s.req r).pc = .inserting) : CanStep s := by
  cases hx : s.db.tx r with
  | none => exact canStep_of (e := .insert r (some "")) (fun _ => hx) (by simp [step, insertStep, hpc])
  | some x =>
    refine canStep_of (e := .insert r none) (fun hne => absurd rfl hne) ?_
    simp [step, insertStep, hpc, Db.insertOrder, hx]

/-- **Who holds a lock can go on.** -/
theorem Sound.lock_holder {k : Int64} (h : Sound mode shards bits d₀ s) (hl : s.db.lock k = some r) : CanStep s := by
  obtain ⟨x, hx, hdec⟩ := (h.inv.db.owned k r).1 hl
  have hopen := h.tidy.isOpen r (by rw [hx]; simp)
  have hwork := (h.inv.req r).work
  cases hpc : (s.req r).pc <;> rw [hpc] at hopen hwork
  case updating =>
    -- it has not decremented anything yet
    rw [hwork x hx] at hdec
    cases hdec
  case updated o => exact canStep_due (Or.inl ⟨o, Or.inl hpc⟩)
  case inserting => exact canStep_inserting hpc
  case inserted o => exact canStep_due (Or.inl ⟨o, Or.inr hpc⟩)
  case ordered => exact h.ordered hpc
  case rollingBack => exact canStep_due (Or.inr (Or.inr hpc))
  all_goals simp [Pc.isOpen, Pc.active] at hopen

/-- The UPDATE waits for a holder of the row's lock, who can go on. -/
theorem Sound.updating (h : Sound mode shards bits d₀ s) (hpc : (s.req r).pc = .updating) : CanStep s := by
  cases hx : s.db.tx r with
  | none => exact canStep_of (e := .update r (some "")) (fun _ => hx) (by simp [step, updateStep, hpc])
  | some x =>
    cases hl : s.db.lock (s.req r).skuId with
    | some r' => exact h.lock_holder hl
    | none =>
      refine canStep_of (e := .update r none) (fun hne => absurd rfl hne) ?_
      simp only [step, updateStep, hpc, ne_eq, not_true_eq_false, if_false, Option.isSome_map, Db.deduct, hx, hl]
      split
      · split <;> rfl
      · rfl

/-- **No deadlock.** As long as a request is in progress somebody can go on. -/
theorem Sound.canStep (h : Sound mode shards bits d₀ s) (hr : (s.req r).inProgress) : CanStep s := by
  have hholds := h.tidy.holds r
  cases hpc : (s.req r).pc <;> rw [hpc] at hholds
  case opening => exact canStep_of (e := .newTx r true) rfl (by simp [step, newTxStep, hpc])
  case updating => exact h.updating hpc
  case updated o => exact canStep_due (Or.inl ⟨o, Or.inl hpc⟩)
  case inserting => exact canStep_inserting hpc
  case inserted o => exact canStep_due (Or.inl ⟨o, Or.inr hpc⟩)
  case ordered => exact h.ordered hpc
  case committed ok => exact canStep_due (Or.inr (Or.inl ⟨ok, hpc⟩))
  case rollingBack => exact canStep_due (Or.inr (Or.inr hpc))
  case idle | refused | dead =>
    obtain ⟨c, hc⟩ := List.exists_mem_of_ne_nil _ hr
    exact absurd (hholds c hc) (by simp [Pc.mayHold])
  case noTx =>
    refine h.drop_any hr fun c hc => ?_
    rw [hpc]
    have hcall := hholds c hc
    cases c <;> first | rfl | simp [Pc.mayHold] at hcall
  case closed ok =>
    refine h.drop_any hr fun c _ => ?_
    rw [hpc]
    cases c <;> rfl
  case rolledBack =>
    refine h.drop_any hr fun c _ => ?_
    rw [hpc]
    cases c <;> rfl

/-! ## The end -/

/-- The requests that are called in a run. -/
def called (es : List Ev) : Finset ℕ :=
  (es.filterMap fun
    | .call r _ _ => some r
    | _ => none).toFinset

theorem mem_called {es : List Ev} : r ∈ called es ↔ ∃ u k, .call r u k ∈ es := by
  simp only [called, List.mem_toFinset, List.mem_filterMap]
  constructor
  · rintro ⟨e, he, hr⟩
    split at hr
    · cases hr
      exact ⟨_, _, he⟩
    · cases hr
  · rintro ⟨u, k, he⟩
    exact ⟨_, he, rfl⟩

/-- A state in which only the requests in `R` were called. -/
structure Only (mode : Mode) (shards bits : UInt64) (d₀ : Db) (R : Finset ℕ) (s : State) : Prop where
  sound : Sound mode shards bits d₀ s
  idle : ∀ r ∉ R, s.req r = .idle

/-- The steps ahead of all requests. -/
def ahead (R : Finset ℕ) (s : State) : ℕ := ∑ r ∈ R, (s.req r).ahead

theorem Healthy.not_call (he : Healthy s e) (r : ℕ) (u k : Int64) : e ≠ .call r u k := by
  rintro rfl
  exact he

theorem step_only {R : Finset ℕ} (h : Only mode shards bits d₀ R s) (he : Healthy s e) (hs : step s e = some t) :
    Only mode shards bits d₀ R t where
  sound := step_sound s e t h.sound hs
  idle r hr := step_uncalled hs (h.idle r hr) (he.not_call r)

/-- **A healthy step brings a request that was called nearer to its end**, and no other one away from it. -/
theorem step_ahead_sum {R : Finset ℕ} (h : Only mode shards bits d₀ R s) (he : Healthy s e) (hs : step s e = some t) :
    ahead R t < ahead R s := by
  obtain ⟨r, hr⟩ : ∃ r, e.request = some r := by
    cases e with
    | call | dbCrash | crash => exact he.elim
    | drop r | newTx r | update r | onUpdate r | insert r | onInsert r | commit r | onCommit r | rollback r =>
      exact ⟨r, rfl⟩
  have hlt := step_ahead_lt hs hr
  refine Finset.sum_lt_sum (fun r _ => step_ahead_le hs r) ⟨r, ?_, hlt⟩
  by_contra hR
  rw [h.idle r hR, step_uncalled hs (h.idle r hR) (he.not_call r)] at hlt
  exact lt_irrefl _ hlt

end

/-- **Every order comes to an end.** In any run a request takes at most sixteen steps.
From any reachable state, however its healthy steps are scheduled, there are at most
sixteen for each request that was called, and when no more is possible nothing is left
of any request, and each that the process did not die under has its answer. -/
theorem doSeckill_completes (mode : Mode) (shards bits : UInt64) (stock₀ : Int64 → Option ℤ) (orders₀ : List Order)
    (es : List Ev) (s : State) (h : run step (State.init stock₀ orders₀ (.new mode shards bits)) es = some s) :
    (∀ r, tally step (fun _ e => decide (e.request = some r)) (State.init stock₀ orders₀ (.new mode shards bits)) es
        ≤ 16) ∧
      (∀ es' t, Meets step Healthy s es' → run step s es' = some t →
        es'.length ≤ 16 * (called es).card ∧
          ((∀ e, Healthy t e → step t e = none) → ∀ r, (t.req r).live = [] ∧
            ((t.req r).pc ≠ .idle → (∀ ok, (t.req r).pc ≠ .dead ok) → ∃ a, (t.req r).answers = [a]))) ∧
      ∃ es' t, Meets step Healthy s es' ∧ run step s es' = some t ∧ ∀ e, Healthy t e → step t e = none := by
  have hidle : ∀ r, (State.init stock₀ orders₀ (.new mode shards bits)).req r = .idle := fun _ => rfl
  have honly : Only mode shards bits (.init stock₀ orders₀) (called es) s := by
    refine ⟨run_inv step_sound (sound_init mode shards bits stock₀ orders₀) h, fun r hr => run_uncalled h ?_⟩
    intro u k he
    exact hr (mem_called.2 ⟨u, k, he⟩)
  have hbound : ahead (called es) s ≤ 16 * (called es).card := by
    have hsum := Finset.sum_le_card_nsmul (called es) (fun r => (s.req r).ahead) 16 fun r _ => by
      have hr := run_request hidle h r
      omega
    rw [smul_eq_mul, Nat.mul_comm] at hsum
    exact hsum
  refine ⟨fun r => ?_, fun es' t hC h' => ⟨?_, fun hstuck r => ?_⟩, ?_⟩
  · have hr := run_request hidle h r
    omega
  · have hlen := run_potential (P := fun _ _ => true) (fun s e t => step_only)
      (fun s e t hO he hs => step_ahead_sum hO he hs) honly hC h'
    rw [tally_true h'] at hlen
    omega
  · have hsound := (run_inv_of (fun s e t => step_only) honly hC h').sound
    have hlive : (t.req r).live = [] := by
      by_contra hr
      obtain ⟨e, u, he, hu⟩ := hsound.canStep hr
      rw [hstuck e he] at hu
      cases hu
    refine ⟨hlive, fun hcalled hdead => ?_⟩
    exact List.length_eq_one_iff.1 ((hsound.inv.req r).length_eq ⟨hcalled, hdead, hlive⟩)
  · refine completes (fun s e t => step_only) (fun s e t => step_ahead_sum) (fun s hO hD => ?_) honly
    simp only [not_forall] at hD
    obtain ⟨e, he, hs⟩ := hD
    exact (canStep_of he (Option.isSome_iff_ne_none.2 hs)).imp fun e => id

/-- User `8` waits for the row user `7` has locked; both come to an end. -/
theorem doSeckill_completes_waiting :
    ∃ s, run step (State.init oneItem [] (.new .mutex 64 65536))
        [.call 0 7 1, .call 1 8 1, .newTx 0 true, .newTx 1 true, .update 0 none] = some s ∧
      step s (.update 1 none) = none ∧
      ∃ es t, run step s es = some t ∧ es.length ≤ 32 ∧ (t.req 0).live = [] ∧ (t.req 1).live = [] := by
  have hrun : (run step (State.init oneItem [] (.new .mutex 64 65536))
      [.call 0 7 1, .call 1 8 1, .newTx 0 true, .newTx 1 true, .update 0 none]).map
        (fun s => (step s (.update 1 none)).isNone) = some true := rfl
  obtain ⟨s, hs, hwait⟩ := Option.map_eq_some_iff.1 hrun
  obtain ⟨-, hall, es, t, hC, ht, hstuck⟩ := doSeckill_completes .mutex 64 65536 oneItem [] _ s hs
  obtain ⟨hlen, hend⟩ := hall es t hC ht
  exact ⟨s, hs, Option.isNone_iff_eq_none.1 hwait, es, t, ht, hlen, (hend hstuck 0).1, (hend hstuck 1).1⟩

end Seckill
