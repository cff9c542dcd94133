import Seckill.Proof.Ledger
import Seckill.Spec.DoSeckill

/-!
# What every step of an order keeps

`Inv d₀ s`: the ledger is balanced (`Db.OK`) and every request is `Req.OK`:

* `keeps`: the closures its outstanding operation will run are alive;
* `said`: the calls of its callback so far are those its position allows;
* `work`: its transaction, unless the server lost it, holds the statements that
  were reported to it.

The `*_cases` lemmas say once what a step does, and `step_move` what it does to a
request; `step_inv` is assembled from one lemma for each kind of step. The heart is `commitStep_inv`: COMMIT needs that no
reference to the transaction is left, so by `keeps` the INSERT's callback has
returned, and by `work` the transaction holds a whole order.
-/

namespace Seckill

variable {d₀ : Db} {s t : State} {r : ℕ}

/-! ## What a step does -/

@[simp] theorem State.set_req (s : State) (r r' : ℕ) (q : Req) :
    (s.set r q).req r' = if r' = r then q else s.req r' := by
  simp only [State.set, Function.update_apply]

@[simp] theorem State.set_db (s : State) (r : ℕ) (q : Req) : (s.set r q).db = s.db := rfl

@[simp] theorem State.set_guard (s : State) (r : ℕ) (q : Req) : (s.set r q).guard = s.guard := rfl

/-- The request of a call, before the gate's verdict. -/
def Req.called (userId skuId : Int64) (token : Bool) : Req :=
  ⟨userId, skuId, token, [.call, .newTx], .opening, []⟩

/-- The request of a call the gate turned away. -/
def Req.turnedAway (userId skuId : Int64) : Req :=
  ⟨userId, skuId, false, [], .refused, [(false, "DUPLICATE_ORDER")]⟩

theorem callStep_cases {u k : Int64} (h : callStep s r u k = some t) :
    (s.req r).pc = .idle ∧
      (s.guard.mode = .none ∧ t = s.set r (.called u k false) ∨
        s.guard.mode ≠ .none ∧ ∃ g got, s.guard.tryAcquire (makeKey u k) = some (g, got) ∧
          t = { s with guard := g }.set r (if got then .called u k true else .turnedAway u k)) := by
  unfold callStep at h
  by_cases hpc : (s.req r).pc = .idle
  · refine ⟨hpc, ?_⟩
    by_cases hm : s.guard.mode = .none
    · rw [if_neg (by simpa using hpc), if_pos hm] at h
      exact Or.inl ⟨hm, (Option.some.inj h).symm⟩
    · rw [if_neg (by simpa using hpc), if_neg hm] at h
      obtain ⟨⟨g, got⟩, hg, ht⟩ := Option.map_eq_some_iff.1 h
      refine Or.inr ⟨hm, g, got, hg, ?_⟩
      rw [← ht]
      cases got <;> rfl
  · rw [if_pos hpc] at h
    cases h

theorem dropStep_cases {h : Holder} (hs : dropStep s r h = some t) :
    (s.req r).pc.lets h = true ∧ ∃ g, t = { s with guard := g }.set r ((s.req r).without h) ∧
      if (s.req r).holds ∧ ¬((s.req r).without h).holds then s.guard.release (s.req r).key = some g
      else g = s.guard := by
  unfold dropStep at hs
  simp only at hs
  split at hs
  · rename_i hl
    refine ⟨hl.2, ?_⟩
    split at hs
    · rename_i hh
      obtain ⟨g, hg, ht⟩ := Option.map_eq_some_iff.1 hs
      exact ⟨g, ht.symm, by rw [if_pos (by simpa using hh), hg]⟩
    · rename_i hh
      exact ⟨s.guard, (Option.some.inj hs).symm, by rw [if_neg (by simpa using hh)]⟩
  · cases hs

/-- A request whose transaction was opened. -/
def Req.opened (q : Req) : Req :=
  { q with pc := .updating, live := q.live ++ [Holder.txArg, .commitCb, .updOk, .updErr] }

/-- A request whose success callback of the UPDATE went on to the INSERT. -/
def Req.deducted (q : Req) : Req :=
  { q with pc := .inserting, live := q.live ++ [Holder.insOk, .insErr] }

/-- A request at `p` that answered `a`. -/
def Req.answerAt (q : Req) (p : Pc) (a : Bool × String) : Req := { q with pc := p }.answer a

/-- A request that moved on to `p`. -/
def Req.at (q : Req) (p : Pc) : Req := { q with pc := p }

theorem newTxStep_cases {ok : Bool} (h : newTxStep s r ok = some t) :
    (s.req r).pc = .opening ∧
      (ok = true ∧ t = { s with db := s.db.begin r }.set r (s.req r).opened ∨
        ok = false ∧ t = s.set r ((s.req r).answerAt .noTx (false, "DB_ERROR: no transaction (timeout)"))) := by
  unfold newTxStep at h
  by_cases hpc : (s.req r).pc = .opening
  · refine ⟨hpc, ?_⟩
    simp only [hpc, ne_eq, not_true_eq_false, if_false] at h
    cases ok
    · exact Or.inr ⟨rfl, (Option.some.inj h).symm⟩
    · exact Or.inl ⟨rfl, (Option.some.inj h).symm⟩
  · simp only [hpc, ne_eq, not_false_eq_true, if_true] at h
    cases h

/-- The UPDATE and the INSERT are sent alike: the statement fails, or the database does it. -/
theorem statement_cases {p : Pc} {err : Option String} {done : Option (Db × ℕ)} {f : Except String ℕ → Req}
    (h : (if (s.req r).pc ≠ p then none
      else match err with
        | some what => some (s.set r (f (.error what)))
        | none => done.map fun (d, n) => { s with db := d }.set r (f (.ok n))) = some t) :
    (s.req r).pc = p ∧
      ((∃ what, err = some what ∧ t = s.set r (f (.error what))) ∨
        err = none ∧ ∃ d n, done = some (d, n) ∧ t = { s with db := d }.set r (f (.ok n))) := by
  by_cases hpc : (s.req r).pc = p
  · refine ⟨hpc, ?_⟩
    simp only [hpc, ne_eq, not_true_eq_false, if_false] at h
    cases err with
    | some what => exact Or.inl ⟨what, rfl, (Option.some.inj h).symm⟩
    | none =>
      obtain ⟨⟨d, n⟩, hd, ht⟩ := Option.map_eq_some_iff.1 h
      exact Or.inr ⟨rfl, d, n, hd, ht.symm⟩
  · simp only [hpc, ne_eq, not_false_eq_true, if_true] at h
    cases h

theorem updateStep_cases {err : Option String} (h : updateStep s r err = some t) :
    (s.req r).pc = .updating ∧
      ((∃ what, err = some what ∧ t = s.set r ((s.req r).at (.updated (.error what)))) ∨
        err = none ∧ ∃ d n, s.db.deduct r (s.req r).skuId = some (d, n) ∧
          t = { s with db := d }.set r ((s.req r).at (.updated (.ok n)))) := by
  unfold updateStep at h
  exact statement_cases (f := fun o => (s.req r).at (.updated o)) h

theorem insertStep_cases {err : Option String} (h : insertStep s r err = some t) :
    (s.req r).pc = .inserting ∧
      ((∃ what, err = some what ∧ t = s.set r ((s.req r).at (.inserted (.error what)))) ∨
        err = none ∧ ∃ d n, s.db.insertOrder r (s.req r).order = some (d, n) ∧
          t = { s with db := d }.set r ((s.req r).at (.inserted (.ok n)))) := by
  unfold insertStep at h
  exact statement_cases (f := fun o => (s.req r).at (.inserted o)) h

theorem onUpdateStep_cases (h : onUpdateStep s r = some t) :
    ∃ o, (s.req r).pc = .updated o ∧
      ((∃ a, updateAnswer o = some a ∧ t = s.set r ((s.req r).answerAt .rollingBack a)) ∨
        updateAnswer o = none ∧ t = s.set r (s.req r).deducted) := by
  unfold onUpdateStep at h
  simp only at h
  split at h
  · rename_i o hpc
    refine ⟨o, hpc, ?_⟩
    cases ha : updateAnswer o with
    | some a => rw [ha] at h; exact Or.inl ⟨a, rfl, (Option.some.inj h).symm⟩
    | none => rw [ha] at h; exact Or.inr ⟨rfl, (Option.some.inj h).symm⟩
  · cases h

theorem onInsertStep_cases (h : onInsertStep s r = some t) :
    ∃ o, (s.req r).pc = .inserted o ∧
      ((∃ a, insertAnswer o = some a ∧ t = s.set r ((s.req r).answerAt .rollingBack a)) ∨
        insertAnswer o = none ∧ t = s.set r ((s.req r).at .ordered)) := by
  unfold onInsertStep at h
  simp only at h
  split at h
  · rename_i o hpc
    refine ⟨o, hpc, ?_⟩
    cases ha : insertAnswer o with
    | some a => rw [ha] at h; exact Or.inl ⟨a, rfl, (Option.some.inj h).symm⟩
    | none => rw [ha] at h; exact Or.inr ⟨rfl, (Option.some.inj h).symm⟩
  · cases h

theorem commitStep_cases {ok : Bool} (h : commitStep s r ok = some t) :
    (s.req r).pc.active = true ∧ (s.req r).live.any Holder.hasTx = false ∧
      (ok = true ∧ (∃ d, s.db.commit r = some d ∧
          t = { s with db := d }.set r ((s.req r).at (.committed true))) ∨
        ok = false ∧ t = { s with db := s.db.rollback r }.set r ((s.req r).at (.committed false))) := by
  unfold commitStep at h
  simp only at h
  split at h
  · rename_i hc
    refine ⟨hc.1, by simpa using hc.2, ?_⟩
    cases ok
    · exact Or.inr ⟨rfl, (Option.some.inj h).symm⟩
    · obtain ⟨d, hd, ht⟩ := Option.map_eq_some_iff.1 h
      exact Or.inl ⟨rfl, d, hd, ht.symm⟩
  · cases h

theorem onCommitStep_cases (h : onCommitStep s r = some t) :
    ∃ ok inv, (s.req r).pc = .committed ok ∧
      t = { s with invalidated := inv }.set r ((s.req r).answerAt (.closed ok) (commitAnswer ok)) := by
  unfold onCommitStep at h
  simp only at h
  split at h
  · rename_i ok hpc
    exact ⟨ok, _, hpc, (Option.some.inj h).symm⟩
  · cases h

theorem rollbackStep_cases (h : rollbackStep s r = some t) :
    (s.req r).pc = .rollingBack ∧
      t = { s with db := s.db.rollback r }.set r ((s.req r).at .rolledBack) := by
  unfold rollbackStep at h
  simp only at h
  split at h
  · rename_i hpc; exact ⟨hpc, (Option.some.inj h).symm⟩
  · cases h

/-! ## What a step does to a request -/

/-- A request the process died under. -/
def Req.crashed (q : Req) : Req := { q with live := [], pc := q.pc.crash }

/-- `Move s r e q`: event `e` in state `s` makes `q` of the request `r`. -/
inductive Move (s : State) (r : ℕ) : Ev → Req → Prop
  | called {u k : Int64} (got : Bool) (hpc : (s.req r).pc = .idle) : Move s r (.call r u k) (.called u k got)
  | turnedAway {u k : Int64} {g : InflightGuard} (hpc : (s.req r).pc = .idle)
      (hg : s.guard.tryAcquire (makeKey u k) = some (g, false)) : Move s r (.call r u k) (.turnedAway u k)
  | dropped (h : Holder) : Move s r (.drop r h) ((s.req r).without h)
  | opened (hpc : (s.req r).pc = .opening) : Move s r (.newTx r true) (s.req r).opened
  | noTx (hpc : (s.req r).pc = .opening) :
    Move s r (.newTx r false) ((s.req r).answerAt .noTx (false, "DB_ERROR: no transaction (timeout)"))
  | updateFailed (what : String) (hpc : (s.req r).pc = .updating) :
    Move s r (.update r (some what)) ((s.req r).at (.updated (.error what)))
  | updated {d : Db} {n : ℕ} (hpc : (s.req r).pc = .updating) (hd : s.db.deduct r (s.req r).skuId = some (d, n)) :
    Move s r (.update r none) ((s.req r).at (.updated (.ok n)))
  | updateAnswered {o : Outcome} {a : Bool × String} (hpc : (s.req r).pc = .updated o) (ha : updateAnswer o = some a) :
    Move s r (.onUpdate r) ((s.req r).answerAt .rollingBack a)
  | deducted {o : Outcome} (hpc : (s.req r).pc = .updated o) (ha : updateAnswer o = none) :
    Move s r (.onUpdate r) (s.req r).deducted
  | insertFailed (what : String) (hpc : (s.req r).pc = .inserting) :
    Move s r (.insert r (some what)) ((s.req r).at (.inserted (.error what)))
  | inserted {d : Db} {n : ℕ} (hpc : (s.req r).pc = .inserting)
      (hd : s.db.insertOrder r (s.req r).order = some (d, n)) :
    Move s r (.insert r none) ((s.req r).at (.inserted (.ok n)))
  | insertAnswered {o : Outcome} {a : Bool × String} (hpc : (s.req r).pc = .inserted o) (ha : insertAnswer o = some a) :
    Move s r (.onInsert r) ((s.req r).answerAt .rollingBack a)
  | ordered {o : Outcome} (hpc : (s.req r).pc = .inserted o) (ha : insertAnswer o = none) :
    Move s r (.onInsert r) ((s.req r).at .ordered)
  | committed {d : Db} (hpc : (s.req r).pc.active = true) (hd : s.db.commit r = some d) :
    Move s r (.commit r true) ((s.req r).at (.committed true))
  | commitFailed (hpc : (s.req r).pc.active = true) : Move s r (.commit r false) ((s.req r).at (.committed false))
  | closed {ok : Bool} (hpc : (s.req r).pc = .committed ok) :
    Move s r (.onCommit r) ((s.req r).answerAt (.closed ok) (commitAnswer ok))
  | rolledBack (hpc : (s.req r).pc = .rollingBack) : Move s r (.rollback r) ((s.req r).at .rolledBack)
  | crashed : Move s r .crash (s.req r).crashed

theorem Move.set {e : Ev} {q : Req} (hq : Move s r e q) {u : State} (hu : u.req = s.req) (r' : ℕ) :
    (u.set r q).req r' = s.req r' ∨ Move s r' e ((u.set r q).req r') := by
  rw [State.set_req]
  by_cases hr : r' = r
  · rw [if_pos hr, hr]
    exact Or.inr hq
  · rw [if_neg hr, hu]
    exact Or.inl rfl

/-- **What a step does to a request**: nothing, or one move. -/
theorem step_move {e : Ev} (h : step s e = some t) (r : ℕ) : t.req r = s.req r ∨ Move s r e (t.req r) := by
  cases e with
  | call r₁ u k =>
    obtain ⟨hpc, ⟨-, rfl⟩ | ⟨-, g, got, hg, rfl⟩⟩ := callStep_cases h
    · exact (Move.called false hpc).set rfl r
    · cases got with
      | true => exact (Move.called true hpc).set rfl r
      | false => exact (Move.turnedAway hpc hg).set rfl r
  | drop r₁ hd =>
    obtain ⟨-, g, rfl, -⟩ := dropStep_cases h
    exact (Move.dropped (s := s) (r := r₁) hd).set rfl r
  | newTx r₁ ok =>
    obtain ⟨hpc, ⟨rfl, rfl⟩ | ⟨rfl, rfl⟩⟩ := newTxStep_cases h
    · exact (Move.opened hpc).set rfl r
    · exact (Move.noTx hpc).set rfl r
  | update r₁ err =>
    obtain ⟨hpc, ⟨what, rfl, rfl⟩ | ⟨rfl, d, n, hd, rfl⟩⟩ := updateStep_cases h
    · exact (Move.updateFailed what hpc).set rfl r
    · exact (Move.updated hpc hd).set rfl r
  | onUpdate r₁ =>
    obtain ⟨o, hpc, ⟨a, ha, rfl⟩ | ⟨ha, rfl⟩⟩ := onUpdateStep_cases h
    · exact (Move.updateAnswered hpc ha).set rfl r
    · exact (Move.deducted hpc ha).set rfl r
  | insert r₁ err =>
    obtain ⟨hpc, ⟨what, rfl, rfl⟩ | ⟨rfl, d, n, hd, rfl⟩⟩ := insertStep_cases h
    · exact (Move.insertFailed what hpc).set rfl r
    · exact (Move.inserted hpc hd).set rfl r
  | onInsert r₁ =>
    obtain ⟨o, hpc, ⟨a, ha, rfl⟩ | ⟨ha, rfl⟩⟩ := onInsertStep_cases h
    · exact (Move.insertAnswered hpc ha).set rfl r
    · exact (Move.ordered hpc ha).set rfl r
  | commit r₁ ok =>
    obtain ⟨hpc, -, ⟨rfl, d, hd, rfl⟩ | ⟨rfl, rfl⟩⟩ := commitStep_cases h
    · exact (Move.committed hpc hd).set rfl r
    · exact (Move.commitFailed hpc).set rfl r
  | onCommit r₁ =>
    obtain ⟨ok, inv, hpc, rfl⟩ := onCommitStep_cases h
    exact (Move.closed hpc).set rfl r
  | rollback r₁ =>
    obtain ⟨hpc, rfl⟩ := rollbackStep_cases h
    exact (Move.rolledBack hpc).set rfl r
  | dbCrash =>
    cases h
    exact Or.inl rfl
  | crash =>
    cases h
    exact Or.inr .crashed

/-! ## The state of a request -/

/-- The closures that the outstanding operation will run, and the transaction's. -/
def Pc.keeps : Pc → List Holder
  | .opening => [.newTx]
  | .updating | .updated _ => [.updOk, .commitCb]
  | .inserting | .inserted _ => [.insOk, .commitCb]
  | .ordered | .committed _ | .rollingBack => [.commitCb]
  | _ => []

/-- The calls of the callback a request at this position has made. -/
def Pc.said : Pc → List (Bool × String) → Prop
  | .closed ok, l => l = [commitAnswer ok]
  | .dead ok, l => l = [] ∨ ok = false ∧ ∃ what, l = [(false, what)]
  | .refused, l | .noTx, l | .rollingBack, l | .rolledBack, l => ∃ what, l = [(false, what)]
  | _, l => l = []

/-- What the transaction of a request at this position has done, if it is open. -/
def Pc.work (o : Order) (t : Option Tx) : Pc → Prop
  | .idle | .opening => t = none
  | .updating => ∀ x ∈ t, x = ⟨none, none⟩
  | .updated (.ok n) => n ≠ 0 → ∀ x ∈ t, x = ⟨some o.skuId, none⟩
  | .inserting => ∀ x ∈ t, x = ⟨some o.skuId, none⟩
  | .inserted (.ok n) => n ≠ 0 → ∀ x ∈ t, x = ⟨some o.skuId, some o⟩
  | .ordered => ∀ x ∈ t, x = ⟨some o.skuId, some o⟩
  | _ => True

/-- A request is well-formed, `t` being its open transaction. -/
structure Req.OK (q : Req) (t : Option Tx) : Prop where
  keeps : ∀ h ∈ q.pc.keeps, h ∈ q.live
  bare : q.pc = .idle ∨ q.pc = .refused → q.token = false
  said : q.pc.said q.answers
  work : q.pc.work q.order t

theorem Pc.lets_keeps {p : Pc} {h : Holder} (hk : h ∈ p.keeps) : p.lets h = false := by
  cases p <;> simp only [keeps, List.mem_cons, List.not_mem_nil, or_false] at hk
  all_goals rcases hk with rfl | rfl <;> rfl

theorem Pc.work_none (o : Order) (p : Pc) : p.work o none := by
  unfold work
  split <;> simp

theorem Req.idle_ok : Req.idle.OK none where
  keeps h hk := by cases hk
  bare _ := rfl
  said := rfl
  work := rfl

theorem Req.OK.without {q : Req} {x : Option Tx} {h : Holder} (hq : q.OK x) (hl : q.pc.lets h = true) :
    (q.without h).OK x where
  keeps h' hk := by
    have hne : h' ≠ h := by
      intro he
      have := Pc.lets_keeps (show h ∈ q.pc.keeps from he ▸ hk)
      rw [this] at hl
      exact Bool.false_ne_true hl
    exact List.mem_filter.2 ⟨hq.keeps h' hk, by simpa using hne⟩
  bare := hq.bare
  said := hq.said
  work := hq.work

/-- After the process died. -/
theorem Req.OK.crash {q : Req} {x : Option Tx} (hq : q.OK x) :
    Req.OK { q with live := [], pc := q.pc.crash } none where
  keeps h hk := by
    have : q.pc.crash.keeps = [] := by cases q.pc <;> rfl
    simp only [this] at hk
    cases hk
  bare hb := by
    apply hq.bare
    cases hpc : q.pc <;> rw [hpc] at hb <;> simp [Pc.crash] at hb ⊢
  said := by
    have := hq.said
    cases hpc : q.pc <;> rw [hpc] at this <;> simp only [Pc.said, Pc.crash] at this ⊢
    all_goals first
      | exact this
      | exact Or.inl this
      | exact Or.inr ⟨trivial, this⟩
  work := Pc.work_none _ _

/-- The callbacks of a statement, by what they answer when no row was affected. -/
def statementAnswer (refusal : String) : Outcome → Option (Bool × String)
  | .error what => some (false, "DB_ERROR: " ++ what)
  | .ok n => if n = 0 then some (false, refusal) else none

theorem updateAnswer_eq (o : Outcome) : updateAnswer o = statementAnswer "SOLD_OUT" o := by cases o <;> rfl

theorem insertAnswer_eq (o : Outcome) : insertAnswer o = statementAnswer "DUPLICATE_ORDER" o := by cases o <;> rfl

theorem statementAnswer_some {refusal : String} {o : Outcome} {a : Bool × String} (h : statementAnswer refusal o = some a) :
    (∃ what, o = .error what ∧ a = (false, "DB_ERROR: " ++ what)) ∨ o = .ok 0 ∧ a = (false, refusal) := by
  unfold statementAnswer at h
  split at h
  next what => exact Or.inl ⟨what, rfl, (Option.some.inj h).symm⟩
  next n =>
    split at h
    next hn =>
      rw [hn]
      exact Or.inr ⟨rfl, (Option.some.inj h).symm⟩
    next => cases h

theorem statementAnswer_none {refusal : String} {o : Outcome} (h : statementAnswer refusal o = none) :
    ∃ n, o = .ok n ∧ n ≠ 0 := by
  unfold statementAnswer at h
  split at h
  next => cases h
  next n =>
    split at h
    next => cases h
    next hn => exact ⟨n, rfl, hn⟩

theorem statementAnswer_false {refusal : String} {o : Outcome} {a : Bool × String}
    (h : statementAnswer refusal o = some a) : ∃ what, a = (false, what) := by
  rcases statementAnswer_some h with ⟨what, -, rfl⟩ | ⟨-, rfl⟩
  · exact ⟨_, rfl⟩
  · exact ⟨_, rfl⟩

/-! ## The invariant -/

/-- The ledger is balanced and every request is well-formed. -/
structure Inv (d₀ : Db) (s : State) : Prop where
  db : s.db.OK d₀
  req : ∀ r, (s.req r).OK (s.db.tx r)

theorem init_inv (stock : Int64 → Option ℤ) (orders : List Order) (g : InflightGuard) :
    Inv (.init stock orders) (State.init stock orders g) :=
  ⟨Db.init_ok stock orders, fun _ => Req.idle_ok⟩

/-- A step of request `r` leaves the others alone. -/
theorem Inv.set {d : Db} {g : InflightGuard} {inv : List Int64} {q : Req} (h : Inv d₀ s)
    (hd : d.OK d₀) (hx : ∀ r', r' ≠ r → d.tx r' = s.db.tx r') (hq : q.OK (d.tx r)) :
    Inv d₀ (State.set { s with db := d, guard := g, invalidated := inv } r q) where
  db := hd
  req r' := by
    rw [State.set_req, State.set_db]
    by_cases hr : r' = r
    · rw [if_pos hr, hr]; exact hq
    · rw [if_neg hr]
      have := h.req r'
      rwa [← hx r' hr] at this

theorem Inv.setReq {g : InflightGuard} {inv : List Int64} {q : Req} (h : Inv d₀ s)
    (hq : q.OK (s.db.tx r)) : Inv d₀ (State.set { s with guard := g, invalidated := inv } r q) :=
  h.set h.db (fun _ _ => rfl) hq

/-- A request whose UPDATE executes has an open transaction that did nothing yet. -/
theorem Inv.tx_updating {d : Db} {n : ℕ} (h : Inv d₀ s) (hpc : (s.req r).pc = .updating)
    (hd : s.db.deduct r (s.req r).skuId = some (d, n)) : s.db.tx r = some ⟨none, none⟩ := by
  have hwork := (h.req r).work
  rw [hpc] at hwork
  cases hx : s.db.tx r with
  | none => simp [Db.deduct, hx] at hd
  | some x => rw [hwork x hx]

/-- A request whose INSERT executes has decremented its sku. -/
theorem Inv.tx_inserting {d : Db} {n : ℕ} (h : Inv d₀ s) (hpc : (s.req r).pc = .inserting)
    (hd : s.db.insertOrder r (s.req r).order = some (d, n)) :
    s.db.tx r = some ⟨some (s.req r).order.skuId, none⟩ := by
  have hwork := (h.req r).work
  rw [hpc] at hwork
  cases hx : s.db.tx r with
  | none => simp [Db.insertOrder, hx] at hd
  | some x => rw [hwork x hx]

/-- A transaction that can be committed is past the INSERT's callback: the others
keep a reference to it. -/
theorem Req.OK.ordered {q : Req} {x : Option Tx} (hq : q.OK x) (ha : q.pc.active = true)
    (hl : q.live.any Holder.hasTx = false) : q.pc = .ordered := by
  have hno : ∀ h ∈ q.pc.keeps, h.hasTx = false := by
    intro h hk
    have := List.any_eq_false.1 hl h (hq.keeps h hk)
    simpa using this
  cases hpc : q.pc <;> rw [hpc] at ha hno <;> simp [Pc.active, Pc.keeps, Holder.hasTx] at ha hno ⊢

/-- A request whose COMMIT executes has done a whole order. -/
theorem Inv.tx_commit {d : Db} (h : Inv d₀ s) (hpc : (s.req r).pc = .ordered)
    (hd : s.db.commit r = some d) :
    s.db.tx r = some ⟨some (s.req r).order.skuId, some (s.req r).order⟩ := by
  have hwork := (h.req r).work
  rw [hpc] at hwork
  cases hx : s.db.tx r with
  | none => simp [Db.commit, hx] at hd
  | some x => rw [hwork x hx]

theorem callStep_inv {u k : Int64} (h : Inv d₀ s) (hs : callStep s r u k = some t) : Inv d₀ t := by
  obtain ⟨hpc, hcase⟩ := callStep_cases hs
  have hold := h.req r
  have hx : s.db.tx r = none := by have := hold.work; rwa [hpc] at this
  have hcalled : ∀ token, (Req.called u k token).OK (s.db.tx r) := fun token =>
    ⟨by simp [Req.called, Pc.keeps], by simp [Req.called], rfl, hx⟩
  rcases hcase with ⟨-, rfl⟩ | ⟨-, g, got, -, rfl⟩
  · exact h.setReq (hcalled false)
  · cases got
    · exact h.setReq ⟨by simp [Req.turnedAway, Pc.keeps], by simp [Req.turnedAway], ⟨_, rfl⟩, trivial⟩
    · exact h.setReq (hcalled true)

theorem newTxStep_inv {ok : Bool} (h : Inv d₀ s) (hs : newTxStep s r ok = some t) : Inv d₀ t := by
  obtain ⟨hpc, hcase⟩ := newTxStep_cases hs
  have hold := h.req r
  have hx : s.db.tx r = none := by have := hold.work; rwa [hpc] at this
  have hsaid : (s.req r).answers = [] := by have := hold.said; rwa [hpc] at this
  rcases hcase with ⟨-, rfl⟩ | ⟨-, rfl⟩
  · refine h.set (Db.begin_ok h.db hx) (fun r' hr => Function.update_of_ne hr _ _) ⟨?_, ?_, hsaid, ?_⟩
    · simp [Req.opened, Pc.keeps]
    · simp [Req.opened]
    · simp [Req.opened, Pc.work, Db.begin]
  · refine h.setReq ⟨by simp [Req.answerAt, Req.answer, Pc.keeps], by simp [Req.answerAt, Req.answer], ?_, trivial⟩
    exact ⟨"DB_ERROR: no transaction (timeout)", by simp [Req.answerAt, Req.answer, hsaid]⟩

/-- A statement that affected no row changed nothing; else it is all its transaction adds. -/
theorem Inv.executed {d : Db} {n : ℕ} {p : Pc} {x : Tx} (h : Inv d₀ s) (hok : d.OK d₀)
    (hn : (n = 0 ∧ d = s.db) ∨ n = 1 ∧ d.tx = Function.update s.db.tx r (some x))
    (hq : ∀ tx : Option Tx, (n ≠ 0 → ∀ y ∈ tx, y = x) → ((s.req r).at p).OK tx) :
    Inv d₀ ({ s with db := d }.set r ((s.req r).at p)) := by
  rcases hn with ⟨rfl, rfl⟩ | ⟨rfl, htx⟩
  · exact h.setReq (hq _ fun h0 => absurd rfl h0)
  · refine h.set hok (fun r' hr => by rw [htx, Function.update_of_ne hr]) (hq _ fun _ y hy => ?_)
    rw [htx, Function.update_self] at hy
    exact (Option.some.inj hy).symm

theorem updateStep_inv {err : Option String} (h : Inv d₀ s) (hs : updateStep s r err = some t) :
    Inv d₀ t := by
  obtain ⟨hpc, hcase⟩ := updateStep_cases hs
  obtain ⟨hkeep, -, hsaid, -⟩ := h.req r
  rw [hpc] at hkeep hsaid
  rcases hcase with ⟨what, -, rfl⟩ | ⟨-, d, n, hd, rfl⟩
  · exact h.setReq ⟨hkeep, by simp [Req.at], hsaid, trivial⟩
  · obtain ⟨hok, -, -, hn⟩ := Db.deduct_ok h.db (h.tx_updating hpc hd) hd
    refine h.executed hok (hn.imp_left fun h0 => ⟨h0.1, h0.2.1⟩) fun tx hwork => ?_
    exact ⟨hkeep, by simp [Req.at], hsaid, hwork⟩

theorem insertStep_inv {err : Option String} (h : Inv d₀ s) (hs : insertStep s r err = some t) :
    Inv d₀ t := by
  obtain ⟨hpc, hcase⟩ := insertStep_cases hs
  obtain ⟨hkeep, -, hsaid, -⟩ := h.req r
  rw [hpc] at hkeep hsaid
  rcases hcase with ⟨what, -, rfl⟩ | ⟨-, d, n, hd, rfl⟩
  · exact h.setReq ⟨hkeep, by simp [Req.at], hsaid, trivial⟩
  · obtain ⟨hok, -, -, hn⟩ := Db.insertOrder_ok h.db (h.tx_inserting hpc hd) hd
    refine h.executed hok (hn.imp_left fun h0 => ⟨h0.1, h0.2.1⟩) fun tx hwork => ?_
    exact ⟨hkeep, by simp [Req.at], hsaid, hwork⟩

/-- A callback that answered and called `rollback()`. -/
theorem Inv.giveUp {a : Bool × String} {what : String} (h : Inv d₀ s) (hk : .commitCb ∈ (s.req r).live)
    (hsaid : (s.req r).answers = []) (ha : a = (false, what)) :
    Inv d₀ (s.set r ((s.req r).answerAt .rollingBack a)) :=
  h.setReq
    { keeps := by simpa [Req.answerAt, Req.answer, Pc.keeps] using hk
      bare := by simp [Req.answerAt, Req.answer]
      said := ⟨what, by simp [Req.answerAt, Req.answer, hsaid, ha]⟩
      work := trivial }

theorem onUpdateStep_inv (h : Inv d₀ s) (hs : onUpdateStep s r = some t) : Inv d₀ t := by
  obtain ⟨o, hpc, hcase⟩ := onUpdateStep_cases hs
  obtain ⟨hkeep, -, hsaid, hwork⟩ := h.req r
  rw [hpc] at hkeep hsaid hwork
  have hcb : .commitCb ∈ (s.req r).live := hkeep _ (by simp [Pc.keeps])
  rcases hcase with ⟨a, ha, rfl⟩ | ⟨ho, rfl⟩
  · obtain ⟨what, hwhat⟩ := statementAnswer_false (updateAnswer_eq o ▸ ha)
    exact h.giveUp hcb hsaid hwhat
  · obtain ⟨n, rfl, hn⟩ := statementAnswer_none (updateAnswer_eq o ▸ ho)
    exact h.setReq ⟨by simp [Req.deducted, Pc.keeps, hcb], by simp [Req.deducted], hsaid, hwork hn⟩

theorem onInsertStep_inv (h : Inv d₀ s) (hs : onInsertStep s r = some t) : Inv d₀ t := by
  obtain ⟨o, hpc, hcase⟩ := onInsertStep_cases hs
  obtain ⟨hkeep, -, hsaid, hwork⟩ := h.req r
  rw [hpc] at hkeep hsaid hwork
  have hcb : .commitCb ∈ (s.req r).live := hkeep _ (by simp [Pc.keeps])
  rcases hcase with ⟨a, ha, rfl⟩ | ⟨ho, rfl⟩
  · obtain ⟨what, hwhat⟩ := statementAnswer_false (insertAnswer_eq o ▸ ha)
    exact h.giveUp hcb hsaid hwhat
  · obtain ⟨n, rfl, hn⟩ := statementAnswer_none (insertAnswer_eq o ▸ ho)
    exact h.setReq ⟨by simp [Req.at, Pc.keeps, hcb], by simp [Req.at], hsaid, hwork hn⟩

/-- **COMMIT commits a whole order or nothing.** -/
theorem commitStep_inv {ok : Bool} (h : Inv d₀ s) (hs : commitStep s r ok = some t) : Inv d₀ t := by
  obtain ⟨hact, hlive, hcase⟩ := commitStep_cases hs
  have hpc := (h.req r).ordered hact hlive
  obtain ⟨hkeep, -, hsaid, -⟩ := h.req r
  rw [hpc] at hkeep hsaid
  rcases hcase with ⟨-, d, hd, rfl⟩ | ⟨-, rfl⟩
  · have hx0 := h.tx_commit hpc hd
    refine h.set (Db.commit_ok h.db hx0 hd) (fun r' hr => ?_) ⟨hkeep, by simp [Req.at], hsaid, trivial⟩
    rw [Db.commit_eq hx0] at hd
    rw [← Option.some.inj hd]
    exact Function.update_of_ne hr _ _
  · exact h.set (Db.rollback_ok h.db) (fun r' hr => Function.update_of_ne hr _ _)
      ⟨hkeep, by simp [Req.at], hsaid, trivial⟩

theorem onCommitStep_inv (h : Inv d₀ s) (hs : onCommitStep s r = some t) : Inv d₀ t := by
  obtain ⟨ok, inv, hpc, rfl⟩ := onCommitStep_cases hs
  have hsaid := (h.req r).said
  rw [hpc] at hsaid
  refine h.setReq ⟨by simp [Req.answerAt, Req.answer, Pc.keeps], by simp [Req.answerAt, Req.answer], ?_, trivial⟩
  change (s.req r).answers = [] at hsaid
  simp [Req.answerAt, Req.answer, Pc.said, hsaid]

theorem rollbackStep_inv (h : Inv d₀ s) (hs : rollbackStep s r = some t) : Inv d₀ t := by
  obtain ⟨hpc, rfl⟩ := rollbackStep_cases hs
  have hsaid := (h.req r).said
  rw [hpc] at hsaid
  exact h.set (Db.rollback_ok h.db) (fun r' hr => Function.update_of_ne hr _ _)
    ⟨by simp [Req.at, Pc.keeps], by simp [Req.at], hsaid, trivial⟩

/-- **Every step keeps the invariant.** -/
theorem step_inv (s : State) (e : Ev) (t : State) (h : Inv d₀ s) (hs : step s e = some t) :
    Inv d₀ t := by
  cases e with
  | call r u k => exact callStep_inv h hs
  | drop r hd =>
    obtain ⟨hl, g, rfl, -⟩ := dropStep_cases hs
    exact h.setReq ((h.req r).without hl)
  | newTx r ok => exact newTxStep_inv h hs
  | update r err => exact updateStep_inv h hs
  | onUpdate r => exact onUpdateStep_inv h hs
  | insert r err => exact insertStep_inv h hs
  | onInsert r => exact onInsertStep_inv h hs
  | commit r ok => exact commitStep_inv h hs
  | onCommit r => exact onCommitStep_inv h hs
  | rollback r => exact rollbackStep_inv h hs
  | dbCrash =>
    cases hs
    refine ⟨Db.abortAll_ok h.db, fun r => ?_⟩
    obtain ⟨hk, hb, hsaid, -⟩ := h.req r
    exact ⟨hk, hb, hsaid, Pc.work_none _ _⟩
  | crash =>
    cases hs
    exact ⟨Db.abortAll_ok h.db, fun r => (h.req r).crash⟩

end Seckill
