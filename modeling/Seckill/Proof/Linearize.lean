import Seckill.Proof.Duplicates
import Seckill.Spec.Shop

/-!
# The service is a shop

Requests run concurrently, in transactions that fail, roll back and die with the
process. Their clients see a shop that serves one customer after the other:
`doSeckill_linearizable`. An order is served at one step (`orderPoint`), with the
answer its client gets, and an order that was answered is served before any that was
called later.

What the gate turns away and what ends in a database error is not served, and changes
nothing (`point_skip`). From the shop alone follows that nothing is left when it says
so: `soldOut_final`.
-/

namespace Seckill

open Machine Lin

variable {d₀ : Db} {s t : State} {r : ℕ} {e : Ev}

/-! ## The shop -/

namespace Shop

variable {shop : Shop} {o : Order} {n : ℤ} {k : Int64}

theorem buy_soldOut (h : ∀ n, shop.stock o.skuId = some n → n ≤ 0) : shop.buy o = (shop, (false, "SOLD_OUT")) := by
  unfold buy
  split
  next n hn => rw [if_neg (Int.not_lt.2 (h n hn))]
  next => rfl

theorem buy_duplicate (hn : shop.stock o.skuId = some n) (hpos : 0 < n) (ho : o ∈ shop.orders) :
    shop.buy o = (shop, (false, "DUPLICATE_ORDER")) := by
  simp [buy, hn, hpos, ho]

theorem buy_ok (hn : shop.stock o.skuId = some n) (hpos : 0 < n) (ho : o ∉ shop.orders) :
    shop.buy o =
      (⟨Function.update shop.stock o.skuId (some (n - 1)), shop.orders ++ [o]⟩, (true, "OK")) := by
  simp [buy, hn, hpos, ho]

/-- A sku is sold out: there is none of it. -/
def SoldOut (shop : Shop) (k : Int64) : Prop := ∀ n, shop.stock k = some n → n ≤ 0

theorem soldOut_of_buy (h : (shop.buy o).2 = (false, "SOLD_OUT")) : shop.SoldOut o.skuId := by
  intro n hn
  by_contra hle
  have hpos : 0 < n := Int.not_le.1 hle
  by_cases ho : o ∈ shop.orders
  · rw [buy_duplicate hn hpos ho] at h
    have hmsg : "DUPLICATE_ORDER" = "SOLD_OUT" := congrArg Prod.snd h
    exact absurd hmsg (by decide)
  · rw [buy_ok hn hpos ho] at h
    have hok : true = false := congrArg Prod.fst h
    cases hok

/-- **Sold out is for good.** -/
theorem buy_keeps_soldOut (h : shop.SoldOut k) : (shop.buy o).1.SoldOut k := by
  by_cases hk : o.skuId = k
  · rw [buy_soldOut (hk ▸ h)]
    exact h
  · unfold buy
    split
    next n hn =>
      split
      · split
        · exact h
        · intro m hm
          simp only [Function.update_of_ne (Ne.symm hk)] at hm
          exact h m hm
      · exact h
    next => exact h

end Shop

/-! ## What happens at a point -/

/-- **A COMMIT comes after the INSERT's callback.** -/
theorem commit_ordered {ok : Bool} (hi : Inv d₀ s) (hs : step s (.commit r ok) = some t) : (s.req r).pc = .ordered := by
  obtain ⟨hact, hlive, -⟩ := commitStep_cases hs
  exact (hi.req r).ordered hact hlive

/-- An UPDATE that was executed. -/
theorem update_executed {d : Db} {n : ℕ} (hs : step s (.update r none) = some t)
    (hd : s.db.deduct r (s.req r).skuId = some (d, n)) :
    (s.req r).pc = .updating ∧ t = { s with db := d }.set r ((s.req r).at (.updated (.ok n))) := by
  have hupdate : updateStep s r none = some t := hs
  obtain ⟨hpc, ⟨what, he, -⟩ | ⟨-, d', n', hd', ht⟩⟩ := updateStep_cases hupdate
  · cases he
  · cases hd.symm.trans hd'
    exact ⟨hpc, ht⟩

/-- An INSERT that was executed. -/
theorem insert_executed {d : Db} {n : ℕ} (hs : step s (.insert r none) = some t)
    (hd : s.db.insertOrder r (s.req r).order = some (d, n)) :
    (s.req r).pc = .inserting ∧ t = { s with db := d }.set r ((s.req r).at (.inserted (.ok n))) := by
  have hinsert : insertStep s r none = some t := hs
  obtain ⟨hpc, ⟨what, he, -⟩ | ⟨-, d', n', hd', ht⟩⟩ := insertStep_cases hinsert
  · cases he
  · cases hd.symm.trans hd'
    exact ⟨hpc, ht⟩

/-- The points, by the operation that is executed there. -/
inductive Served (s : State) (r : ℕ) : Ev → Bool × String → Prop
  | soldOut {d : Db} (hd : s.db.deduct r (s.req r).skuId = some (d, 0)) :
    Served s r (.update r none) (false, "SOLD_OUT")
  | duplicate {d : Db} (hd : s.db.insertOrder r (s.req r).order = some (d, 0)) :
    Served s r (.insert r none) (false, "DUPLICATE_ORDER")
  | ok : Served s r (.commit r true) (true, "OK")

theorem orderPoint_eq_some {p : Entry ℕ Order (Bool × String)} :
    orderPoint s e = some p ↔ Served s p.caller e p.answer ∧ p.op = (s.req p.caller).order := by
  constructor
  · intro h
    unfold orderPoint at h
    split at h
    · split at h
      next r d hd =>
        cases h
        exact ⟨.soldOut hd, rfl⟩
      next => cases h
    · split at h
      next r d hd =>
        cases h
        exact ⟨.duplicate hd, rfl⟩
      next => cases h
    · cases h
      exact ⟨.ok, rfl⟩
    · cases h
  · obtain ⟨r, o, a⟩ := p
    rintro ⟨hserved, hop⟩
    simp only at hserved hop
    rw [hop]
    cases hserved with
    | soldOut hd => simp [orderPoint, hd]
    | duplicate hd => simp [orderPoint, hd]
    | ok => rfl

/-- **At its point an order is served by the shop**, with the answer it will get. -/
theorem point_apply {a : Bool × String} (hi : Inv d₀ s) (hs : step s e = some t) (h : Served s r e a) :
    s.shop.buy (s.req r).order = (t.shop, a) := by
  cases h with
  | soldOut hd =>
    obtain ⟨hpc, rfl⟩ := update_executed hs hd
    obtain ⟨-, hstock, horders, ⟨-, -, hle⟩ | ⟨h1, -⟩⟩ := Db.deduct_ok hi.db (hi.tx_updating hpc hd) hd
    · rw [Shop.buy_soldOut hle]
      simp only [State.shop, State.set_db, hstock, horders]
    · cases h1
  | duplicate hd =>
    obtain ⟨hpc, rfl⟩ := insert_executed hs hd
    have htx := hi.tx_inserting hpc hd
    obtain ⟨-, hstock, horders, ⟨-, -, hmem⟩ | ⟨h1, -⟩⟩ := Db.insertOrder_ok hi.db htx hd
    · -- its UPDATE has the lock of a row with stock
      obtain ⟨n, hn, hpos⟩ := hi.db.left r _ _ htx rfl
      rw [Shop.buy_duplicate hn hpos hmem]
      simp only [State.shop, State.set_db, hstock, horders]
    · cases h1
  | ok =>
    obtain ⟨-, -, ⟨-, d, hd, rfl⟩ | ⟨h0, -⟩⟩ := commitStep_cases hs
    · have htx := hi.tx_commit (commit_ordered hi hs) hd
      obtain ⟨n, hn, hpos⟩ := hi.db.left r _ _ htx rfl
      obtain ⟨-, hnew⟩ := hi.db.fresh r _ _ htx rfl
      rw [Shop.buy_ok hn hpos hnew]
      rw [Db.commit_eq htx, hn] at hd
      simp only [State.shop, State.set_db, ← Option.some.inj hd, Option.map_some]
    · cases h0

/-- **Any other step leaves the shop alone.** -/
theorem point_skip (hi : Inv d₀ s) (hs : step s e = some t) (h : orderPoint s e = none) : t.shop = s.shop := by
  rcases step_tables hi hs with ⟨hstock, horders⟩ | ⟨r, rfl, -⟩
  · unfold State.shop
    rw [hstock, horders]
  · cases h

/-! ## A request and its point -/

/-- The request was served with the answer `a`, and has not been answered otherwise. -/
def Pc.serves (answers : List (Bool × String)) (a : Bool × String) : Pc → Prop
  | .updated o => updateAnswer o = some a
  | .inserted o => insertAnswer o = some a
  | .committed ok | .closed ok => commitAnswer ok = a
  | .rollingBack | .rolledBack => answers = [a]
  | .dead _ => ∀ b ∈ answers, b = a
  | _ => False

/-- The request `p.caller` is the one of entry `p`, and is served. -/
def State.serves (s : State) (p : Entry ℕ Order (Bool × String)) : Prop :=
  (s.req p.caller).order = p.op ∧ (s.req p.caller).pc.serves (s.req p.caller).answers p.answer

theorem Pc.not_idle_of_serves {p : Pc} {answers : List (Bool × String)} {a : Bool × String} (h : p.serves answers a) :
    p ≠ .idle := by
  rintro rfl
  exact h

/-- A served request gets no other answer. -/
theorem Req.OK.answers_of_serves {q : Req} {x : Option Tx} {a b : Bool × String} (hq : q.OK x)
    (h : q.pc.serves q.answers a) (hb : b ∈ q.answers) : b = a := by
  have hsaid := hq.said
  cases hpc : q.pc <;> rw [hpc] at hsaid h <;> simp only [Pc.said, Pc.serves] at hsaid h
  case closed ok =>
    rw [hsaid, List.mem_singleton] at hb
    rw [hb, h]
  case dead ok => exact h b hb
  case rollingBack | rolledBack =>
    rw [h] at hb
    exact List.mem_singleton.1 hb
  all_goals
    rw [hsaid] at hb
    cases hb

/-- **Who was served stays served**, with the same answer. -/
theorem step_serves {p : Entry ℕ Order (Bool × String)} (hi : Inv d₀ s) (hs : step s e = some t) (h : s.serves p) :
    t.serves p := by
  obtain ⟨r, o, a⟩ := p
  obtain ⟨horder, h⟩ := h
  refine ⟨(step_later hs (Pc.not_idle_of_serves h)).order.trans horder, ?_⟩
  have hsaid := (hi.req r).said
  have hcommit : ∀ ok, e = .commit r ok → (s.req r).pc = .ordered := by
    rintro ok rfl
    exact commit_ordered hi hs
  simp only at h ⊢
  rcases step_move hs r with heq | hmove
  · rw [heq]
    exact h
  · generalize t.req r = q at hmove ⊢
    cases hmove with
    | dropped hd => exact h
    | updateAnswered hpc ha | insertAnswered hpc ha =>
      rw [hpc] at h hsaid
      have hanswers : (s.req r).answers = [] := hsaid
      have hanswer := Option.some.inj (ha.symm.trans h)
      simp [Req.answerAt, Req.answer, Pc.serves, hanswers, hanswer]
    | deducted hpc ha | ordered hpc ha =>
      rw [hpc] at h
      cases ha.symm.trans h
    | closed hpc =>
      rw [hpc] at h
      exact h
    | rolledBack hpc =>
      rw [hpc] at h
      exact h
    | committed | commitFailed =>
      rw [hcommit _ rfl] at h
      exact h.elim
    | crashed =>
      -- the answer may be lost, but is no other
      have hanswers := fun b => (hi.req r).answers_of_serves (b := b) h
      cases hpc : (s.req r).pc <;> rw [hpc] at h <;> simp only [Req.crashed, hpc, Pc.crash, Pc.serves] at h ⊢
      all_goals first
        | exact h
        | exact hanswers
    | called got hpc | turnedAway hpc | opened hpc | noTx hpc | updateFailed what hpc | updated hpc
    | insertFailed what hpc | inserted hpc =>
      rw [hpc] at h
      exact h.elim

/-- **A request is served at its point**, and was not before. -/
theorem point_serves {a : Bool × String} (hi : Inv d₀ s) (hs : step s e = some t) (h : Served s r e a) :
    t.serves ⟨r, (s.req r).order, a⟩ ∧ (s.req r).answers = [] ∧ (s.req r).pc ≠ .idle ∧
      ∀ b, ¬(s.req r).pc.serves (s.req r).answers b := by
  have hsaid := (hi.req r).said
  cases h with
  | soldOut hd =>
    obtain ⟨hpc, rfl⟩ := update_executed hs hd
    rw [hpc] at hsaid ⊢
    refine ⟨⟨?_, ?_⟩, hsaid, by simp, fun b hb => hb⟩
    · rw [State.set_req, if_pos rfl]; rfl
    · simp [Req.at, Pc.serves, updateAnswer]
  | duplicate hd =>
    obtain ⟨hpc, rfl⟩ := insert_executed hs hd
    rw [hpc] at hsaid ⊢
    refine ⟨⟨?_, ?_⟩, hsaid, by simp, fun b hb => hb⟩
    · rw [State.set_req, if_pos rfl]; rfl
    · simp [Req.at, Pc.serves, insertAnswer]
  | ok =>
    have hpc := commit_ordered hi hs
    obtain ⟨-, -, ⟨-, d, hd, rfl⟩ | ⟨h0, -⟩⟩ := commitStep_cases hs
    · rw [hpc] at hsaid ⊢
      refine ⟨⟨?_, ?_⟩, hsaid, by simp, fun b hb => hb⟩
      · rw [State.set_req, if_pos rfl]; rfl
      · simp [Req.at, Pc.serves, commitAnswer]
    · cases h0

/-- **The points of the service**, seen as a shop. -/
theorem order_points (d₀ : Db) : Points step Shop.buy State.shop orderPoint (Inv d₀) State.serves where
  inv := step_inv
  skip s e t hi hs := point_skip hi hs
  apply s e t p hi hs hp := by
    obtain ⟨hserved, hop⟩ := orderPoint_eq_some.1 hp
    rw [hop]
    exact point_apply hi hs hserved
  point s e t p hi hs hp := by
    obtain ⟨r, o, a⟩ := p
    obtain ⟨hserved, hop⟩ := orderPoint_eq_some.1 hp
    simp only at hserved hop ⊢
    rw [hop]
    obtain ⟨hserves, -, -, hnot⟩ := point_serves hi hs hserved
    refine ⟨hserves, ?_⟩
    rintro ⟨r', o', b⟩ rfl ⟨-, hb⟩
    exact hnot b hb
  bound s e t p := step_serves

/-! ## The history of a run -/

/-- What an answer that is no server error rests on is the request's point, unless the gate answered. -/
theorem served_of_rests {s₀ : State} {es : List Ev} {now : OrderFact → Prop} {ok : Bool} {msg : String}
    (h : OrderRests now (fun f => Past step s₀ es fun s e => Learns s r e f) ok msg) (hnow : ¬now .inFlight) :
    Past step s₀ es fun s e => Served s r e (ok, msg) := by
  have hpast : ∀ {f a}, (∀ s e, Learns s r e f → Served s r e a) → Past step s₀ es (fun s e => Learns s r e f) →
      Past step s₀ es fun s e => Served s r e a := by
    rintro f a himp ⟨s, e, htakes, hlearns⟩
    exact ⟨s, e, htakes, himp s e hlearns⟩
  cases h with
  | inFlight h => exact absurd h hnow
  | soldOut h =>
    refine hpast (fun s e hl => ?_) h
    cases hl with
    | noStock hd => exact .soldOut hd
  | duplicateOrder h =>
    refine hpast (fun s e hl => ?_) h
    cases hl with
    | ordered hd => exact .duplicate hd
  | ok h =>
    refine hpast (fun s e hl => ?_) h
    cases hl with
    | committed hd => exact .ok

/-- A step that adds no answer, or one. -/
theorem step_answers (hi : Inv d₀ s) (hs : step s e = some t) (r : ℕ) :
    (t.req r).answers = (s.req r).answers ∨ ∃ ok msg, (t.req r).answers = (s.req r).answers ++ [(ok, msg)] := by
  have hsaid := (hi.req r).said
  rcases step_move hs r with heq | hmove
  · rw [heq]
    exact Or.inl rfl
  · generalize t.req r = q at hmove ⊢
    cases hmove with
    | called got hpc =>
      rw [hpc] at hsaid
      exact Or.inl hsaid.symm
    | turnedAway hpc =>
      rw [hpc] at hsaid
      have hnone : (s.req r).answers = [] := hsaid
      exact Or.inr ⟨_, _, by rw [hnone]; rfl⟩
    | noTx | updateAnswered | insertAnswered | closed => exact Or.inr ⟨_, _, rfl⟩
    | dropped | opened | deducted | updateFailed | updated | insertFailed | inserted | ordered | committed |
      commitFailed | rolledBack | crashed => exact Or.inl rfl

/-- The gate has one answer. -/
theorem refused_answer {stock₀ : Int64 → Option ℤ} {orders₀ : List Order} {guard : InflightGuard} {es : List Ev}
    (h : run step (State.init stock₀ orders₀ guard) es = some s) (hr : (s.req r).pc = .refused) :
    (s.req r).answers = [(false, "DUPLICATE_ORDER")] := by
  refine run_inv (I := fun s => (s.req r).pc = .refused → (s.req r).answers = [(false, "DUPLICATE_ORDER")])
    ?_ (fun hidle => by cases hidle) h hr
  intro s e t hold hs href
  rcases step_move hs r with heq | hmove
  · rw [heq] at href ⊢
    exact hold href
  · generalize t.req r = q at hmove href ⊢
    cases hmove with
    | turnedAway => rfl
    | dropped hd => exact hold href
    | crashed =>
      refine hold ?_
      cases hpc : (s.req r).pc <;> simp [Req.crashed, hpc, Pc.crash] at href ⊢
    | called | opened | noTx | updateFailed | updated | updateAnswered | deducted | insertFailed | inserted |
      insertAnswered | ordered | committed | commitFailed | closed | rolledBack => cases href

/-- The gate's answer turns a request away. -/
theorem refused_of_inFlight {a : Bool × String} (hs : step s e = some t)
    (hnew : (t.req r).answers = (s.req r).answers ++ [a]) (h : Learns s r e .inFlight) : (t.req r).pc = .refused := by
  cases h with
  | inFlight hg =>
    rcases step_move hs r with heq | hmove
    · rw [heq] at hnew
      simp at hnew
    · generalize t.req r = q at hmove hnew ⊢
      cases hmove with
      | called got hpc => simp [Req.called] at hnew
      | turnedAway hpc hg => rfl

/-- **Every answer that is no server error was served**, unless the gate gave it. -/
theorem answers_served {stock₀ : Int64 → Option ℤ} {orders₀ : List Order} {guard : InflightGuard} {es : List Ev}
    (h : run step (State.init stock₀ orders₀ guard) es = some s) (r : ℕ) :
    ∀ a ∈ (s.req r).answers, (SeckillController.seckill a.1 a.2).status < 500 → (s.req r).pc ≠ .refused →
      Past step (State.init stock₀ orders₀ guard) es fun s e => Served s r e a := by
  refine run_trace (I := fun es s => ∀ a ∈ (s.req r).answers, (SeckillController.seckill a.1 a.2).status < 500 →
    (s.req r).pc ≠ .refused → Past step (State.init stock₀ orders₀ guard) es fun s e => Served s r e a) ?_ ?_ h
  · intro a ha
    cases ha
  · intro es s e t hrun hserved hs a ha hstatus href
    have hi : Inv (.init stock₀ orders₀) s := run_inv step_inv (init_inv stock₀ orders₀ guard) hrun
    have hold : a ∈ (s.req r).answers → Past step (State.init stock₀ orders₀ guard) (es ++ [e]) fun s e => Served s r e a :=
      fun hmem => (hserved a hmem hstatus fun hpc => href (step_refused hs hpc)).snoc e
    rcases step_answers hi hs r with hsame | ⟨ok, msg, hnew⟩
    · exact hold (hsame ▸ ha)
    · rw [hnew, List.mem_append, List.mem_singleton] at ha
      rcases ha with ha | rfl
      · exact hold ha
      rcases answer_rests (run_learned (fun _ => rfl) hrun r) hs hnew with herror | hrests
      · exact absurd hstatus (Nat.not_lt.2 herror)
      · exact (served_of_rests hrests fun hnow => href (refused_of_inFlight hs hnew hnow)).snoc e

/-- **An answer is in the history**, or a server error, or the gate's. -/
theorem answered {stock₀ : Int64 → Option ℤ} {orders₀ : List Order} {guard : InflightGuard} {es : List Ev}
    (h : run step (State.init stock₀ orders₀ guard) es = some s) {a : Bool × String} (ha : a ∈ (s.req r).answers) :
    ⟨r, (s.req r).order, a⟩ ∈ orderHistory (State.init stock₀ orders₀ guard) es ∨
      500 ≤ (SeckillController.seckill a.1 a.2).status ∨
        (s.req r).pc = .refused ∧ a = (false, "DUPLICATE_ORDER") := by
  by_cases hstatus : 500 ≤ (SeckillController.seckill a.1 a.2).status
  · exact Or.inr (Or.inl hstatus)
  by_cases href : (s.req r).pc = .refused
  · rw [refused_answer h href] at ha
    exact Or.inr (Or.inr ⟨href, List.mem_singleton.1 ha⟩)
  obtain ⟨u, e, htakes, hserved⟩ := answers_served h r a ha (Nat.not_le.1 hstatus) href
  have hmem : (⟨r, (u.req r).order, a⟩ : Entry ℕ Order (Bool × String)) ∈
      orderHistory (State.init stock₀ orders₀ guard) es :=
    mem_collect.2 ⟨u, e, htakes, orderPoint_eq_some.2 ⟨hserved, rfl⟩⟩
  have hserves := (order_points (.init stock₀ orders₀)).bound_of_mem (init_inv stock₀ orders₀ guard) h _ hmem
  rw [hserves.1]
  exact Or.inl hmem

/-- **The service is linearizable.** The orders it served, in the order of their
points, are a sequential run of the shop from the first tables to these, with the
same answers; no request is served twice; an answer is that of the shop, or a server
error, or the gate's; and a request that was answered is served before any that is
called later. -/
theorem doSeckill_linearizable (stock₀ : Int64 → Option ℤ) (orders₀ : List Order) (guard : InflightGuard)
    (es : List Ev) (s : State) (h : run step (State.init stock₀ orders₀ guard) es = some s) :
    let history := orderHistory (State.init stock₀ orders₀ guard) es
    play Shop.buy ⟨stock₀, orders₀⟩ (history.map Entry.op) = (s.shop, history.map Entry.answer) ∧
      (history.map Entry.caller).Nodup ∧
      (∀ p ∈ history, (s.req p.caller).order = p.op ∧ ∀ a ∈ (s.req p.caller).answers, a = p.answer) ∧
      (∀ r, ∀ a ∈ (s.req r).answers, ⟨r, (s.req r).order, a⟩ ∈ history ∨
        500 ≤ (SeckillController.seckill a.1 a.2).status ∨
          (s.req r).pc = .refused ∧ a = (false, "DUPLICATE_ORDER")) ∧
      ∀ pre post u, es = pre ++ post → run step (State.init stock₀ orders₀ guard) pre = some u →
        ∃ later, history = orderHistory (State.init stock₀ orders₀ guard) pre ++ later ∧
          (∀ p ∈ orderHistory (State.init stock₀ orders₀ guard) pre, (u.req p.caller).pc ≠ .idle) ∧
          ∀ p ∈ later, (u.req p.caller).answers = [] := by
  have hpoints := order_points (.init stock₀ orders₀)
  have h₀ := init_inv stock₀ orders₀ guard
  refine ⟨hpoints.play_eq h₀ h, hpoints.callers_nodup h₀ h, fun p hp => ?_, fun r a ha => ?_, ?_⟩
  · obtain ⟨horder, hserves⟩ := hpoints.bound_of_mem h₀ h p hp
    exact ⟨horder, fun a => ((run_inv step_inv h₀ h).req p.caller).answers_of_serves hserves⟩
  · exact answered h ha
  · rintro pre post u rfl hu
    refine ⟨collect step orderPoint u post, collect_append hu, fun p hp => ?_, fun p hp => ?_⟩
    · exact Pc.not_idle_of_serves (hpoints.bound_of_mem h₀ hu p hp).2
    · -- at its point it had no answer, and before that it had none
      obtain ⟨mid, e, rest, v, w, rfl, hv, hpoint, hw, -⟩ := (mem_collect.1 hp).split (run_rest h hu)
      have hiu : Inv (.init stock₀ orders₀) u := run_inv step_inv h₀ hu
      have hiv : Inv (.init stock₀ orders₀) v := run_inv step_inv hiu hv
      have hanswers := (point_serves hiv hw (orderPoint_eq_some.1 hpoint).1).2.1
      refine List.eq_nil_iff_forall_not_mem.2 fun a ha => ?_
      have hlater := run_answers hiu hv ha
      rw [hanswers] at hlater
      cases hlater

/-- The item goes to user `7`, user `8` comes too late: so does the shop serve them. -/
theorem doSeckill_linearizable_twoUsers :
    ∃ s, run step (State.init oneItem [] (.new .mutex 64 65536)) twoUsers = some s ∧
      orderHistory (State.init oneItem [] (.new .mutex 64 65536)) twoUsers =
        [⟨0, ⟨7, 1⟩, (true, "OK")⟩, ⟨1, ⟨8, 1⟩, (false, "SOLD_OUT")⟩] ∧
      play Shop.buy ⟨oneItem, []⟩ [⟨7, 1⟩, ⟨8, 1⟩] = (s.shop, [(true, "OK"), (false, "SOLD_OUT")]) := by
  have hrun : (run step (State.init oneItem [] (.new .mutex 64 65536)) twoUsers).isSome = true := rfl
  obtain ⟨s, hs⟩ := Option.isSome_iff_exists.1 hrun
  have hhistory : orderHistory (State.init oneItem [] (.new .mutex 64 65536)) twoUsers =
      [⟨0, ⟨7, 1⟩, (true, "OK")⟩, ⟨1, ⟨8, 1⟩, (false, "SOLD_OUT")⟩] := rfl
  have hplay := (doSeckill_linearizable oneItem [] _ _ s hs).1
  rw [hhistory] at hplay
  exact ⟨s, hs, hhistory, hplay⟩

/-- In a run of the shop whoever is told so leaves it sold out. -/
theorem Shop.play_soldOut {shop shop' : Shop} {history : List (Entry ℕ Order (Bool × String))}
    (h : play Shop.buy shop (history.map Entry.op) = (shop', history.map Entry.answer)) {r : ℕ} {o : Order}
    (hmem : ⟨r, o, (false, "SOLD_OUT")⟩ ∈ history) : shop'.SoldOut o.skuId := by
  obtain ⟨before, after, rfl⟩ := List.append_of_mem hmem
  simp only [List.map_append, List.map_cons] at h
  obtain ⟨hanswer, rfl⟩ := play_answer h (by simp only [List.length_map])
  refine play_inv (P := fun shop : Shop => shop.SoldOut o.skuId) (fun shop o h => Shop.buy_keeps_soldOut h) ?_ _
  exact Shop.buy_keeps_soldOut (Shop.soldOut_of_buy hanswer)

/-- **Sold out means sold.** -/
theorem soldOut_final (stock₀ : Int64 → Option ℤ) (orders₀ : List Order) (guard : InflightGuard)
    (es : List Ev) (s : State) (h : run step (State.init stock₀ orders₀ guard) es = some s) (r : ℕ)
    (hr : (false, "SOLD_OUT") ∈ (s.req r).answers) (n : ℤ) (hn : stock₀ (s.req r).skuId = some n) (hpos : 0 ≤ n) :
    s.db.stock (s.req r).skuId = some 0 ∧
      (s.db.sold (s.req r).skuId : ℤ) = orders₀.countP (·.skuId = (s.req r).skuId) + n := by
  have h₀ := init_inv stock₀ orders₀ guard
  have hok := (run_inv step_inv h₀ h).db
  have hplay := (order_points (.init stock₀ orders₀)).play_eq h₀ h
  have hmem : ⟨r, (s.req r).order, (false, "SOLD_OUT")⟩ ∈ orderHistory (State.init stock₀ orders₀ guard) es := by
    rcases answered h hr with hmem | hstatus | ⟨-, hgate⟩
    · exact hmem
    · exact absurd hstatus (by decide)
    · exact absurd (congrArg Prod.snd hgate) (by decide)
  have hsold : s.shop.SoldOut (s.req r).skuId := Shop.play_soldOut hplay hmem
  have hstock := hok.stock (s.req r).skuId
  simp only [Db.init, Db.sold, hn, Option.map_some] at hstock
  have hle := hsold _ hstock
  have hge : 0 ≤ n + (orders₀.countP (·.skuId = (s.req r).skuId) : ℤ) - s.db.orders.countP (·.skuId = (s.req r).skuId) := by
    rcases hok.nonneg _ _ hstock with hge | hsame
    · exact hge
    · have hfirst : some n = some _ := hn.symm.trans hsame
      rw [← Option.some.inj hfirst]
      exact hpos
  have hzero := Int.le_antisymm hle hge
  refine ⟨by rw [hstock, hzero], ?_⟩
  simp only [Db.sold]
  omega

/-- User `8` was told that the one item is sold, and it is. -/
theorem soldOut_final_twoUsers :
    ∃ s, run step (State.init oneItem [] (.new .mutex 64 65536)) twoUsers = some s ∧
      s.db.stock 1 = some 0 ∧ (s.db.sold 1 : ℤ) = 0 + 1 := by
  have hrun : (run step (State.init oneItem [] (.new .mutex 64 65536)) twoUsers).map
      (fun s => ((s.req 1).answers, (s.req 1).skuId)) = some ([(false, "SOLD_OUT")], 1) := rfl
  obtain ⟨s, hs, hv⟩ := Option.map_eq_some_iff.1 hrun
  obtain ⟨ha, hk⟩ := Prod.mk.inj hv
  have hfinal := soldOut_final oneItem [] _ _ s hs 1 (by rw [ha]; exact List.mem_singleton_self _) 1
    (by rw [hk]; rfl) (by decide)
  rw [hk] at hfinal
  exact ⟨s, hs, hfinal⟩

end Seckill
