import Seckill.Proof.Orders
import Seckill.Spec.Controllers

/-!
# What the answers of `doSeckill` rest on

`Learns` lists what one executed operation tells about a request: the gate that it is
in flight, the UPDATE that there is no stock, the INSERT that there is an order, the
COMMIT that it is done. A request's position remembers it (`Pc.Learned`), and every
answer that is no server error states it (`answer_rests`).
-/

namespace Seckill

open Machine

variable {s t : State} {e : Ev} {r : ℕ}

/-- The facts an order's answer can state. -/
inductive OrderFact
  | inFlight | noStock | ordered | committed

/-- Executing event `e` in state `s`, the gate or the database says this about request `r`. -/
inductive Learns (s : State) (r : ℕ) : Ev → OrderFact → Prop
  | inFlight {u k : Int64} {g : InflightGuard} (h : s.guard.tryAcquire (makeKey u k) = some (g, false)) :
    Learns s r (.call r u k) .inFlight
  | noStock {d : Db} (h : s.db.deduct r (s.req r).skuId = some (d, 0)) : Learns s r (.update r none) .noStock
  | ordered {d : Db} (h : s.db.insertOrder r (s.req r).order = some (d, 0)) : Learns s r (.insert r none) .ordered
  | committed {d : Db} (h : s.db.commit r = some d) : Learns s r (.commit r true) .committed

/-- **What each answer must rest on**: what the answering step says, or an earlier one. -/
inductive OrderRests (now past : OrderFact → Prop) : Bool → String → Prop
  | inFlight (h : now .inFlight) : OrderRests now past false "DUPLICATE_ORDER"
  | soldOut (h : past .noStock) : OrderRests now past false "SOLD_OUT"
  | duplicateOrder (h : past .ordered) : OrderRests now past false "DUPLICATE_ORDER"
  | ok (h : past .committed) : OrderRests now past true "OK"

/-- What a position remembers. -/
def Pc.Learned (past : OrderFact → Prop) : Pc → Prop
  | .updated (.ok 0) => past .noStock
  | .inserted (.ok 0) => past .ordered
  | .committed true => past .committed
  | _ => True

theorem Pc.Learned.mono {past past' : OrderFact → Prop} (h : ∀ f, past f → past' f) {p : Pc} (hp : p.Learned past) :
    p.Learned past' := by
  unfold Pc.Learned at hp ⊢
  split at hp
  · exact h _ hp
  · exact h _ hp
  · exact h _ hp
  · trivial

theorem learned_crash (past : OrderFact → Prop) {p : Pc} (hp : p.Learned past) : p.crash.Learned past := by
  cases p with
  | idle | refused | opening | noTx | updating | updated | inserting | inserted | ordered | committed | closed
  | rollingBack | rolledBack | dead => first | exact hp | trivial

/-- **A position remembers** what the steps so far and this one learned. -/
theorem learned_step {past past' : OrderFact → Prop} (hmono : ∀ f, past f → past' f)
    (hnow : ∀ f, Learns s r e f → past' f) (hs : step s e = some t) (h : (s.req r).pc.Learned past) :
    (t.req r).pc.Learned past' := by
  rcases step_move hs r with heq | hmove
  · rw [heq]
    exact h.mono hmono
  · generalize t.req r = q at hmove ⊢
    cases hmove with
    | dropped => exact h.mono hmono
    | updated hpc hd =>
      rename_i n
      cases n with
      | zero => exact hnow _ (.noStock hd)
      | succ n => trivial
    | inserted hpc hd =>
      rename_i n
      cases n with
      | zero => exact hnow _ (.ordered hd)
      | succ n => trivial
    | committed hpc hd => exact hnow _ (.committed hd)
    | crashed => exact (learned_crash past h).mono hmono
    | _ => trivial

/-- **The memory of a run.** -/
theorem run_learned {s₀ : State} (hidle : ∀ r, (s₀.req r).pc = .idle) {es : List Ev} (h : run step s₀ es = some s)
    (r : ℕ) : (s.req r).pc.Learned fun f => Past step s₀ es fun s e => Learns s r e f := by
  refine run_trace (I := fun es s => (s.req r).pc.Learned fun f => Past step s₀ es fun s e => Learns s r e f) ?_ ?_ h
  · rw [hidle r]
    trivial
  · intro es s e t hrun hlearned hstep
    exact learned_step (fun f hf => hf.snoc e) (fun f hf => past_last hrun hf) hstep hlearned

/-! ## The answers -/

/-- A request that answers where it goes on to `p`. -/
theorem answerAt_inj {q : Req} {p : Pc} {a b : Bool × String} (h : (q.answerAt p b).answers = q.answers ++ [a]) :
    b = a := List.singleton_inj.1 (List.append_cancel_left h)

theorem error_ne_duplicate (what : String) : "DB_ERROR: " ++ what ≠ "DUPLICATE_ORDER" := error_ne (by decide) what

/-- A database error is a server error. -/
theorem seckill_error (what : String) : (SeckillController.seckill false ("DB_ERROR: " ++ what)).status = 500 := by
  unfold SeckillController.seckill
  rw [if_neg Bool.false_ne_true, if_neg]
  · rfl
  · rintro (h | h)
    · exact error_ne_soldOut what h
    · exact error_ne_duplicate what h

/-- **An order's answer is a server error or rests on what was learned.** -/
theorem answer_rests {past : OrderFact → Prop} {ok : Bool} {msg : String} (hpast : (s.req r).pc.Learned past)
    (hs : step s e = some t) (ha : (t.req r).answers = (s.req r).answers ++ [(ok, msg)]) :
    500 ≤ (SeckillController.seckill ok msg).status ∨ OrderRests (Learns s r e) past ok msg := by
  have herror : ∀ what, (false, "DB_ERROR: " ++ what) = (ok, msg) →
      500 ≤ (SeckillController.seckill ok msg).status := by
    intro what heq
    cases heq
    rw [seckill_error]
  rcases step_move hs r with heq | hmove
  · rw [heq] at ha
    simp at ha
  · generalize t.req r = q at hmove ha
    cases hmove with
    | called got hpc => simp [Req.called] at ha
    | turnedAway hpc hg =>
      have hlast : [] ++ [(false, "DUPLICATE_ORDER")] = (s.req r).answers ++ [(ok, msg)] := ha
      cases List.singleton_inj.1 (List.append_inj_right' hlast rfl)
      exact Or.inr (.inFlight (.inFlight hg))
    | noTx hpc => exact Or.inl (herror "no transaction (timeout)" (answerAt_inj ha))
    | updateAnswered hpc hans =>
      rw [hpc] at hpast
      rw [updateAnswer_eq] at hans
      rcases statementAnswer_some hans with ⟨what, rfl, rfl⟩ | ⟨rfl, rfl⟩
      · exact Or.inl (herror what (answerAt_inj ha))
      · cases answerAt_inj ha
        exact Or.inr (.soldOut hpast)
    | insertAnswered hpc hans =>
      rw [hpc] at hpast
      rw [insertAnswer_eq] at hans
      rcases statementAnswer_some hans with ⟨what, rfl, rfl⟩ | ⟨rfl, rfl⟩
      · exact Or.inl (herror what (answerAt_inj ha))
      · cases answerAt_inj ha
        exact Or.inr (.duplicateOrder hpast)
    | closed hpc =>
      rename_i committed
      rw [hpc] at hpast
      have hcommit := answerAt_inj ha
      cases committed with
      | true =>
        cases hcommit
        exact Or.inr (.ok hpast)
      | false => exact Or.inl (herror "commit failed" hcommit)
    -- the other moves do not answer
    | dropped | opened | deducted | updateFailed | updated | insertFailed | inserted | ordered | committed |
      commitFailed | rolledBack | crashed =>
      have hlen := congrArg List.length ha
      simp [Req.without, Req.opened, Req.deducted, Req.at, Req.crashed] at hlen

end Seckill
