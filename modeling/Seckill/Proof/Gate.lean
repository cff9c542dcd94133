import Seckill.Lib.Held
import Seckill.Proof.Guard
import Seckill.Proof.Orders

/-!
# The in-flight gate of `doSeckill`

`Gate g₀ s`: the marks that are set are those of the requests that still hold
their token, and no two of these share a mark (`Marks.Held`). A request with an
open transaction holds its token: the transaction keeps the commit callback, which
has a copy. So no two requests of one user for one sku have open transactions, and
a mark nobody holds is clear (`doSeckill_gate`).

In `atomic` mode different keys can share a mark, so "nobody" means nobody with a
key on the same bit (`doSeckill_gate_shared`); in the other modes a key shares its
mark with itself only.
-/

namespace Seckill

variable {d₀ : Db} {g₀ : InflightGuard} {s t : State} {r : ℕ} {e : Ev}

/-- The mark a request holds, if it still holds its token. -/
def Req.mark (g₀ : InflightGuard) (q : Req) : Option ℕ := if q.holds then some (g₀.slot q.key) else none

/-- The marks are those of the token holders. `g₀` is the gate at the start. -/
structure Gate (g₀ : InflightGuard) (s : State) : Prop where
  shape : g₀.SameShape s.guard
  token : ∀ r, (s.req r).live ≠ [] → (s.req r).token = true
  held : Marks.Held g₀.slot (fun k => s.guard.marked k = true) fun r => (s.req r).mark g₀
  free : ∀ r, (s.req r).holds = true → (g₀.release (s.req r).key).isSome = true

theorem gate_init (stock₀ : Int64 → Option ℤ) (orders₀ : List Order) (mode : Mode) (shards bits : UInt64) :
    Gate (.new mode shards bits) (State.init stock₀ orders₀ (.new mode shards bits)) where
  shape := ⟨rfl, rfl, rfl, rfl, rfl⟩
  token r h := absurd rfl h
  held := by
    refine .empty (fun k => ?_) fun r => rfl
    rw [show (State.init stock₀ orders₀ (.new mode shards bits)).guard = .new mode shards bits from rfl,
      InflightGuard.marked_new]
    exact Bool.false_ne_true
  free r h := by cases h

theorem Req.holds_of_mem {q : Req} {c : Holder} (ht : q.token = true) (hm : c ∈ q.live) (hc : c.hasToken = true) :
    q.holds = true := by
  unfold Req.holds
  rw [ht, Bool.true_and, List.any_eq_true]
  exact ⟨c, hm, hc⟩

theorem mark_set (g₀ : InflightGuard) (s' : State) (r : ℕ) (q : Req) :
    (fun r' => ((s'.set r q).req r').mark g₀) =
      Function.update (fun r' => (s'.req r').mark g₀) r (q.mark g₀) := by
  funext r'
  rw [State.set_req, Function.update_apply]
  split <;> rfl

/-- A step of request `r` keeps the gate when the marks stay those of the holders. -/
theorem Gate.set {d : Db} {g : InflightGuard} {inv : List Int64} {q : Req} (h : Gate g₀ s)
    (hg : g₀.SameShape g) (ht : q.live ≠ [] → q.token = true)
    (hh : Marks.Held g₀.slot (fun k => g.marked k = true)
      (Function.update (fun r' => (s.req r').mark g₀) r (q.mark g₀)))
    (hf : q.holds = true → (g₀.release q.key).isSome = true) :
    Gate g₀ (State.set { s with db := d, guard := g, invalidated := inv } r q) where
  shape := hg
  token r' := by
    rw [State.set_req]
    by_cases h1 : r' = r
    · rw [if_pos h1]; exact ht
    · rw [if_neg h1]; exact h.token r'
  held := by rw [mark_set]; exact hh
  free r' := by
    rw [State.set_req]
    by_cases h1 : r' = r
    · rw [if_pos h1]; exact hf
    · rw [if_neg h1]; exact h.free r'

/-- A step of `r` that leaves the gate alone and `r` as much a holder as before. -/
theorem Gate.keep {d : Db} {inv : List Int64} {q : Req} (h : Gate g₀ s) (hk : q.key = (s.req r).key)
    (hh : q.holds = (s.req r).holds) (ht : q.live ≠ [] → q.token = true) :
    Gate g₀ (State.set { s with db := d, invalidated := inv } r q) := by
  have hmark : q.mark g₀ = (s.req r).mark g₀ := by unfold Req.mark; rw [hh, hk]
  refine h.set h.shape ht ?_ ?_
  · rw [hmark, Function.update_eq_self]; exact h.held
  · rw [hh, hk]; exact h.free r

theorem Gate.keep_at {d : Db} {inv : List Int64} (h : Gate g₀ s) (p : Pc) :
    Gate g₀ (State.set { s with db := d, invalidated := inv } r ((s.req r).at p)) :=
  h.keep rfl rfl (h.token r)

theorem Gate.keep_answerAt {d : Db} {inv : List Int64} (h : Gate g₀ s) (p : Pc) (a : Bool × String) :
    Gate g₀ (State.set { s with db := d, invalidated := inv } r ((s.req r).answerAt p a)) :=
  h.keep rfl rfl (h.token r)

/-- New closures of a request one of whose closures has its token already. -/
theorem Gate.keep_more {d : Db} {q : Req} {c : Holder} {more : List Holder} (h : Gate g₀ s)
    (hc : c ∈ (s.req r).live) (hct : c.hasToken = true) (hk : q.key = (s.req r).key)
    (ht : q.token = (s.req r).token) (hl : q.live = (s.req r).live ++ more) :
    Gate g₀ (State.set { s with db := d } r q) := by
  have htok : (s.req r).token = true := h.token r (List.ne_nil_of_mem hc)
  refine h.keep hk ?_ (fun _ => by rw [ht, htok])
  rw [Req.holds_of_mem htok hc hct]
  exact Req.holds_of_mem (by rw [ht, htok]) (by rw [hl]; exact List.mem_append_left _ hc) hct

/-- **A call enters exactly when its mark is clear**, and is then the mark's holder. -/
theorem callStep_gate {u k : Int64} (hm : g₀.mode ≠ .none) (hi : Inv d₀ s) (h : Gate g₀ s)
    (hs : callStep s r u k = some t) : Gate g₀ t := by
  obtain ⟨hpc, ⟨hnone, -⟩ | ⟨hmode, g, got, hg, rfl⟩⟩ := callStep_cases hs
  · rw [h.shape.mode] at hnone
    exact absurd hnone hm
  have hold : (s.req r).mark g₀ = none := by
    unfold Req.mark Req.holds
    rw [(hi.req r).bare (Or.inl hpc), Bool.false_and]
    rfl
  obtain ⟨hgot, hmarks⟩ := InflightGuard.tryAcquire_spec hmode hg
  rw [h.shape.slot] at hmarks
  have hmarks' : ∀ k', g.marked k' = true ↔
      s.guard.marked k' = true ∨ g₀.slot (makeKey u k) = g₀.slot k' := by
    intro k'
    rw [hmarks k', Bool.or_eq_true, decide_eq_true_iff]
  have hshape := h.shape.trans (InflightGuard.tryAcquire_shape hg)
  have hfree := InflightGuard.release_isSome hg
  rw [hshape.release_isSome] at hfree
  cases got with
  | false =>
    have hset : s.guard.marked (makeKey u k) = true := by simpa using hgot.symm
    refine h.set hshape (fun hl => absurd rfl hl) ?_ (fun hh => by cases hh)
    have hmark : (Req.turnedAway u k).mark g₀ = (s.req r).mark g₀ := hold.symm
    rw [if_neg Bool.false_ne_true, hmark, Function.update_eq_self]
    exact h.held.refuse hset hmarks'
  | true =>
    have hclear : ¬s.guard.marked (makeKey u k) = true := by
      intro hset
      rw [hset] at hgot
      cases hgot
    refine h.set hshape (fun _ => rfl) ?_ (fun _ => hfree)
    exact h.held.acquire hclear hold hmarks'

/-- **The last copy of the token to go clears the mark**, and no other copy does. -/
theorem dropStep_gate {c : Holder} (hm : g₀.mode ≠ .none) (h : Gate g₀ s)
    (hs : dropStep s r c = some t) : Gate g₀ t := by
  obtain ⟨-, g, rfl, hg⟩ := dropStep_cases hs
  have hlive : ((s.req r).without c).live ≠ [] → (s.req r).live ≠ [] := by
    intro hl hnil
    apply hl
    simp [Req.without, hnil]
  split at hg
  · rename_i hlast
    obtain ⟨h1, h2⟩ := hlast
    refine h.set (h.shape.trans (InflightGuard.release_shape hg)) (fun hl => h.token r (hlive hl)) ?_
      (fun hh => absurd hh h2)
    have hmode : s.guard.mode ≠ .none := by rw [h.shape.mode]; exact hm
    have hmark : ((s.req r).without c).mark g₀ = none := if_neg h2
    rw [hmark]
    refine h.held.release (if_pos h1) fun k' => ?_
    rw [InflightGuard.release_spec hmode hg k', h.shape.slot]
    simp
  · rename_i hlast
    subst hg
    refine h.keep rfl ?_ (fun hl => h.token r (hlive hl))
    cases hh : (s.req r).holds with
    | true => simpa [hh] using hlast
    | false =>
      -- without the token before, without it now
      unfold Req.holds at hh ⊢
      cases htok : (s.req r).token with
      | false => simp [Req.without, htok]
      | true =>
        rw [htok, Bool.true_and, List.any_eq_false] at hh
        rw [show ((s.req r).without c).token = true from htok, Bool.true_and, List.any_eq_false]
        intro x hx
        exact hh x (List.mem_filter.1 hx).1

/-- **Every step keeps the gate.** -/
theorem step_gate {mode : Mode} {shards bits : UInt64} (hm : mode ≠ .none) (hi : Inv d₀ s)
    (h : Gate (.new mode shards bits) s) (hs : step s e = some t) : Gate (.new mode shards bits) t := by
  have hm' : (InflightGuard.new mode shards bits).mode ≠ .none := by simpa using hm
  cases e with
  | call r u k => exact callStep_gate hm' hi h hs
  | drop r c => exact dropStep_gate hm' h hs
  | newTx r ok =>
    obtain ⟨hpc, ⟨-, rfl⟩ | ⟨-, rfl⟩⟩ := newTxStep_cases hs
    · have hc : .newTx ∈ (s.req r).live := (hi.req r).keeps _ (by simp [hpc, Pc.keeps])
      exact h.keep_more hc rfl rfl rfl rfl
    · exact h.keep_answerAt _ _
  | update r err =>
    obtain ⟨-, ⟨what, -, rfl⟩ | ⟨-, d, n, -, rfl⟩⟩ := updateStep_cases hs <;> exact h.keep_at _
  | onUpdate r =>
    obtain ⟨o, hpc, ⟨a, -, rfl⟩ | ⟨-, rfl⟩⟩ := onUpdateStep_cases hs
    · exact h.keep_answerAt _ _
    · have hc : .updOk ∈ (s.req r).live := (hi.req r).keeps _ (by simp [hpc, Pc.keeps])
      exact h.keep_more hc rfl rfl rfl rfl
  | insert r err =>
    obtain ⟨-, ⟨what, -, rfl⟩ | ⟨-, d, n, -, rfl⟩⟩ := insertStep_cases hs <;> exact h.keep_at _
  | onInsert r =>
    obtain ⟨o, -, ⟨a, -, rfl⟩ | ⟨-, rfl⟩⟩ := onInsertStep_cases hs
    · exact h.keep_answerAt _ _
    · exact h.keep_at _
  | commit r ok =>
    obtain ⟨-, -, ⟨-, d, -, rfl⟩ | ⟨-, rfl⟩⟩ := commitStep_cases hs <;> exact h.keep_at _
  | onCommit r =>
    obtain ⟨ok, inv, -, rfl⟩ := onCommitStep_cases hs
    exact h.keep_answerAt _ _
  | rollback r =>
    obtain ⟨-, rfl⟩ := rollbackStep_cases hs
    exact h.keep_at _
  | dbCrash => cases hs; exact ⟨h.shape, h.token, h.held, h.free⟩
  | crash =>
    cases hs
    -- the gate of a new process is the one this process started with
    have hnew : (crashStep s).guard = .new mode shards bits := by
      have := h.shape
      unfold crashStep
      simp only [this.mode, this.shards, this.bits]
      cases mode <;> rfl
    have hnone : ∀ r, ((crashStep s).req r).holds = false := by
      intro r
      simp [crashStep, Req.holds]
    refine ⟨by rw [hnew]; exact ⟨rfl, rfl, rfl, rfl, rfl⟩, fun r hl => absurd rfl hl, ?_, fun r hh => ?_⟩
    · refine .empty (fun k => ?_) fun r => ?_
      · rw [hnew, InflightGuard.marked_new]; exact Bool.false_ne_true
      · simp [Req.mark, hnone]
    · rw [hnone r] at hh; cases hh

/-- A request with an open transaction still holds its token. -/
theorem Gate.holds_of_open (h : Gate g₀ s) (hi : Inv d₀ s) (ho : (s.req r).pc.isOpen = true) :
    (s.req r).holds = true := by
  have hk : .commitCb ∈ (s.req r).pc.keeps := by
    cases hpc : (s.req r).pc <;> rw [hpc] at ho <;> simp [Pc.isOpen, Pc.active, Pc.keeps] at ho ⊢
  have hmem := (hi.req r).keeps _ hk
  exact Req.holds_of_mem (h.token r (List.ne_nil_of_mem hmem)) hmem rfl

theorem Gate.drop_isSome {c : Holder} (h : Gate g₀ s) (hc : c ∈ (s.req r).live)
    (hl : (s.req r).pc.lets c = true) : (step s (.drop r c)).isSome = true := by
  simp only [step, dropStep, if_pos (And.intro hc hl)]
  split
  · rename_i hlast
    rw [Option.isSome_map, h.shape.release_isSome]
    exact h.free r (Bool.and_eq_true_iff.1 hlast).1
  · rfl

/-- **The gate holds, and opens again.** In every reachable state no two requests
of one user for one sku have open transactions; a key's mark is clear when nothing
is left of the requests that share its mark; a frame or closure that returned or
was dropped can go. In the exact modes a key shares its mark with itself only. -/
theorem doSeckill_gate (mode : Mode) (shards bits : UInt64) (hm : mode ≠ .none)
    (stock₀ : Int64 → Option ℤ) (orders₀ : List Order) (es : List Ev) (s : State)
    (h : Machine.run step (State.init stock₀ orders₀ (.new mode shards bits)) es = some s) :
    (∀ r r', (s.req r).pc.isOpen = true → (s.req r').pc.isOpen = true →
        (s.req r).userId = (s.req r').userId → (s.req r).skuId = (s.req r').skuId → r = r') ∧
      (∀ key, (∀ r, s.guard.slot (s.req r).key = s.guard.slot key → (s.req r).live = []) →
        s.guard.marked key = false) ∧
      (∀ r c, c ∈ (s.req r).live → (s.req r).pc.lets c = true → (step s (.drop r c)).isSome = true) ∧
      (mode ≠ .atomic → ∀ k k', s.guard.slot k = s.guard.slot k' ↔ k = k') := by
  have hboth : Inv (.init stock₀ orders₀) s ∧ Gate (.new mode shards bits) s := by
    refine Machine.run_inv (I := fun s => Inv (.init stock₀ orders₀) s ∧ Gate (.new mode shards bits) s) ?_
      ⟨init_inv _ _ _, gate_init _ _ _ _ _⟩ h
    rintro u e v ⟨hu, hg⟩ huv
    exact ⟨step_inv u e v hu huv, step_gate hm hu hg huv⟩
  obtain ⟨hi, hg⟩ := hboth
  refine ⟨fun r r' ho ho' hu hk => ?_, fun key hkey => ?_, fun r c => hg.drop_isSome, fun ha k k' => ?_⟩
  · have hkeys : (s.req r').key = (s.req r).key := by unfold Req.key; rw [hu, hk]
    have h1 := hg.holds_of_open hi ho
    have h2 := hg.holds_of_open hi ho'
    refine hg.held.alone r r' _ (if_pos h1) ?_
    rw [← hkeys]
    exact if_pos h2
  · rw [hg.shape.slot] at hkey
    rw [Bool.eq_false_iff]
    refine hg.held.clear fun r hr => ?_
    unfold Req.mark at hr
    split at hr
    · rename_i hh
      have hnil := hkey r (Option.some.inj hr)
      unfold Req.holds at hh
      rw [hnil, List.any_nil, Bool.and_false] at hh
      cases hh
    · cases hr
  · refine InflightGuard.slot_exact_eq ?_ k'
    rw [hg.shape.mode, InflightGuard.new_mode]
    exact ha

/-- User `7` clicks twice: one of the two requests is open, the other one is not. -/
theorem doSeckill_gate_twice :
    ∃ s, Machine.run step (State.init oneItem [] (.new .mutex 64 65536))
        [.call 0 7 1, .newTx 0 true, .call 1 7 1] = some s ∧
      (s.req 0).pc.isOpen = true ∧ (s.req 1).answers = [(false, "DUPLICATE_ORDER")] ∧
      ∀ r, (s.req r).pc.isOpen = true → (s.req r).userId = 7 → (s.req r).skuId = 1 → r = 0 := by
  have hrun : (Machine.run step (State.init oneItem [] (.new .mutex 64 65536))
      [.call 0 7 1, .newTx 0 true, .call 1 7 1]).map
        (fun s => (s.req 0, (s.req 1).answers)) =
      some (⟨7, 1, true, [.call, .newTx, .txArg, .commitCb, .updOk, .updErr], .updating, []⟩,
        [(false, "DUPLICATE_ORDER")]) := rfl
  obtain ⟨s, hs, hv⟩ := Option.map_eq_some_iff.1 hrun
  obtain ⟨hreq, ha⟩ := Prod.mk.inj hv
  refine ⟨s, hs, by rw [hreq]; rfl, ha, fun r ho hu hk => ?_⟩
  have hgate := (doSeckill_gate .mutex 64 65536 (by decide) oneItem [] _ s hs).1
  exact hgate r 0 ho (by rw [hreq]; rfl) (by rw [hreq]; exact hu) (by rw [hreq]; exact hk)

/-- The bitmap does not tell users `138` and `442` apart: while a request of one
is in flight, the mark of the other, who has no request, is set. -/
theorem doSeckill_gate_shared :
    ∃ s, Machine.run step (State.init (fun _ => none) [] (.new .atomic 64 65536)) [.call 0 138 1] = some s ∧
      (∀ r, (s.req r).key = makeKey 442 1 → (s.req r).live = []) ∧
      s.guard.marked (makeKey 442 1) = true := by
  have hrun : (Machine.run step (State.init (fun _ => none) [] (.new .atomic 64 65536)) [.call 0 138 1]).map
      (fun s => (s.guard.marked (makeKey 442 1), (s.req 0).key)) = some (true, makeKey 138 1) := by
    decide +kernel
  obtain ⟨s, hs, hv⟩ := Option.map_eq_some_iff.1 hrun
  obtain ⟨hmark, hkey⟩ := Prod.mk.inj hv
  obtain ⟨s', hcall, hs'⟩ := Machine.run_cons.1 hs
  cases hs'
  simp only [step] at hcall
  refine ⟨s, hs, fun r hr => ?_, hmark⟩
  by_cases h0 : r = 0
  · rw [h0, hkey] at hr
    exact absurd hr (by decide +kernel)
  · -- no other request was called
    obtain ⟨-, ⟨-, heq⟩ | ⟨-, g, got, -, heq⟩⟩ := callStep_cases hcall
    · rw [heq, State.set_req, if_neg h0]; rfl
    · rw [heq, State.set_req, if_neg h0]; rfl

end Seckill
