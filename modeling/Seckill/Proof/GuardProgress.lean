import Seckill.Proof.GuardSizes
import Seckill.Proof.GuardThreads

/-!
# Every call of the gate returns

A lock that is not given back keeps its shard shut for ever. `gate_completes`: no thread
waits for more than one other, and for no more than four of its steps.

**The argument** is that a shard that is locked has a call within its section
(`State.Manned`), and that a call within its section can take its steps by itself
(`runs_out`). When it has left, the shard is free: who else would have it (`free_after`).
-/

namespace Seckill

namespace GuardThreads

open Machine InflightGuard

variable {s t : State} {e : Ev} {c d : ℕ} {op : Op} {got : Bool} {set : List UInt64}

/-- The steps a call has still to take. -/
def Pc.rank : Pc → ℕ
  | .idle | .entered _ => 5
  | .looking _ => 4
  | .writing _ _ => 3
  | .unlocking _ _ => 2
  | .counting _ _ => 1
  | .returned _ _ => 0

/-- The call would try the flag of its shard in vain. -/
def State.vain (s : State) (c : ℕ) : Bool :=
  match s.call c with
  | .entered op => s.guard.mode = .spin ∧ s.locked (s.shardOf op) = true
  | _ => false

theorem rank_le (p : Pc) : p.rank ≤ 5 := by
  cases p <;> exact Nat.le_of_ble_eq_true rfl

theorem rank_leave (op : Op) (got : Bool) : (op.leave got).rank ≤ 1 := by
  cases op <;> exact Nat.le_of_ble_eq_true rfl

/-- **A step of a call that is not in vain brings it nearer to its end.** -/
theorem Moves.rank (h : Moves s e t) (c : ℕ) :
    (t.call c).rank + (if (decide (e = .go c) && !s.vain c) = true then 1 else 0) ≤ (s.call c).rank := by
  by_cases hc : c = e.caller
  · subst hc
    have hone : (if (decide (e = .go e.caller) && !s.vain e.caller) = true then 1 else 0) ≤ 1 := by split <;> omega
    cases h with
    | call c op hc => simp [Ev.caller, hc, Pc.rank]
    | spin c op hc hl hmode hlocked => simp [Ev.caller, State.vain, hc, hmode, hlocked]
    | pass c op hc hmode =>
      have hleave := rank_leave op true
      refine (Nat.add_le_add_left hone _).trans ?_
      simp only [Ev.caller, at_self, hc]
      rw [show (Pc.entered op).rank = 5 from rfl]
      omega
    | fetch c op before hc hmode =>
      have hleave := rank_leave op (fetched before op).2
      refine (Nat.add_le_add_left hone _).trans ?_
      simp only [Ev.caller, at_self, hc]
      rw [show (Pc.entered op).rank = 5 from rfl]
      omega
    | unlock c op got hc =>
      have hleave := rank_leave op got
      refine (Nat.add_le_add_left hone _).trans ?_
      simp only [Ev.caller, at_self, hc]
      rw [show (Pc.unlocking op got).rank = 2 from rfl]
      omega
    | lock c op hc | look c op set hc | write c op set hc | count c op got hc =>
      refine (Nat.add_le_add_left hone _).trans ?_
      simp only [Ev.caller, at_self, hc, Pc.rank]
      omega
  · have hne : e ≠ .go c := by
      rintro rfl
      exact hc rfl
    rw [h.call_eq hc]
    simp [hne]

/-! ## Who has the locks -/

/-- A shard that is locked has a call within its section. -/
def State.Manned (s : State) : Prop :=
  ∀ i, s.locked i = true → ∃ c op, (s.call c).inside = some op ∧ s.shardOf op = i

/-- The other calls are where they were. -/
theorem manned_of_ne (hm : Moves s e t) {i : ℕ} (h : ∃ c op, (s.call c).inside = some op ∧ s.shardOf op = i)
    (hself : ∀ op, (s.call e.caller).inside = some op → s.shardOf op = i → (t.call e.caller).inside = some op) :
    ∃ c op, (t.call c).inside = some op ∧ t.shardOf op = i := by
  obtain ⟨c, op, hop, hi⟩ := h
  refine ⟨c, op, ?_, (shardOf_eq hm.shape op).trans hi⟩
  by_cases hc : c = e.caller
  · subst hc
    exact hself op hop hi
  · rw [hm.call_eq hc]
    exact hop

theorem step_manned (h : s.Manned) (hs : step s e = some t) : t.Manned := by
  intro i hi
  cases step_moves hs with
  | call c op hc =>
    refine manned_of_ne (step_moves hs) (h i hi) fun op hop => ?_
    rw [Ev.caller, hc] at hop
    cases hop
  | pass c op hc hmode =>
    refine manned_of_ne (step_moves hs) (h i hi) fun op hop => ?_
    rw [Ev.caller, hc] at hop
    cases hop
  | spin => exact h i hi
  | lock c op hc hl hlocked =>
    by_cases heq : i = s.shardOf op
    · refine ⟨c, op, ?_, heq.symm⟩
      rw [at_self]
      rfl
    · refine manned_of_ne (step_moves hs) (h i ?_) fun op hop => ?_
      · exact (Function.update_of_ne heq _ _).symm.trans hi
      · rw [Ev.caller, hc] at hop
        cases hop
  | fetch c op before hc =>
    refine manned_of_ne (step_moves hs) (h i hi) fun op hop => ?_
    rw [Ev.caller, hc] at hop
    cases hop
  | look c op set hc =>
    refine manned_of_ne (step_moves hs) (h i hi) fun op' hop _ => ?_
    rw [Ev.caller, hc] at hop
    rw [Ev.caller, at_self]
    exact hop
  | write c op set hc =>
    refine manned_of_ne (step_moves hs) (h i (by rwa [at_locked, put_locked] at hi)) fun op' hop _ => ?_
    rw [Ev.caller, hc] at hop
    rw [Ev.caller, at_self]
    exact hop
  | unlock c op got hc =>
    have hne : i ≠ s.shardOf op := by
      rintro rfl
      exact absurd ((Function.update_self _ _ _).symm.trans hi) Bool.false_ne_true
    refine manned_of_ne (step_moves hs) (h i ((Function.update_of_ne hne _ _).symm.trans hi)) fun op' hop hshard => ?_
    rw [Ev.caller, hc] at hop
    cases hop
    exact absurd hshard.symm hne
  | count c op got hc =>
    refine manned_of_ne (step_moves hs) (h i hi) fun op hop => ?_
    rw [Ev.caller, hc] at hop
    cases hop

/-! ## The way out -/

/-- What progress rests on. -/
structure Live (s : State) : Prop where
  inv : Inv s
  manned : s.Manned
  inBounds : ∀ key, s.guard.InBounds key

theorem step_live (s : State) (e : Ev) (t : State) (h : Live s) (hs : step s e = some t) : Live t where
  inv := step_inv s e t h.inv hs
  manned := step_manned h.manned hs
  inBounds key := (step_moves hs).shape.inBounds.2 (h.inBounds key)

theorem init_live {guard : InflightGuard} (hin : ∀ key, guard.InBounds key) : Live (init guard) where
  inv := init_inv guard
  manned _ h := nomatch h
  inBounds := hin

/-- A call that has its lock, or needs none, can take a step, and is then nearer to its end. -/
theorem go_inside (h : Live s) (hrank : 0 < (s.call c).rank) (hlt : (s.call c).rank < 5) :
    ∃ t, step s (.go c) = some t ∧ (t.call c).rank < (s.call c).rank := by
  have hok := h.inv.ok c
  cases hc : s.call c with
  | idle | entered =>
    rw [hc] at hlt
    exact absurd hlt (Nat.lt_irrefl 5)
  | looking op =>
    rw [hc] at hok
    obtain ⟨set, hset⟩ : ∃ set, s.guard.sets[s.shardOf op]? = some set :=
      ⟨_, Array.getElem?_eq_getElem (State.Holds.toLockable hok).lt⟩
    refine ⟨s.at c (.writing op set), ?_, ?_⟩
    · simp only [step, hc, look, hset, Option.map_some]
    · rw [at_self]
      exact Nat.lt_succ_self 3
  | writing op set =>
    refine ⟨_, by simp only [step, hc]; rfl, ?_⟩
    rw [write, at_self]
    exact Nat.lt_succ_self 2
  | unlocking op got =>
    refine ⟨_, by simp only [step, hc]; rfl, ?_⟩
    rw [unlock, at_self]
    exact Nat.lt_succ_of_le (rank_leave op got)
  | counting op got =>
    refine ⟨_, by simp only [step, hc]; rfl, ?_⟩
    rw [count, at_self]
    exact Nat.lt_succ_self 0
  | returned op got =>
    rw [hc] at hrank
    exact absurd hrank (Nat.lt_irrefl 0)

theorem returned_of_rank {p : Pc} (h : p.rank = 0) : ∃ op got, p = .returned op got := by
  cases p with
  | returned op got => exact ⟨op, got, rfl⟩
  | idle | entered | looking | writing | unlocking | counting => cases h

/-- **A call within its section runs out by itself.** -/
theorem runs_out (n : ℕ) : ∀ s : State, Live s → (s.call c).rank ≤ n → n < 5 →
    ∃ m t, m ≤ n ∧ run step s (List.replicate m (.go c)) = some t ∧ (∃ op got, t.call c = .returned op got) ∧
      ∀ c', c' ≠ c → t.call c' = s.call c' := by
  induction n with
  | zero =>
    intro s h hrank _
    exact ⟨0, s, Nat.le_refl 0, rfl, returned_of_rank (Nat.le_zero.1 hrank), fun _ _ => rfl⟩
  | succ n ih =>
    intro s h hrank hn
    by_cases hzero : (s.call c).rank = 0
    · exact ⟨0, s, Nat.zero_le _, rfl, returned_of_rank hzero, fun _ _ => rfl⟩
    · obtain ⟨u, hu, hlt⟩ := go_inside h (Nat.pos_of_ne_zero hzero) (by omega)
      obtain ⟨m, t, hm, ht, hreturned, hothers⟩ := ih u (step_live s _ u h hu) (by omega) (by omega)
      refine ⟨m + 1, t, by omega, ?_, hreturned, fun c' hc' => ?_⟩
      · exact run_cons.2 ⟨u, hu, ht⟩
      · exact (hothers c' hc').trans ((step_moves hu).call_eq hc')

/-- **A call whose shard is free can enter**, and one that needs no lock. -/
theorem go_free (h : Live s) (hc : s.call c = .entered op) (hfree : s.locked (s.shardOf op) = false) :
    ∃ t, step s (.go c) = some t ∧ (t.call c).rank < 5 := by
  have hin := h.inBounds op.key
  unfold InBounds at hin
  have hlock : s.guard.shards ≠ 0 ∧ s.guard.shard op.key < s.guard.sets.size →
      lock s c op = some ((s.lock op).at c (.looking op)) := by
    rintro ⟨hshards, hlt⟩
    unfold lock
    rw [if_neg hshards, if_pos (show s.shardOf op < s.guard.sets.size from hlt), hfree, if_neg Bool.false_ne_true]
  cases hmode : s.guard.mode with
  | none =>
    refine ⟨s.at c (op.leave true), by simp only [step, hc, enter, hmode], ?_⟩
    rw [at_self]
    exact Nat.lt_of_le_of_lt (rank_leave op true) (by omega)
  | mutex | spin =>
    rw [hmode] at hin
    refine ⟨(s.lock op).at c (.looking op), ?_, ?_⟩
    · simp only [step, hc, enter, hmode]
      exact hlock hin
    · rw [at_self]
      exact Nat.lt_succ_self 4
  | atomic =>
    rw [hmode] at hin
    obtain ⟨before, hword⟩ : ∃ before, s.guard.bitmap[s.guard.word op.key]? = some before :=
      ⟨_, Array.getElem?_eq_getElem hin.2⟩
    refine ⟨(s.storeWord op (fetched before op).1).at c (op.leave (fetched before op).2), ?_, ?_⟩
    · simp only [step, hc, enter, hmode, fetch, if_neg hin.1, hword, Option.map_some]
    · rw [at_self]
      exact Nat.lt_of_le_of_lt (rank_leave op _) (by omega)

/-- **When the one within has left, the shard is free.** -/
theorem free_after (h : Inv s) (ht : t.Manned) (hshape : SameShape s.guard t.guard) (hd : (s.call d).inside = some op)
    (hleft : (t.call d).inside = none) (hothers : ∀ c, c ≠ d → t.call c = s.call c) :
    t.locked (s.shardOf op) = false := by
  refine Bool.eq_false_iff.2 fun hlocked => ?_
  obtain ⟨c, op', hc, hshard⟩ := ht _ hlocked
  by_cases hcd : c = d
  · rw [hcd, hleft] at hc
    cases hc
  · rw [hothers c hcd] at hc
    exact hcd (h.alone c d op' op hc hd ((shardOf_eq hshape op').symm.trans hshard))

theorem run_shape {es : List Ev} (h : run step s es = some t) : SameShape s.guard t.guard :=
  run_inv (I := fun u => SameShape s.guard u.guard)
    (fun _ _ _ hshape hs => hshape.trans (step_moves hs).shape) ⟨rfl, rfl, rfl, rfl, rfl⟩ h

/-- A call whose shard is free runs to its end by itself. -/
theorem runs_through (h : Live s) (hc : s.call c = .entered op) (hfree : s.locked (s.shardOf op) = false) :
    ∃ m t, m ≤ 5 ∧ run step s (List.replicate m (.go c)) = some t ∧ (∃ op got, t.call c = .returned op got) ∧
      ∀ c', c' ≠ c → t.call c' = s.call c' := by
  obtain ⟨u, hu, hlt⟩ := go_free h hc hfree
  obtain ⟨m, t, hm, ht, hreturned, hothers⟩ := runs_out 4 u (step_live s _ u h hu) (Nat.le_of_lt_succ hlt) (by omega)
  refine ⟨m + 1, t, by omega, run_cons.2 ⟨u, hu, ht⟩, hreturned, fun c' hc' => ?_⟩
  exact (hothers c' hc').trans ((step_moves hu).call_eq hc')

theorem rank_of_inside {p : Pc} (h : p.inside = some op) : p.rank ≤ 4 := by
  cases p with
  | looking | writing | unlocking => exact Nat.le_of_ble_eq_true rfl
  | idle | entered | counting | returned => cases h

/-- **Every call of the gate returns.** In every state that is reached, whatever the mode is: a
call takes five more steps at most, but for those in which it tries the flag in vain. It can
return by its own steps, once one other call has taken four or fewer: the one within the
section of its shard. -/
theorem gate_completes (guard : InflightGuard) (hin : ∀ key, guard.InBounds key) (es : List Ev) (s : State)
    (h : run step (init guard) es = some s) (c : ℕ) :
    (∀ es' t, run step s es' = some t → tally step (fun u e => decide (e = .go c) && !u.vain c) s es' ≤ 5) ∧
      (s.call c ≠ .idle → ∃ d n m t op got, n ≤ 4 ∧ m ≤ 5 ∧
        run step s (List.replicate n (.go d) ++ List.replicate m (.go c)) = some t ∧
        t.call c = .returned op got ∧ ∀ c', c' ≠ c → c' ≠ d → t.call c' = s.call c') := by
  have hlive : Live s := run_inv step_live (init_live hin) h
  refine ⟨fun es' t ht => ?_, fun hidle => ?_⟩
  · have hrank : ∀ u e t, True → True → step u e = some t →
        (t.call c).rank + (if (decide (e = .go c) && !u.vain c) = true then 1 else 0) ≤ (u.call c).rank :=
      fun _ _ _ _ _ hs => (step_moves hs).rank c
    have hpotential := run_potential (fun _ _ _ _ _ _ => trivial) hrank trivial
      (meets_of_forall (D := fun _ => True) (fun _ _ => trivial) s) ht
    have hle := rank_le (s.call c)
    omega
  · by_cases hentered : ∃ op, s.call c = .entered op
    · obtain ⟨op, hc⟩ := hentered
      cases hfree : s.locked (s.shardOf op) with
      | false =>
        obtain ⟨m, t, hm, ht, ⟨op', got, hreturned⟩, hothers⟩ := runs_through hlive hc hfree
        exact ⟨c, 0, m, t, op', got, Nat.zero_le 4, hm, ht, hreturned, fun c' hc' _ => hothers c' hc'⟩
      | true =>
        -- the one within leaves
        obtain ⟨d, op₁, hd, hshard⟩ := hlive.manned _ hfree
        obtain ⟨n, u, hn, hu, ⟨op₂, got₂, hleft⟩, hothers⟩ := runs_out 4 s hlive (rank_of_inside hd) (by omega)
        have hcd : c ≠ d := by
          rintro rfl
          rw [hc] at hd
          cases hd
        have hulive : Live u := run_inv step_live hlive hu
        have hufree := free_after hlive.inv hulive.manned (run_shape hu) hd (by rw [hleft]; rfl) hothers
        rw [hshard, ← shardOf_eq (run_shape hu)] at hufree
        obtain ⟨m, t, hm, ht, ⟨op', got, hreturned⟩, hothers'⟩ :=
          runs_through hulive ((hothers c hcd).trans hc) hufree
        refine ⟨d, n, m, t, op', got, hn, hm, ?_, hreturned, fun c' hc' hd' => ?_⟩
        · exact run_append.2 ⟨u, hu, ht⟩
        · exact (hothers' c' hc').trans (hothers c' hd')
    · have hrank : (s.call c).rank ≤ 4 := by
        cases hpc : s.call c with
        | idle => exact absurd hpc hidle
        | entered op => exact absurd ⟨op, hpc⟩ hentered
        | looking | writing | unlocking | counting | returned => exact Nat.le_of_ble_eq_true rfl
      obtain ⟨m, t, hm, ht, ⟨op, got, hreturned⟩, hothers⟩ := runs_out 4 s hlive hrank (by omega)
      exact ⟨c, 0, m, t, op, got, Nat.zero_le 4, by omega, ht, hreturned, fun c' hc' _ => hothers c' hc'⟩

/-- The second call waits for the mutex until the first has gone on. -/
theorem gate_completes_waiting : ∃ s, run step (init (.new .mutex 64 65536))
      [.call 0 (.tryAcquire 7), .call 1 (.tryAcquire 7), .go 0] = some s ∧ step s (.go 1) = none ∧
    ∃ d n m t op got, run step s (List.replicate n (.go d) ++ List.replicate m (.go 1)) = some t ∧
      t.call 1 = .returned op got := by
  have hrun : (run step (init (.new .mutex 64 65536)) [.call 0 (.tryAcquire 7), .call 1 (.tryAcquire 7), .go 0]).map
      (fun s => (s.call 1, (step s (.go 1)).isNone)) = some (.entered (.tryAcquire 7), true) := by decide +kernel
  obtain ⟨s, hs, hpair⟩ := Option.map_eq_some_iff.1 hrun
  obtain ⟨hentered, hnone⟩ := Prod.mk.inj hpair
  have hin : ∀ key, (InflightGuard.new .mutex 64 65536).InBounds key := fun key =>
    (new_inBounds .mutex 64 65536 key).2 (show (64 : UInt64) ≠ 0 by decide)
  have hunder : s.call 1 ≠ .idle := by
    rw [hentered]
    exact Pc.noConfusion
  obtain ⟨d, n, m, t, op, got, -, -, ht, hreturned, -⟩ := (gate_completes _ hin _ s hs 1).2 hunder
  exact ⟨s, hs, Option.isNone_iff_eq_none.1 hnone, d, n, m, t, op, got, ht, hreturned⟩

end GuardThreads

end Seckill
