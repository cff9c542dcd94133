import Seckill.Lib.Crowd
import Seckill.Proof.Guard
import Seckill.Spec.GuardThreads

/-!
# The locks make the gate atomic

`InflightGuard` says that a call of the gate is one step. `gate_linearizable` proves it of
the calls of `GuardThreads`, which take their locks, read, write and count one after the
other.

**The argument** is the invariant `Inv`: who is within a critical section has its shard
locked (`State.Holds`), two that are within sections of one shard are one call, and a set
that was read is still there when it is written back. So a write does what the call would
have done at once (`Acts.apply_eq`), and all other steps do nothing to the gate
(`point_skip`), once what is still to be counted is added to its counters
(`State.settled`).
-/

namespace Seckill

namespace GuardThreads

open Machine Lin InflightGuard

variable {s t : State} {e : Ev} {c c' : ℕ} {op op' : Op} {p : Pc} {got : Bool} {set : List UInt64}

/-! ## What a step does -/

@[simp] theorem at_guard : (s.at c p).guard = s.guard := rfl

@[simp] theorem at_locked : (s.at c p).locked = s.locked := rfl

@[simp] theorem at_call : (s.at c p).call = Function.update s.call c p := rfl

theorem at_self : (s.at c p).call c = p := by
  rw [at_call, Function.update_self]

@[simp] theorem lock_call : (s.lock op).call = s.call := rfl

@[simp] theorem unlock_call : (s.unlock op).call = s.call := rfl

@[simp] theorem storeWord_call {w : UInt64} : (s.storeWord op w).call = s.call := rfl

@[simp] theorem count_call : (s.count got).call = s.call := rfl

@[simp] theorem put_call {o : Option (List UInt64)} : (s.put op o).call = s.call := by
  cases o <;> rfl

@[simp] theorem put_locked {o : Option (List UInt64)} : (s.put op o).locked = s.locked := by
  cases o <;> rfl

/-- The shard of the call has a lock. -/
structure State.Lockable (s : State) (op : Op) : Prop where
  mode : s.guard.mode = .mutex ∨ s.guard.mode = .spin
  shards : s.guard.shards ≠ 0
  lt : s.shardOf op < s.guard.sets.size

/-- The steps. -/
inductive Moves (s : State) : Ev → State → Prop
  | call (c : ℕ) (op : Op) (hc : s.call c = .idle) : Moves s (.call c op) (s.at c (.entered op))
  | pass (c : ℕ) (op : Op) (hc : s.call c = .entered op) (hmode : s.guard.mode = .none) :
    Moves s (.go c) (s.at c (op.leave true))
  | spin (c : ℕ) (op : Op) (hc : s.call c = .entered op) (hl : s.Lockable op) (hmode : s.guard.mode = .spin)
    (hlocked : s.locked (s.shardOf op) = true) : Moves s (.go c) s
  | lock (c : ℕ) (op : Op) (hc : s.call c = .entered op) (hl : s.Lockable op)
    (hlocked : s.locked (s.shardOf op) = false) : Moves s (.go c) ((s.lock op).at c (.looking op))
  | fetch (c : ℕ) (op : Op) (before : UInt64) (hc : s.call c = .entered op) (hmode : s.guard.mode = .atomic)
    (hbits : s.guard.bits ≠ 0) (hword : s.guard.bitmap[s.guard.word op.key]? = some before) :
    Moves s (.go c) ((s.storeWord op (fetched before op).1).at c (op.leave (fetched before op).2))
  | look (c : ℕ) (op : Op) (set : List UInt64) (hc : s.call c = .looking op)
    (hset : s.guard.sets[s.shardOf op]? = some set) : Moves s (.go c) (s.at c (.writing op set))
  | write (c : ℕ) (op : Op) (set : List UInt64) (hc : s.call c = .writing op set) :
    Moves s (.go c) ((s.put op (written set op).1).at c (.unlocking op (written set op).2))
  | unlock (c : ℕ) (op : Op) (got : Bool) (hc : s.call c = .unlocking op got) :
    Moves s (.go c) ((s.unlock op).at c (op.leave got))
  | count (c : ℕ) (op : Op) (got : Bool) (hc : s.call c = .counting op got) :
    Moves s (.go c) ((s.count got).at c (.returned op got))

theorem lock_moves (h : lock s c op = some t) (hc : s.call c = .entered op)
    (hmode : s.guard.mode = .mutex ∨ s.guard.mode = .spin) : Moves s (.go c) t := by
  unfold lock at h
  split at h
  · cases h
  next hshards =>
  split at h
  next hlt =>
    have hl : s.Lockable op := ⟨hmode, hshards, hlt⟩
    split at h
    next hlocked =>
      split at h
      next hspin =>
        cases h
        exact .spin c op hc hl hspin hlocked
      next => cases h
    next hlocked =>
      cases h
      exact .lock c op hc hl (Bool.eq_false_iff.2 hlocked)
  next => cases h

theorem enter_moves (h : enter s c op = some t) (hc : s.call c = .entered op) : Moves s (.go c) t := by
  unfold enter at h
  split at h
  next hmode =>
    cases h
    exact .pass c op hc hmode
  next hmode => exact lock_moves h hc (Or.inl hmode)
  next hmode => exact lock_moves h hc (Or.inr hmode)
  next hmode =>
    unfold fetch at h
    split at h
    · cases h
    next hbits =>
    obtain ⟨before, hword, rfl⟩ := Option.map_eq_some_iff.1 h
    exact .fetch c op before hc hmode hbits hword

theorem step_moves (h : step s e = some t) : Moves s e t := by
  cases e with
  | call c op =>
    unfold step at h
    dsimp only at h
    split at h
    next hc =>
      cases h
      exact .call c op hc
    next => cases h
  | go c =>
    unfold step at h
    dsimp only at h
    split at h
    · cases h
    · cases h
    next op hc => exact enter_moves h hc
    next op hc =>
      obtain ⟨set, hset, rfl⟩ := Option.map_eq_some_iff.1 h
      exact .look c op set hc hset
    next op set hc =>
      cases h
      exact .write c op set hc
    next op got hc =>
      cases h
      exact .unlock c op got hc
    next op got hc =>
      cases h
      exact .count c op got hc

/-- The call that moves. -/
def Ev.caller : Ev → ℕ
  | .call c _ | .go c => c

theorem Moves.call_eq (h : Moves s e t) (hc : c ≠ e.caller) : t.call c = s.call c := by
  cases h with
  | spin => rfl
  | call | pass | lock | fetch | look | write | unlock | count =>
    simp only [at_call, lock_call, unlock_call, storeWord_call, put_call, count_call]
    exact Function.update_of_ne hc _ _

theorem put_shape (o : Option (List UInt64)) : SameShape s.guard (s.put op o).guard := by
  cases o with
  | none => exact ⟨rfl, rfl, rfl, rfl, rfl⟩
  | some set => exact ⟨rfl, rfl, rfl, Array.size_setIfInBounds, rfl⟩

theorem count_shape (got : Bool) : SameShape s.guard (s.count got).guard := by
  cases got <;> exact ⟨rfl, rfl, rfl, rfl, rfl⟩

/-- **No step changes the configuration** or the sizes of the arrays. -/
theorem Moves.shape (h : Moves s e t) : SameShape s.guard t.guard := by
  cases h with
  | call | pass | spin | lock | look | unlock => exact ⟨rfl, rfl, rfl, rfl, rfl⟩
  | fetch => exact ⟨rfl, rfl, rfl, rfl, Array.size_setIfInBounds⟩
  | write => exact put_shape _
  | count c op got => exact count_shape got

theorem shardOf_eq (h : SameShape s.guard t.guard) (op : Op) : t.shardOf op = s.shardOf op := by
  unfold State.shardOf shard
  rw [h.shards]

/-! ## The critical sections -/

/-- The call is within the section of its lock. -/
def Pc.inside : Pc → Option Op
  | .looking op | .writing op _ | .unlocking op _ => some op
  | _ => none

/-- The shard of the call has a lock, and it is taken. -/
structure State.Holds (s : State) (op : Op) : Prop extends s.Lockable op where
  locked : s.locked (s.shardOf op) = true

/-- What is true of a call: it holds its lock, and the set it has read is there. -/
def State.OK (s : State) : Pc → Prop
  | .looking op | .unlocking op _ => s.Holds op
  | .writing op set => s.Holds op ∧ s.guard.sets[s.shardOf op]? = some set
  | _ => True

theorem State.OK.holds (h : s.OK p) (hp : p.inside = some op) : s.Holds op := by
  cases p with
  | looking | unlocking => cases hp; exact h
  | writing => cases hp; exact h.1
  | idle | entered | counting | returned => cases hp

theorem State.Holds.frame (h : s.Holds op) (hshape : SameShape s.guard t.guard)
    (hlocked : t.locked (s.shardOf op) = s.locked (s.shardOf op)) : t.Holds op := by
  refine ⟨⟨by rw [hshape.mode]; exact h.mode, by rw [hshape.shards]; exact h.shards, ?_⟩, ?_⟩
  · rw [shardOf_eq hshape, hshape.sets]
    exact h.lt
  · rw [shardOf_eq hshape, hlocked]
    exact h.locked

/-- Another shard may have changed. -/
theorem State.OK.frame (h : s.OK p) (hshape : SameShape s.guard t.guard)
    (hsame : ∀ op, p.inside = some op →
      t.locked (s.shardOf op) = s.locked (s.shardOf op) ∧ t.guard.sets[s.shardOf op]? = s.guard.sets[s.shardOf op]?) :
    t.OK p := by
  have hholds : ∀ op, p.inside = some op → t.Holds op := fun op hop => (h.holds hop).frame hshape (hsame op hop).1
  cases p with
  | looking op | unlocking op => exact hholds op rfl
  | writing op set =>
    refine ⟨hholds op rfl, ?_⟩
    rw [shardOf_eq hshape, (hsame op rfl).2]
    exact h.2
  | idle | entered | counting | returned => trivial

/-- **The invariant.** -/
structure Inv (s : State) : Prop where
  ok : ∀ c, s.OK (s.call c)
  alone : ∀ c c' op op', (s.call c).inside = some op → (s.call c').inside = some op' → s.shardOf op = s.shardOf op' →
    c = c'
  finite : {c | s.call c ≠ .idle}.Finite

theorem init_inv (guard : InflightGuard) : Inv (init guard) where
  ok _ := trivial
  alone _ _ _ _ h := nomatch h
  finite := by
    refine Set.finite_empty.subset fun c hc => ?_
    exact hc rfl

/-- Two calls within their sections have two shards. -/
theorem Inv.ne_shard (hi : Inv s) (hc : (s.call c).inside = some op) (hne : c' ≠ c)
    (hc' : (s.call c').inside = some op') : s.shardOf op' ≠ s.shardOf op :=
  fun h => hne (hi.alone c' c op' op hc' hc h)

/-- Who is within has a shard other than one that is free. -/
theorem Inv.ne_free (hi : Inv s) (hfree : s.locked (s.shardOf op) = false) (hc' : (s.call c').inside = some op') :
    s.shardOf op' ≠ s.shardOf op := by
  intro h
  have hlocked := ((hi.ok c').holds hc').locked
  rw [h, hfree] at hlocked
  cases hlocked

/-- **A step keeps the invariant** if the call that takes it is right afterwards, the other
calls are, and it is within the section of a shard in which no other call is. -/
theorem Inv.move (hi : Inv s) (hm : Moves s e t) (hown : t.OK (t.call e.caller))
    (hothers : ∀ c op, c ≠ e.caller → (s.call c).inside = some op →
      t.locked (s.shardOf op) = s.locked (s.shardOf op) ∧ t.guard.sets[s.shardOf op]? = s.guard.sets[s.shardOf op]?)
    (halone : ∀ op c op', (t.call e.caller).inside = some op → c ≠ e.caller → (s.call c).inside = some op' →
      s.shardOf op' ≠ s.shardOf op) : Inv t where
  ok c := by
    by_cases hc : c = e.caller
    · rw [hc]
      exact hown
    · rw [hm.call_eq hc]
      exact (hi.ok c).frame hm.shape fun op => hothers c op hc
  alone c c' op op' hop hop' hshard := by
    rw [shardOf_eq hm.shape, shardOf_eq hm.shape] at hshard
    by_cases hc : c = e.caller
    · by_cases hc' : c' = e.caller
      · rw [hc, hc']
      · rw [hm.call_eq hc'] at hop'
        rw [hc] at hop
        exact absurd hshard.symm (halone op c' op' hop hc' hop')
    · rw [hm.call_eq hc] at hop
      by_cases hc' : c' = e.caller
      · rw [hc'] at hop'
        exact absurd hshard (halone op' c op hop' hc hop)
      · rw [hm.call_eq hc'] at hop'
        exact hi.alone c c' op op' hop hop' hshard
  finite := by
    refine (hi.finite.insert e.caller).subset fun c hc => ?_
    by_cases hce : c = e.caller
    · exact Or.inl hce
    · refine Or.inr ?_
      rw [Set.mem_ofPred_eq, ← hm.call_eq hce]
      exact hc

theorem inside_leave (op : Op) (got : Bool) : (op.leave got).inside = none := by
  cases op <;> rfl

/-- Outside of the sections nothing is asked. -/
theorem ok_outside (h : p.inside = none) : s.OK p := by
  cases p with
  | idle | entered | counting | returned => trivial
  | looking | writing | unlocking => cases h

/-- A call is outside of the sections afterwards, and nothing has happened there. -/
theorem Inv.outside (hi : Inv s) (hm : Moves s e t) (hout : (t.call e.caller).inside = none)
    (hlocked : t.locked = s.locked) (hsets : t.guard.sets = s.guard.sets) : Inv t := by
  refine hi.move hm (ok_outside hout) (fun _ op _ _ => ⟨by rw [hlocked], by rw [hsets]⟩) ?_
  intro op c op' hop
  rw [hout] at hop
  cases hop

theorem put_sets_ne (o : Option (List UInt64)) (h : s.shardOf op' ≠ s.shardOf op) :
    (s.put op o).guard.sets[s.shardOf op']? = s.guard.sets[s.shardOf op']? := by
  cases o with
  | none => rfl
  | some set => exact Array.getElem?_setIfInBounds_ne (Ne.symm h)

theorem step_inv (s : State) (e : Ev) (t : State) (hi : Inv s) (hs : step s e = some t) : Inv t := by
  cases step_moves hs with
  | call c op hc => exact hi.outside (step_moves hs) (by rw [Ev.caller, at_self]; rfl) rfl rfl
  | pass c op hc hmode => exact hi.outside (step_moves hs) (by rw [Ev.caller, at_self, inside_leave]) rfl rfl
  | spin c op hc hl hmode hlocked => exact hi
  | lock c op hc hl hlocked =>
    -- the shard was free: no other call is within it
    refine hi.move (step_moves hs) ?_ (fun c' op' _ hop' => ⟨?_, rfl⟩) ?_
    · rw [Ev.caller, at_self]
      exact ⟨⟨hl.mode, hl.shards, hl.lt⟩, Function.update_self _ _ _⟩
    · exact Function.update_of_ne (hi.ne_free hlocked hop') _ _
    · intro op₁ c' op' hop _ hop'
      rw [Ev.caller, at_self] at hop
      cases hop
      exact hi.ne_free hlocked hop'
  | fetch c op before hc => exact hi.outside (step_moves hs) (by rw [Ev.caller, at_self, inside_leave]) rfl rfl
  | look c op set hc hset =>
    have hok := hi.ok c
    rw [hc] at hok
    have hins : (s.call c).inside = some op := by rw [hc]; rfl
    refine hi.move (step_moves hs) ?_ (fun _ _ _ _ => ⟨rfl, rfl⟩) ?_
    · rw [Ev.caller, at_self]
      exact ⟨State.Holds.frame hok ⟨rfl, rfl, rfl, rfl, rfl⟩ rfl, hset⟩
    · intro op₁ c' op' hop hne hop'
      rw [Ev.caller, at_self] at hop
      cases hop
      exact hi.ne_shard hins hne hop'
  | write c op set hc =>
    have hok := hi.ok c
    rw [hc] at hok
    have hins : (s.call c).inside = some op := by rw [hc]; rfl
    refine hi.move (step_moves hs) ?_ (fun c' op' hne hop' => ⟨?_, ?_⟩) ?_
    · rw [Ev.caller, at_self]
      exact hok.1.frame (put_shape _) (by rw [at_locked, put_locked])
    · rw [at_locked, put_locked]
    · exact put_sets_ne _ (hi.ne_shard hins hne hop')
    · intro op₁ c' op' hop hne hop'
      rw [Ev.caller, at_self] at hop
      cases hop
      exact hi.ne_shard hins hne hop'
  | unlock c op got hc =>
    -- the lock that is given back is that of its own shard
    have hins : (s.call c).inside = some op := by rw [hc]; rfl
    refine hi.move (step_moves hs) ?_ (fun c' op' hne hop' => ⟨?_, rfl⟩) ?_
    · rw [Ev.caller, at_self]
      exact ok_outside (inside_leave op got)
    · exact Function.update_of_ne (hi.ne_shard hins hne hop') _ _
    · intro op₁ c' op' hop
      rw [Ev.caller, at_self, inside_leave] at hop
      cases hop
  | count c op got hc =>
    exact hi.outside (step_moves hs) (by rw [Ev.caller, at_self]; rfl) rfl (by cases got <;> rfl)

/-! ## What is still to be counted -/

/-- A step of a call changes what it owes. -/
theorem Inv.owed_move (hi : Inv s) (hm : Moves s e t) (got : Bool) :
    t.owed got + (if (s.call e.caller).owes = some got then 1 else 0) =
      s.owed got + if (t.call e.caller).owes = some got then 1 else 0 := by
  refine Crowd.ncard_change (p := fun c => (s.call c).owes = some got) (q := fun c => (t.call c).owes = some got)
    (hi.finite.subset fun c hc hidle => ?_) fun c hc => ?_
  · rw [Set.mem_ofPred_eq, hidle] at hc
    cases hc
  · rw [hm.call_eq hc]

/-- Nothing is owed for what was not. -/
theorem Inv.owed_eq (hi : Inv s) (hm : Moves s e t) (h : (t.call e.caller).owes = (s.call e.caller).owes) (got : Bool) :
    t.owed got = s.owed got := by
  have hmove := hi.owed_move hm got
  rw [h] at hmove
  omega

theorem settled_eq (hguard : t.guard = s.guard) (howed : ∀ got, t.owed got = s.owed got) : t.settled = s.settled := by
  unfold State.settled
  rw [hguard, howed, howed]

/-- Nothing is owed when no call is under way. -/
theorem settled_of_rests (h : ∀ c, s.call c = .idle ∨ ∃ op got, s.call c = .returned op got) : s.settled = s.guard := by
  have hnone : ∀ got, s.owed got = 0 := by
    intro got
    have hempty : {c | (s.call c).owes = some got} = ∅ := by
      refine Set.eq_empty_iff_forall_notMem.2 fun c hc => ?_
      rw [Set.mem_ofPred_eq] at hc
      rcases h c with hidle | ⟨op, got', hreturned⟩
      · rw [hidle] at hc
        cases hc
      · rw [hreturned] at hc
        cases hc
    unfold State.owed
    rw [hempty]
    exact Set.ncard_empty ℕ
  unfold State.settled
  rw [hnone, hnone]
  rfl

/-- The gate with what the calls of `s` owe. -/
noncomputable def State.due (s : State) (g : InflightGuard) : InflightGuard :=
  { g with acquired := g.acquired + s.owed true, rejected := g.rejected + s.owed false }

def counted (g : InflightGuard) (got : Bool) : InflightGuard := if got then g.countAcquired else g.countRejected

/-- A call that owed nothing owes its `fetch_add`. -/
theorem Inv.settled_acquire (hi : Inv s) (hm : Moves s e t) (h : (s.call e.caller).owes = none)
    (ht : (t.call e.caller).owes = some got) : t.settled = counted (s.due t.guard) got := by
  have htrue := hi.owed_move hm true
  have hfalse := hi.owed_move hm false
  rw [h, ht] at htrue hfalse
  unfold State.settled State.due
  cases got with
  | true =>
    simp only [reduceCtorEq, if_false, if_true, add_zero, Option.some.injEq] at htrue hfalse
    rw [htrue, hfalse]
    rfl
  | false =>
    simp only [reduceCtorEq, if_false, if_true, add_zero, Option.some.injEq] at htrue hfalse
    rw [htrue, hfalse]
    rfl

/-- A call that owed nothing still owes nothing. -/
theorem Inv.settled_release (hi : Inv s) (hm : Moves s e t) (h : (s.call e.caller).owes = none)
    (ht : (t.call e.caller).owes = none) : t.settled = s.due t.guard := by
  unfold State.settled State.due
  rw [hi.owed_eq hm (ht.trans h.symm), hi.owed_eq hm (ht.trans h.symm)]

/-- **At a step that is not a point** the settled gate stays. -/
theorem point_skip (hi : Inv s) (hs : step s e = some t) (h : point s e = none) : t.settled = s.settled := by
  have hm := step_moves hs
  cases step_moves hs with
  | call c op hc =>
    refine settled_eq rfl (hi.owed_eq hm ?_)
    simp only [Ev.caller, at_self, hc]
    rfl
  | pass c op hc hmode => simp [point, hc, hmode] at h
  | spin => rfl
  | lock c op hc =>
    refine settled_eq rfl (hi.owed_eq hm ?_)
    simp only [Ev.caller, at_self, hc]
    rfl
  | fetch c op before hc hmode _ hword => simp [point, hc, hmode, hword] at h
  | look c op set hc =>
    refine settled_eq rfl (hi.owed_eq hm ?_)
    simp only [Ev.caller, at_self, hc]
    rfl
  | write c op set hc => simp [point, hc] at h
  | unlock c op got hc =>
    refine settled_eq rfl (hi.owed_eq hm ?_)
    simp only [Ev.caller, at_self, hc]
    cases op <;> rfl
  | count c op got hc =>
    -- what was owed is counted
    have howed : ∀ b, ((s.count got).at c (.returned op got)).owed b + (if some got = some b then 1 else 0) =
        s.owed b := by
      intro b
      have hmove := hi.owed_move hm b
      simpa [Ev.caller, hc, Pc.owes] using hmove
    have htrue := howed true
    have hfalse := howed false
    unfold State.settled
    cases got with
    | true =>
      simp only [if_true, reduceCtorEq, if_false, Option.some.injEq, add_zero] at htrue hfalse
      rw [← htrue, hfalse]
      simp only [at_guard, State.count, if_true, countAcquired, InflightGuard.mk.injEq, true_and, and_true]
      omega
    | false =>
      simp only [if_true, reduceCtorEq, if_false, Option.some.injEq, add_zero] at htrue hfalse
      rw [← hfalse, htrue]
      simp only [at_guard, State.count, if_false, countRejected, InflightGuard.mk.injEq, true_and,
        reduceCtorEq]
      omega

/-! ## The points -/

section

variable {g : InflightGuard} {key : UInt64} {before : UInt64}

theorem tryAcquire_pass (hmode : g.mode = .none) (key : UInt64) : g.tryAcquire key = some (counted g true, true) := by
  unfold InflightGuard.tryAcquire
  rw [hmode]
  rfl

theorem release_pass (hmode : g.mode = .none) (key : UInt64) : g.release key = some g := by
  unfold InflightGuard.release
  rw [hmode]

theorem tryAcquire_fetch (hmode : g.mode = .atomic) (hbits : g.bits ≠ 0) (hword : g.bitmap[g.word key]? = some before) :
    g.tryAcquire key =
      some (counted { g with bitmap := g.bitmap.setIfInBounds (g.word key) (fetched before (.tryAcquire key)).1 }
        (fetched before (.tryAcquire key)).2, (fetched before (.tryAcquire key)).2) := by
  unfold InflightGuard.tryAcquire fetched
  simp only [hmode, hbits, hword, if_false, Option.map_some]
  by_cases hfree : before &&& Bits.mask key = 0
  · simp only [hfree, if_true, decide_true]
    rfl
  · simp only [hfree, if_false, decide_false]
    rfl

theorem release_fetch (hmode : g.mode = .atomic) (hbits : g.bits ≠ 0) (hword : g.bitmap[g.word key]? = some before) :
    g.release key =
      some { g with bitmap := g.bitmap.setIfInBounds (g.word key) (fetched before (.release key)).1 } := by
  unfold InflightGuard.release
  simp only [hmode, hbits, hword, if_false, Option.map_some]
  rfl

/-- What a write leaves of the sets. -/
def stored (g : InflightGuard) (key : UInt64) : Option (List UInt64) → InflightGuard
  | none => g
  | some set => { g with sets := g.sets.setIfInBounds (g.shard key) set }

theorem tryAcquire_write (hmode : g.mode = .mutex ∨ g.mode = .spin) (hshards : g.shards ≠ 0)
    (hset : g.sets[g.shard key]? = some set) : g.tryAcquire key =
      some (counted (stored g key (written set (.tryAcquire key)).1) (written set (.tryAcquire key)).2,
        (written set (.tryAcquire key)).2) := by
  have hset' : g.tryAcquire key = some (if set.contains key then (g.countRejected, false)
      else ({ g with sets := g.sets.setIfInBounds (g.shard key) (key :: set) }.countAcquired, true)) := by
    unfold InflightGuard.tryAcquire
    rcases hmode with hmode | hmode <;> simp only [hmode, hshards, hset, if_false, Option.map_some]
  rw [hset']
  unfold written
  dsimp only
  split <;> rfl

theorem release_write (hmode : g.mode = .mutex ∨ g.mode = .spin) (hshards : g.shards ≠ 0)
    (hset : g.sets[g.shard key]? = some set) :
    g.release key = some (stored g key (written set (.release key)).1) := by
  have hset' : g.release key = some { g with sets := g.sets.setIfInBounds (g.shard key) (set.filter (· ≠ key)) } := by
    unfold InflightGuard.release
    rcases hmode with hmode | hmode <;> simp only [hmode, hshards, hset, if_false, Option.map_some]
  rw [hset']
  rfl

end

theorem stored_settled (s : State) (op : Op) (o : Option (List UInt64)) :
    stored s.settled op.key o = s.due (s.put op o).guard := by
  cases o <;> rfl

theorem owes_self : ((s.at c p).call c).owes = p.owes := congrArg Pc.owes at_self

theorem owes_acquire (key : UInt64) (got : Bool) : (Op.leave got (.tryAcquire key)).owes = some got := rfl

theorem owes_unlocking (key : UInt64) (got : Bool) : (Pc.unlocking (.tryAcquire key) got).owes = some got := rfl

theorem owes_release (key : UInt64) (got : Bool) : (Op.leave got (.release key)).owes = none := rfl

theorem apply_acquire {g g' : InflightGuard} {key : UInt64} (h : g.tryAcquire key = some (g', got)) :
    apply (some g) (.tryAcquire key) = (some g', got) := by
  unfold apply
  dsimp only
  rw [h]

theorem apply_release {g g' : InflightGuard} {key : UInt64} (h : g.release key = some g') :
    apply (some g) (.release key) = (some g', true) := by
  unfold apply
  dsimp only
  rw [h]

/-- The steps at which a call takes effect, with its answer. -/
inductive Acts (s : State) (c : ℕ) (op : Op) : Bool → State → Prop
  | pass (hc : s.call c = .entered op) (hmode : s.guard.mode = .none) : Acts s c op true (s.at c (op.leave true))
  | fetch (before : UInt64) (hc : s.call c = .entered op) (hmode : s.guard.mode = .atomic)
    (hbits : s.guard.bits ≠ 0) (hword : s.guard.bitmap[s.guard.word op.key]? = some before) :
    Acts s c op (fetched before op).2 ((s.storeWord op (fetched before op).1).at c (op.leave (fetched before op).2))
  | write (set : List UInt64) (hc : s.call c = .writing op set) :
    Acts s c op (written set op).2 ((s.put op (written set op).1).at c (.unlocking op (written set op).2))

/-- A point is one of these. -/
theorem point_acts {q : Entry ℕ Op Bool} (hs : step s e = some t) (h : point s e = some q) :
    e = .go q.caller ∧ Acts s q.caller q.op q.answer t := by
  cases step_moves hs with
  | call => cases h
  | pass c op hc hmode =>
    simp only [point, hc, hmode, Option.some.injEq] at h
    subst h
    exact ⟨rfl, .pass hc hmode⟩
  | spin c op hc hl hmode => simp [point, hc, hmode] at h
  | lock c op hc hl => rcases hl.mode with hmode | hmode <;> simp [point, hc, hmode] at h
  | fetch c op before hc hmode hbits hword =>
    simp only [point, hc, hmode, hword, Option.map_some, Option.some.injEq] at h
    subst h
    exact ⟨rfl, .fetch before hc hmode hbits hword⟩
  | write c op set hc =>
    simp only [point, hc, Option.some.injEq] at h
    subst h
    exact ⟨rfl, .write set hc⟩
  | look c op set hc => simp [point, hc] at h
  | unlock c op got hc => simp [point, hc] at h
  | count c op got hc => simp [point, hc] at h

/-- **At its point a call does at once** what it does to the settled gate. -/
theorem Acts.apply_eq (hi : Inv s) (hm : Moves s (.go c) t) (h : Acts s c op got t) :
    apply (some s.settled) op = (some t.settled, got) := by
  have hok := hi.ok c
  cases h with
  | pass hc hmode =>
    have hnone : (s.call c).owes = none := by rw [hc]; rfl
    cases op with
    | tryAcquire key =>
      rw [hi.settled_acquire hm hnone (owes_self.trans (owes_acquire key true))]
      exact apply_acquire (tryAcquire_pass (g := s.settled) hmode key)
    | release key =>
      rw [hi.settled_release hm hnone (owes_self.trans (owes_release key true))]
      exact apply_release (release_pass (g := s.settled) hmode key)
  | fetch before hc hmode hbits hword =>
    have hnone : (s.call c).owes = none := by rw [hc]; rfl
    cases op with
    | tryAcquire key =>
      rw [hi.settled_acquire hm hnone (owes_self.trans (owes_acquire key _))]
      exact apply_acquire (tryAcquire_fetch (g := s.settled) hmode hbits hword)
    | release key =>
      rw [hi.settled_release hm hnone (owes_self.trans (owes_release key _))]
      exact apply_release (release_fetch (g := s.settled) hmode hbits hword)
  | write set hc =>
    have hnone : (s.call c).owes = none := by rw [hc]; rfl
    rw [hc] at hok
    obtain ⟨hholds, hset⟩ := hok
    cases op with
    | tryAcquire key =>
      rw [hi.settled_acquire hm hnone (owes_self.trans (owes_unlocking key _))]
      -- the set that was read is still there
      have hset' : s.settled.sets[s.settled.shard key]? = some set := hset
      have hacquire := tryAcquire_write (g := s.settled) hholds.mode hholds.shards hset'
      rw [show stored s.settled key _ = _ from stored_settled s (.tryAcquire key) _] at hacquire
      exact apply_acquire hacquire
    | release key =>
      rw [hi.settled_release hm hnone (owes_self.trans rfl)]
      exact apply_release (release_write (g := s.settled) hholds.mode hholds.shards hset)

/-- A call that has had its point. -/
def Pc.past (op : Op) (got : Bool) : Pc → Prop
  | .unlocking op' got' | .counting op' got' | .returned op' got' => op' = op ∧ got' = got
  | _ => False

def State.past (s : State) (q : Entry ℕ Op Bool) : Prop := (s.call q.caller).past q.op q.answer

theorem past_leave (op : Op) (got : Bool) : (op.leave got).past op got := by
  cases op <;> exact ⟨rfl, rfl⟩

theorem past_self {q : Entry ℕ Op Bool} (hq : q.caller = c) (h : p.past q.op q.answer) : (s.at c p).past q := by
  unfold State.past
  rw [hq, at_self]
  exact h

/-- A call has its point once. -/
theorem Acts.once (h : Acts s c op got t) : t.past ⟨c, op, got⟩ ∧ ∀ q : Entry ℕ Op Bool, q.caller = c → ¬s.past q := by
  have hfresh : (∀ op got, ¬(s.call c).past op got) → ∀ q : Entry ℕ Op Bool, q.caller = c → ¬s.past q := by
    rintro hnot q rfl
    exact hnot q.op q.answer
  cases h with
  | pass hc => exact ⟨past_self rfl (past_leave op true), hfresh fun op got => by rw [hc]; exact id⟩
  | fetch before hc => exact ⟨past_self rfl (past_leave op _), hfresh fun op got => by rw [hc]; exact id⟩
  | write set hc => exact ⟨past_self rfl ⟨rfl, rfl⟩, hfresh fun op got => by rw [hc]; exact id⟩

theorem step_past {q : Entry ℕ Op Bool} (hs : step s e = some t) (h : s.past q) : t.past q := by
  have hm := step_moves hs
  by_cases hq : q.caller = e.caller
  · unfold State.past at h
    cases step_moves hs with
    | spin c op hc =>
      rw [hq, Ev.caller, hc] at h
      exact h.elim
    | call c op hc | pass c op hc | lock c op hc | fetch c op before hc | look c op set hc | write c op set hc =>
      rw [hq, Ev.caller, hc] at h
      exact h.elim
    | unlock c op got hc =>
      rw [hq, Ev.caller, hc] at h
      obtain ⟨hop, hgot⟩ := h
      rw [hop, hgot]
      exact past_self hq (past_leave _ _)
    | count c op got hc =>
      rw [hq, Ev.caller, hc] at h
      exact past_self hq h
  · unfold State.past
    rw [hm.call_eq hq]
    exact h

/-- **The points of the calls**, and the gate that they play. -/
theorem call_points : Points step apply (fun s => some s.settled) point Inv State.past where
  inv := step_inv
  skip _ _ _ hi hs h := congrArg some (point_skip hi hs h)
  apply _ _ _ q hi hs h := by
    obtain ⟨rfl, hacts⟩ := point_acts hs h
    exact hacts.apply_eq hi (step_moves hs)
  point _ _ _ q _ hs h := (point_acts hs h).2.once
  bound _ _ _ _ _ hs h := step_past hs h

/-- Whoever has had its point had it before, or has it now. -/
theorem past_back {q : Entry ℕ Op Bool} (hs : step s e = some t) (h : t.past q) : s.past q ∨ point s e = some q := by
  have hm := step_moves hs
  by_cases hq : q.caller = e.caller
  · have hself : ∀ {u : State} {c p}, q.caller = c → (u.at c p).past q → p.past q.op q.answer := by
      intro u c p hc hpast
      unfold State.past at hpast
      rwa [hc, at_self] at hpast
    have hleave : ∀ {op got}, (op.leave got).past q.op q.answer → q = ⟨q.caller, op, got⟩ := by
      intro op got hpast
      obtain ⟨hop, hgot⟩ : op = q.op ∧ got = q.answer := by
        cases op <;> exact hpast
      rw [hop, hgot]
    cases step_moves hs with
    | spin => exact Or.inl h
    | call c op hc | lock c op hc | look c op set hc => exact (hself hq h).elim
    | pass c op hc hmode =>
      rw [hleave (hself hq h), hq]
      exact Or.inr (by simp only [point, Ev.caller, hc, hmode])
    | fetch c op before hc hmode hbits hword =>
      rw [hleave (hself hq h), hq]
      exact Or.inr (by simp only [point, Ev.caller, hc, hmode, hword, Option.map_some])
    | write c op set hc =>
      obtain ⟨hop, hgot⟩ := hself hq h
      rw [show q = ⟨q.caller, op, (written set op).2⟩ by rw [hgot, hop], hq]
      exact Or.inr (by simp only [point, Ev.caller, hc])
    | unlock c op got hc =>
      rw [hleave (hself hq h)]
      left
      unfold State.past
      rw [hq, Ev.caller, hc]
      exact ⟨rfl, rfl⟩
    | count c op got hc =>
      left
      unfold State.past
      rw [hq, Ev.caller, hc]
      exact hself (p := .returned op got) hq h
  · left
    unfold State.past at h ⊢
    rwa [hm.call_eq hq] at h

/-- **Who has had its point is in the history.** -/
theorem past_mem {guard : InflightGuard} {es : List Ev} (h : run step (init guard) es = some s) :
    ∀ q : Entry ℕ Op Bool, s.past q → q ∈ history guard es := by
  refine run_trace (I := fun es s => ∀ q : Entry ℕ Op Bool, s.past q → q ∈ history guard es) ?_ ?_ h
  · intro q hq
    exact hq.elim
  · intro es s e t hrun hmem hs q hq
    unfold history
    rw [collect_snoc e hrun, List.mem_append]
    rcases past_back hs hq with hpast | hpoint
    · exact Or.inl (hmem q hpast)
    · exact Or.inr (by rw [hpoint]; exact List.mem_singleton_self q)

/-- The operation of a call. -/
def Pc.made : Pc → Option Op
  | .idle => none
  | .entered op | .looking op | .writing op _ | .unlocking op _ | .counting op _ | .returned op _ => some op

theorem made_leave (op : Op) (got : Bool) : (op.leave got).made = some op := by
  cases op <;> rfl

theorem made_of_past {got : Bool} (h : p.past op got) : p.made = some op := by
  cases p with
  | unlocking | counting | returned => exact congrArg some h.1
  | idle | entered | looking | writing => exact h.elim

theorem Moves.made_eq (h : Moves s e t) (c : ℕ) (op : Op) (ht : (t.call c).made = some op) :
    (s.call c).made = some op ∨ e = .call c op := by
  by_cases hc : c = e.caller
  · subst hc
    cases h with
    | call c op' hc =>
      simp only [Ev.caller, at_self] at ht ⊢
      cases ht
      exact Or.inr rfl
    | spin => exact Or.inl ht
    | pass c op' hc | fetch c op' before hc | unlock c op' got hc =>
      simp only [Ev.caller, at_self, made_leave] at ht ⊢
      cases ht
      exact Or.inl (by rw [hc]; rfl)
    | lock c op' hc | look c op' set hc | write c op' set hc | count c op' got hc =>
      simp only [Ev.caller, at_self] at ht ⊢
      cases ht
      exact Or.inl (by rw [hc]; rfl)
  · rw [h.call_eq hc] at ht
    exact Or.inl ht

/-- A call was made. -/
theorem run_called {guard : InflightGuard} {es : List Ev} (h : run step (init guard) es = some s) :
    ∀ c op, (s.call c).made = some op → .call c op ∈ es := by
  refine run_trace (I := fun es s => ∀ c op, (s.call c).made = some op → Ev.call c op ∈ es) ?_ ?_ h
  · intro c op hop
    cases hop
  · intro es s e t _ hcalled hs c op hop
    rw [List.mem_append, List.mem_singleton]
    rcases (step_moves hs).made_eq c op hop with hbefore | hcall
    · exact Or.inl (hcalled c op hbefore)
    · exact Or.inr hcall.symm

/-- **The gate is linearizable.** Whatever the mode and the order of the steps: the calls, in
the order of their points, are a sequential run of the gate with the same answers, from the
first guard to this one with what is still to be counted; a call has one point, and one before
it has returned; a call that has returned comes before any that is made later; and no two are
within the section of one shard. -/
theorem gate_linearizable (guard : InflightGuard) (es : List Ev) (s : State)
    (h : run step (init guard) es = some s) :
    play apply (some guard) ((history guard es).map Entry.op) =
        (some s.settled, (history guard es).map Entry.answer) ∧
      ((history guard es).map Entry.caller).Nodup ∧
      (∀ q ∈ history guard es, .call q.caller q.op ∈ es) ∧
      (∀ c op got, s.call c = .returned op got → ⟨c, op, got⟩ ∈ history guard es) ∧
      (∀ pre post u, es = pre ++ post → run step (init guard) pre = some u →
        ∃ later, history guard es = history guard pre ++ later ∧
          (∀ q ∈ history guard pre, u.call q.caller ≠ .idle) ∧
          ∀ q ∈ later, ∀ op got, u.call q.caller ≠ .returned op got) ∧
      ((∀ c, s.call c = .idle ∨ ∃ op got, s.call c = .returned op got) → s.settled = s.guard) ∧
      ∀ c c' op op', (s.call c).inside = some op → (s.call c').inside = some op' →
        s.shardOf op = s.shardOf op' → c = c' := by
  have h₀ := init_inv guard
  have hplay := call_points.play_eq h₀ h
  rw [settled_of_rests fun c => Or.inl rfl] at hplay
  have hnodup := call_points.callers_nodup h₀ h
  refine ⟨hplay, hnodup, fun q hq => ?_, fun c op got hc => ?_, ?_, settled_of_rests,
    (run_inv step_inv h₀ h).alone⟩
  · exact run_called h _ _ (made_of_past (call_points.bound_of_mem h₀ h q hq))
  · refine past_mem h ⟨c, op, got⟩ ?_
    unfold State.past
    rw [hc]
    exact ⟨rfl, rfl⟩
  · rintro pre post u rfl hu
    refine ⟨collect step point u post, collect_append hu, fun q hq hidle => ?_, fun q hq op got hreturned => ?_⟩
    · have hpast : u.past q := call_points.bound_of_mem h₀ hu q hq
      unfold State.past at hpast
      rw [hidle] at hpast
      exact hpast
    · -- it has had its point already
      have hmem : (⟨q.caller, op, got⟩ : Entry ℕ Op Bool) ∈ history guard pre := by
        refine past_mem hu _ ?_
        unfold State.past
        rw [hreturned]
        exact ⟨rfl, rfl⟩
      rw [collect_append hu, List.map_append, List.nodup_append] at hnodup
      exact hnodup.2.2 _ (List.mem_map_of_mem hmem) _ (List.mem_map_of_mem hq) rfl

/-- Two calls for one key; the second tries the lock in vain while the first has it, and the
first counts when the second has been refused. -/
def twoCalls : List Ev :=
  [.call 0 (.tryAcquire 7), .call 1 (.tryAcquire 7), .go 0, .go 1, .go 0, .go 0, .go 1, .go 0, .go 1, .go 1, .go 1,
    .go 0]

theorem gate_linearizable_twoCalls : ∃ s, run step (init (.new .spin 64 65536)) twoCalls = some s ∧
    s.guard.acquired = 1 ∧ s.guard.rejected = 0 ∧
    play apply (some (.new .spin 64 65536)) [.tryAcquire 7, .tryAcquire 7] = (some s.settled, [true, false]) := by
  have hrun : (run step (init (.new .spin 64 65536)) twoCalls).map (fun s => (s.guard.acquired, s.guard.rejected)) =
      some (1, 0) := by decide +kernel
  obtain ⟨s, hs, hcounters⟩ := Option.map_eq_some_iff.1 hrun
  obtain ⟨hacquired, hrejected⟩ := Prod.mk.inj hcounters
  have hhistory : history (.new .spin 64 65536) twoCalls =
      [⟨0, .tryAcquire 7, true⟩, ⟨1, .tryAcquire 7, false⟩] := by decide +kernel
  have hplay := (gate_linearizable _ _ s hs).1
  rw [hhistory] at hplay
  exact ⟨s, hs, hacquired, hrejected, hplay⟩

/-! ## One request in flight -/

/-- A call that was granted the mark of the key. -/
def grants (g : InflightGuard) (key : UInt64) (q : Entry ℕ Op Bool) : Bool :=
  match q.op with
  | .tryAcquire k => q.answer && decide (g.slot k = g.slot key)
  | .release _ => false

/-- A call that cleared the mark of the key. -/
def clears (g : InflightGuard) (key : UInt64) (q : Entry ℕ Op Bool) : Bool :=
  match q.op with
  | .tryAcquire _ => false
  | .release k => decide (g.slot k = g.slot key)

theorem apply_shape {g g' : InflightGuard} (h : apply (some g) op = (some g', got)) : SameShape g g' := by
  cases op with
  | tryAcquire key =>
    unfold apply at h
    dsimp only at h
    split at h
    next g₁ got₁ hacquire =>
      cases h
      exact tryAcquire_shape hacquire
    next => cases h
  | release key => exact release_shape (Prod.mk.inj h).1

/-- Keys that share a mark read it alike. -/
theorem marked_of_slot {g : InflightGuard} {k key : UInt64} (h : g.slot k = g.slot key) :
    g.marked k = g.marked key := by
  by_cases hm : g.mode = .atomic
  · obtain ⟨hword, hbit⟩ := (slot_atomic_eq hm key).1 h
    rw [marked_atomic hm, marked_atomic hm, hword, hbit]
  · rw [(slot_exact_eq hm key).1 h]

/-- What a call does to the mark of a key, and to the number of its grants. -/
theorem apply_grants {g g' : InflightGuard} (hm : g.mode ≠ .none) {q : Entry ℕ Op Bool}
    (h : apply (some g) q.op = (some g', q.answer)) (key : UInt64) :
    (if grants g key q = true then 1 else 0) + (if g.marked key = true then 1 else 0) ≤
      (if clears g key q = true then 1 else 0) + if g'.marked key = true then 1 else 0 := by
  unfold grants clears
  cases hop : q.op with
  | tryAcquire k =>
    rw [hop] at h
    unfold apply at h
    dsimp only at h
    split at h
    next g₁ got hacquire =>
      obtain ⟨hg, hgot⟩ := Prod.mk.inj h
      cases hg
      obtain ⟨hfree, hmarks⟩ := tryAcquire_spec hm hacquire
      rw [← hgot, hfree, hmarks key]
      by_cases hslot : g.slot k = g.slot key
      · rw [marked_of_slot hslot]
        cases hmark : g.marked key <;> simp [hslot]
      · simp [hslot]
    next => cases h
  | release k =>
    rw [hop] at h
    obtain ⟨hrelease, -⟩ := Prod.mk.inj h
    rw [release_spec hm hrelease key]
    by_cases hslot : g.slot k = g.slot key
    · simp only [hslot, decide_true, Bool.not_true, Bool.and_false, Bool.false_eq_true, if_false, if_true]
      split <;> omega
    · simp [hslot]

theorem grants_shape {g g' : InflightGuard} (h : SameShape g g') : grants g' = grants g := by
  funext key q
  unfold grants
  rw [h.slot]

theorem clears_shape {g g' : InflightGuard} (h : SameShape g g') : clears g' = clears g := by
  funext key q
  unfold clears
  rw [h.slot]

theorem play_none (ops : List Op) : (play apply none ops).1 = none := by
  induction ops with
  | nil => rfl
  | cons op ops ih => exact ih

/-- **A mark is granted once more than it is cleared, at most**, in a sequential run. -/
theorem play_grants (key : UInt64) (qs : List (Entry ℕ Op Bool)) : ∀ g g' : InflightGuard, g.mode ≠ .none →
    play apply (some g) (qs.map Entry.op) = (some g', qs.map Entry.answer) →
      qs.countP (grants g key) + (if g.marked key = true then 1 else 0) ≤
        qs.countP (clears g key) + if g'.marked key = true then 1 else 0 := by
  induction qs with
  | nil =>
    intro g g' _ h
    cases h
    exact Nat.le_refl _
  | cons q qs ih =>
    intro g g' hm h
    obtain ⟨hlast, hanswers⟩ := Prod.mk.inj h
    obtain ⟨hanswer, hrest⟩ := List.cons.inj hanswers
    cases hg₁ : (apply (some g) q.op).1 with
    | none =>
      rw [hg₁, play_none] at hlast
      cases hlast
    | some g₁ =>
      have happly : apply (some g) q.op = (some g₁, q.answer) := Prod.ext hg₁ hanswer
      have hshape := apply_shape happly
      have hone := apply_grants hm happly key
      have htail := ih g₁ g' (by rw [hshape.mode]; exact hm) (by rw [← hg₁]; exact Prod.ext hlast hrest)
      rw [grants_shape hshape, clears_shape hshape] at htail
      rw [List.countP_cons, List.countP_cons]
      omega

/-- Two that are counted are one, where one is counted. -/
theorem eq_of_countP_le_one {α : Type*} {P : α → Bool} {l : List α} (h : l.countP P ≤ 1) {a b : α} (ha : a ∈ l)
    (hb : b ∈ l) (hPa : P a = true) (hPb : P b = true) : a = b := by
  rw [List.countP_eq_length_filter] at h
  have ha' := List.mem_filter.2 ⟨ha, hPa⟩
  have hb' := List.mem_filter.2 ⟨hb, hPb⟩
  cases hl : l.filter P with
  | nil =>
    rw [hl] at ha'
    cases ha'
  | cons x xs =>
    rw [hl] at h ha' hb'
    have hxs : xs = [] := List.eq_nil_of_length_eq_zero (Nat.le_zero.1 (Nat.le_of_succ_le_succ h))
    rw [hxs, List.mem_singleton] at ha' hb'
    rw [ha', hb']

/-- **One request in flight.** Whatever the order of the steps, a mark is granted once more than
it is cleared, at most; so while no call clears it, two calls that were granted it are one. -/
theorem gate_excludes (guard : InflightGuard) (hmode : guard.mode ≠ .none) (es : List Ev) (s : State)
    (h : run step (init guard) es = some s) (key : UInt64) :
    (history guard es).countP (grants guard key) ≤ (history guard es).countP (clears guard key) + 1 ∧
      ((∀ c k, .call c (.release k) ∈ es → guard.slot k ≠ guard.slot key) → ∀ c c' k k',
        s.call c = .returned (.tryAcquire k) true → s.call c' = .returned (.tryAcquire k') true →
        guard.slot k = guard.slot key → guard.slot k' = guard.slot key → c = c') := by
  have hplay := call_points.play_eq (init_inv guard) h
  rw [settled_of_rests fun c => Or.inl rfl] at hplay
  have hgrants := play_grants key _ guard _ hmode hplay
  have hcount : (history guard es).countP (grants guard key) ≤ (history guard es).countP (clears guard key) + 1 := by
    have hone : (if s.settled.marked key = true then 1 else 0) ≤ 1 := by split <;> omega
    unfold history
    omega
  refine ⟨hcount, fun hclears c c' k k' hc hc' hk hk' => ?_⟩
  have hnone : (history guard es).countP (clears guard key) = 0 := by
    refine List.countP_eq_zero.2 fun q hq hclear => ?_
    unfold clears at hclear
    split at hclear
    next => cases hclear
    next k₁ hop =>
      have hcalled := run_called h _ _ (made_of_past (call_points.bound_of_mem (init_inv guard) h q hq))
      rw [hop] at hcalled
      exact hclears _ _ hcalled (of_decide_eq_true hclear)
  have hmem : ∀ {d k₁}, s.call d = .returned (.tryAcquire k₁) true →
      (⟨d, .tryAcquire k₁, true⟩ : Entry ℕ Op Bool) ∈ history guard es := by
    intro d k₁ hd
    refine past_mem h _ ?_
    unfold State.past
    rw [hd]
    exact ⟨rfl, rfl⟩
  have hgranted : ∀ {d : ℕ} {k₁}, guard.slot k₁ = guard.slot key →
      grants guard key ⟨d, .tryAcquire k₁, true⟩ = true := by
    intro d k₁ hslot
    simp only [grants, hslot, decide_true, Bool.and_self]
  have heq := eq_of_countP_le_one (by omega : (history guard es).countP (grants guard key) ≤ 1) (hmem hc) (hmem hc')
    (hgranted hk) (hgranted hk')
  exact congrArg Entry.caller heq

/-- `twoCalls`, then another call for the same key, and a grant and a release of a different
one in the meantime. -/
def fiveCalls : List Ev :=
  twoCalls ++ [.call 2 (.tryAcquire 8), .call 3 (.tryAcquire 7), .go 2, .go 3, .go 1, .go 2, .go 1, .go 2, .go 3, .go 2,
    .go 3, .go 2, .call 4 (.release 8), .go 4, .go 3, .go 4, .go 3, .go 4, .go 4, .go 3]

/-- The first call alone is granted the key. -/
theorem gate_excludes_fiveCalls : ∃ s, run step (init (.new .spin 64 65536)) fiveCalls = some s ∧
    s.call 0 = .returned (.tryAcquire 7) true ∧ s.call 3 = .returned (.tryAcquire 7) false ∧
    s.call 4 = .returned (.release 8) true ∧
    (history (.new .spin 64 65536) fiveCalls).countP (grants (.new .spin 64 65536) 7) ≤ 1 ∧
    ∀ c, s.call c = .returned (.tryAcquire 7) true → c = 0 := by
  have hrun : (run step (init (.new .spin 64 65536)) fiveCalls).map (fun s => (s.call 0, s.call 3, s.call 4)) =
      some (.returned (.tryAcquire 7) true, .returned (.tryAcquire 7) false, .returned (.release 8) true) := by
    decide +kernel
  obtain ⟨s, hs, hcalls⟩ := Option.map_eq_some_iff.1 hrun
  simp only [Prod.mk.injEq] at hcalls
  obtain ⟨hfirst, hlater, hreleased⟩ := hcalls
  have hnone : (history (.new .spin 64 65536) fiveCalls).countP (clears (.new .spin 64 65536) 7) = 0 := by
    decide +kernel
  have hother : ∀ c k, .call c (.release k) ∈ fiveCalls →
      (InflightGuard.new .spin 64 65536).slot k ≠ (InflightGuard.new .spin 64 65536).slot 7 := by
    intro c k hcall
    have hk : k = 8 := by
      simp only [fiveCalls, twoCalls, List.cons_append, List.nil_append, List.mem_cons, List.not_mem_nil, Ev.call.injEq,
        Op.release.injEq, reduceCtorEq, and_false, or_false, false_or] at hcall
      exact hcall.2
    rw [hk]
    decide
  obtain ⟨hcount, hone⟩ := gate_excludes (.new .spin 64 65536) (by decide) fiveCalls s hs 7
  rw [hnone] at hcount
  exact ⟨s, hs, hfirst, hlater, hreleased, hcount, fun c hc => hone hother c 0 7 7 hc hfirst rfl rfl⟩

end GuardThreads

end Seckill
