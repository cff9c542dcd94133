import Seckill.Lib.Run
import Seckill.Spec.Guards

/-!
# The login lock of a phone

Under the commands of the guard, in any order and with any waiting in between:

* `Guarded`: no lock and counter at a time, and a counter from `1` to `maxFail - 1`
  that expires within `lockSeconds`.
* `onFailure_cases`: what a failure does; from it `guarded_step`.
* `loginGuard_locks`: the invariant in every reachable state, the failure that locks
  is number `maxFail` since there was no counter, and two of them are `lockSeconds`
  apart.
-/

namespace Seckill.LoginGuard

open Redis Machine

variable {cfg : Config} {phone : String} {s t u v : Store Key} {e : Ev}

/-- **No lock beside a counter**, and no counter that could stay. -/
structure Guarded (cfg : Config) (phone : String) (s : Store Key) : Prop where
  apart : s.find (lockKey phone) = none ∨ s.find (failKey phone) = none
  counter : ∀ x, s.find (failKey phone) = some x → ∃ (n : ℤ) (at_ : ℕ), x = ⟨.int n, some at_⟩ ∧ 1 ≤ n ∧
    n ≤ cfg.maxFail - 1 ∧ (at_ : ℤ) ≤ s.now + cfg.lockSeconds * 1000

theorem Guarded.count_lt (h : Guarded cfg phone s) (hmax : 1 ≤ cfg.maxFail) :
    0 ≤ count s (failKey phone) ∧ count s (failKey phone) < cfg.maxFail := by
  cases hfind : s.find (failKey phone) with
  | none =>
    rw [count_none hfind]
    omega
  | some x =>
    obtain ⟨n, at_, rfl, hpos, hle, -⟩ := h.counter x hfind
    rw [count_of_find hfind]
    omega

theorem failKey_ne_lockKey (phone phone' : String) : failKey phone ≠ lockKey phone' := by simp [failKey, lockKey]

/-! ## A failure -/

/-- What `onFailure` leaves when it counts: the counter is there, with one more. -/
structure CountsUp (cfg : Config) (phone : String) (s t : Store Key) : Prop where
  now : t.now = s.now
  other : ∀ k, k ≠ failKey phone → t.cell k = s.cell k
  find : ∃ at_ : ℕ, t.find (failKey phone) = some ⟨.int (count s (failKey phone) + 1), some at_⟩ ∧
    (at_ : ℤ) ≤ s.now + cfg.lockSeconds * 1000

/-- What it leaves when it locks: the lock, for `lockSeconds`, and no counter. -/
structure Locks (cfg : Config) (phone : String) (s t : Store Key) : Prop where
  now : t.now = s.now
  other : ∀ k, k ≠ failKey phone → k ≠ lockKey phone → t.cell k = s.cell k
  lock : t.cell (lockKey phone) = some ⟨.raw "1", some (s.now + cfg.lockSeconds.toNat * 1000)⟩
  fail : t.find (failKey phone) = none

/-- `INCR`, and `EXPIRE` for the first. -/
theorem countUp (h : Guarded cfg phone s) (hsec : 1 ≤ cfg.lockSeconds) {β : Type} (f : ℤ → Script Key β) :
    ∃ t, (incr (failKey phone) >>= fun n => expireFirst (failKey phone) n cfg.lockSeconds >>= fun _ => f n) s =
      f (count s (failKey phone) + 1) t ∧ CountsUp cfg phone s t := by
  cases hfind : s.find (failKey phone) with
  | none =>
    rw [counted_none _ _ _ hfind (by omega), count_none hfind]
    refine ⟨_, rfl, rfl, fun k hk => Store.cell_put_of_ne _ _ hk, s.now + cfg.lockSeconds.toNat * 1000, ?_, ?_⟩
    · rw [count_none hfind]
      exact Store.find_put_expire s _ _ _
    · omega
  | some x =>
    obtain ⟨n, at_, rfl, hpos, -, hat⟩ := h.counter x hfind
    rw [counted_some _ _ _ hfind (by omega), count_of_find hfind]
    refine ⟨_, rfl, rfl, fun k hk => Store.cell_put_of_ne _ _ hk, at_, ?_, hat⟩
    rw [count_of_find hfind, Store.find_put_self, Option.filter_eq_some_iff]
    exact ⟨rfl, (Store.find_some.1 hfind).2⟩

/-- **What a failure does**: under a lock nothing; otherwise it counts, or it is number
`maxFail` and locks. -/
theorem onFailure_cases (h : Guarded cfg phone s) (hmax : 1 ≤ cfg.maxFail) (hsec : 1 ≤ cfg.lockSeconds) :
    (s.find (lockKey phone) ≠ none ∧ (onFailure cfg s phone).2 = s ∧
        ∃ secs, (onFailure cfg s phone).1 = .alreadyLocked secs) ∨
      s.find (lockKey phone) = none ∧
        (count s (failKey phone) + 1 < cfg.maxFail ∧
            (onFailure cfg s phone).1 = .counting (count s (failKey phone) + 1) ∧
            CountsUp cfg phone s (onFailure cfg s phone).2 ∨
          count s (failKey phone) + 1 = cfg.maxFail ∧ (onFailure cfg s phone).1 = .lockedNow cfg.lockSeconds ∧
            Locks cfg phone s (onFailure cfg s phone).2) := by
  obtain ⟨hnonneg, hlt⟩ := h.count_lt hmax
  unfold onFailure kOnFailureScript
  cases hlock : s.find (lockKey phone) with
  | some x =>
    left
    -- `TTL` writes nothing
    obtain ⟨q, hq⟩ : ∃ q, (ttl (lockKey phone) s).1 = .ok q := ⟨_, rfl⟩
    rw [exists_bind, hlock]
    simp only [Option.isSome_some, if_true]
    rw [ttl_bind _ _ _ hq]
    exact ⟨Option.some_ne_none x, rfl, q, rfl⟩
  | none =>
    right
    refine ⟨rfl, ?_⟩
    rw [exists_bind, hlock]
    simp only [Option.isSome_none, Bool.false_eq_true, if_false]
    obtain ⟨t, ht, hcounts⟩ := countUp h hsec fun n =>
      if n ≥ cfg.maxFail then do
        setex (lockKey phone) cfg.lockSeconds (.raw "1")
        let _ ← del (failKey phone)
        return (-2, cfg.lockSeconds)
      else return (n, 0)
    rw [ht]
    by_cases hlast : count s (failKey phone) + 1 ≥ cfg.maxFail
    · right
      -- the counter is below `maxFail`, so this is exactly the last failure
      rw [if_pos hlast, setex_bind _ _ (by omega), del_bind, hcounts.now]
      refine ⟨by omega, rfl, hcounts.now, fun k hk hk' => ?_, ?_, ?_⟩
      · change ((t.put _ _).put _ _).cell k = s.cell k
        rw [Store.cell_put_of_ne _ _ hk, Store.cell_put_of_ne _ _ hk', hcounts.other k hk]
      · change ((t.put _ _).put _ _).cell _ = _
        rw [Store.cell_put_of_ne _ _ (failKey_ne_lockKey phone phone).symm, Store.cell_put_self]
      · change ((t.put _ _).put _ none).find _ = none
        rw [Store.find_put_self]
        rfl
    · left
      rw [if_neg hlast]
      refine ⟨by omega, ?_, hcounts⟩
      change onReply (.ok (_, 0)) = _
      unfold onReply
      simp only
      rw [if_neg (by omega), if_neg (by omega)]

/-! ## The commands of the guard -/

/-- The script writes the lock and the counter of its phone only. -/
theorem kOnFailureScript_does {R : Store Key → Store Key → Prop} [IsPreorder (Store Key) R] {lockKey failKey : Key}
    {maxFail lockSeconds : ℤ} (hlock : ∀ s e, R s (s.put lockKey e)) (hcount : Counts R failKey) :
    (kOnFailureScript lockKey failKey maxFail lockSeconds).Does R := by
  unfold kOnFailureScript
  refine does_bind does_exists fun locked => ?_
  split
  · exact does_bind does_ttl fun _ => does_pure _
  · refine does_bind (does_incr hcount) fun n => does_bind (does_expireFirst hcount) fun _ => ?_
    split
    · refine does_bind (does_setex fun s _ => hlock s _) fun _ => ?_
      exact does_bind (does_del hcount.del) fun _ => does_pure _
    · exact does_pure _

theorem onFailure_frame (cfg : Config) (s : Store Key) (phone : String) :
    SameBut (fun k => k = lockKey phone ∨ k = failKey phone) s (onFailure cfg s phone).2 :=
  kOnFailureScript_does (fun s _ => sameBut_put (P := fun k => k = lockKey phone ∨ k = failKey phone) (Or.inl rfl) s _)
    (sameBut_counts (Or.inr rfl)) s

theorem checkLocked_same (s : Store Key) (phone : String) : (checkLocked s phone).2 = s := by
  change (kCheckScript (lockKey phone) s).2 = s
  unfold kCheckScript
  rw [exists_bind]
  split <;> rfl

theorem find_congr {k : Key} (hnow : t.now = s.now) (hcell : t.cell k = s.cell k) : t.find k = s.find k := by
  unfold Store.find
  rw [hnow, hcell]

/-- A step on the keys of another phone, or none at all, changes nothing for this one; the
others are its own commands, and time. -/
theorem step_cases (phone : String) (h : step cfg s e = some t) :
    (t.now = s.now ∧ t.cell (lockKey phone) = s.cell (lockKey phone) ∧
        t.cell (failKey phone) = s.cell (failKey phone) ∧ e ≠ .onFailure phone) ∨
      (e = .onFailure phone ∧ t = (onFailure cfg s phone).2) ∨
      (e = .onSuccess phone ∧ t = s.put (failKey phone) none) ∨
      ∃ ms, e = .wait ms ∧ t = s.wait ms := by
  cases e with
  | checkLocked phone' =>
    left
    rw [← Option.some.inj h, checkLocked_same]
    exact ⟨rfl, rfl, rfl, by simp⟩
  | onFailure phone' =>
    have ht : (onFailure cfg s phone').2 = t := Option.some.inj h
    by_cases hphone : phone' = phone
    · subst hphone
      exact Or.inr (Or.inl ⟨rfl, ht.symm⟩)
    · left
      obtain ⟨hnow, hframe⟩ := onFailure_frame cfg s phone'
      rw [ht] at hnow hframe
      refine ⟨hnow, hframe _ ?_, hframe _ ?_, by simpa using hphone⟩
      · simpa [lockKey, failKey] using Ne.symm hphone
      · simpa [lockKey, failKey] using Ne.symm hphone
  | onSuccess phone' =>
    have ht : s.put (failKey phone') none = t := Option.some.inj h
    by_cases hphone : phone' = phone
    · subst hphone
      exact Or.inr (Or.inr (Or.inl ⟨rfl, ht.symm⟩))
    · left
      rw [← ht]
      have hne : failKey phone ≠ failKey phone' := by simpa [failKey] using Ne.symm hphone
      exact ⟨rfl, Store.cell_put_of_ne _ _ (failKey_ne_lockKey phone' phone).symm, Store.cell_put_of_ne _ _ hne, by simp⟩
  | wait ms => exact Or.inr (Or.inr (Or.inr ⟨ms, rfl, (Option.some.inj h).symm⟩))

theorem Guarded.congr (hs : Guarded cfg phone s) (hnow : t.now = s.now)
    (hlock : t.cell (lockKey phone) = s.cell (lockKey phone)) (hfail : t.cell (failKey phone) = s.cell (failKey phone)) :
    Guarded cfg phone t := by
  refine ⟨?_, fun x hx => ?_⟩
  · rw [find_congr hnow hlock, find_congr hnow hfail]
    exact hs.apart
  · rw [find_congr hnow hfail] at hx
    rw [hnow]
    exact hs.counter x hx

/-- **Every command keeps the invariant**, and so does time. -/
theorem guarded_step (hmax : 1 ≤ cfg.maxFail) (hsec : 1 ≤ cfg.lockSeconds) (hs : Guarded cfg phone s)
    (h : step cfg s e = some t) : Guarded cfg phone t := by
  rcases step_cases phone h with ⟨hnow, hlock, hfail, -⟩ | ⟨-, rfl⟩ | ⟨-, rfl⟩ | ⟨ms, -, rfl⟩
  · exact hs.congr hnow hlock hfail
  · rcases onFailure_cases hs hmax hsec with ⟨-, hsame, -⟩ | ⟨hnone, ⟨hlt, -, hcounts⟩ | ⟨-, -, hlocks⟩⟩
    · rw [hsame]
      exact hs
    · -- it counted: the lock, which was not there, is not written
      obtain ⟨at_, hfind, hat⟩ := hcounts.find
      have hnonneg := (hs.count_lt hmax).1
      refine ⟨Or.inl ?_, fun x hx => ?_⟩
      · rw [find_congr hcounts.now (hcounts.other _ (failKey_ne_lockKey phone phone).symm)]
        exact hnone
      · rw [hfind] at hx
        rw [hcounts.now]
        exact ⟨_, at_, (Option.some.inj hx).symm, by omega, by omega, hat⟩
    · -- it locked: the counter is deleted
      refine ⟨Or.inr hlocks.fail, fun x hx => ?_⟩
      rw [hlocks.fail] at hx
      cases hx
  · refine ⟨Or.inr ?_, fun x hx => ?_⟩
    · rw [Store.find_put_self]
      rfl
    · rw [Store.find_put_self] at hx
      cases hx
  · -- what is there after waiting was there before
    refine ⟨?_, fun x hx => ?_⟩
    · rw [Store.find_wait, Store.find_wait]
      rcases hs.apart with hnone | hnone
      · rw [hnone]
        exact Or.inl rfl
      · rw [hnone]
        exact Or.inr rfl
    · rw [Store.find_wait] at hx
      obtain ⟨n, at_, heq, hpos, hle, hat⟩ := hs.counter x (Option.filter_eq_some_iff.1 hx).1
      refine ⟨n, at_, heq, hpos, hle, ?_⟩
      rw [Store.wait_now]
      push_cast
      omega

/-- A lock that is set has a time to live. -/
theorem timed_step (hmax : 1 ≤ cfg.maxFail) (hsec : 1 ≤ cfg.lockSeconds) (hs : Guarded cfg phone s)
    (htimed : ∀ x, s.cell (lockKey phone) = some x → ∃ until_, x.expireAt = some until_) (h : step cfg s e = some t)
    {x : Entry} (hx : t.cell (lockKey phone) = some x) : ∃ until_, x.expireAt = some until_ := by
  rcases step_cases phone h with ⟨-, hlock, -, -⟩ | ⟨-, rfl⟩ | ⟨-, rfl⟩ | ⟨ms, -, rfl⟩
  · rw [hlock] at hx
    exact htimed x hx
  · rcases onFailure_cases hs hmax hsec with ⟨-, hsame, -⟩ | ⟨-, ⟨-, -, hcounts⟩ | ⟨-, -, hlocks⟩⟩
    · rw [hsame] at hx
      exact htimed x hx
    · rw [hcounts.other _ (failKey_ne_lockKey phone phone).symm] at hx
      exact htimed x hx
    · rw [hlocks.lock] at hx
      rw [← Option.some.inj hx]
      exact ⟨_, rfl⟩
  · rw [Store.cell_put_of_ne _ _ (failKey_ne_lockKey phone phone).symm] at hx
    exact htimed x hx
  · exact htimed x hx

theorem guarded_run (hmax : 1 ≤ cfg.maxFail) (hsec : 1 ≤ cfg.lockSeconds) {es : List Ev} (hs : Guarded cfg phone s)
    (h : run (step cfg) s es = some t) : Guarded cfg phone t :=
  run_inv (fun _ _ _ hs h => guarded_step hmax hsec hs h) hs h

/-! ## The failure that locks -/

/-- A failure of the phone that is counted: there is no lock. -/
def counted (phone : String) (s : Store Key) (e : Ev) : Bool :=
  e = .onFailure phone ∧ (s.find (lockKey phone)).isNone

/-- The counter is there after the step. -/
def KeepsCounter (cfg : Config) (phone : String) (s : Store Key) (e : Ev) : Prop :=
  ∀ t, step cfg s e = some t → t.find (failKey phone) ≠ none

/-- As long as the counter is there, it counts the failures. -/
theorem counter_step (hmax : 1 ≤ cfg.maxFail) (hsec : 1 ≤ cfg.lockSeconds) (hs : Guarded cfg phone s)
    (h : step cfg s e = some t) (hk : t.find (failKey phone) ≠ none) :
    count t (failKey phone) = count s (failKey phone) + if counted phone s e then 1 else 0 := by
  rcases step_cases phone h with ⟨hnow, -, hfail, hne⟩ | ⟨rfl, rfl⟩ | ⟨rfl, rfl⟩ | ⟨ms, rfl, rfl⟩
  · have hnot : counted phone s e = false := by simp [counted, hne]
    rw [hnot, count_congr (find_congr hnow hfail)]
    simp
  · rcases onFailure_cases hs hmax hsec with ⟨hlock, hsame, -⟩ | ⟨hnone, ⟨-, -, hcounts⟩ | ⟨-, -, hlocks⟩⟩
    · have hnot : counted phone s (.onFailure phone) = false := by
        obtain ⟨x, hx⟩ := Option.ne_none_iff_exists'.1 hlock
        simp [counted, hx]
      rw [hsame, hnot]
      simp
    · have hyes : counted phone s (.onFailure phone) = true := by simp [counted, hnone]
      obtain ⟨at_, hfind, -⟩ := hcounts.find
      rw [hyes, count_of_find hfind]
      simp
    · -- the failure that locks ends the counter
      exact absurd hlocks.fail hk
  · rw [Store.find_put_self] at hk
    exact absurd rfl hk
  · have hnot : counted phone s (.wait ms) = false := by simp [counted]
    -- a counter that is still there after waiting is the one there was
    have hfind : (s.wait ms).find (failKey phone) = s.find (failKey phone) := by
      obtain ⟨x, hx⟩ := Option.ne_none_iff_exists'.1 hk
      rw [hx]
      rw [Store.find_wait] at hx
      exact (Option.filter_eq_some_iff.1 hx).1.symm
    rw [hnot, count_congr hfind]
    simp

theorem counter_run (hmax : 1 ≤ cfg.maxFail) (hsec : 1 ≤ cfg.lockSeconds) {mid : List Ev} (hu : Guarded cfg phone u)
    (hnone : u.find (failKey phone) = none) (hk : Meets (step cfg) (KeepsCounter cfg phone) u mid)
    (h : run (step cfg) u mid = some s) :
    count s (failKey phone) = tally (step cfg) (counted phone) u mid := by
  refine run_trace_of (C := KeepsCounter cfg phone)
    (I := fun es s => count s (failKey phone) = tally (step cfg) (counted phone) u es) ?_ ?_ hk h
  · exact count_none hnone
  · intro es s e t hrun hcount hke hs
    rw [counter_step hmax hsec (guarded_run hmax hsec hu hrun) hs (hke t hs), hcount, tally_snoc e hrun]
    push_cast
    rfl

/-! ## Locks are apart -/

/-- The lock stays until its time is up. -/
theorem lock_step (hmax : 1 ≤ cfg.maxFail) (hsec : 1 ≤ cfg.lockSeconds) {x : Entry} {until_ : ℕ}
    (hx : x.expireAt = some until_) (hs : Guarded cfg phone s) (hcell : s.now ≤ until_ → s.cell (lockKey phone) = some x)
    (h : step cfg s e = some t) : t.now ≤ until_ → t.cell (lockKey phone) = some x := by
  have hne := failKey_ne_lockKey phone phone
  rcases step_cases phone h with ⟨hnow, hlock, -, -⟩ | ⟨rfl, rfl⟩ | ⟨rfl, rfl⟩ | ⟨ms, rfl, rfl⟩
  · rw [hnow, hlock]
    exact hcell
  · intro hle
    have hnow := (onFailure_frame cfg s phone).1
    rw [hnow] at hle
    have hthere : s.find (lockKey phone) ≠ none := by
      rw [Store.find_some.2 ⟨hcell hle, by simpa [Entry.alive, hx] using hle⟩]
      exact Option.some_ne_none x
    -- a failure under the lock changes nothing, so the lock is not extended
    rcases onFailure_cases hs hmax hsec with ⟨-, hsame, -⟩ | ⟨hnone, -⟩
    · rw [hsame]
      exact hcell hle
    · exact absurd hnone hthere
  · intro hle
    rw [Store.cell_put_of_ne _ _ hne.symm]
    exact hcell hle
  · intro hle
    rw [Store.wait_now] at hle
    exact hcell (by omega)

/-- Who says it locked found no lock, was the last failure allowed, and set one. -/
theorem lockedNow_locks (hmax : 1 ≤ cfg.maxFail) (hsec : 1 ≤ cfg.lockSeconds) (hs : Guarded cfg phone s)
    (h : ∃ secs, (onFailure cfg s phone).1 = .lockedNow secs) :
    s.find (lockKey phone) = none ∧ count s (failKey phone) + 1 = cfg.maxFail ∧
      Locks cfg phone s (onFailure cfg s phone).2 := by
  obtain ⟨secs, hsecs⟩ := h
  rcases onFailure_cases hs hmax hsec with ⟨-, -, q, hq⟩ | ⟨hnone, ⟨-, hreply, -⟩ | ⟨hlast, -, hlocks⟩⟩
  · rw [hq] at hsecs
    cases hsecs
  · rw [hreply] at hsecs
    cases hsecs
  · exact ⟨hnone, hlast, hlocks⟩

/-- It is the failure number `maxFail` since there was no counter. -/
theorem lockedNow_iff {u : Store Key} {es : List Ev} (hmax : 1 ≤ cfg.maxFail) (hsec : 1 ≤ cfg.lockSeconds)
    (hu : Guarded cfg phone u) (hnone : u.find (failKey phone) = none)
    (hkeeps : Meets (step cfg) (KeepsCounter cfg phone) u es) (h : run (step cfg) u es = some s) :
    (∃ secs, (onFailure cfg s phone).1 = .lockedNow secs) ↔
      s.find (lockKey phone) = none ∧ (tally (step cfg) (counted phone) u es : ℤ) + 1 = cfg.maxFail := by
  have hs := guarded_run hmax hsec hu h
  have hcount := counter_run hmax hsec hu hnone hkeeps h
  constructor
  · intro hsecs
    obtain ⟨hfree, hlast, -⟩ := lockedNow_locks hmax hsec hs hsecs
    exact ⟨hfree, by rw [← hcount]; exact hlast⟩
  · rintro ⟨hfree, hlast⟩
    rcases onFailure_cases hs hmax hsec with ⟨hlock, -⟩ | ⟨-, ⟨hlt, -⟩ | ⟨-, hreply, -⟩⟩
    · exact absurd hfree hlock
    · omega
    · exact ⟨_, hreply⟩

/-- Until its time is up a lock that was set is there, so nobody sets it again. -/
theorem lockedNow_apart {u : Store Key} {es : List Ev} (hmax : 1 ≤ cfg.maxFail) (hsec : 1 ≤ cfg.lockSeconds)
    (hu : Guarded cfg phone u) (hfirst : ∃ secs, (onFailure cfg u phone).1 = .lockedNow secs)
    (h : run (step cfg) (onFailure cfg u phone).2 es = some s)
    (hsecond : ∃ secs, (onFailure cfg s phone).1 = .lockedNow secs) : (u.now : ℤ) + cfg.lockSeconds * 1000 ≤ s.now := by
  have hlocks := (lockedNow_locks hmax hsec hu hfirst).2.2
  set until_ := u.now + cfg.lockSeconds.toNat * 1000
  have hstays : Guarded cfg phone s ∧
      (s.now ≤ until_ → s.cell (lockKey phone) = some ⟨.raw "1", some until_⟩) := by
    refine run_inv (I := fun v => Guarded cfg phone v ∧
      (v.now ≤ until_ → v.cell (lockKey phone) = some ⟨.raw "1", some until_⟩)) ?_ ?_ h
    · rintro v e w ⟨hv, hcell⟩ hvw
      exact ⟨guarded_step hmax hsec hv hvw, lock_step hmax hsec rfl hv hcell hvw⟩
    · exact ⟨guarded_step (e := .onFailure phone) hmax hsec hu rfl, fun _ => hlocks.lock⟩
  -- who locks a second time found no lock
  have hfree := (lockedNow_locks hmax hsec hstays.1 hsecond).1
  by_contra hsoon
  have hle : s.now ≤ until_ := by omega
  have hthere := Store.find_some.2 ⟨hstays.2 hle, by simpa [Entry.alive] using hle⟩
  rw [hfree] at hthere
  cases hthere

/-- **The login lock.** With a limit and a lock time of at least one, in every reachable
state: there is no lock beside a counter, and a counter is from `1` to `maxFail - 1` and
expires within `lockSeconds`; under a lock `onFailure` changes nothing; it says it locked
exactly for the failure that is number `maxFail` since there was no counter; and it has
not said so in the last `lockSeconds`. -/
theorem loginGuard_locks (cfg : Config) (hmax : 1 ≤ cfg.maxFail) (hsec : 1 ≤ cfg.lockSeconds) (phone : String)
    (s₀ : Store Key) (hlock₀ : s₀.find (lockKey phone) = none) (hfail₀ : s₀.find (failKey phone) = none)
    (es : List Ev) (s : Store Key) (h : run (step cfg) s₀ es = some s) :
    Guarded cfg phone s ∧
      (s.find (lockKey phone) ≠ none → (onFailure cfg s phone).2 = s) ∧
      (∀ pre mid u, es = pre ++ mid → run (step cfg) s₀ pre = some u → u.find (failKey phone) = none →
        Meets (step cfg) (KeepsCounter cfg phone) u mid →
        ((∃ secs, (onFailure cfg s phone).1 = .lockedNow secs) ↔
          s.find (lockKey phone) = none ∧ (tally (step cfg) (counted phone) u mid : ℤ) + 1 = cfg.maxFail)) ∧
      ∀ pre post u, es = pre ++ .onFailure phone :: post → run (step cfg) s₀ pre = some u →
        (∃ secs, (onFailure cfg u phone).1 = .lockedNow secs) →
        (∃ secs, (onFailure cfg s phone).1 = .lockedNow secs) →
        (u.now : ℤ) + cfg.lockSeconds * 1000 ≤ s.now := by
  have h₀ : Guarded cfg phone s₀ := ⟨Or.inl hlock₀, fun x hx => by rw [hfail₀] at hx; cases hx⟩
  have hs := guarded_run hmax hsec h₀ h
  refine ⟨hs, fun hlock => ?_, ?_, ?_⟩
  · rcases onFailure_cases hs hmax hsec with ⟨-, hsame, -⟩ | ⟨hnone, -⟩
    · exact hsame
    · exact absurd hnone hlock
  · rintro pre mid u rfl hpre hnone hkeeps
    have hmid := run_rest h hpre
    exact lockedNow_iff hmax hsec (guarded_run hmax hsec h₀ hpre) hnone hkeeps hmid
  · rintro pre post u rfl hpre hfirst hsecond
    have hpost := run_rest h hpre
    exact lockedNow_apart hmax hsec (guarded_run hmax hsec h₀ hpre) hfirst (run_tail hpost rfl) hsecond

/-- Two failures lock for five seconds, and two after that lock again. -/
theorem loginGuard_locks_again :
    ∃ s, run (step ⟨2, 5⟩) (.empty 0) [.onFailure "1", .onFailure "1", .wait 5001, .onFailure "1"] = some s ∧
      Guarded ⟨2, 5⟩ "1" s ∧ (onFailure ⟨2, 5⟩ s "1").1 = .lockedNow 5 ∧ (0 : ℤ) + 5 * 1000 ≤ s.now := by
  have hlocked : (onFailure ⟨2, 5⟩ (onFailure ⟨2, 5⟩ (Store.empty 0) "1").2 "1").1 = .lockedNow 5 := by decide +kernel
  obtain ⟨s, hs, hreply⟩ : ∃ s, run (step ⟨2, 5⟩) (.empty 0)
      [.onFailure "1", .onFailure "1", .wait 5001, .onFailure "1"] = some s ∧
        (onFailure ⟨2, 5⟩ s "1").1 = .lockedNow 5 := ⟨_, rfl, by decide +kernel⟩
  obtain ⟨hguarded, -, -, hapart⟩ :=
    loginGuard_locks ⟨2, 5⟩ (by decide) (by decide) "1" (.empty 0) rfl rfl _ s hs
  exact ⟨s, hs, hguarded, hreply, hapart [.onFailure "1"] _ _ rfl rfl ⟨5, hlocked⟩ ⟨5, hreply⟩⟩

end Seckill.LoginGuard
