import Seckill.Lib.Run
import Seckill.Spec.DelayDeleter
import Mathlib.Data.List.Forall2

/-!
# The delayed delete fires every batch once, in order and in time

* `Delivers`: what was scheduled is what was fired, then what the worker has in its hand,
  then the queue.
* `Notified`: a worker that waits while the queue is not empty has been notified, or a
  thread is about to notify it.
* `delivers_run`: both hold after every run.
-/

namespace Seckill.DelayDeleter

open Machine

variable {ι : Type} {delay now : ℤ} {s s' : State ι} {e : Ev ι}

/-- The keys the worker has taken from the queue. -/
def Worker.hand : Worker → Option (List String)
  | .firing keys => some keys
  | _ => none

@[simp] theorem Worker.hand_notify (w : Worker) : w.notify.hand = w.hand := by
  cases w <;> rfl

/-! ## What a step does -/

theorem schedule_cases [DecidableEq ι] {i : ι} {keys : List String} (h : schedule delay s i keys = some s') :
    keys = [] ∧ s' = s ∨ keys ≠ [] ∧ s' = { s with
      queue_ := s.queue_ ++ [⟨s.now + delay, keys⟩]
      notifies := Function.update s.notifies i true } := by
  unfold schedule at h
  split at h
  · cases h
  · split at h
    next hkeys => exact Or.inl ⟨hkeys, (Option.some.inj h).symm⟩
    next hkeys => exact Or.inr ⟨hkeys, (Option.some.inj h).symm⟩

theorem notifyOne_eq [DecidableEq ι] {i : ι} (h : notifyOne s i = some s') :
    s' = { s with worker := s.worker.notify, notifies := Function.update s.notifies i false } := by
  unfold notifyOne at h
  split at h
  · exact (Option.some.inj h).symm
  · cases h

/-- A pass ends the worker, or in one of the waits, or with a batch that is due. -/
theorem pass_cases (h : pass s = some s') :
    s.worker = .loop ∧
      (s' = { s with worker := .exited } ∨ s.queue_ = [] ∧ s' = { s with worker := .waiting false } ∨
        ∃ next rest, s.queue_ = next :: rest ∧
          (s' = { s with worker := .waitingUntil next.fireAt false } ∨
            next.fireAt ≤ s.now ∧ s' = { s with queue_ := rest, worker := .firing next.keys })) := by
  unfold pass at h
  split at h
  next hloop =>
    refine ⟨hloop, ?_⟩
    split at h
    · exact Or.inl (Option.some.inj h).symm
    · right
      split at h
      next hempty => exact Or.inl ⟨hempty, (Option.some.inj h).symm⟩
      next next rest hqueue =>
        refine Or.inr ⟨next, rest, hqueue, ?_⟩
        split at h
        · exact Or.inl (Option.some.inj h).symm
        next hdue => exact Or.inr ⟨Int.not_lt.1 hdue, (Option.some.inj h).symm⟩
  next => cases h

theorem wake_eq (h : wake s = some s') : s' = { s with worker := .loop } ∧ s.worker.hand = none := by
  unfold wake at h
  split at h
  next notified hworker =>
    split at h
    · exact ⟨(Option.some.inj h).symm, by rw [hworker]; rfl⟩
    · cases h
  next time notified hworker =>
    split at h
    · exact ⟨(Option.some.inj h).symm, by rw [hworker]; rfl⟩
    · cases h
  next => cases h

theorem spurious_eq (h : spurious s = some s') :
    s' = { s with worker := .loop } ∧ s.worker.hand = none := by
  unfold spurious at h
  split at h
  next notified hworker => exact ⟨(Option.some.inj h).symm, by rw [hworker]; rfl⟩
  next time notified hworker => exact ⟨(Option.some.inj h).symm, by rw [hworker]; rfl⟩
  next => cases h

theorem fire_eq (h : fire s = some s') : ∃ keys, s.worker = .firing keys ∧ s' = { s with worker := .loop } := by
  unfold fire at h
  split at h
  next keys hworker => exact ⟨keys, hworker, (Option.some.inj h).symm⟩
  next => cases h

/-! ## What a run has scheduled and fired -/

/-- Keys, with the reading of the clock when they were scheduled or fired. -/
abbrev Batch : Type := ℤ × List String

/-- The batch a step schedules. -/
def scheduledBy (s : State ι) : Ev ι → Option Batch
  | .schedule _ keys => if keys = [] then none else some (s.now, keys)
  | _ => none

/-- The batch a step fires. -/
def firedBy (s : State ι) : Ev ι → Option Batch
  | .fire => s.worker.hand.map fun keys => (s.now, keys)
  | _ => none

/-- The place of a batch in the queue. -/
def task (delay : ℤ) (b : Batch) : Task := ⟨b.1 + delay, b.2⟩

/-- `f` is the firing of `b`, no earlier than it was due. -/
def Fires (delay : ℤ) (f b : Batch) : Prop := f.2 = b.2 ∧ b.1 + delay ≤ f.1

/-! ## Every batch, once and in order -/

/-- **What was scheduled was fired, is in the worker's hand or is in the queue**, in this
order, and neither the worker nor a firing is early. -/
structure Delivers (delay : ℤ) (scheduled fired : List Batch) (s : State ι) : Prop where
  split : ∃ done taken rest, scheduled = done ++ taken ++ rest ∧ List.Forall₂ (Fires delay) fired done ∧
    taken.map Prod.snd = s.worker.hand.toList ∧ (∀ b ∈ taken, b.1 + delay ≤ s.now) ∧
    s.queue_ = rest.map (task delay)
  sorted : scheduled.Pairwise fun b b' => b.1 ≤ b'.1
  past : ∀ b ∈ scheduled, b.1 ≤ s.now
  keys : ∀ b ∈ scheduled, b.2 ≠ []

variable {ss fs : List Batch}

theorem delivers_init (delay now : ℤ) : Delivers delay [] [] (init now : State ι) :=
  ⟨⟨[], [], [], rfl, .nil, rfl, List.forall_mem_nil _, rfl⟩, .nil, List.forall_mem_nil _, List.forall_mem_nil _⟩

/-- Steps that leave the queue and the worker's hand alone. -/
theorem Delivers.quiet (h : Delivers delay ss fs s) (hqueue : s'.queue_ = s.queue_)
    (hhand : s'.worker.hand = s.worker.hand) (hnow : s.now ≤ s'.now) : Delivers delay ss fs s' := by
  obtain ⟨done, taken, rest, hss, hfired, htaken, hdue, hrest⟩ := h.split
  refine ⟨⟨done, taken, rest, hss, hfired, ?_, fun b hb => ?_, ?_⟩, h.sorted, fun b hb => ?_, h.keys⟩
  · rw [hhand, htaken]
  · exact Int.le_trans (hdue b hb) hnow
  · rw [hqueue, hrest]
  · exact Int.le_trans (h.past b hb) hnow

/-- A batch joins the queue at its end. -/
theorem Delivers.push (h : Delivers delay ss fs s) {keys : List String} (hkeys : keys ≠ [])
    (hqueue : s'.queue_ = s.queue_ ++ [⟨s.now + delay, keys⟩]) (hworker : s'.worker = s.worker)
    (hnow : s'.now = s.now) : Delivers delay (ss ++ [(s.now, keys)]) fs s' := by
  obtain ⟨done, taken, rest, hss, hfired, htaken, hdue, hrest⟩ := h.split
  refine ⟨⟨done, taken, rest ++ [(s.now, keys)], ?_, hfired, ?_, ?_, ?_⟩, ?_, ?_, ?_⟩
  · rw [hss, List.append_assoc]
  · rw [hworker, htaken]
  · rwa [hnow]
  · rw [hqueue, hrest, List.map_append]
    rfl
  · -- the clock has not gone back since the batches before it
    rw [List.pairwise_append]
    refine ⟨h.sorted, List.pairwise_singleton _ _, fun b hb b' hb' => ?_⟩
    rw [List.mem_singleton.1 hb']
    exact h.past b hb
  · intro b hb
    rw [hnow]
    rcases List.mem_append.1 hb with hb | hb
    · exact h.past b hb
    · exact Int.le_of_eq (congrArg Prod.fst (List.mem_singleton.1 hb))
  · intro b hb
    rcases List.mem_append.1 hb with hb | hb
    · exact h.keys b hb
    · rw [List.mem_singleton.1 hb]
      exact hkeys

/-- The worker takes the first batch of the queue, which is due. -/
theorem Delivers.take (h : Delivers delay ss fs s) {next : Task} {rest : List Task} (hqueue : s.queue_ = next :: rest)
    (hhand : s.worker.hand = none) (hdue : next.fireAt ≤ s.now) :
    Delivers delay ss fs { s with queue_ := rest, worker := .firing next.keys } := by
  obtain ⟨done, taken, waiting, hss, hfired, htaken, -, hwaiting⟩ := h.split
  -- its hand was empty
  rw [hhand, Option.toList_none, List.map_eq_nil_iff] at htaken
  subst htaken
  cases waiting with
  | nil =>
    rw [hqueue] at hwaiting
    cases hwaiting
  | cons b waiting =>
    rw [hqueue, List.map_cons] at hwaiting
    obtain ⟨rfl, rfl⟩ := List.cons.inj hwaiting
    refine ⟨⟨done, [b], waiting, ?_, hfired, rfl, ?_, rfl⟩, h.sorted, h.past, h.keys⟩
    · rw [hss, List.append_nil, List.append_assoc]
      rfl
    · intro b' hb'
      rw [List.mem_singleton.1 hb']
      exact hdue

/-- The worker fires what it has in its hand. -/
theorem Delivers.fire (h : Delivers delay ss fs s) {keys : List String} (hworker : s.worker = .firing keys) :
    Delivers delay ss (fs ++ [(s.now, keys)]) { s with worker := .loop } := by
  obtain ⟨done, taken, rest, hss, hfired, htaken, hdue, hrest⟩ := h.split
  rw [hworker] at htaken
  obtain ⟨b, rfl, hkeys⟩ : ∃ b, taken = [b] ∧ b.2 = keys := List.map_eq_singleton_iff.1 htaken
  refine ⟨⟨done ++ [b], [], rest, ?_, ?_, rfl, List.forall_mem_nil _, hrest⟩, h.sorted, h.past, h.keys⟩
  · rw [hss, List.append_nil]
  · have hfires : Fires delay (s.now, keys) b := ⟨hkeys.symm, hdue b (List.mem_singleton_self b)⟩
    exact List.rel_append hfired (.cons hfires .nil)

/-- Steps that only move the worker from place to place, with nothing in its hand. -/
theorem Delivers.moves (h : Delivers delay ss fs s) (hhand : s.worker.hand = none) {w : Worker} (hw : w.hand = none) :
    Delivers delay ss fs { s with worker := w } :=
  h.quiet rfl (hw.trans hhand.symm) (Int.le_refl _)

/-- Steps that schedule and fire nothing. -/
theorem Delivers.nothing (h : Delivers delay ss fs s') (hscheduled : scheduledBy s e = none)
    (hfired : firedBy s e = none) :
    Delivers delay (ss ++ (scheduledBy s e).toList) (fs ++ (firedBy s e).toList) s' := by
  rw [hscheduled, hfired, Option.toList_none, List.append_nil, List.append_nil]
  exact h

/-- A list of firings has the keys of what it fires. -/
theorem keys_eq_of_fires {done : List Batch} (h : List.Forall₂ (Fires delay) fs done) :
    fs.map Prod.snd = done.map Prod.snd := by
  induction h with
  | nil => rfl
  | cons hf _ ih => rw [List.map_cons, List.map_cons, hf.1, ih]

/-- The keys that were scheduled, in the order of the queue. -/
theorem Delivers.keys_eq (h : Delivers delay ss fs s) :
    ss.map Prod.snd = fs.map Prod.snd ++ s.worker.hand.toList ++ s.queue_.map Task.keys := by
  obtain ⟨done, taken, rest, hss, hfired, htaken, -, hrest⟩ := h.split
  have htask : Task.keys ∘ task delay = Prod.snd := rfl
  rw [hss, hrest, List.map_append, List.map_append, List.map_map, htask, htaken, keys_eq_of_fires hfired]

/-- No firing is early. -/
theorem Delivers.due (h : Delivers delay ss fs s) {i : ℕ} {f b : Batch} (hf : fs[i]? = some f) (hb : ss[i]? = some b) :
    b.1 + delay ≤ f.1 := by
  obtain ⟨done, taken, rest, hss, hfired, -⟩ := h.split
  obtain ⟨hi, -⟩ := List.getElem?_eq_some_iff.1 hf
  have hlength := hfired.length_eq
  rw [hss, List.append_assoc, List.getElem?_append_left (by omega)] at hb
  obtain ⟨hi', rfl⟩ := List.getElem?_eq_some_iff.1 hb
  obtain ⟨-, rfl⟩ := List.getElem?_eq_some_iff.1 hf
  exact (List.forall₂_iff_get.1 hfired).2 i hi hi' |>.2

theorem Delivers.queue_sorted (h : Delivers delay ss fs s) : s.queue_.Pairwise fun a b => a.fireAt ≤ b.fireAt := by
  obtain ⟨done, taken, rest, hss, -, -, -, hrest⟩ := h.split
  have hsorted := h.sorted
  rw [hss, List.pairwise_append] at hsorted
  rw [hrest, List.pairwise_map]
  exact hsorted.2.1.imp fun hle => Int.add_le_add_right hle delay

variable [DecidableEq ι]

/-- **One step.** -/
theorem step_delivers (h : Delivers delay ss fs s) (hstep : step delay s e = some s') :
    Delivers delay (ss ++ (scheduledBy s e).toList) (fs ++ (firedBy s e).toList) s' := by
  cases e with
  | schedule i keys =>
    rcases schedule_cases hstep with ⟨rfl, rfl⟩ | ⟨hkeys, rfl⟩
    · exact h.nothing rfl rfl
    · have hscheduled : scheduledBy s (.schedule i keys) = some (s.now, keys) := if_neg hkeys
      have hfired : firedBy s (.schedule i keys) = none := rfl
      rw [hscheduled, hfired, Option.toList_none, List.append_nil]
      exact h.push hkeys rfl rfl rfl
  | fire =>
    obtain ⟨keys, hworker, rfl⟩ := fire_eq hstep
    have hscheduled : scheduledBy s .fire = none := rfl
    have hfired : firedBy s .fire = some (s.now, keys) := by
      unfold firedBy
      rw [hworker]
      rfl
    rw [hscheduled, hfired, Option.toList_none, List.append_nil]
    exact h.fire hworker
  | run =>
    obtain ⟨hloop, hcases⟩ := pass_cases hstep
    have hhand : s.worker.hand = none := by rw [hloop]; rfl
    rcases hcases with rfl | ⟨-, rfl⟩ | ⟨next, rest, hqueue, rfl | ⟨hdue, rfl⟩⟩
    · exact (h.moves hhand rfl).nothing rfl rfl
    · exact (h.moves hhand rfl).nothing rfl rfl
    · exact (h.moves hhand rfl).nothing rfl rfl
    · exact (h.take hqueue hhand hdue).nothing rfl rfl
  | tick d =>
    cases hstep
    have hnow : s.now ≤ s.now + d := Int.le_add_of_nonneg_right (Int.natCast_nonneg d)
    exact Delivers.nothing (h.quiet rfl rfl hnow) rfl rfl
  | notifyOne i =>
    rw [notifyOne_eq hstep]
    exact Delivers.nothing (h.quiet rfl (Worker.hand_notify _) (Int.le_refl _)) rfl rfl
  | wake =>
    obtain ⟨rfl, hhand⟩ := wake_eq hstep
    exact (h.moves hhand rfl).nothing rfl rfl
  | spurious =>
    obtain ⟨rfl, hhand⟩ := spurious_eq hstep
    exact (h.moves hhand rfl).nothing rfl rfl
  | stop =>
    cases hstep
    exact Delivers.nothing (h.quiet rfl rfl (Int.le_refl _)) rfl rfl
  | notifyAll =>
    obtain ⟨-, hs'⟩ := Option.ite_none_right_eq_some.1 hstep
    cases hs'
    exact Delivers.nothing (h.quiet rfl (Worker.hand_notify _) (Int.le_refl _)) rfl rfl

/-! ## No wake-up is lost -/

omit [DecidableEq ι] in
/-- **A worker that waits while the queue is not empty** has been notified, or a thread is
on the way from its push to its notification. -/
def Notified (s : State ι) : Prop :=
  ∀ notified, s.worker = .waiting notified → s.queue_ ≠ [] → notified = true ∨ ∃ i, s.notifies i = true

theorem notified_notify (w : Worker) {notified : Bool} (h : w.notify = .waiting notified) : notified = true := by
  cases w with
  | waiting b => exact (Worker.waiting.inj h).symm
  | loop | waitingUntil time b | firing keys | exited => cases h

theorem step_notified (h : Notified s) (hstep : step delay s e = some s') : Notified s' := by
  cases e with
  | schedule i keys =>
    rcases schedule_cases hstep with ⟨-, rfl⟩ | ⟨-, rfl⟩
    · exact h
    · -- the thread that pushed owes a notification
      exact fun notified _ _ => Or.inr ⟨i, Function.update_self i true s.notifies⟩
  | notifyOne i =>
    rw [notifyOne_eq hstep]
    exact fun notified hwaits _ => Or.inl (notified_notify _ hwaits)
  | run =>
    intro notified hwaits hqueue
    obtain ⟨-, rfl | ⟨hempty, rfl⟩ | ⟨next, rest, -, rfl | ⟨-, rfl⟩⟩⟩ := pass_cases hstep
    · cases hwaits
    · -- the worker goes to wait only when the queue is empty
      exact absurd hempty hqueue
    · cases hwaits
    · cases hwaits
  | tick d =>
    cases hstep
    exact h
  | wake =>
    obtain ⟨rfl, -⟩ := wake_eq hstep
    exact fun notified hwaits => nomatch hwaits
  | spurious =>
    obtain ⟨rfl, -⟩ := spurious_eq hstep
    exact fun notified hwaits => nomatch hwaits
  | fire =>
    obtain ⟨keys, -, rfl⟩ := fire_eq hstep
    exact fun notified hwaits => nomatch hwaits
  | stop =>
    cases hstep
    exact h
  | notifyAll =>
    obtain ⟨-, hs'⟩ := Option.ite_none_right_eq_some.1 hstep
    cases hs'
    exact fun notified hwaits _ => Or.inl (notified_notify _ hwaits)

/-! ## Runs -/

/-- The batches scheduled along a run. -/
def scheduled (delay now : ℤ) (es : List (Ev ι)) : List Batch := collect (step delay) scheduledBy (init now) es

/-- The batches fired along a run. -/
def fired (delay now : ℤ) (es : List (Ev ι)) : List Batch := collect (step delay) firedBy (init now) es

theorem run_delivers {es : List (Ev ι)} (h : run (step delay) (init now) es = some s) :
    Delivers delay (scheduled delay now es) (fired delay now es) s ∧ Notified s := by
  refine run_trace (I := fun es s => Delivers delay (scheduled delay now es) (fired delay now es) s ∧ Notified s)
    ⟨delivers_init delay now, fun notified hwaits => nomatch hwaits⟩ ?_ h
  intro es s e s' hrun ih hstep
  unfold scheduled fired at ih ⊢
  rw [collect_snoc e hrun, collect_snoc e hrun]
  exact ⟨step_delivers ih.1 hstep, step_notified ih.2 hstep⟩

/-- **The delayed delete.** After every interleaving of the threads that schedule batches
with the worker, wherever it waits, wakes up without a reason or fires: what was fired is
a prefix of what was scheduled, in order and each batch once, and all the rest is in the
worker's hand and in the queue; no batch was fired earlier than `delay` after it was
scheduled; the queue is in the order of its times; and a worker that waits for a first
batch while the queue has one has been notified, or will be by a thread that has pushed
and not notified yet. -/
theorem delayDeleter_delivers (delay now : ℤ) (es : List (Ev ι)) (s : State ι)
    (h : run (step delay) (init now) es = some s) :
    (fired delay now es).map Prod.snd <+: (scheduled delay now es).map Prod.snd ∧
      (scheduled delay now es).map Prod.snd =
        (fired delay now es).map Prod.snd ++ s.worker.hand.toList ++ s.queue_.map Task.keys ∧
      (∀ b ∈ scheduled delay now es, b.2 ≠ []) ∧
      (∀ (i : ℕ) (f b : Batch), (fired delay now es)[i]? = some f → (scheduled delay now es)[i]? = some b →
        b.1 + delay ≤ f.1) ∧
      (s.queue_.Pairwise fun a b => a.fireAt ≤ b.fireAt) ∧
      ∀ notified, s.worker = .waiting notified → s.queue_ ≠ [] → notified = true ∨ ∃ i, s.notifies i = true := by
  obtain ⟨hdelivers, hnotified⟩ := run_delivers h
  have hkeys := hdelivers.keys_eq
  refine ⟨?_, hkeys, hdelivers.keys, fun i f b hf hb => hdelivers.due hf hb, hdelivers.queue_sorted, hnotified⟩
  rw [hkeys, List.append_assoc]
  exact List.prefix_append _ _

/-- Two threads; the second pushes before the first has notified, and the worker wakes up
once for nothing. -/
def twoThreads : List (Ev Bool) :=
  [.run, .schedule true ["a"], .schedule false [], .spurious, .run, .tick 2, .schedule false ["b", "c"], .notifyOne true,
    .wake, .run, .tick 3, .wake, .run, .tick 1, .fire, .notifyOne false, .run]

theorem delayDeleter_delivers_twoThreads : ∃ s, run (step 5) (init 0) twoThreads = some s ∧
    fired 5 0 twoThreads = [(6, ["a"])] ∧ scheduled 5 0 twoThreads = [(0, ["a"]), (2, ["b", "c"])] ∧
    s.worker = .waitingUntil 7 false ∧ (s.queue_.Pairwise fun a b => a.fireAt ≤ b.fireAt) := by
  have hrun : (run (step 5) (init 0) twoThreads).map State.worker = some (.waitingUntil 7 false) := by
    decide +kernel
  obtain ⟨s, hs, hworker⟩ := Option.map_eq_some_iff.1 hrun
  obtain ⟨-, -, -, -, hsorted, -⟩ := delayDeleter_delivers 5 0 twoThreads s hs
  exact ⟨s, hs, by decide +kernel, by decide +kernel, hworker, hsorted⟩

end Seckill.DelayDeleter
