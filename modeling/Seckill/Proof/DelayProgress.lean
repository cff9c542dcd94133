import Seckill.Proof.DelayDeleter

/-!
# The delay thread: what is due is deleted, and the thread neither spins nor hangs

* `delayDeleter_rests`: when the worker can go on no more, everything that is due has been
  fired; and it can take only so many steps, by what it was given: four for a batch, two
  for a notification, one for waking up without a reason. Time by itself costs nothing.
* `delayDeleter_joins`: a destructor that has set `stop_` waits for two steps of the worker
  at most; one batch may still be fired, the one in its hand, and the queue is lost.
-/

namespace Seckill.DelayDeleter

open Machine

variable {ι : Type} {delay now : ℤ} {s s' : State ι} {e : Ev ι}

/-- The steps of the worker, but for waking up without a reason. -/
def Ev.works : Ev ι → Bool
  | .run | .wake | .fire => true
  | _ => false

/-- What an event gives the worker to do, in steps. -/
def Ev.gives : Ev ι → ℕ
  | .schedule _ _ => 4
  | .notifyOne _ | .notifyAll => 2
  | .spurious => 1
  | _ => 0

/-- The most steps the worker can take with what it has. -/
def State.work (s : State ι) : ℕ :=
  match s.worker with
  | .exited => 0
  | .firing _ => 4 * s.queue_.length + 2
  | .waiting notified | .waitingUntil _ notified => 4 * s.queue_.length + if notified then 2 else 0
  | .loop => match s.queue_ with
    | [] => 1
    | next :: rest => if s.now < next.fireAt then 4 * rest.length + 5 else 4 * rest.length + 3

/-- The worker can take no step of its own. -/
def Rests [DecidableEq ι] (delay : ℤ) (s : State ι) : Prop :=
  ∀ e : Ev ι, e.works = true → step delay s e = none

/-- What the worker waits for, and why it has exited. -/
structure Settled (s : State ι) : Prop where
  until_ : ∀ time notified, s.worker = .waitingUntil time notified →
    ∃ next rest, s.queue_ = next :: rest ∧ time = next.fireAt
  exited : s.worker = .exited → s.stop_ = true

theorem settled_init (now : ℤ) : Settled (init now : State ι) :=
  ⟨fun _ _ h => (Worker.noConfusion h), fun h => (Worker.noConfusion h)⟩

/-! ## One step -/

/-- A pass of the loop, with the tests it makes. -/
theorem pass_tests (h : pass s = some s') :
    s.worker = .loop ∧
      (s.stop_ = true ∧ s' = { s with worker := .exited } ∨
        s.stop_ = false ∧ (s.queue_ = [] ∧ s' = { s with worker := .waiting false } ∨
          ∃ next rest, s.queue_ = next :: rest ∧
            (s.now < next.fireAt ∧ s' = { s with worker := .waitingUntil next.fireAt false } ∨
              ¬s.now < next.fireAt ∧ s' = { s with queue_ := rest, worker := .firing next.keys }))) := by
  unfold pass at h
  split at h
  next hloop =>
    refine ⟨hloop, ?_⟩
    split at h
    next hstop => exact Or.inl ⟨hstop, (Option.some.inj h).symm⟩
    next hstop =>
      refine Or.inr ⟨eq_false_of_ne_true hstop, ?_⟩
      split at h
      next hempty => exact Or.inl ⟨hempty, (Option.some.inj h).symm⟩
      next next rest hqueue =>
        refine Or.inr ⟨next, rest, hqueue, ?_⟩
        split at h
        next hearly => exact Or.inl ⟨hearly, (Option.some.inj h).symm⟩
        next hdue => exact Or.inr ⟨hdue, (Option.some.inj h).symm⟩
  next => cases h

/-- A wait ends with a notification, or because it is time. -/
theorem wake_tests (h : wake s = some s') : s' = { s with worker := .loop } ∧
    (s.worker = .waiting true ∨ ∃ time notified, s.worker = .waitingUntil time notified ∧
      (notified = true ∨ time ≤ s.now)) := by
  unfold wake at h
  split at h
  next notified hworker =>
    split at h
    next hnotified =>
      rw [hnotified] at hworker
      exact ⟨(Option.some.inj h).symm, Or.inl hworker⟩
    next => cases h
  next time notified hworker =>
    split at h
    next htime => exact ⟨(Option.some.inj h).symm, Or.inr ⟨time, notified, hworker, htime⟩⟩
    next => cases h
  next => cases h

theorem spurious_tests (h : spurious s = some s') : s' = { s with worker := .loop } ∧
    ((∃ notified, s.worker = .waiting notified) ∨ ∃ time notified, s.worker = .waitingUntil time notified) := by
  unfold spurious at h
  split at h
  next notified hworker => exact ⟨(Option.some.inj h).symm, Or.inl ⟨notified, hworker⟩⟩
  next time notified hworker => exact ⟨(Option.some.inj h).symm, Or.inr ⟨time, notified, hworker⟩⟩
  next => cases h

/-- The worker is not in a wait with a deadline, and has not exited. -/
theorem Settled.of_worker {w : Worker} (hworker : s.worker = w)
    (huntil : ∀ time notified, w ≠ .waitingUntil time notified) (hexited : w ≠ .exited) : Settled s := by
  subst hworker
  exact ⟨fun time notified h => absurd h (huntil time notified), fun h => absurd h hexited⟩

/-- A notification moves no deadline. -/
theorem Settled.notify (h : Settled s) (f : ι → Bool) :
    Settled { s with worker := s.worker.notify, notifies := f } := by
  constructor
  · intro time notified hworker
    change s.worker.notify = _ at hworker
    cases hw : s.worker with
    | waitingUntil time' notified' =>
      rw [hw] at hworker
      obtain ⟨rfl, -⟩ := Worker.waitingUntil.inj hworker
      exact h.until_ _ _ hw
    | loop | waiting | firing | exited =>
      rw [hw] at hworker
      cases hworker
  · intro hworker
    change s.worker.notify = _ at hworker
    cases hw : s.worker with
    | exited => exact h.exited hw
    | loop | waiting | waitingUntil | firing =>
      rw [hw] at hworker
      cases hworker

/-- In the loop, the worker has a pass ahead and the whole queue. -/
theorem work_loop (hworker : s.worker = .loop) : 1 ≤ s.work ∧ s.work ≤ 4 * s.queue_.length + 1 := by
  unfold State.work
  rw [hworker]
  dsimp only
  cases s.queue_ with
  | nil => exact ⟨Nat.le_refl _, Nat.le_refl _⟩
  | cons next rest =>
    rw [List.length_cons]
    dsimp only
    split <;> omega

/-- Less, when the first batch is due. -/
theorem work_due {next : Task} {rest : List Task} (hworker : s.worker = .loop) (hqueue : s.queue_ = next :: rest)
    (hdue : ¬s.now < next.fireAt) : s.work = 4 * rest.length + 3 := by
  unfold State.work
  rw [hworker, hqueue]
  exact if_neg hdue

theorem work_notify (s : State ι) (f : ι → Bool) :
    State.work { s with worker := s.worker.notify, notifies := f } ≤ s.work + 2 := by
  unfold State.work
  cases hw : s.worker with
  | loop | firing | exited =>
    dsimp only [Worker.notify]
    omega
  | waiting notified | waitingUntil _ notified =>
    dsimp only [Worker.notify]
    split <;> omega

theorem work_tick (s : State ι) (d : ℕ) : State.work { s with now := s.now + d } ≤ s.work := by
  unfold State.work
  cases s.worker with
  | loop =>
    dsimp only
    cases s.queue_ with
    | nil => exact Nat.le_refl _
    | cons next rest =>
      dsimp only
      split <;> split <;> omega
  | waiting | waitingUntil | firing | exited => exact Nat.le_refl _

theorem work_push (s : State ι) (task : Task) (f : ι → Bool) :
    State.work { s with queue_ := s.queue_ ++ [task], notifies := f } ≤ s.work + 4 := by
  unfold State.work
  cases s.worker with
  | loop =>
    dsimp only
    cases s.queue_ with
    | nil =>
      dsimp only [List.nil_append, List.length_nil]
      split <;> omega
    | cons next rest =>
      dsimp only [List.cons_append]
      rw [List.length_append, List.length_singleton]
      split <;> omega
  | waiting notified | waitingUntil _ notified | firing =>
    dsimp only
    rw [List.length_append, List.length_singleton]
    omega
  | exited => exact Nat.zero_le _

variable [DecidableEq ι]

theorem step_settled (h : Settled s) (hstep : step delay s e = some s') : Settled s' := by
  cases e with
  | tick d =>
    cases hstep
    exact ⟨h.until_, h.exited⟩
  | schedule i keys =>
    rcases schedule_cases hstep with ⟨-, rfl⟩ | ⟨-, rfl⟩
    · exact h
    · -- the queue grows at its end
      refine ⟨fun time notified hworker => ?_, h.exited⟩
      obtain ⟨next, rest, hqueue, htime⟩ := h.until_ time notified hworker
      exact ⟨next, rest ++ [⟨s.now + delay, keys⟩], by rw [hqueue]; rfl, htime⟩
  | notifyOne i =>
    rw [notifyOne_eq hstep]
    exact h.notify _
  | run =>
    obtain ⟨-, ⟨hstop, rfl⟩ | ⟨-, ⟨-, rfl⟩ | ⟨next, rest, hqueue, ⟨-, rfl⟩ | ⟨-, rfl⟩⟩⟩⟩ := pass_tests hstep
    · exact ⟨fun _ _ hworker => Worker.noConfusion hworker, fun _ => hstop⟩
    · exact .of_worker rfl (fun _ _ => Worker.noConfusion) Worker.noConfusion
    · refine ⟨fun time notified hworker => ⟨next, rest, hqueue, ?_⟩, fun hworker => Worker.noConfusion hworker⟩
      exact (Worker.waitingUntil.inj hworker).1.symm
    · exact .of_worker rfl (fun _ _ => Worker.noConfusion) Worker.noConfusion
  | wake =>
    rw [(wake_tests hstep).1]
    exact .of_worker rfl (fun _ _ => Worker.noConfusion) Worker.noConfusion
  | spurious =>
    rw [(spurious_tests hstep).1]
    exact .of_worker rfl (fun _ _ => Worker.noConfusion) Worker.noConfusion
  | fire =>
    obtain ⟨keys, -, rfl⟩ := fire_eq hstep
    exact .of_worker rfl (fun _ _ => Worker.noConfusion) Worker.noConfusion
  | stop =>
    cases hstep
    exact ⟨h.until_, fun _ => rfl⟩
  | notifyAll =>
    obtain ⟨-, hs'⟩ := Option.ite_none_right_eq_some.1 hstep
    cases hs'
    exact h.notify s.notifies

/-- **A step of the worker's is paid for.** -/
theorem step_work (h : Settled s) (hstep : step delay s e = some s') :
    s'.work + (if e.works then 1 else 0) ≤ s.work + e.gives := by
  cases e with
  | tick d =>
    cases hstep
    exact work_tick s d
  | schedule i keys =>
    rcases schedule_cases hstep with ⟨-, rfl⟩ | ⟨-, rfl⟩
    · exact Nat.le_add_right _ _
    · exact work_push s _ _
  | notifyOne i =>
    rw [notifyOne_eq hstep]
    exact work_notify s _
  | run =>
    obtain ⟨hloop, ⟨-, rfl⟩ | ⟨-, ⟨hqueue, rfl⟩ | ⟨next, rest, hqueue, ⟨hearly, rfl⟩ | ⟨hdue, rfl⟩⟩⟩⟩ :=
      pass_tests hstep
    · exact (work_loop hloop).1
    · simp [State.work, hloop, hqueue, Ev.works]
    · simp [State.work, hloop, hqueue, hearly, Ev.works]
      omega
    · rw [work_due hloop hqueue hdue]
      exact Nat.le_refl _
  | wake =>
    obtain ⟨rfl, hworker⟩ := wake_tests hstep
    have hle : State.work { s with worker := .loop } ≤ 4 * s.queue_.length + 1 := (work_loop rfl).2
    have hnotified : s.work = 4 * s.queue_.length + 2 →
        State.work { s with worker := .loop } + 1 ≤ s.work + 0 := by omega
    rcases hworker with hworker | ⟨time, notified, hworker, htime⟩
    · exact hnotified (by simp [State.work, hworker])
    · cases notified with
      | true => exact hnotified (by simp [State.work, hworker])
      | false =>
        -- the first batch is due
        obtain ⟨next, rest, hqueue, rfl⟩ := h.until_ _ _ hworker
        have hdue : ¬s.now < next.fireAt := Int.not_lt.2 (htime.resolve_left Bool.false_ne_true)
        have hloop : State.work { s with worker := .loop } = 4 * rest.length + 3 := work_due rfl hqueue hdue
        have hwork : s.work = 4 * (rest.length + 1) := by simp [State.work, hworker, hqueue]
        rw [hloop, hwork]
        exact Nat.le_refl _
  | spurious =>
    obtain ⟨rfl, hworker⟩ := spurious_tests hstep
    have hle : State.work { s with worker := .loop } ≤ 4 * s.queue_.length + 1 := (work_loop rfl).2
    have hwait : 4 * s.queue_.length ≤ s.work := by
      rcases hworker with ⟨notified, hworker⟩ | ⟨time, notified, hworker⟩ <;>
      · unfold State.work
        rw [hworker]
        exact Nat.le_add_right _ _
    exact Nat.le_trans hle (Nat.add_le_add_right hwait 1)
  | fire =>
    obtain ⟨keys, hworker, rfl⟩ := fire_eq hstep
    have hle : State.work { s with worker := .loop } ≤ 4 * s.queue_.length + 1 := (work_loop rfl).2
    have hwork : s.work = 4 * s.queue_.length + 2 := by simp [State.work, hworker]
    rw [hwork]
    exact Nat.add_le_add_right hle 1
  | stop =>
    cases hstep
    exact Nat.le_refl _
  | notifyAll =>
    obtain ⟨-, hs'⟩ := Option.ite_none_right_eq_some.1 hstep
    cases hs'
    exact work_notify s s.notifies

/-! ## At rest -/

omit [DecidableEq ι] in
theorem work_le (s : State ι) : s.work ≤ 4 * s.queue_.length + 2 := by
  cases hworker : s.worker with
  | loop => exact Nat.le_succ_of_le (work_loop hworker).2
  | waiting notified | waitingUntil _ notified =>
    unfold State.work
    rw [hworker]
    cases notified
    · exact Nat.le_add_right _ 2
    · exact Nat.le_refl _
  | firing keys => simp [State.work, hworker]
  | exited =>
    unfold State.work
    rw [hworker]
    exact Nat.zero_le _

/-- **A worker that can go on no more** waits, with nothing in its hand, for the first batch
of the queue to be due. -/
theorem rests_waits (h : Settled s) (hnotified : Notified s) (hstop : s.stop_ = false)
    (howed : ∀ i, s.notifies i = false) (hrests : Rests delay s) :
    s.worker.hand = none ∧ ∀ next rest, s.queue_ = next :: rest → s.now < next.fireAt := by
  have hwake : wake s = none := hrests .wake rfl
  cases hworker : s.worker with
  | loop =>
    have hpass : pass s = none := hrests .run rfl
    unfold pass at hpass
    rw [if_pos hworker, if_neg (by rw [hstop]; exact Bool.false_ne_true)] at hpass
    split at hpass
    · cases hpass
    · split at hpass <;> cases hpass
  | waiting notified =>
    refine ⟨rfl, fun next rest hqueue => ?_⟩
    have hnone : ¬∃ i, s.notifies i = true := by
      rintro ⟨i, hi⟩
      rw [howed i] at hi
      cases hi
    -- with a batch in the queue it was notified
    have htrue := (hnotified notified hworker (by rw [hqueue]; exact List.cons_ne_nil _ _)).resolve_right hnone
    unfold wake at hwake
    simp [hworker, htrue] at hwake
  | waitingUntil time notified =>
    refine ⟨rfl, fun next rest hqueue => ?_⟩
    obtain ⟨next', rest', hqueue', rfl⟩ := h.until_ time notified hworker
    rw [hqueue] at hqueue'
    obtain ⟨rfl, rfl⟩ := List.cons.inj hqueue'
    unfold wake at hwake
    simp only [hworker] at hwake
    split at hwake
    · cases hwake
    next htime => exact Int.not_le.1 fun hle => htime (Or.inr hle)
  | firing keys =>
    have hfire : fire s = none := hrests .fire rfl
    simp [fire, hworker] at hfire
  | exited =>
    rw [h.exited hworker] at hstop
    cases hstop

theorem run_settled {es : List (Ev ι)} (h : run (step delay) (init now) es = some s) : Settled s :=
  run_inv (fun _ _ _ hs hstep => step_settled hs hstep) (settled_init now) h

/-- **The worker rests when nothing is due, and not before, and it gets there.** In every
run, whatever the threads that schedule and the clock do: after any moment the worker
takes at most four steps for each batch in the queue or scheduled later, two more for a
notification and one for waking up without a reason, and two; the clock alone makes it do
nothing. When it can go on no more, no notification is on its way and destruction has not
begun, the batches fired are all those that are due. -/
theorem delayDeleter_rests (delay now : ℤ) (es : List (Ev ι)) (s : State ι)
    (h : run (step delay) (init now) es = some s) :
    (∀ es' t, run (step delay) s es' = some t →
      tally (step delay) (fun _ e => e.works) s es' ≤ 4 * s.queue_.length + 2 + (es'.map Ev.gives).sum) ∧
      (s.stop_ = false → (∀ i, s.notifies i = false) → Rests delay s →
        ∃ done rest, scheduled delay now es = done ++ rest ∧
          (fired delay now es).map Prod.snd = done.map Prod.snd ∧ ∀ b ∈ rest, s.now < b.1 + delay) := by
  refine ⟨fun es' t h' => ?_, fun hstop howed hrests => ?_⟩
  · have hone : ∀ (u : State ι) e v, Settled u → step delay u e = some v →
        v.work + (if e.works then 1 else 0) ≤ u.work + e.gives := fun _ _ _ hu hstep => step_work hu hstep
    have hwork : tally (step delay) (fun _ e => e.works) s es' + t.work ≤ s.work + (es'.map Ev.gives).sum :=
      run_amortized (fun _ _ _ hu hstep => step_settled hu hstep) hone (run_settled h) h'
    have hle := work_le s
    omega
  · obtain ⟨hdelivers, hnotified⟩ := run_delivers h
    obtain ⟨hhand, hearly⟩ := rests_waits (run_settled h) hnotified hstop howed hrests
    obtain ⟨done, taken, rest, hss, hfired, htaken, -, hqueue⟩ := hdelivers.split
    rw [hhand, Option.toList_none, List.map_eq_nil_iff] at htaken
    subst htaken
    rw [List.append_nil] at hss
    refine ⟨done, rest, hss, keys_eq_of_fires hfired, fun b hb => ?_⟩
    have hsorted := hdelivers.sorted
    rw [hss, List.pairwise_append] at hsorted
    cases rest with
    | nil => exact absurd hb List.not_mem_nil
    | cons first rest =>
      have hfirst : s.now < first.1 + delay := hearly (task delay first) _ hqueue
      rcases List.mem_cons.1 hb with rfl | hb
      · exact hfirst
      · have hle := (List.pairwise_cons.1 hsorted.2.1).1 b hb
        omega

/-- Two threads: the first batch is fired, the second is not due. -/
theorem delayDeleter_rests_twoThreads : ∃ s, run (step 5) (init 0) twoThreads = some s ∧ Rests 5 s ∧
    ∃ done rest, scheduled 5 0 twoThreads = done ++ rest ∧ (fired 5 0 twoThreads).map Prod.snd = done.map Prod.snd ∧
      ∀ b ∈ rest, s.now < b.1 + 5 := by
  have hrun : (run (step 5) (init 0) twoThreads).map (fun s =>
      (s.worker, s.now, s.stop_, s.notifies false, s.notifies true)) =
      some (.waitingUntil 7 false, 6, false, false, false) := by decide +kernel
  obtain ⟨s, hs, hv⟩ := Option.map_eq_some_iff.1 hrun
  simp only [Prod.mk.injEq] at hv
  obtain ⟨hworker, hnow, hstop, hfalse, htrue⟩ := hv
  have hrests : Rests 5 s := by
    intro e he
    cases e with
    | run => simp [step, pass, hworker]
    | wake => simp [step, wake, hworker, hnow]
    | fire => simp [step, fire, hworker]
    | tick | schedule | notifyOne | spurious | stop | notifyAll => cases he
  have howed : ∀ i, s.notifies i = false := by
    intro i
    cases i <;> assumption
  exact ⟨s, hs, hrests, (delayDeleter_rests 5 0 twoThreads s hs).2 hstop howed hrests⟩

/-! ## The destructor -/

/-- After `stop_`, with so many steps to the end of the worker. -/
def Worker.toEnd : Worker → ℕ
  | .firing _ | .waiting _ | .waitingUntil _ _ => 2
  | .loop => 1
  | .exited => 0

omit [DecidableEq ι] in
theorem toEnd_notify (w : Worker) : w.notify.toEnd = w.toEnd := by
  cases w <;> rfl

/-- What a step does once `stop_` is set: the worker comes nearer to its end, with what it
has in its hand and no more. -/
structure Ends (s : State ι) (e : Ev ι) (s' : State ι) : Prop where
  stop : s'.stop_ = true
  nearer : s'.worker.toEnd + (if e.works then 1 else 0) ≤ s.worker.toEnd
  hand : ((firedBy s e).map Prod.snd).toList ++ s'.worker.hand.toList = s.worker.hand.toList

omit [DecidableEq ι] in
theorem Ends.stays (hstop : s'.stop_ = true) (hworker : s'.worker = s.worker) (he : e.works = false)
    (hfired : firedBy s e = none) : Ends s e s' := by
  refine ⟨hstop, ?_, ?_⟩
  · rw [hworker, he]
    exact Nat.le_refl _
  · rw [hworker, hfired]
    rfl

theorem step_ends (hstop : s.stop_ = true) (hstep : step delay s e = some s') : Ends s e s' := by
  cases e with
  | tick d =>
    cases hstep
    exact .stays hstop rfl rfl rfl
  | schedule i keys =>
    rcases schedule_cases hstep with ⟨-, rfl⟩ | ⟨-, rfl⟩ <;> exact .stays hstop rfl rfl rfl
  | notifyOne i =>
    rw [notifyOne_eq hstep]
    refine ⟨hstop, Nat.le_of_eq (toEnd_notify s.worker), ?_⟩
    exact congrArg Option.toList (Worker.hand_notify s.worker)
  | run =>
    obtain ⟨hloop, ⟨-, rfl⟩ | ⟨hgoes, -⟩⟩ := pass_tests hstep
    · exact ⟨hstop, by rw [hloop]; exact Nat.le_refl _, by rw [hloop]; rfl⟩
    · rw [hstop] at hgoes
      cases hgoes
  | wake =>
    obtain ⟨rfl, hworker | ⟨time, notified, hworker, -⟩⟩ := wake_tests hstep <;>
      exact ⟨hstop, by rw [hworker]; exact Nat.le_refl _, by rw [hworker]; rfl⟩
  | spurious =>
    obtain ⟨rfl, ⟨notified, hworker⟩ | ⟨time, notified, hworker⟩⟩ := spurious_tests hstep <;>
      exact ⟨hstop, by rw [hworker]; exact Nat.le_succ 1, by rw [hworker]; rfl⟩
  | fire =>
    obtain ⟨keys, hworker, rfl⟩ := fire_eq hstep
    refine ⟨hstop, by rw [hworker]; exact Nat.le_refl _, ?_⟩
    unfold firedBy
    rw [hworker]
    rfl
  | stop =>
    cases hstep
    exact .stays rfl rfl rfl rfl
  | notifyAll =>
    obtain ⟨-, hs'⟩ := Option.ite_none_right_eq_some.1 hstep
    cases hs'
    refine ⟨hstop, Nat.le_of_eq (toEnd_notify s.worker), ?_⟩
    exact congrArg Option.toList (Worker.hand_notify s.worker)

/-- The worker has been told, or does not wait. -/
def Worker.awake : Worker → Bool
  | .waiting notified | .waitingUntil _ notified => notified
  | _ => true

omit [DecidableEq ι] in
theorem awake_notify (w : Worker) : w.notify.awake = true := by
  cases w <;> rfl

/-- Once `stop_` is set, a worker that has been told does not wait again. -/
theorem step_awake (hstop : s.stop_ = true) (hawake : s.worker.awake = true) (hstep : step delay s e = some s') :
    s'.worker.awake = true := by
  cases e with
  | tick d =>
    cases hstep
    exact hawake
  | schedule i keys => rcases schedule_cases hstep with ⟨-, rfl⟩ | ⟨-, rfl⟩ <;> exact hawake
  | notifyOne i =>
    rw [notifyOne_eq hstep]
    exact awake_notify _
  | run =>
    obtain ⟨-, ⟨-, rfl⟩ | ⟨hgoes, -⟩⟩ := pass_tests hstep
    · rfl
    · rw [hstop] at hgoes
      cases hgoes
  | wake =>
    rw [(wake_tests hstep).1]
    rfl
  | spurious =>
    rw [(spurious_tests hstep).1]
    rfl
  | fire =>
    obtain ⟨keys, -, rfl⟩ := fire_eq hstep
    rfl
  | stop =>
    cases hstep
    exact hawake
  | notifyAll =>
    obtain ⟨-, hs'⟩ := Option.ite_none_right_eq_some.1 hstep
    cases hs'
    exact awake_notify _

/-- A worker that was told, and can go on no more, has exited. -/
theorem exited_of_rests (hstop : s.stop_ = true) (hawake : s.worker.awake = true) (hrests : Rests delay s) :
    s.worker = .exited := by
  have hwake : wake s = none := hrests .wake rfl
  cases hworker : s.worker with
  | exited => rfl
  | loop =>
    have hpass : pass s = none := hrests .run rfl
    simp [pass, hworker, hstop] at hpass
  | firing keys =>
    have hfire : fire s = none := hrests .fire rfl
    simp [fire, hworker] at hfire
  | waiting notified | waitingUntil _ notified =>
    rw [hworker] at hawake
    have htrue : notified = true := hawake
    simp [wake, hworker, htrue] at hwake

/-- **The destructor returns, and what it loses.** Once `stop_` is set, whatever threads
still schedule: the worker takes two steps at most; when the destructor has notified and
the worker can go on no more, it has exited, so the join returns; and the batches fired
in all are those fired before and the one in the worker's hand, so that the queue is never
fired, nor what is scheduled later. -/
theorem delayDeleter_joins (delay now : ℤ) (es : List (Ev ι)) (s : State ι)
    (h : run (step delay) (init now) es = some s) (hstop : s.stop_ = true) (es' : List (Ev ι)) (t : State ι)
    (h' : run (step delay) s es' = some t) :
    tally (step delay) (fun _ e => e.works) s es' ≤ 2 ∧ (.notifyAll ∈ es' → Rests delay t → t.worker = .exited) ∧
      (fired delay now (es ++ es')).map Prod.snd ++ t.worker.hand.toList ++ s.queue_.map Task.keys =
        (scheduled delay now es).map Prod.snd := by
  have hkeep : ∀ (u : State ι) e v, u.stop_ = true → True → step delay u e = some v → v.stop_ = true :=
    fun u e v hu _ hstep => (step_ends hu hstep).stop
  refine ⟨?_, fun hnotified hrests => ?_, ?_⟩
  · have hone : ∀ (u : State ι) e v, u.stop_ = true → True → step delay u e = some v →
        v.worker.toEnd + (if e.works then 1 else 0) ≤ u.worker.toEnd :=
      fun u e v hu _ hstep => (step_ends hu hstep).nearer
    have hbound : tally (step delay) (fun _ e => e.works) s es' + t.worker.toEnd ≤ s.worker.toEnd :=
      run_potential hkeep hone hstop (meets_of_takes fun _ _ _ => trivial) h'
    have hle : s.worker.toEnd ≤ 2 := by
      cases s.worker <;> simp [Worker.toEnd]
    omega
  · have hinv : t.stop_ = true ∧ (Ev.notifyAll ∈ es' → t.worker.awake = true) := by
      refine run_trace (I := fun es u => u.stop_ = true ∧ (Ev.notifyAll ∈ es → u.worker.awake = true))
        ⟨hstop, fun h₀ => absurd h₀ List.not_mem_nil⟩ (fun es u e v _ hI hstep => ?_) h'
      refine ⟨(step_ends hI.1 hstep).stop, fun hmem => ?_⟩
      rcases List.mem_append.1 hmem with hbefore | hnow
      · exact step_awake hI.1 (hI.2 hbefore) hstep
      · obtain rfl := List.mem_singleton.1 hnow
        obtain ⟨-, hv⟩ := Option.ite_none_right_eq_some.1 hstep
        cases hv
        exact awake_notify _
    exact exited_of_rests hinv.1 (hinv.2 hnotified) hrests
  · have hhand : t.stop_ = true ∧ (collect (step delay) firedBy s es').map Prod.snd ++ t.worker.hand.toList =
        s.worker.hand.toList := by
      refine run_trace (I := fun es u => u.stop_ = true ∧
        (collect (step delay) firedBy s es).map Prod.snd ++ u.worker.hand.toList = s.worker.hand.toList)
        ⟨hstop, rfl⟩ (fun es u e v hrun hI hstep => ?_) h'
      have hends := step_ends hI.1 hstep
      refine ⟨hends.stop, ?_⟩
      rw [collect_snoc e hrun, List.map_append, List.append_assoc, ← hI.2, ← hends.hand]
      cases firedBy u e <;> rfl
    have hkeys := (run_delivers h).1.keys_eq
    unfold fired at hkeys ⊢
    rw [collect_append h, List.map_append, hkeys, ← hhand.2]
    simp only [List.append_assoc]

/-- A destructor while the worker is about to fire `a` and `b` is in the queue. -/
def stopped : List (Ev Bool) :=
  [.run, .schedule true ["a"], .notifyOne true, .wake, .run, .tick 5, .wake, .run, .schedule true ["b"], .stop]

def ended : List (Ev Bool) := [.notifyAll, .fire, .run, .schedule false ["c"]]

/-- `a` is fired, `b` never is. -/
theorem delayDeleter_joins_queue : ∃ s t, run (step 5) (init 0) stopped = some s ∧ run (step 5) s ended = some t ∧
    t.worker = .exited ∧ (fired 5 0 (stopped ++ ended)).map Prod.snd ++ t.worker.hand.toList ++ [["b"]] =
      (scheduled 5 0 stopped).map Prod.snd := by
  have hrun : (run (step 5) (init 0) (stopped ++ ended)).map State.worker = some .exited := by decide +kernel
  have hstopped : (run (step 5) (init 0) stopped).map (fun s => (s.stop_, s.queue_)) =
      some (true, [⟨5 + 5, ["b"]⟩]) := by decide +kernel
  obtain ⟨t, ht, hworker⟩ := Option.map_eq_some_iff.1 hrun
  obtain ⟨s, hs, ht'⟩ := run_append.1 ht
  rw [hs] at hstopped
  obtain ⟨hstop, hqueue⟩ := Prod.mk.inj (Option.some.inj hstopped)
  have hrests : Rests 5 t := by
    intro e he
    cases e with
    | run => simp [step, pass, hworker]
    | wake => simp [step, wake, hworker]
    | fire => simp [step, fire, hworker]
    | tick | schedule | notifyOne | spurious | stop | notifyAll => cases he
  obtain ⟨-, hexited, hkeys⟩ := delayDeleter_joins 5 0 stopped s hs hstop ended t ht'
  rw [hqueue] at hkeys
  exact ⟨s, t, hs, ht', hexited (by decide) hrests, hkeys⟩

end Seckill.DelayDeleter
