import Seckill.Lib.Run
import Seckill.Proof.RingBuffer
import Seckill.Spec.AsyncLogger

/-!
# What the logger writes

A message that the buffer took is written if somebody comes for it before a `shutdown`
returns: a worker that has not exited, or one that a `start` has yet to create
(`Attended`). Neither `log` nor `shutdown` looks for one: `log` may push after the
worker has taken its last batch, `stop_` is never reset, so the worker of a second
`start` exits at once, and a `shutdown` that finds `worker_` not joinable does not wait.

`Orderly` names the steps at which this does not happen. In a run of such steps
(`shutdown_writes`) whatever was taken is written, once and in order, when a `shutdown`
returns. What the buffer does not take is counted, in every run.
-/

namespace Seckill.AsyncLogger

open Machine

section

/-- The message that a step makes the buffer take. -/
def taken (s : State) : Ev → Option LogMessage
  | .push c => match s.call c with
    | .pushing m => if s.buf.count = kCapacity then none else some m
    | _ => none
  | _ => none

/-- The messages the buffer took. -/
abbrev accepted (es : List Ev) : List LogMessage := collect step taken .init es

def isPush : Ev → Bool
  | .push _ => true
  | _ => false

/-- The step is the return of a `shutdown`. -/
def Returns (s : State) (e : Ev) : Prop := (∃ c, e = .flush c) ∨ ∃ c, e = .shutdown c ∧ s.running = false

def Worker.Alive : Worker → Prop
  | .waiting | .writing _ _ => True
  | _ => False

/-- What the worker has taken and not written. -/
def Worker.batch : Worker → List LogMessage
  | .writing m rest => m :: rest
  | _ => []

/-- A `start` on its way to the creation of its worker. -/
def Pc.YetToCreate : Pc → Prop
  | .opening _ | .creating => True
  | _ => False

/-- A `shutdown` that has asked whether `worker_` is joinable. -/
def Pc.Tested : Pc → Prop
  | .joining | .flushing => True
  | _ => False

/-- The thread was created and not joined. -/
def State.Unjoined (s : State) (w : ℕ) : Prop := s.worker = some w ∨ ∃ c, s.call c = .assigning w

/-- There are messages that were taken and not written. -/
def State.Unwritten (s : State) : Prop := s.buf.count ≠ 0 ∨ ∃ w, (s.workers w).batch ≠ []

/-- **Somebody will come for what is pushed now**, and no `shutdown` returns before: there
is a worker that has not exited, and no `shutdown` is past its wait; or a `start` has yet
to create it, no thread is left from before, and no `shutdown` has decided not to wait. -/
def State.Attended (s : State) : Prop :=
  (∃ w, (s.workers w).Alive) ∧ (∀ c, s.call c ≠ .flushing) ∨
    (∃ c, (s.call c).YetToCreate) ∧ (∀ w, ¬s.Unjoined w) ∧ ∀ c, ¬(s.call c).Tested

/-- **The condition of the run.** What the buffer takes is attended to; a worker is created
when no thread is left from before; a `start` that fails and a `shutdown` that does not
wait leave nothing behind; and the logger lets through what it is given. -/
def Orderly (s : State) : Ev → Prop
  | .push _ => s.buf.count = kCapacity ∨ s.Attended
  | .create _ _ => ∀ w, ¬s.Unjoined w
  | .opens _ .throws => ¬s.Unwritten
  | .shutdown _ => s.running = true ∨ ¬s.Unwritten
  | .joinable _ => s.worker ≠ none ∨ ¬s.Unwritten
  | .write w => ∀ m rest level, s.workers w = .writing m rest → s.fileLogger = some level → level ≤ m.level
  | _ => True

end

variable {s t u v : State} {es : List Ev} {e : Ev} {c w : ℕ} {p : Pc} {m : LogMessage} {acc : List LogMessage}

theorem at_call (s : State) (c c' : ℕ) (p : Pc) : (s.at c p).call c' = if c' = c then p else s.call c' :=
  Function.update_apply ..

/-- A call at `p` that was not put there was there. -/
theorem call_of_at {c' : ℕ} {q : Pc} (h : (s.at c q).call c' = p) (hq : q ≠ p) : s.call c' = p := by
  rw [at_call] at h
  split at h
  · exact absurd h hq
  · exact h

theorem run_workers (s : State) (w w' : ℕ) (x : Worker) : (s.run w x).workers w' = if w' = w then x else s.workers w' :=
  Function.update_apply ..

/-! ## Steps -/

/-- **What a step can do.** -/
inductive Moves (s : State) : Ev → State → Prop
  | again {c level : ℕ} : s.call c = .idle → s.running = true → Moves s (.start c level) (s.at c .returned)
  | start {c level : ℕ} : s.call c = .idle → s.running = false →
      Moves s (.start c level) ({ s with running := true }.at c (.opening level))
  | file {c level : ℕ} : s.call c = .opening level →
      Moves s (.opens c .file) ({ s with fileLogger := some level }.at c .creating)
  | fallback {c level : ℕ} : s.call c = .opening level →
      Moves s (.opens c .fallback) ({ s with fileLogger := some info }.at c .creating)
  | throws {c level : ℕ} : s.call c = .opening level → Moves s (.opens c .throws) (s.at c .threw)
  | create {c w : ℕ} : s.call c = .creating → s.workers w = .absent →
      Moves s (.create c w) ((s.run w .waiting).at c (.assigning w))
  | assign {c w : ℕ} : s.call c = .assigning w → s.worker = none →
      Moves s (.assign c) ({ s with worker := some w }.at c .returned)
  | terminate {c w w' : ℕ} : s.call c = .assigning w → s.worker = some w' →
      Moves s (.assign c) { s with terminated := true }
  | log {c : ℕ} {m : LogMessage} : s.call c = .idle → s.running = true → Moves s (.log c m) (s.at c (.pushing m))
  | refuse {c : ℕ} {m : LogMessage} : s.call c = .idle → s.running = false → Moves s (.log c m) (s.at c .returned)
  | push {c : ℕ} {m : LogMessage} {ok : Bool} {b : RingBuffer LogMessage kCapacity} : s.call c = .pushing m →
      s.buf.push m = some (ok, b) → Moves s (.push c) ({ s with buf := b }.at c .returned)
  | shutdown {c : ℕ} : s.call c = .idle → s.running = true →
      Moves s (.shutdown c) ({ s with running := false }.at c .stopping)
  | early {c : ℕ} : s.call c = .idle → s.running = false → Moves s (.shutdown c) (s.at c .returned)
  | requestStop {c : ℕ} : s.call c = .stopping →
      Moves s (.requestStop c) ({ s with buf := s.buf.requestStop }.at c .testing)
  | joinable {c w : ℕ} : s.call c = .testing → s.worker = some w → Moves s (.joinable c) (s.at c .joining)
  | notJoinable {c : ℕ} : s.call c = .testing → s.worker = none → Moves s (.joinable c) (s.at c .flushing)
  | join {c w : ℕ} : s.call c = .joining → s.worker = some w → s.workers w = .exited →
      Moves s (.join c) ({ s with worker := none }.at c .flushing)
  | joinThrows {c : ℕ} : s.call c = .joining → s.worker = none → Moves s (.join c) (s.at c .threw)
  | flush {c : ℕ} : s.call c = .flushing → Moves s (.flush c) (s.at c .returned)
  | pop {w : ℕ} {batch : List LogMessage} {b : RingBuffer LogMessage kCapacity} : s.workers w = .waiting →
      s.buf.waitAndPopBatch = some (batch, b) →
      Moves s (.pop w) ({ s with buf := b }.run w (if batch.length = 0 then .exited else .ofBatch batch))
  | write {w level : ℕ} {m : LogMessage} {rest : List LogMessage} : s.workers w = .writing m rest →
      s.fileLogger = some level →
      Moves s (.write w) ({ s with sink := if level ≤ m.level then s.sink ++ [m] else s.sink }.run w (.ofBatch rest))
  | lose {w : ℕ} {m : LogMessage} {rest : List LogMessage} : s.workers w = .writing m rest → s.fileLogger = none →
      Moves s (.write w) (s.run w (.ofBatch rest))

theorem start_moves {level : ℕ} (h : start s c level = some t) : Moves s (.start c level) t := by
  unfold start at h
  split at h
  next hpc =>
    rw [← Option.some.inj h]
    split
    next hrun => exact .again hpc hrun
    next hrun => exact .start hpc (eq_false_of_ne_true hrun)
  next => cases h

theorem opens_moves {how : Opens} (h : opens s c how = some t) : Moves s (.opens c how) t := by
  unfold opens at h
  split at h
  next hpc =>
    rw [← Option.some.inj h]
    exact .file hpc
  next hpc =>
    rw [← Option.some.inj h]
    exact .fallback hpc
  next hpc =>
    rw [← Option.some.inj h]
    exact .throws hpc
  next => cases h

theorem create_moves (h : create s c w = some t) : Moves s (.create c w) t := by
  unfold create at h
  split at h
  next hpc =>
    rw [← Option.some.inj h]
    exact .create hpc.1 hpc.2
  next => cases h

theorem assign_moves (h : assign s c = some t) : Moves s (.assign c) t := by
  unfold assign at h
  split at h
  next w hpc =>
    rw [← Option.some.inj h]
    split
    next hsome =>
      obtain ⟨w', hworker⟩ := Option.isSome_iff_exists.1 hsome
      exact .terminate hpc hworker
    next hnone => exact .assign hpc (by simpa using hnone)
  next => cases h

theorem log_moves (h : log s c m = some t) : Moves s (.log c m) t := by
  unfold log at h
  split at h
  next hpc =>
    rw [← Option.some.inj h]
    split
    next hrun => exact .log hpc hrun
    next hrun => exact .refuse hpc (eq_false_of_ne_true hrun)
  next => cases h

theorem push_moves (h : push s c = some t) : Moves s (.push c) t := by
  unfold push at h
  split at h
  next m hpc =>
    obtain ⟨⟨ok, b⟩, hb, rfl⟩ := Option.map_eq_some_iff.1 h
    exact .push hpc hb
  next => cases h

theorem shutdown_moves (h : shutdown s c = some t) : Moves s (.shutdown c) t := by
  unfold shutdown at h
  split at h
  next hpc =>
    rw [← Option.some.inj h]
    split
    next hrun => exact .shutdown hpc hrun
    next hrun => exact .early hpc (eq_false_of_ne_true hrun)
  next => cases h

theorem requestStop_moves (h : requestStop s c = some t) : Moves s (.requestStop c) t := by
  unfold requestStop at h
  split at h
  next hpc =>
    rw [← Option.some.inj h]
    exact .requestStop hpc
  next => cases h

theorem joinable_moves (h : joinable s c = some t) : Moves s (.joinable c) t := by
  unfold joinable at h
  split at h
  next hpc =>
    rw [← Option.some.inj h]
    cases hworker : s.worker with
    | none => exact .notJoinable hpc hworker
    | some w => exact .joinable hpc hworker
  next => cases h

theorem join_moves (h : join s c = some t) : Moves s (.join c) t := by
  unfold join at h
  split at h
  next hpc =>
    split at h
    next hworker =>
      rw [← Option.some.inj h]
      exact .joinThrows hpc hworker
    next w hworker =>
      split at h
      next hexited =>
        rw [← Option.some.inj h]
        exact .join hpc hworker hexited
      next => cases h
  next => cases h

theorem flush_moves (h : flush s c = some t) : Moves s (.flush c) t := by
  unfold flush at h
  split at h
  next hpc =>
    rw [← Option.some.inj h]
    exact .flush hpc
  next => cases h

theorem pop_moves (h : pop s w = some t) : Moves s (.pop w) t := by
  unfold pop at h
  split at h
  next hready =>
    obtain ⟨⟨batch, b⟩, hb, rfl⟩ := Option.map_eq_some_iff.1 h
    exact .pop hready.1 hb
  next => cases h

theorem write_moves (h : write s w = some t) : Moves s (.write w) t := by
  unfold write at h
  split at h
  next hworker hlogger =>
    rw [← Option.some.inj h]
    exact .write hworker hlogger
  next hworker hlogger =>
    rw [← Option.some.inj h]
    exact .lose hworker hlogger
  next => cases h

theorem step_moves (h : step s e = some t) : Moves s e t := by
  unfold step at h
  split at h
  · cases h
  cases e with
  | start c level => exact start_moves h
  | opens c how => exact opens_moves h
  | create c w => exact create_moves h
  | assign c => exact assign_moves h
  | log c m => exact log_moves h
  | push c => exact push_moves h
  | shutdown c => exact shutdown_moves h
  | requestStop c => exact requestStop_moves h
  | joinable c => exact joinable_moves h
  | join c => exact join_moves h
  | flush c => exact flush_moves h
  | pop w => exact pop_moves h
  | write w => exact write_moves h

/-! ## What is taken is attended to -/

/-- **The invariant**, for the messages taken so far. -/
structure Serves (acc : List LogMessage) (s : State) : Prop where
  held : ∀ w, (s.workers w).Alive → s.Unjoined w
  one : ∀ w w', s.Unjoined w → s.Unjoined w' → w = w'
  logger : s.fileLogger = none → (∀ w, ¬(s.workers w).Alive) ∧ ∀ c, s.call c ≠ .creating
  written : ∃ l, s.buf.Holds l ∧
    ∀ w, (∀ w', w' ≠ w → (s.workers w').batch = []) → acc = s.sink ++ (s.workers w).batch ++ l
  left : s.buf.count ≠ 0 →
    (∃ w, (s.workers w).Alive) ∨ (∃ c, (s.call c).YetToCreate) ∧ (∀ w, ¬s.Unjoined w) ∧ ∀ c, ¬(s.call c).Tested
  flushing : ∀ c, s.call c = .flushing → ¬s.Unwritten

theorem Worker.alive_of_batch {x : Worker} (h : x.batch ≠ []) : x.Alive := by
  cases x with
  | writing m rest => trivial
  | _ => exact absurd rfl h

/-- No other thread has taken anything. -/
theorem Serves.others (hs : Serves acc s) (hw : (s.workers w).Alive) (w' : ℕ) (hne : w' ≠ w) :
    (s.workers w').batch = [] := by
  by_contra hbatch
  exact hne (hs.one w' w (hs.held w' (Worker.alive_of_batch hbatch)) (hs.held w hw))

/-- **When nothing is left unwritten, all is written.** -/
theorem Serves.sink_eq (hs : Serves acc s) (hnone : ¬s.Unwritten) : s.sink = acc := by
  obtain ⟨l, hholds, hall⟩ := hs.written
  have hl : l = [] := by
    by_contra hl
    exact hnone (Or.inl (hholds.count_pos.2 hl))
  have hbatch : ∀ w, (s.workers w).batch = [] := fun w => by
    by_contra hbatch
    exact hnone (Or.inr ⟨w, hbatch⟩)
  rw [hall 0 fun w _ => hbatch w, hbatch 0, hl]
  simp

/-- A call goes on where it does not matter. -/
structure Quiet (p q : Pc) : Prop where
  assigning : ∀ w, p = .assigning w ↔ q = .assigning w
  yetToCreate : p.YetToCreate → q.YetToCreate
  tested : q.Tested → p.Tested
  flushing : q = .flushing → p = .flushing

theorem Quiet.refl (p : Pc) : Quiet p p := ⟨fun _ => Iff.rfl, id, id, id⟩

theorem unjoined_congr (hworker : t.worker = s.worker)
    (hcall : ∀ c w, s.call c = .assigning w ↔ t.call c = .assigning w) (w : ℕ) : t.Unjoined w ↔ s.Unjoined w := by
  unfold State.Unjoined
  rw [hworker]
  exact or_congr_right (exists_congr fun c => (hcall c w).symm)

/-- What only moves calls quietly keeps the invariant. -/
theorem Serves.quiet (hs : Serves acc s) (hworker : t.worker = s.worker) (hworkers : t.workers = s.workers)
    (hsink : t.sink = s.sink) (hbuf : ∀ l, s.buf.Holds l → t.buf.Holds l)
    (hlogger : t.fileLogger = none → s.fileLogger = none ∧ ∀ c, t.call c = .creating → s.call c = .creating)
    (hcall : ∀ c, Quiet (s.call c) (t.call c)) : Serves acc t := by
  -- the same threads are unjoined, and the buffer holds the same
  have hunjoined := unjoined_congr hworker fun c => (hcall c).assigning
  obtain ⟨l, hholds, hall⟩ := hs.written
  have hcount : t.buf.count = s.buf.count := (hbuf l hholds).count.trans hholds.count.symm
  constructor
  · intro w hw
    rw [hworkers] at hw
    exact (hunjoined w).2 (hs.held w hw)
  · intro w w' hw hw'
    exact hs.one w w' ((hunjoined w).1 hw) ((hunjoined w').1 hw')
  · intro hnone
    obtain ⟨hnone', hcreating⟩ := hlogger hnone
    obtain ⟨halive, hcreate⟩ := hs.logger hnone'
    rw [hworkers]
    exact ⟨halive, fun c hc => hcreate c (hcreating c hc)⟩
  · refine ⟨l, hbuf l hholds, ?_⟩
    rw [hworkers, hsink]
    exact hall
  · intro hne
    rw [hcount] at hne
    rw [hworkers]
    rcases hs.left hne with halive | ⟨⟨c, hc⟩, hnone, htested⟩
    · exact Or.inl halive
    · refine Or.inr ⟨⟨c, (hcall c).yetToCreate hc⟩, fun w hw => hnone w ((hunjoined w).1 hw), fun c hc => ?_⟩
      exact htested c ((hcall c).tested hc)
  · intro c hc
    have hbefore := hs.flushing c ((hcall c).flushing hc)
    unfold State.Unwritten at hbefore ⊢
    rw [hcount, hworkers]
    exact hbefore

/-- A call moves quietly, the others stay. -/
theorem quiet_at {q : Pc} (hpc : s.call c = p) (hq : Quiet p q) (c' : ℕ) :
    Quiet (s.call c') ((s.at c q).call c') := by
  rw [at_call]
  split
  next heq =>
    rw [heq, hpc]
    exact hq
  next => exact .refl _

/-- A call that is not about to assign its worker. -/
theorem assigning_at {q : Pc} (hpc : ∀ w, s.call c ≠ .assigning w) (hq : ∀ w, q ≠ .assigning w) (c' w : ℕ) :
    s.call c' = .assigning w ↔ (s.at c q).call c' = .assigning w := by
  rw [at_call]
  split
  next heq =>
    rw [heq]
    exact iff_of_false (hpc w) (hq w)
  next => exact Iff.rfl

/-- A call moves, and a worker comes for what is left. -/
theorem serves_move {q : Pc} (hs : Serves acc s) (hp : ∀ w, s.call c ≠ .assigning w) (hq : ∀ w, q ≠ .assigning w)
    (hcreating : q ≠ .creating) (hleft : s.buf.count ≠ 0 → ∃ w, (s.workers w).Alive)
    (hflushing : q = .flushing → ¬s.Unwritten) : Serves acc (s.at c q) := by
  have hunjoined : ∀ w, (s.at c q).Unjoined w ↔ s.Unjoined w := unjoined_congr rfl (assigning_at hp hq)
  refine ⟨fun w hw => (hunjoined w).2 (hs.held w hw),
    fun w w' hw hw' => hs.one w w' ((hunjoined w).1 hw) ((hunjoined w').1 hw'),
    fun h => ⟨(hs.logger h).1, fun c' hc => (hs.logger h).2 c' (call_of_at hc hcreating)⟩, hs.written,
    fun hne => Or.inl (hleft hne), fun c' hc => ?_⟩
  by_cases hqf : q = .flushing
  · exact hflushing hqf
  · exact hs.flushing c' (call_of_at hc hqf)

theorem serves_throws {level : ℕ} (hs : Serves acc s) (hpc : s.call c = .opening level) (hnone : ¬s.Unwritten) :
    Serves acc (s.at c .threw) :=
  serves_move hs (by simp [hpc]) (by simp) (by simp) (fun hne => absurd (Or.inl hne) hnone) fun _ => hnone

theorem serves_create (hs : Serves acc s) (hpc : s.call c = .creating) (habsent : s.workers w = .absent)
    (hnone : ∀ w, ¬s.Unjoined w) : Serves acc ((s.run w .waiting).at c (.assigning w)) := by
  -- it is the only thread there is
  have hself : ((s.run w .waiting).at c (.assigning w)).Unjoined w := Or.inr ⟨c, by rw [at_call, if_pos rfl]⟩
  have honly : ∀ w', ((s.run w .waiting).at c (.assigning w)).Unjoined w' → w' = w := by
    rintro w' (hw | ⟨c', hc⟩)
    · exact absurd (Or.inl hw) (hnone w')
    · rw [at_call] at hc
      split at hc
      · exact (Pc.assigning.inj hc).symm
      · exact absurd (Or.inr ⟨c', hc⟩) (hnone w')
  have hbatch : ∀ w', (((s.run w .waiting).at c (.assigning w)).workers w').batch = (s.workers w').batch := by
    intro w'
    change ((s.run w .waiting).workers w').batch = _
    rw [run_workers]
    split
    next heq =>
      rw [heq, habsent]
      rfl
    next => rfl
  refine ⟨fun w' hw => ?_, fun w₁ w₂ h₁ h₂ => (honly w₁ h₁).trans (honly w₂ h₂).symm,
    fun h => absurd hpc ((hs.logger h).2 c), ?_, fun _ => Or.inl ⟨w, ?_⟩, fun c' hc => ?_⟩
  · change ((s.run w .waiting).workers w').Alive at hw
    rw [run_workers] at hw
    split at hw
    next heq =>
      rw [heq]
      exact hself
    next => exact absurd (hs.held w' hw) (hnone w')
  · obtain ⟨l, hholds, hall⟩ := hs.written
    refine ⟨l, hholds, fun w' hothers => ?_⟩
    rw [hbatch]
    exact hall w' fun w'' hne => (hbatch w'').symm.trans (hothers w'' hne)
  · change ((s.run w .waiting).workers w).Alive
    rw [run_workers, if_pos rfl]
    trivial
  · have hbefore := hs.flushing c' (call_of_at hc (by simp))
    rintro (hne | ⟨w', hne⟩)
    · exact hbefore (Or.inl hne)
    · rw [hbatch] at hne
      exact hbefore (Or.inr ⟨w', hne⟩)

theorem serves_assign (hs : Serves acc s) (hpc : s.call c = .assigning w) :
    Serves acc ({ s with worker := some w }.at c .returned) := by
  -- the thread was unjoined as a local of `start`, now it is as `worker_`
  have hself : s.Unjoined w := Or.inr ⟨c, hpc⟩
  have hunjoined : ∀ w', ({ s with worker := some w }.at c .returned).Unjoined w' ↔ s.Unjoined w' := by
    intro w'
    constructor
    · rintro (hw | ⟨c', hc⟩)
      · rwa [← Option.some.inj hw]
      · exact Or.inr ⟨c', call_of_at hc (by simp)⟩
    · intro hw
      rw [hs.one w' w hw hself]
      exact Or.inl rfl
  refine ⟨fun w' hw => (hunjoined w').2 (hs.held w' hw),
    fun w₁ w₂ h₁ h₂ => hs.one w₁ w₂ ((hunjoined w₁).1 h₁) ((hunjoined w₂).1 h₂),
    fun h => ⟨(hs.logger h).1, fun c' hc => (hs.logger h).2 c' (call_of_at hc (by simp))⟩, hs.written,
    fun hne => ?_, fun c' hc => hs.flushing c' (call_of_at hc (by simp))⟩
  rcases hs.left hne with halive | ⟨-, hnone, -⟩
  · exact Or.inl halive
  · exact absurd hself (hnone w)

theorem serves_push {ok : Bool} {b : RingBuffer LogMessage kCapacity} (hs : Serves acc s)
    (hpc : s.call c = .pushing m) (hb : s.buf.push m = some (ok, b)) (hcond : s.buf.count = kCapacity ∨ s.Attended) :
    Serves (acc ++ (taken s (.push c)).toList) ({ s with buf := b }.at c .returned) := by
  obtain ⟨l, hholds, hall⟩ := hs.written
  have hcall := quiet_at hpc (⟨by simp, fun h => h.elim, fun h => h.elim, by simp⟩ : Quiet (.pushing m) .returned)
  have hcreating : ∀ c', (s.at c .returned).call c' = .creating → s.call c' = .creating :=
    fun c' hc => call_of_at hc (by simp)
  rcases RingBuffer.push_cases hholds m with ⟨hfull, hpush, -⟩ | ⟨hroom, b', hpush, hholds', -, -⟩
  · -- the message is dropped
    rw [hpush] at hb
    cases hb
    have hnone : taken s (.push c) = none := by simp [taken, hpc, hfull]
    rw [hnone, Option.toList_none, List.append_nil]
    exact hs.quiet rfl rfl rfl (fun l h => ⟨h.size, h.head, h.count, h.window⟩) (fun h => ⟨h, hcreating⟩) hcall
  · -- it is taken, and attended to
    rw [hpush] at hb
    cases hb
    have hsome : taken s (.push c) = some m := by simp [taken, hpc, hroom]
    have hattended := hcond.resolve_left hroom
    have hunjoined : ∀ w, ({ s with buf := b }.at c .returned).Unjoined w ↔ s.Unjoined w :=
      unjoined_congr rfl fun c' => (hcall c').assigning
    rw [hsome]
    refine ⟨fun w hw => (hunjoined w).2 (hs.held w hw),
      fun w w' hw hw' => hs.one w w' ((hunjoined w).1 hw) ((hunjoined w').1 hw'),
      fun h => ⟨(hs.logger h).1, fun c' hc => (hs.logger h).2 c' (hcreating c' hc)⟩, ?_, fun _ => ?_, fun c' hc => ?_⟩
    · refine ⟨l ++ [m], hholds', fun w hothers => ?_⟩
      rw [hall w hothers]
      change _ = s.sink ++ (s.workers w).batch ++ (l ++ [m])
      simp
    · rcases hattended with ⟨halive, -⟩ | ⟨⟨c', hc⟩, hnone, htested⟩
      · exact Or.inl halive
      · refine Or.inr ⟨⟨c', (hcall c').yetToCreate hc⟩, fun w hw => hnone w ((hunjoined w).1 hw), fun c' hc => ?_⟩
        exact htested c' ((hcall c').tested hc)
    · -- no shutdown is past its wait
      have hflushing : s.call c' = .flushing := call_of_at hc (by simp)
      rcases hattended with ⟨-, hnone⟩ | ⟨-, -, htested⟩
      · exact absurd hflushing (hnone c')
      · exact absurd (by rw [hflushing]; trivial) (htested c')

theorem serves_notJoinable (hs : Serves acc s) (hpc : s.call c = .testing) (hnone : ¬s.Unwritten) :
    Serves acc (s.at c .flushing) :=
  serves_move hs (by simp [hpc]) (by simp) (by simp) (fun hne => absurd (Or.inl hne) hnone) fun _ => hnone

/-- A `shutdown` goes to wait for the worker that it found. -/
theorem serves_joinable (hs : Serves acc s) (hpc : s.call c = .testing) (hworker : s.worker = some w) :
    Serves acc (s.at c .joining) := by
  refine serves_move hs (by simp [hpc]) (by simp) (by simp) (fun hne => ?_) (by simp)
  rcases hs.left hne with halive | ⟨-, hnone, -⟩
  · exact halive
  · -- a `start` that is yet to create its worker found no thread
    exact absurd (Or.inl hworker) (hnone w)

/-- **The join**: the thread has exited, and it was the only one. -/
theorem serves_join (hs : Serves acc s) (hpc : s.call c = .joining) (hworker : s.worker = some w)
    (hexited : s.workers w = .exited) : Serves acc ({ s with worker := none }.at c .flushing) := by
  -- no other thread is left, so nobody is alive and nothing can be waiting
  have hdead : ∀ w', ¬(s.workers w').Alive := by
    intro w' hw
    rw [hs.one w' w (hs.held w' hw) (Or.inl hworker), hexited] at hw
    exact hw
  have hempty : s.buf.count = 0 := by
    by_contra hne
    rcases hs.left hne with ⟨w', hw⟩ | ⟨-, -, htested⟩
    · exact hdead w' hw
    · exact htested c (by rw [hpc]; trivial)
  have hunjoined : ∀ w', ({ s with worker := none }.at c .flushing).Unjoined w' → s.Unjoined w' := by
    rintro w' (hw | ⟨c', hc⟩)
    · cases hw
    · exact Or.inr ⟨c', call_of_at hc (by simp)⟩
  refine ⟨fun w' hw => absurd hw (hdead w'), fun w₁ w₂ h₁ h₂ => hs.one w₁ w₂ (hunjoined w₁ h₁) (hunjoined w₂ h₂),
    fun h => ⟨hdead, fun c' hc => (hs.logger h).2 c' (call_of_at hc (by simp))⟩, hs.written,
    fun hne => absurd hempty hne, fun _ _ => ?_⟩
  rintro (hne | ⟨w', hne⟩)
  · exact hne hempty
  · exact hdead w' (Worker.alive_of_batch hne)

theorem batch_ofBatch (l : List LogMessage) : (Worker.ofBatch l).batch = l := by
  cases l <;> rfl

theorem alive_ofBatch (l : List LogMessage) : (Worker.ofBatch l).Alive := by
  cases l <;> trivial

/-- The worker of the step is the one that has taken something, if any has. -/
theorem Serves.at_worker (hs : Serves acc s) (hw : (s.workers w).Alive) :
    ∃ l, s.buf.Holds l ∧ acc = s.sink ++ (s.workers w).batch ++ l := by
  obtain ⟨l, hholds, hall⟩ := hs.written
  exact ⟨l, hholds, hall w (hs.others hw)⟩

/-- **A step of a worker**: what leaves the buffer is in its batch, what leaves its batch is
written. It exits only when nothing is left. -/
theorem serves_worker {x : Worker} {b : RingBuffer LogMessage kCapacity} {l sink : List LogMessage}
    (hs : Serves acc s) (hw : (s.workers w).Alive) (hholds : b.Holds l) (hacc : acc = sink ++ x.batch ++ l)
    (hx : x.Alive ∨ l = []) (hflushing : ∀ c, s.call c = .flushing → l = [] ∧ x.batch = []) :
    Serves acc ({ s with buf := b, sink := sink }.run w x) := by
  have hself : s.Unjoined w := hs.held w hw
  have hworkers : ∀ w', ({ s with buf := b, sink := sink }.run w x).workers w' = if w' = w then x else s.workers w' :=
    fun w' => run_workers s w w' x
  refine ⟨fun w' hw' => ?_, hs.one, fun h => absurd hw ((hs.logger h).1 w), ⟨l, hholds, fun w' hothers => ?_⟩,
    fun hne => ?_, fun c hc => ?_⟩
  · rw [hworkers] at hw'
    split at hw'
    next heq =>
      rw [heq]
      exact hself
    next => exact hs.held w' hw'
  · rw [hworkers]
    split
    next => exact hacc
    next hne =>
      -- the worker of the step is one of the others
      have hx : x.batch = [] := by
        have hthis := hothers w (Ne.symm hne)
        rwa [hworkers, if_pos rfl] at hthis
      rw [hs.others hw w' hne, hacc, hx]
      rfl
  · have hl : l ≠ [] := hholds.count_pos.1 hne
    refine Or.inl ⟨w, ?_⟩
    rw [hworkers, if_pos rfl]
    exact hx.resolve_right hl
  · obtain ⟨hl, hbatch⟩ := hflushing c hc
    rintro (hne | ⟨w', hne⟩)
    · exact hholds.count_pos.1 hne hl
    · rw [hworkers] at hne
      split at hne
      next => exact hne hbatch
      next heq => exact hne (hs.others hw w' heq)

theorem serves_pop {batch : List LogMessage} {b : RingBuffer LogMessage kCapacity} (hs : Serves acc s)
    (hw : s.workers w = .waiting) (hb : s.buf.waitAndPopBatch = some (batch, b)) :
    Serves acc ({ s with buf := b }.run w (if batch.length = 0 then .exited else .ofBatch batch)) := by
  have halive : (s.workers w).Alive := by
    rw [hw]
    trivial
  obtain ⟨l, hholds, hacc⟩ := hs.at_worker halive
  obtain ⟨b', hpop, hholds', -, -⟩ := RingBuffer.waitAndPopBatch_eq hholds
  rw [hpop] at hb
  cases hb
  rw [hw] at hacc
  -- an empty batch ends the worker: nothing is left then
  cases batch with
  | nil => exact serves_worker hs halive hholds' hacc (Or.inr rfl) fun _ _ => ⟨rfl, rfl⟩
  | cons m rest =>
    refine serves_worker hs halive hholds' ?_ (Or.inl trivial) fun c hc => ?_
    · rw [hacc]
      change s.sink ++ [] ++ m :: rest = s.sink ++ m :: rest ++ []
      simp
    · exact absurd (Or.inl (hholds.count_pos.2 (List.cons_ne_nil m rest))) (hs.flushing c hc)

theorem serves_write {level : ℕ} {rest : List LogMessage} (hs : Serves acc s) (hw : s.workers w = .writing m rest)
    (hlevel : level ≤ m.level) :
    Serves acc ({ s with sink := if level ≤ m.level then s.sink ++ [m] else s.sink }.run w (.ofBatch rest)) := by
  have halive : (s.workers w).Alive := by
    rw [hw]
    trivial
  obtain ⟨l, hholds, hacc⟩ := hs.at_worker halive
  rw [hw] at hacc
  rw [if_pos hlevel]
  refine serves_worker hs halive hholds ?_ (Or.inl (alive_ofBatch rest)) fun c hc => ?_
  · rw [hacc, batch_ofBatch]
    change s.sink ++ m :: rest ++ l = s.sink ++ [m] ++ rest ++ l
    simp
  · refine absurd (Or.inr ⟨w, ?_⟩) (hs.flushing c hc)
    rw [hw]
    exact List.cons_ne_nil m rest

/-- A call moves quietly, and nothing else changes that counts. -/
theorem serves_at {q : Pc} (hs : Serves acc s) (hpc : s.call c = p) (hq : Quiet p q) (hcreating : q ≠ .creating) :
    Serves acc (s.at c q) :=
  hs.quiet rfl rfl rfl (fun _ h => h) (fun h => ⟨h, fun _ hc => call_of_at hc hcreating⟩) (quiet_at hpc hq)

theorem serves_running (hs : Serves acc s) (b : Bool) : Serves acc { s with running := b } :=
  hs.quiet rfl rfl rfl (fun _ h => h) (fun h => ⟨h, fun _ hc => hc⟩) fun _ => .refl _

theorem serves_requestStop (hs : Serves acc s) : Serves acc { s with buf := s.buf.requestStop } :=
  hs.quiet rfl rfl rfl (fun _ h => h.requestStop) (fun h => ⟨h, fun _ hc => hc⟩) fun _ => .refl _

theorem serves_opens {level level' : ℕ} (hs : Serves acc s) (hpc : s.call c = .opening level) :
    Serves acc ({ s with fileLogger := some level' }.at c .creating) :=
  hs.quiet rfl rfl rfl (fun _ h => h) (fun h => by cases h)
    (quiet_at hpc ⟨by simp, fun _ => trivial, fun h => h.elim, by simp⟩)

/-- Of the plain steps of a call. -/
theorem quiet_plain {q : Pc} (hp : ¬p.YetToCreate) (hq : ¬q.Tested) (hpa : ∀ w, p ≠ .assigning w)
    (hqa : ∀ w, q ≠ .assigning w) : Quiet p q :=
  ⟨fun w => iff_of_false (hpa w) (hqa w), fun h => absurd h hp, fun h => absurd h hq,
    fun h => absurd (by rw [h]; trivial) hq⟩

theorem taken_none (h : ∀ c, e ≠ .push c) : taken s e = none := by
  cases e with
  | push c => exact absurd rfl (h c)
  | _ => rfl

/-- **An orderly step keeps the invariant.** -/
theorem serves_step (hs : Serves acc s) (hord : Orderly s e) (h : step s e = some t) :
    Serves (acc ++ (taken s e).toList) t := by
  have hplain : ∀ {p q : Pc}, p = .idle ∨ p = .stopping ∨ p = .joining ∨ p = .flushing → ¬q.Tested →
      (∀ w, q ≠ .assigning w) → Quiet p q := by
    rintro p q (rfl | rfl | rfl | rfl) hq hqa <;> exact quiet_plain (fun h => h) hq (by simp) hqa
  -- only a push makes the buffer take something
  by_cases hpush : ∃ c, e = .push c
  · obtain ⟨c, rfl⟩ := hpush
    cases step_moves h with
    | push hpc hb => exact serves_push hs hpc hb hord
  rw [taken_none fun c hc => hpush ⟨c, hc⟩, Option.toList_none, List.append_nil]
  cases step_moves h with
  | push _ _ => exact absurd ⟨_, rfl⟩ hpush
  | again hpc _ => exact serves_at hs hpc (hplain (Or.inl rfl) id (by simp)) (by simp)
  | start hpc _ => exact serves_at (serves_running hs true) hpc (hplain (Or.inl rfl) id (by simp)) (by simp)
  | file hpc => exact serves_opens hs hpc
  | fallback hpc => exact serves_opens hs hpc
  | throws hpc => exact serves_throws hs hpc hord
  | create hpc habsent => exact serves_create hs hpc habsent hord
  | assign hpc _ => exact serves_assign hs hpc
  | terminate _ _ => exact hs.quiet rfl rfl rfl (fun _ h => h) (fun h => ⟨h, fun _ hc => hc⟩) fun _ => .refl _
  | log hpc _ => exact serves_at hs hpc (hplain (Or.inl rfl) id (by simp)) (by simp)
  | refuse hpc _ => exact serves_at hs hpc (hplain (Or.inl rfl) id (by simp)) (by simp)
  | shutdown hpc _ => exact serves_at (serves_running hs false) hpc (hplain (Or.inl rfl) id (by simp)) (by simp)
  | early hpc _ => exact serves_at hs hpc (hplain (Or.inl rfl) id (by simp)) (by simp)
  | requestStop hpc =>
    exact serves_at (serves_requestStop hs) hpc (hplain (Or.inr (Or.inl rfl)) id (by simp)) (by simp)
  | joinable hpc hworker => exact serves_joinable hs hpc hworker
  | notJoinable hpc hworker => exact serves_notJoinable hs hpc (hord.resolve_left (not_not.2 hworker))
  | join hpc hworker hexited => exact serves_join hs hpc hworker hexited
  | joinThrows hpc _ => exact serves_at hs hpc (hplain (Or.inr (Or.inr (Or.inl rfl))) id (by simp)) (by simp)
  | flush hpc => exact serves_at hs hpc (hplain (Or.inr (Or.inr (Or.inr rfl))) id (by simp)) (by simp)
  | pop hw hb => exact serves_pop hs hw hb
  | write hw hlogger => exact serves_write hs hw (hord _ _ _ hw hlogger)
  | lose hw hlogger => exact absurd (by rw [hw]; trivial) ((hs.logger hlogger).1 _)

theorem serves_init : Serves [] .init where
  held _ h := h.elim
  one _ _ h := by
    rcases h with h | ⟨_, h⟩
    · cases h
    · cases h
  logger _ := ⟨fun _ h => h, fun _ h => by cases h⟩
  written := ⟨[], RingBuffer.holds_new, fun _ _ => rfl⟩
  left h := absurd rfl h
  flushing _ h := by cases h

theorem serves_run (hord : Meets step Orderly .init es) (h : run step .init es = some s) : Serves (accepted es) s := by
  refine run_trace_of (C := Orderly) (I := fun es s => Serves (accepted es) s) serves_init ?_ hord h
  intro es s e t hrun hs hord hst
  have hnext := serves_step hs hord hst
  rwa [accepted, collect_snoc e hrun]

/-! ## What is not taken is counted -/

theorem push_dropped {ok : Bool} {b b' : RingBuffer LogMessage kCapacity} (h : b.push m = some (ok, b')) :
    b.count = kCapacity ∧ b'.dropped = b.dropped + 1 ∨ b.count ≠ kCapacity ∧ b'.dropped = b.dropped := by
  unfold RingBuffer.push at h
  split at h
  next hfull =>
    cases h
    exact Or.inl ⟨hfull, rfl⟩
  next hroom =>
    simp only at h
    split at h
    · cases h
      exact Or.inr ⟨hroom, rfl⟩
    · cases h

theorem pop_dropped {batch : List LogMessage} {b b' : RingBuffer LogMessage kCapacity}
    (h : b.waitAndPopBatch = some (batch, b')) : b'.dropped = b.dropped := by
  obtain ⟨p, -, hp⟩ := Option.map_eq_some_iff.1 h
  cases hp
  rfl

/-- Each push is of a message that is taken or dropped. -/
theorem dropped_step (h : step s e = some t) :
    (if isPush e then 1 else 0) + s.buf.dropped = (taken s e).toList.length + t.buf.dropped := by
  cases step_moves h with
  | push hpc hb =>
    rcases push_dropped hb with ⟨hfull, hdropped⟩ | ⟨hroom, hdropped⟩
    · change 1 + _ = _ + _
      simp only [taken, hpc, hfull, if_true, State.at, hdropped, Option.toList_none, List.length_nil]
      omega
    · change 1 + _ = _ + _
      simp only [taken, hpc, hroom, if_false, State.at, hdropped, Option.toList_some, List.length_singleton]
  | pop hw hb =>
    change 0 + _ = 0 + _
    simp only [State.run, pop_dropped hb]
  | _ => rfl

theorem dropped_run (h : run step .init es = some s) :
    tally step (fun _ e => isPush e) .init es = (accepted es).length + s.buf.dropped := by
  refine run_trace (I := fun es s => tally step (fun _ e => isPush e) .init es = (accepted es).length + s.buf.dropped)
    rfl ?_ h
  intro es s e t hrun hcount hst
  have hstep := dropped_step hst
  unfold accepted at hcount ⊢
  rw [tally_snoc e hrun, collect_snoc e hrun, List.length_append]
  omega

/-- A call of `log` that has seen `running_` waits for its push. -/
theorem pushing_step (hpc : s.call c = .pushing m) (h : step s e = some t) : t.call c = .pushing m ∨ e = .push c := by
  have hstays : ∀ {c' : ℕ} {p q : Pc}, s.call c' = p → (∀ m, p ≠ .pushing m) → (s.at c' q).call c = .pushing m := by
    intro c' p q hp hne
    rw [at_call, if_neg]
    · exact hpc
    · rintro rfl
      exact hne m (hp.symm.trans hpc)
  cases step_moves h with
  | @push c' _ _ _ hpc' _ =>
    by_cases hc : c = c'
    · exact Or.inr (congrArg Ev.push hc.symm)
    · left
      change (s.at c' .returned).call c = _
      rw [at_call, if_neg hc]
      exact hpc
  | terminate _ _ => exact Or.inl hpc
  | pop _ _ => exact Or.inl hpc
  | write _ _ => exact Or.inl hpc
  | lose _ _ => exact Or.inl hpc
  | again hp _ | start hp _ | create hp _ | assign hp _ | log hp _ | refuse hp _ | shutdown hp _ | early hp _
  | joinable hp _ | notJoinable hp _ | join hp _ _ | joinThrows hp _ => exact Or.inl (hstays hp (by simp))
  | file hp | fallback hp | throws hp | requestStop hp | flush hp => exact Or.inl (hstays hp (by simp))

/-- The messages that were handed to a running logger: each waits for its push, or was
taken or counted by it. -/
theorem logged_run (h : run step .init es = some s) (hlog : Takes step .init es u (.log c m))
    (hrun : u.running = true) :
    s.call c = .pushing m ∨ ∃ v, Takes step .init es v (.push c) ∧ v.call c = .pushing m ∧
      (taken v (.push c) = some m ∨ ∀ t, step v (.push c) = some t → t.buf.dropped = v.buf.dropped + 1) := by
  refine run_trace (I := fun es s => Takes step .init es u (.log c m) → s.call c = .pushing m ∨
    ∃ v, Takes step .init es v (.push c) ∧ v.call c = .pushing m ∧
      (taken v (.push c) = some m ∨ ∀ t, step v (.push c) = some t → t.buf.dropped = v.buf.dropped + 1)) ?_ ?_ h hlog
  · intro htakes
    exact absurd htakes.mem List.not_mem_nil
  · intro es s e t hes ih hst htakes
    rcases takes_snoc.1 htakes with hbefore | ⟨rfl, hu⟩
    · rcases ih hbefore with hpc | ⟨v, hv, hpush⟩
      · rcases pushing_step hpc hst with hpc' | rfl
        · exact Or.inl hpc'
        · refine Or.inr ⟨s, takes_last _ hes, hpc, ?_⟩
          by_cases hfull : s.buf.count = kCapacity
          · right
            intro t ht
            have hdropped := dropped_step ht
            simp only [isPush, taken, hpc, hfull, if_true, Option.toList_none, List.length_nil] at hdropped
            omega
          · left
            simp [taken, hpc, hfull]
      · exact Or.inr ⟨v, hv.snoc e, hpush⟩
    · rw [hes] at hu
      obtain rfl := Option.some.inj hu
      left
      cases step_moves hst with
      | log hpc _ => rw [at_call, if_pos rfl]
      | refuse _ hstopped =>
        rw [hrun] at hstopped
        cases hstopped

/-- **What a `shutdown` leaves written.** In every run of orderly steps: when a `shutdown`
returns, the sink has every message the buffer took, once and in the order of the
pushes; and every message handed to a running logger was taken or counted as dropped
(or is still to be pushed). -/
theorem shutdown_writes (es : List Ev) (s : State) (hord : Meets step Orderly .init es)
    (h : run step .init es = some s) :
    (∀ pre e post u, es = pre ++ e :: post → run step .init pre = some u → Returns u e → u.sink = accepted pre) ∧
      (∀ u c m, Takes step .init es u (.log c m) → u.running = true → s.call c = .pushing m ∨
        ∃ v, Takes step .init es v (.push c) ∧ v.call c = .pushing m ∧
          (taken v (.push c) = some m ∨ ∀ t, step v (.push c) = some t → t.buf.dropped = v.buf.dropped + 1)) ∧
      tally step (fun _ e => isPush e) .init es = (accepted es).length + s.buf.dropped := by
  refine ⟨?_, fun u c m hlog hrun => logged_run h hlog hrun, dropped_run h⟩
  rintro pre e post u rfl hu hreturns
  obtain ⟨hpre, hrest⟩ := meets_append hord
  have hs : Serves (accepted pre) u := serves_run hpre hu
  have hnext := run_rest h hu
  obtain ⟨t, ht, -⟩ := run_cons.1 hnext
  refine hs.sink_eq ?_
  rcases hreturns with ⟨c, rfl⟩ | ⟨c, rfl, hstopped⟩
  · cases step_moves ht with
    | flush hpc => exact hs.flushing c hpc
  · have hcond : u.running = true ∨ ¬u.Unwritten := (hrest u hu).1
    rw [hstopped] at hcond
    exact hcond.resolve_left Bool.false_ne_true

/-! ## A second start, and a late push -/

def warning : LogMessage := ⟨3, "SOLD_OUT skuId=7"⟩

/-- A start with its worker. -/
def started (c w : ℕ) : List Ev := [.start c 3, .opens c .file, .create c w, .assign c]

/-- Start and shutdown, and again, with one message in the second round. -/
def restarted : List Ev :=
  started 0 0 ++ [.shutdown 1, .requestStop 1, .joinable 1, .pop 0, .join 1, .flush 1] ++ started 2 1 ++
    [.pop 1, .log 3 warning, .push 3, .shutdown 4, .requestStop 4, .joinable 4, .join 4, .flush 4]

/-- A message that is pushed after the last batch of the worker. -/
def late : List Ev :=
  started 0 0 ++ [.log 1 warning, .shutdown 2, .requestStop 2, .joinable 2, .pop 0, .push 1, .join 2, .flush 2]

/-- In both the buffer takes the message, none is dropped, and `shutdown` has returned with
nothing written. -/
theorem shutdown_writes_fails :
    (∃ u, run step .init restarted = some u ∧ u.call 4 = .returned ∧ accepted restarted = [warning] ∧ u.sink = [] ∧
        u.buf.dropped = 0) ∧
      ∃ u, run step .init late = some u ∧ u.call 2 = .returned ∧ accepted late = [warning] ∧ u.sink = [] ∧
        u.buf.dropped = 0 := by
  have hrun : ((run step .init restarted).map fun u => (u.call 4, u.sink, u.buf.dropped)) =
      some (.returned, [], 0) := by decide +kernel
  have hrun' : ((run step .init late).map fun u => (u.call 2, u.sink, u.buf.dropped)) =
      some (.returned, [], 0) := by decide +kernel
  obtain ⟨u, hu, hall⟩ := Option.map_eq_some_iff.1 hrun
  obtain ⟨u', hu', hall'⟩ := Option.map_eq_some_iff.1 hrun'
  simp only [Prod.mk.injEq] at hall hall'
  exact ⟨⟨u, hu, hall.1, by decide +kernel, hall.2.1, hall.2.2⟩,
    u', hu', hall'.1, by decide +kernel, hall'.2.1, hall'.2.2⟩

/-! ## An orderly run -/

/-- The call that begins with the event. -/
def Ev.begins : Ev → Option ℕ
  | .start c _ | .log c _ | .shutdown c => some c
  | _ => none

theorem begun_step (h : step s e = some t) (hc : t.call c ≠ .idle) : s.call c ≠ .idle ∨ e.begins = some c := by
  have hbegins : ∀ {c' : ℕ} {q : Pc}, e.begins = some c' → (s.at c' q).call c ≠ .idle →
      s.call c ≠ .idle ∨ e.begins = some c := by
    intro c' q he hcall
    by_cases heq : c = c'
    · rw [heq]
      exact Or.inr he
    · rw [at_call, if_neg heq] at hcall
      exact Or.inl hcall
  have hgoes : ∀ {c' : ℕ} {p q : Pc}, s.call c' = p → p ≠ .idle → (s.at c' q).call c ≠ .idle → s.call c ≠ .idle := by
    intro c' p q hp hne hcall
    by_cases heq : c = c'
    · rw [heq, hp]
      exact hne
    · rwa [at_call, if_neg heq] at hcall
  cases step_moves h with
  | again _ _ | start _ _ | log _ _ | refuse _ _ | shutdown _ _ | early _ _ => exact hbegins rfl hc
  | file hp | fallback hp | throws hp | requestStop hp | flush hp => exact Or.inl (hgoes hp (by simp) hc)
  | create hp _ | assign hp _ | joinable hp _ | notJoinable hp _ | joinThrows hp _ | push hp _ | join hp _ _ =>
    exact Or.inl (hgoes hp (by simp) hc)
  | terminate _ _ | pop _ _ | write _ _ | lose _ _ => exact Or.inl hc

/-- A call that is under way, or over, was begun. -/
theorem begun_run (h : run step .init es = some s) (hc : s.call c ≠ .idle) : c ∈ es.filterMap Ev.begins := by
  refine run_trace (I := fun es s => s.call c ≠ .idle → c ∈ es.filterMap Ev.begins) (fun h => absurd rfl h) ?_ h hc
  intro es s e t _ ih hst hc
  rw [List.filterMap_append, List.mem_append]
  rcases begun_step hst hc with hbefore | hbegins
  · exact Or.inl (ih hbefore)
  · right
    simp [hbegins]

/-- A message that is logged before a shutdown, which waits for it. -/
def drained : List Ev :=
  started 0 0 ++ [.log 1 warning, .push 1, .shutdown 2, .requestStop 2, .joinable 2, .pop 0, .write 0, .pop 0, .join 2,
    .flush 2]

/-- The run up to an event that it has once. -/
theorem drained_pre {pre post : List Ev} (k : ℕ) (h : drained = pre ++ e :: post)
    (hk : drained = drained.take k ++ e :: drained.drop (k + 1)) (he : e ≠ .pop 0) : pre = drained.take k := by
  have honce : drained.Pairwise fun a b => a = b → a = .pop 0 := by decide
  exact (split_unique honce h hk (fun hall => he (hall rfl)) fun hall => he (hall rfl)).1

theorem drained_orderly : Meets step Orderly .init drained := by
  refine meets_of_takes ?_
  intro u e htakes
  have hmem := htakes.mem
  obtain ⟨pre, post, hes, hu⟩ := htakes
  cases e with
  | create c w =>
    obtain ⟨rfl, rfl⟩ : c = 0 ∧ w = 0 := by simpa [drained, started] using hmem
    obtain rfl := drained_pre 2 hes rfl (by simp)
    have hat : ((run step .init (drained.take 2)).map fun u => (u.worker, u.call 0)) = some (none, .creating) := by rfl
    rw [hu, Option.map_some, Option.some.injEq, Prod.mk.injEq] at hat
    rintro w (hw | ⟨c, hc⟩)
    · rw [hat.1] at hw
      cases hw
    · have hbegun := begun_run hu (by rw [hc]; simp)
      obtain rfl : c = 0 := by simpa [drained, started, Ev.begins] using hbegun
      rw [hat.2] at hc
      cases hc
  | push c =>
    obtain rfl : c = 1 := by simpa [drained, started] using hmem
    obtain rfl := drained_pre 5 hes rfl (by simp)
    have hat : ((run step .init (drained.take 5)).map fun u => (u.workers 0, u.call 0, u.call 1)) =
        some (.waiting, .returned, .pushing warning) := by rfl
    rw [hu, Option.map_some, Option.some.injEq, Prod.mk.injEq, Prod.mk.injEq] at hat
    refine Or.inr (Or.inl ⟨⟨0, by rw [hat.1]; trivial⟩, fun c hc => ?_⟩)
    have hbegun := begun_run hu (by rw [hc]; simp)
    have hcases : c = 0 ∨ 1 = c := by simpa [drained, started, Ev.begins] using hbegun
    rcases hcases with rfl | rfl
    · rw [hat.2.1] at hc
      cases hc
    · rw [hat.2.2] at hc
      cases hc
  | opens c how =>
    obtain ⟨rfl, rfl⟩ : c = 0 ∧ how = .file := by simpa [drained, started] using hmem
    trivial
  | shutdown c =>
    obtain rfl : c = 2 := by simpa [drained, started] using hmem
    obtain rfl := drained_pre 6 hes rfl (by simp)
    have hat : ((run step .init (drained.take 6)).map fun u => u.running) = some true := by decide +kernel
    rw [hu, Option.map_some, Option.some.injEq] at hat
    exact Or.inl hat
  | joinable c =>
    obtain rfl : c = 2 := by simpa [drained, started] using hmem
    obtain rfl := drained_pre 8 hes rfl (by simp)
    have hat : ((run step .init (drained.take 8)).map fun u => u.worker) = some (some 0) := by decide +kernel
    rw [hu, Option.map_some, Option.some.injEq] at hat
    exact Or.inl (by rw [hat]; simp)
  | write w =>
    obtain rfl : w = 0 := by simpa [drained, started] using hmem
    obtain rfl := drained_pre 10 hes rfl (by simp)
    have hat : ((run step .init (drained.take 10)).map fun u => (u.workers 0, u.fileLogger)) =
        some (.writing warning [], some 3) := by decide +kernel
    rw [hu, Option.map_some, Option.some.injEq, Prod.mk.injEq] at hat
    intro m rest level hw hlevel
    rw [hat.1] at hw
    rw [hat.2] at hlevel
    cases hw
    cases hlevel
    decide
  | _ => trivial

/-- The shutdown returns with the message written. -/
theorem shutdown_writes_drained : ∃ pre u, drained = pre ++ [.flush 2] ∧ run step .init pre = some u ∧
    u.sink = accepted pre ∧ accepted pre = [warning] := by
  obtain ⟨s, hs⟩ : ∃ s, run step .init drained = some s := Option.isSome_iff_exists.1 (by decide +kernel)
  obtain ⟨u, hu⟩ : ∃ u, run step .init (drained.take 13) = some u := Option.isSome_iff_exists.1 (by decide +kernel)
  have hwrites := (shutdown_writes drained s drained_orderly hs).1 (drained.take 13) (.flush 2) [] u rfl hu
    (Or.inl ⟨2, rfl⟩)
  exact ⟨drained.take 13, u, rfl, hu, hwrites, by decide +kernel⟩

end Seckill.AsyncLogger
