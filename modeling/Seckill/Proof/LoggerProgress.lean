import Seckill.Proof.AsyncLogger

/-!
# Every call of the logger returns

`log` waits for nobody, nor does `start`; a `shutdown` waits at its join only, and for the
worker it joins only, which has been told to stop and has a bounded number of messages
left. `calls_return`: a call takes at most five steps, and from any reachable state it
comes to its end by these and, at the join, the steps of that worker, though all other
threads stand still.
-/

namespace Seckill.AsyncLogger

open Machine

variable {s t u : State} {es : List Ev} {e : Ev} {c w : ℕ} {p q : Pc}

/-- The call a step belongs to. -/
def Ev.caller : Ev → Option ℕ
  | .start c _ | .opens c _ | .create c _ | .assign c | .log c _ | .push c | .shutdown c | .requestStop c | .joinable c
  | .join c | .flush c => some c
  | .pop _ | .write _ => none

/-- The most steps a call can still take. -/
def Pc.ahead : Pc → ℕ
  | .idle => 5
  | .stopping => 4
  | .opening _ | .testing => 3
  | .creating | .joining => 2
  | .assigning _ | .pushing _ | .flushing => 1
  | .returned | .threw => 0

/-- The same, in a process that may have been terminated. -/
def State.ahead (s : State) (c : ℕ) : ℕ := if s.terminated then 0 else (s.call c).ahead

/-- What the worker has yet to write. -/
def State.toWrite (s : State) : ℕ := s.buf.count + s.worker.elim 0 fun w => (s.workers w).batch.length

/-! ## A call takes five steps -/

theorem ahead_at (hcall : u.call = s.call) (hs : s.terminated = false) (hu : u.terminated = false)
    (hpc : s.call c = p) (hlt : q.ahead < p.ahead) (c' : ℕ) :
    (u.at c q).ahead c' + (if decide (some c = some c') then 1 else 0) ≤ s.ahead c' := by
  unfold State.ahead
  rw [hs, show (u.at c q).terminated = false from hu, at_call, hcall]
  simp only [Bool.false_eq_true, if_false]
  by_cases hc : c' = c
  · subst hc
    rw [if_pos rfl, hpc, decide_eq_true rfl, if_pos rfl]
    exact hlt
  · rw [if_neg hc]
    simp [Ne.symm hc]

theorem moves_ahead (h : Moves s e t) (hs : s.terminated = false) (c' : ℕ) :
    t.ahead c' + (if decide (e.caller = some c') then 1 else 0) ≤ s.ahead c' := by
  cases h with
  | again hpc | start hpc | file hpc | fallback hpc | throws hpc | create hpc | assign hpc | log hpc | refuse hpc
  | push hpc | shutdown hpc | early hpc | requestStop hpc | joinable hpc | notJoinable hpc | join hpc | joinThrows hpc
  | flush hpc => exact ahead_at rfl hs hs hpc (by simp [Pc.ahead]) c'
  | @terminate c w w' hpc =>
    unfold State.ahead
    rw [hs]
    simp only [if_true, Bool.false_eq_true, if_false, Nat.zero_add]
    split
    next hc =>
      obtain rfl := Option.some.inj (of_decide_eq_true hc)
      rw [hpc]
      exact Nat.le_refl _
    next => exact Nat.zero_le _
  | pop | write | lose => exact Nat.le_refl _

/-- A process that was terminated takes no step. -/
theorem not_terminated (h : step s e = some t) : s.terminated = false := by
  unfold step at h
  split at h
  · cases h
  next hrunning => exact eq_false_of_ne_true hrunning

theorem step_ahead (h : step s e = some t) (c : ℕ) :
    t.ahead c + (if decide (e.caller = some c) then 1 else 0) ≤ s.ahead c :=
  moves_ahead (step_moves h) (not_terminated h) c

theorem run_ahead (h : run step .init es = some s) (c : ℕ) :
    tally step (fun _ e => decide (e.caller = some c)) .init es + s.ahead c ≤ 5 := by
  have hone : ∀ u e v, True → True → step u e = some v →
      v.ahead c + (if decide (e.caller = some c) then 1 else 0) ≤ u.ahead c := fun u e v _ _ hs => step_ahead hs c
  exact run_potential (C := fun _ _ => True) (fun _ _ _ _ _ _ => trivial) hone trivial
    (meets_of_takes fun _ _ _ => trivial) h

/-! ## What a `shutdown` finds -/

/-- The thread of a `worker_` or of a `start` was created, some number was not, the buffer
is a queue, and who is about to join has set `stop_`. -/
structure Staffed (s : State) : Prop where
  buf : ∃ l, s.buf.Holds l
  worker : ∀ w, s.worker = some w → s.workers w ≠ .absent
  assigning : ∀ c w, s.call c = .assigning w → s.workers w ≠ .absent
  free : ∃ n, ∀ w, n ≤ w → s.workers w = .absent
  stop : ∀ c, s.call c = .testing ∨ s.call c = .joining → s.buf.stop = true

theorem staffed_init : Staffed .init where
  buf := ⟨[], RingBuffer.holds_new⟩
  worker w h := by cases h
  assigning c w h := by cases h
  free := ⟨0, fun w _ => rfl⟩
  stop c h := by rcases h with h | h <;> cases h

/-- A call that moves, and leaves the threads as they are. -/
theorem Staffed.at (h : Staffed s) (hworkers : u.workers = s.workers) (hcall : u.call = s.call)
    (hbuf : ∃ l, u.buf.Holds l) (hkeeps : s.buf.stop = true → u.buf.stop = true)
    (hworker : ∀ w, u.worker = some w → s.workers w ≠ .absent) (hassigning : ∀ w, q ≠ .assigning w)
    (hstop : q = .testing ∨ q = .joining → u.buf.stop = true) : Staffed (u.at c q) := by
  refine ⟨hbuf, fun w hw => ?_, fun c' w hc => ?_, ?_, fun c' hc => ?_⟩
  · rw [show (u.at c q).workers = s.workers from hworkers]
    exact hworker w hw
  · rw [show (u.at c q).workers = s.workers from hworkers]
    have hbefore := call_of_at hc (hassigning w)
    rw [hcall] at hbefore
    exact h.assigning c' w hbefore
  · rw [show (u.at c q).workers = s.workers from hworkers]
    exact h.free
  · rw [at_call, hcall] at hc
    split at hc
    · exact hstop hc
    · exact hkeeps (h.stop c' hc)

/-- A worker that moves, and has taken from the buffer perhaps. -/
theorem Staffed.run {x : Worker} {b : RingBuffer LogMessage kCapacity} {sink : List LogMessage} (h : Staffed s)
    (hbuf : ∃ l, b.Holds l) (hkeeps : s.buf.stop = true → b.stop = true) (hw : s.workers w ≠ .absent)
    (hx : x ≠ .absent) : Staffed ({ s with buf := b, sink := sink }.run w x) := by
  have hpresent : ∀ w', s.workers w' ≠ .absent →
      (State.run { s with buf := b, sink := sink } w x).workers w' ≠ .absent := by
    intro w' hw'
    rw [run_workers]
    split
    · exact hx
    · exact hw'
  refine ⟨hbuf, fun w' hw' => hpresent w' (h.worker w' hw'), fun c w' hc => hpresent w' (h.assigning c w' hc), ?_,
    fun c hc => hkeeps (h.stop c hc)⟩
  obtain ⟨n, hn⟩ := h.free
  refine ⟨n, fun w' hw' => ?_⟩
  rw [run_workers, if_neg]
  · exact hn w' hw'
  · rintro rfl
    exact hw (hn _ hw')

/-- A `start` creates its worker. -/
theorem Staffed.create (h : Staffed s) (c w : ℕ) :
    Staffed ((s.run w .waiting).at c (.assigning w)) := by
  have hpresent : ∀ w', s.workers w' ≠ .absent ∨ w' = w → (s.run w .waiting).workers w' ≠ .absent := by
    intro w' hw'
    rw [run_workers]
    split
    · exact Worker.noConfusion
    next hne => exact hw'.resolve_right hne
  refine ⟨h.buf, fun w' hw' => hpresent w' (Or.inl (h.worker w' hw')), fun c' w' hc => hpresent w' ?_, ?_,
    fun c' hc => ?_⟩
  · rw [at_call] at hc
    split at hc
    · exact Or.inr (Pc.assigning.inj hc).symm
    · exact Or.inl (h.assigning c' w' hc)
  · obtain ⟨n, hn⟩ := h.free
    refine ⟨max n (w + 1), fun w' hw' => ?_⟩
    change (s.run w .waiting).workers w' = .absent
    rw [run_workers, if_neg (by omega)]
    exact hn w' (by omega)
  · rw [at_call] at hc
    split at hc
    · rcases hc with hc | hc <;> cases hc
    · exact h.stop c' hc

theorem ofBatch_ne_absent (l : List LogMessage) : Worker.ofBatch l ≠ .absent := by
  cases l <;> exact Worker.noConfusion

theorem ofBatch_ne_exited (l : List LogMessage) : Worker.ofBatch l ≠ .exited := by
  cases l <;> exact Worker.noConfusion

theorem moves_staffed (h : Staffed s) (hmoves : Moves s e t) : Staffed t := by
  cases hmoves with
  | again | start | file | fallback | throws | log | refuse | shutdown | early | notJoinable | joinThrows | flush =>
    exact h.at rfl rfl h.buf id h.worker (fun _ => Pc.noConfusion) (by rintro (hq | hq) <;> cases hq)
  | create => exact h.create _ _
  | assign hpc _ =>
    refine h.at rfl rfl h.buf id (fun w hw => ?_) (fun _ => Pc.noConfusion) (by rintro (hq | hq) <;> cases hq)
    rw [← Option.some.inj hw]
    exact h.assigning _ _ hpc
  | terminate => exact ⟨h.buf, h.worker, h.assigning, h.free, h.stop⟩
  | push hpc hb =>
    obtain ⟨l, hl⟩ := h.buf
    rcases RingBuffer.push_cases hl _ with ⟨-, heq, hholds⟩ | ⟨-, b', heq, hholds, -, hstop⟩
    · rw [heq] at hb
      obtain ⟨-, rfl⟩ := Prod.mk.inj (Option.some.inj hb)
      exact h.at rfl rfl ⟨_, hholds⟩ id h.worker (fun _ => Pc.noConfusion) (by rintro (hq | hq) <;> cases hq)
    · rw [heq] at hb
      obtain ⟨-, rfl⟩ := Prod.mk.inj (Option.some.inj hb)
      exact h.at rfl rfl ⟨_, hholds⟩ hstop.trans h.worker (fun _ => Pc.noConfusion) (by rintro (hq | hq) <;> cases hq)
  | requestStop =>
    obtain ⟨l, hl⟩ := h.buf
    exact h.at rfl rfl ⟨l, hl.requestStop⟩ (fun _ => rfl) h.worker (fun _ => Pc.noConfusion) fun _ => rfl
  | joinable hpc _ =>
    exact h.at rfl rfl h.buf id h.worker (fun _ => Pc.noConfusion) fun _ => h.stop _ (Or.inl hpc)
  | join =>
    exact h.at rfl rfl h.buf id (fun w hw => by cases hw) (fun _ => Pc.noConfusion) (by rintro (hq | hq) <;> cases hq)
  | pop hworker hb =>
    obtain ⟨l, hl⟩ := h.buf
    obtain ⟨b', heq, hholds, -, hstop⟩ := RingBuffer.waitAndPopBatch_eq hl
    rw [heq] at hb
    obtain ⟨-, rfl⟩ := Prod.mk.inj (Option.some.inj hb)
    refine h.run ⟨_, hholds⟩ hstop.trans (by rw [hworker]; exact Worker.noConfusion) ?_
    split
    · exact Worker.noConfusion
    · exact ofBatch_ne_absent _
  | write hworker | lose hworker =>
    exact h.run h.buf id (by rw [hworker]; exact Worker.noConfusion) (ofBatch_ne_absent _)

theorem run_staffed (h : run step .init es = some s) : Staffed s :=
  run_inv (fun _ _ _ hs hstep => moves_staffed hs (step_moves hstep)) staffed_init h

/-! ## A call comes to its end -/

/-- What a call may have to wait for: its own steps and, at its join, those of the worker. -/
def Awaits (c : ℕ) (s : State) (e : Ev) : Prop :=
  e.caller = some c ∨ s.call c = .joining ∧ ∃ w, s.worker = some w ∧ (e = .pop w ∨ e = .write w)

/-- The most steps a worker that was told to stop takes by itself. -/
def State.left (s : State) (w : ℕ) : ℕ :=
  (s.workers w).batch.length + if s.workers w = .exited then 0 else if s.buf.count = 0 then 1 else s.buf.count + 2

/-- The worker a `shutdown` may join. -/
def State.joins (s : State) (c : ℕ) : ℕ :=
  match s.call c with
  | .stopping | .testing | .joining => s.worker.elim 0 s.left
  | _ => 0

/-- An own step of a call leaves the worker as it was. -/
theorem joins_own (h : Moves s e t) (hcalled : s.call c ≠ .idle) (he : e.caller = some c) : t.joins c ≤ s.joins c := by
  have hat : ∀ {u : State} {q : Pc}, (u.at c q).call c = q := Function.update_self ..
  cases h with
  | again hpc | start hpc | log hpc | refuse hpc | shutdown hpc | early hpc =>
    obtain rfl := Option.some.inj he
    exact absurd hpc hcalled
  | file | fallback | throws | create | assign | push | notJoinable | join | joinThrows | flush =>
    obtain rfl := Option.some.inj he
    unfold State.joins
    rw [hat]
    exact Nat.zero_le _
  | terminate => exact Nat.le_refl _
  | requestStop hpc | joinable hpc =>
    obtain rfl := Option.some.inj he
    unfold State.joins
    rw [hat, hpc]
    exact Nat.le_refl _
  | pop | write | lose => cases he

theorem left_run (s : State) (w : ℕ) (x : Worker) : (s.run w x).left w =
    x.batch.length + if x = .exited then 0 else if s.buf.count = 0 then 1 else s.buf.count + 2 := by
  unfold State.left
  rw [run_workers, if_pos rfl]
  rfl

/-- A step of the worker brings it nearer to its exit. -/
theorem left_lt (h : Staffed s) (hmoves : Moves s e t) (he : e = .pop w ∨ e = .write w) : t.left w < s.left w := by
  rcases he with rfl | rfl
  · cases hmoves with
    | @pop _ batch b hworker hb =>
      obtain ⟨l, hl⟩ := h.buf
      obtain ⟨b', heq, hholds, -⟩ := RingBuffer.waitAndPopBatch_eq hl
      rw [heq] at hb
      obtain ⟨rfl, rfl⟩ := Prod.mk.inj (Option.some.inj hb)
      have hempty : b'.count = 0 := hholds.count
      have hcount := hl.count
      have hbefore : s.left w = if s.buf.count = 0 then 1 else s.buf.count + 2 := by
        unfold State.left
        rw [hworker, if_neg Worker.noConfusion]
        exact Nat.zero_add _
      rw [hbefore, left_run]
      dsimp only
      rw [hempty, if_pos rfl]
      by_cases hnone : l.length = 0
      · -- it exits
        rw [if_pos hnone, if_pos rfl, if_pos (by omega)]
        exact Nat.zero_lt_one
      · rw [if_neg hnone, batch_ofBatch, if_neg (ofBatch_ne_exited l), if_neg (by omega)]
        omega
  · cases hmoves with
    | @write _ level m rest hworker | @lose _ m rest hworker =>
      have hbefore : s.left w = rest.length + 1 + if s.buf.count = 0 then 1 else s.buf.count + 2 := by
        unfold State.left
        rw [hworker, if_neg Worker.noConfusion]
        rfl
      rw [hbefore, left_run, batch_ofBatch, if_neg (ofBatch_ne_exited rest)]
      exact Nat.add_lt_add_right (Nat.lt_succ_self _) _

theorem left_le (s : State) (w : ℕ) : s.left w ≤ (s.workers w).batch.length + s.buf.count + 2 := by
  unfold State.left
  split
  · omega
  · split <;> omega

theorem joins_le (s : State) (c : ℕ) : s.joins c ≤ s.toWrite + 2 := by
  have hworker : s.worker.elim 0 s.left ≤ s.toWrite + 2 := by
    unfold State.toWrite
    cases s.worker with
    | none => exact Nat.zero_le _
    | some w =>
      have hle := left_le s w
      change s.left w ≤ s.buf.count + (s.workers w).batch.length + 2
      omega
  unfold State.joins
  split
  · exact hworker
  · exact hworker
  · exact hworker
  · exact Nat.zero_le _

theorem step_called (h : Moves s e t) (hcalled : s.call c ≠ .idle) : t.call c ≠ .idle := by
  have hat : ∀ {u : State} {c' : ℕ} {q : Pc}, u.call = s.call → q ≠ .idle → (u.at c' q).call c ≠ .idle := by
    intro u c' q hcall hq hidle
    rw [at_call, hcall] at hidle
    split at hidle
    · exact hq hidle
    · exact hcalled hidle
  cases h with
  | again | start | file | fallback | throws | create | assign | log | refuse | push | shutdown | early | requestStop
  | joinable | notJoinable | join | joinThrows | flush => exact hat rfl Pc.noConfusion
  | terminate | pop | write | lose => exact hcalled

/-- **What a call waits for leads to its end.** -/
theorem awaits_lt (h : Staffed s) (hcalled : s.call c ≠ .idle) (he : Awaits c s e) (hstep : step s e = some t) :
    t.ahead c + t.joins c < s.ahead c + s.joins c := by
  have hmoves := step_moves hstep
  have hahead := step_ahead hstep c
  rcases he with he | ⟨hpc, w, hworker, he⟩
  · have hjoins := joins_own hmoves hcalled he
    rw [decide_eq_true he, if_pos rfl] at hahead
    omega
  · -- the worker's: nobody else moves
    have hlt := left_lt h hmoves he
    have hsame : t.call = s.call ∧ t.worker = s.worker := by
      rcases he with rfl | rfl <;> cases hmoves <;> exact ⟨rfl, rfl⟩
    have hbefore : s.joins c = s.left w := by
      unfold State.joins
      rw [hpc, hworker]
      rfl
    have hafter : t.joins c = t.left w := by
      unfold State.joins
      rw [hsame.1, hsame.2, hpc, hworker]
      rfl
    omega

/-- The worker that is joined can go on until it has exited. -/
theorem worker_step (h : Staffed s) (hrunning : s.terminated = false) (hstop : s.buf.stop = true)
    (hw : s.workers w ≠ .absent) (hexited : s.workers w ≠ .exited) :
    ∃ e, (e = .pop w ∨ e = .write w) ∧ (step s e).isSome = true := by
  cases hworker : s.workers w with
  | absent => exact absurd hworker hw
  | exited => exact absurd hworker hexited
  | waiting =>
    obtain ⟨l, hl⟩ := h.buf
    obtain ⟨b, heq, -⟩ := RingBuffer.waitAndPopBatch_eq hl
    have hready : s.buf.ready = true := by simp [RingBuffer.ready, hstop]
    exact ⟨.pop w, Or.inl rfl, by simp [step, hrunning, pop, hworker, hready, heq]⟩
  | writing m rest =>
    refine ⟨.write w, Or.inr rfl, ?_⟩
    cases hlogger : s.fileLogger <;> simp [step, hrunning, write, hworker, hlogger]

/-- **A call that is not over can go on**, or the worker it joins can. -/
theorem awaits_step (h : Staffed s) (hcalled : s.call c ≠ .idle) (hahead : s.ahead c ≠ 0) :
    ∃ e t, Awaits c s e ∧ step s e = some t := by
  have hsome : ∀ e, Awaits c s e → (step s e).isSome = true → ∃ e t, Awaits c s e ∧ step s e = some t := by
    intro e he hs
    obtain ⟨t, ht⟩ := Option.isSome_iff_exists.1 hs
    exact ⟨e, t, he, ht⟩
  have hrunning : s.terminated = false := by
    cases hterm : s.terminated with
    | false => rfl
    | true => exact absurd (if_pos hterm) hahead
  have hover : (s.call c).ahead ≠ 0 := by
    unfold State.ahead at hahead
    rwa [hrunning] at hahead
  cases hpc : s.call c with
  | idle => exact absurd hpc hcalled
  | returned | threw =>
    rw [hpc] at hover
    exact absurd rfl hover
  | opening level => exact hsome (.opens c .file) (Or.inl rfl) (by simp [step, hrunning, opens, hpc])
  | creating =>
    obtain ⟨n, hn⟩ := h.free
    exact hsome (.create c n) (Or.inl rfl) (by simp [step, hrunning, create, hpc, hn n (Nat.le_refl n)])
  | assigning w => exact hsome (.assign c) (Or.inl rfl) (by simp [step, hrunning, assign, hpc])
  | pushing m =>
    obtain ⟨l, hl⟩ := h.buf
    rcases RingBuffer.push_cases hl m with ⟨-, heq, -⟩ | ⟨-, b, heq, -⟩
    · exact hsome (.push c) (Or.inl rfl) (by simp [step, hrunning, push, hpc, heq])
    · exact hsome (.push c) (Or.inl rfl) (by simp [step, hrunning, push, hpc, heq])
  | stopping => exact hsome (.requestStop c) (Or.inl rfl) (by simp [step, hrunning, requestStop, hpc])
  | testing => exact hsome (.joinable c) (Or.inl rfl) (by simp [step, hrunning, joinable, hpc])
  | flushing => exact hsome (.flush c) (Or.inl rfl) (by simp [step, hrunning, flush, hpc])
  | joining =>
    cases hworker : s.worker with
    | none => exact hsome (.join c) (Or.inl rfl) (by simp [step, hrunning, join, hpc, hworker])
    | some w =>
      by_cases hexited : s.workers w = .exited
      · exact hsome (.join c) (Or.inl rfl) (by simp [step, hrunning, join, hpc, hworker, hexited])
      · obtain ⟨e, he, hs⟩ := worker_step h hrunning (h.stop c (Or.inr hpc)) (h.worker w hworker) hexited
        exact hsome e (Or.inr ⟨hpc, w, hworker, he⟩) hs

/-- **Every call of the logger returns.** In every run of `start`, `log`, `shutdown` and
`start` again, from any threads: a call takes at most five steps; and from any reachable
state, a call that began comes to its end, or to `std::terminate`, by its own steps and,
while it is at its join, steps of the worker it joins, at most six in all besides the
messages that the buffer and this worker have. So `log` waits for nobody, and nobody but
a `shutdown` at its join waits for a thread. -/
theorem calls_return (es : List Ev) (s : State) (h : run step .init es = some s) (c : ℕ) :
    tally step (fun _ e => decide (e.caller = some c)) .init es ≤ 5 ∧
      (s.call c ≠ .idle → ∃ es' t, run step s es' = some t ∧ Meets step (Awaits c) s es' ∧
        es'.length ≤ s.toWrite + 6 ∧ (t.call c = .returned ∨ t.call c = .threw ∨ t.terminated = true)) := by
  have hlen := run_ahead h c
  refine ⟨by omega, fun hcalled => ?_⟩
  have hkeep : ∀ u e v, (Staffed u ∧ u.call c ≠ .idle) → Awaits c u e → step u e = some v →
      Staffed v ∧ v.call c ≠ .idle := fun u e v hI _ hs =>
    ⟨moves_staffed hI.1 (step_moves hs), step_called (step_moves hs) hI.2⟩
  have hlt : ∀ u e v, (Staffed u ∧ u.call c ≠ .idle) → Awaits c u e → step u e = some v →
      v.ahead c + v.joins c < u.ahead c + u.joins c := fun u e v hI he hs => awaits_lt hI.1 hI.2 he hs
  have hstart : Staffed s ∧ s.call c ≠ .idle := ⟨run_staffed h, hcalled⟩
  obtain ⟨es', t, hC, ht, hend⟩ := completes (D := fun u => u.ahead c = 0) hkeep hlt
    (fun u hI hD => awaits_step hI.1 hI.2 hD) hstart
  have hbound := run_potential (P := fun _ _ => true) hkeep hlt hstart hC ht
  rw [tally_true ht] at hbound
  have hahead : s.ahead c ≤ 4 := by
    unfold State.ahead
    split
    · exact Nat.zero_le _
    · cases hpc : s.call c with
      | idle => exact absurd hpc hcalled
      | _ => simp [Pc.ahead]
  have hjoins := joins_le s c
  refine ⟨es', t, ht, hC, by omega, ?_⟩
  obtain ⟨-, hcalled'⟩ := run_inv_of hkeep hstart hC ht
  by_cases hterm : t.terminated = true
  · exact Or.inr (Or.inr hterm)
  · unfold State.ahead at hend
    rw [if_neg hterm] at hend
    cases hpc : t.call c with
    | returned => exact Or.inl rfl
    | threw => exact Or.inr (Or.inl rfl)
    | idle => exact absurd hpc hcalled'
    | _ =>
      rw [hpc] at hend
      cases hend

/-- A `shutdown` at its join; the worker has not come for the message in the buffer. -/
def joining : List Ev := started 0 0 ++ [.log 1 warning, .push 1, .shutdown 2, .requestStop 2, .joinable 2]

theorem calls_return_joining : ∃ s es t, run step .init joining = some s ∧ s.call 2 = .joining ∧ s.toWrite = 1 ∧
    run step s es = some t ∧ Meets step (Awaits 2) s es ∧ es.length ≤ 7 ∧
    (t.call 2 = .returned ∨ t.call 2 = .threw ∨ t.terminated = true) := by
  have hrun : ((run step .init joining).map fun s => (s.call 2, s.toWrite)) = some (.joining, 1) := by decide +kernel
  obtain ⟨s, hs, hv⟩ := Option.map_eq_some_iff.1 hrun
  obtain ⟨hpc, hwrite⟩ := Prod.mk.inj hv
  have hcalled : s.call 2 ≠ .idle := by
    rw [hpc]
    exact Pc.noConfusion
  obtain ⟨es, t, ht, hC, hlen, hend⟩ := (calls_return joining s hs 2).2 hcalled
  rw [hwrite] at hlen
  exact ⟨s, es, t, hs, hpc, hwrite, ht, hC, hlen, hend⟩

end Seckill.AsyncLogger
