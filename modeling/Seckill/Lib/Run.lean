import Mathlib.Algebra.GroupWithZero.Nat
import Mathlib.Data.List.Induction
import Mathlib.Tactic.Common

/-!
# Runs of a guarded step function

A system is a step function `step : σ → ε → Option σ`: `step s e` is the state
after event `e`, or `none` when `e` cannot happen in `s`. A run is a list of
events; its interleaving is the order of the list.

* `run_inv`: what every step preserves, every run preserves.
* `run_inv_of`: the same when each step meets a condition (`Meets`).
* `run_trace`: an invariant may mention the events so far.
* `run_map`, `collect_map`: a run seen through a map is a run of another system.
* `tally`: the number of steps of a run at which a test holds; `Past`: there is one;
  `collect`: what its steps yield.
* `run_potential`: a potential bounds the steps that lower it; `run_amortized`: others may
  raise it, and pay for them; `completes`: where one can go on until the end, the end is
  reached.
-/

namespace Machine

variable {σ ε : Type*} (step : σ → ε → Option σ)

/-- The state after the events `es`, if each of them can happen in turn. -/
def run (s : σ) : List ε → Option σ
  | [] => some s
  | e :: es => (step s e).bind fun t => run t es

/-- A state some run from `s₀` ends in. -/
def Reachable (s₀ s : σ) : Prop := ∃ es, run step s₀ es = some s

/-- Every step of the run meets the condition `C` (on the state before it). -/
def Meets (C : σ → ε → Prop) (s : σ) : List ε → Prop
  | [] => True
  | e :: es => C s e ∧ ∀ t, step s e = some t → Meets C t es

/-- A decidable condition is decided along a run. -/
instance meetsDecidable (C : σ → ε → Prop) [∀ s e, Decidable (C s e)] :
    ∀ (es : List ε) (s : σ), Decidable (Meets step C s es)
  | [], _ => isTrue trivial
  | e :: es, s =>
    have : DecidablePred fun t => Meets step C t es := fun t => meetsDecidable C es t
    inferInstanceAs (Decidable (C s e ∧ ∀ t ∈ step s e, Meets step C t es))

/-- The number of steps of the run at which the test `P` holds. -/
def tally (P : σ → ε → Bool) (s : σ) : List ε → ℕ
  | [] => 0
  | e :: es => (if P s e then 1 else 0) + ((step s e).elim 0 fun t => tally P t es)

/-- What the steps of the run yield, in order. -/
def collect {α : Type*} (f : σ → ε → Option α) (s : σ) : List ε → List α
  | [] => []
  | e :: es => (f s e).toList ++ (step s e).elim [] fun t => collect f t es

/-- Event `e` is taken in state `s` somewhere along the run `es` from `s₀`. -/
def Takes (s₀ : σ) (es : List ε) (s : σ) (e : ε) : Prop :=
  ∃ pre post, es = pre ++ e :: post ∧ run step s₀ pre = some s

/-- A step with the property `P` was taken along the run `es` from `s₀`. -/
def Past (s₀ : σ) (es : List ε) (P : σ → ε → Prop) : Prop := ∃ s e, Takes step s₀ es s e ∧ P s e

variable {step}

@[simp] theorem run_nil (s : σ) : run step s [] = some s := rfl

theorem run_cons {s : σ} {e : ε} {es : List ε} {u : σ} :
    run step s (e :: es) = some u ↔ ∃ t, step s e = some t ∧ run step t es = some u := by
  simp [run, Option.bind_eq_some_iff]

/-- The rest of a run, after its first step. -/
theorem run_tail {s t : σ} {e : ε} {es : List ε} {u : σ} (h : run step s (e :: es) = some u) (ht : step s e = some t) :
    run step t es = some u := by
  obtain ⟨t', ht', hrest⟩ := run_cons.1 h
  rw [ht] at ht'
  rwa [← Option.some.inj ht'] at hrest

theorem run_append {s : σ} {es fs : List ε} {u : σ} :
    run step s (es ++ fs) = some u ↔ ∃ t, run step s es = some t ∧ run step t fs = some u := by
  induction es generalizing s with
  | nil => simp
  | cons e es ih =>
    simp only [List.cons_append, run_cons, ih]
    constructor
    · rintro ⟨t, ht, v, hv, hu⟩; exact ⟨v, ⟨t, ht, hv⟩, hu⟩
    · rintro ⟨v, ⟨t, ht, hv⟩, hu⟩; exact ⟨t, ht, v, hv, hu⟩

/-- The rest of a run starts where its first part ended. -/
theorem run_rest {s t : σ} {es fs : List ε} {u : σ} (h : run step s (es ++ fs) = some u)
    (ht : run step s es = some t) : run step t fs = some u := by
  obtain ⟨t', ht', hrest⟩ := run_append.1 h
  rw [ht] at ht'
  rwa [← Option.some.inj ht'] at hrest

theorem run_snoc {s : σ} {es : List ε} {e : ε} {u : σ} :
    run step s (es ++ [e]) = some u ↔ ∃ t, run step s es = some t ∧ step t e = some u := by
  rw [run_append]
  simp [run]

theorem Reachable.refl (s : σ) : Reachable step s s := ⟨[], rfl⟩

theorem Reachable.trans {s t u : σ} (h : Reachable step s t) (h' : Reachable step t u) :
    Reachable step s u := by
  obtain ⟨es, hes⟩ := h
  obtain ⟨fs, hfs⟩ := h'
  exact ⟨es ++ fs, run_append.2 ⟨t, hes, hfs⟩⟩

theorem Reachable.snoc {s t u : σ} {e : ε} (h : Reachable step s t) (he : step t e = some u) :
    Reachable step s u := by
  obtain ⟨es, hes⟩ := h
  exact ⟨es ++ [e], run_snoc.2 ⟨t, hes, he⟩⟩

/-- **The invariant rule.** -/
theorem run_inv {I : σ → Prop} (hstep : ∀ s e t, I s → step s e = some t → I t) {s : σ} (hs : I s) :
    ∀ {es u}, run step s es = some u → I u := by
  intro es
  induction es generalizing s with
  | nil => intro u h; cases h; exact hs
  | cons e es ih =>
    intro u h
    obtain ⟨t, ht, hu⟩ := run_cons.1 h
    exact ih (hstep s e t hs ht) hu

theorem reachable_inv {I : σ → Prop} (hstep : ∀ s e t, I s → step s e = some t → I t) {s u : σ}
    (hs : I s) (h : Reachable step s u) : I u := by
  obtain ⟨es, hes⟩ := h
  exact run_inv hstep hs hes

theorem meets_cons {C : σ → ε → Prop} {s t : σ} {e : ε} {es : List ε} (h : step s e = some t) (he : C s e)
    (hes : Meets step C t es) : Meets step C s (e :: es) := by
  refine ⟨he, fun u hu => ?_⟩
  rw [h] at hu
  rwa [← Option.some.inj hu]

theorem meets_append {C : σ → ε → Prop} {s : σ} {es fs : List ε} (h : Meets step C s (es ++ fs)) :
    Meets step C s es ∧ ∀ t, run step s es = some t → Meets step C t fs := by
  induction es generalizing s with
  | nil => exact ⟨trivial, fun t ht => by cases ht; exact h⟩
  | cons e es ih =>
    refine ⟨⟨h.1, fun t ht => (ih (h.2 t ht)).1⟩, ?_⟩
    intro u hu
    obtain ⟨t, ht, hu⟩ := run_cons.1 hu
    exact (ih (h.2 t ht)).2 u hu

theorem meets_of_append {C : σ → ε → Prop} {s : σ} {es fs : List ε} (h : Meets step C s es)
    (h' : ∀ t, run step s es = some t → Meets step C t fs) : Meets step C s (es ++ fs) := by
  induction es generalizing s with
  | nil => exact h' s rfl
  | cons e es ih =>
    refine ⟨h.1, fun t ht => ih (h.2 t ht) fun u hu => h' u ?_⟩
    exact run_cons.2 ⟨t, ht, hu⟩

/-- A condition on the events alone. -/
theorem meets_of_forall {D : ε → Prop} {es : List ε} (h : ∀ e ∈ es, D e) (s : σ) :
    Meets step (fun _ e => D e) s es := by
  induction es generalizing s with
  | nil => trivial
  | cons e es ih => exact ⟨h e List.mem_cons_self, fun t _ => ih (fun e' he' => h e' (List.mem_cons_of_mem e he')) t⟩

theorem meets_imp {C D : σ → ε → Prop} (h : ∀ s e, C s e → D s e) {s : σ} {es : List ε} (hC : Meets step C s es) :
    Meets step D s es := by
  induction es generalizing s with
  | nil => trivial
  | cons e es ih => exact ⟨h s e hC.1, fun t ht => ih (hC.2 t ht)⟩

theorem meets_and {C D : σ → ε → Prop} {s : σ} {es : List ε} (hC : Meets step C s es) (hD : Meets step D s es) :
    Meets step (fun s e => C s e ∧ D s e) s es := by
  induction es generalizing s with
  | nil => trivial
  | cons e es ih => exact ⟨⟨hC.1, hD.1⟩, fun t ht => ih (hC.2 t ht) (hD.2 t ht)⟩

/-- **The invariant rule under a step condition.** -/
theorem run_inv_of {C : σ → ε → Prop} {I : σ → Prop}
    (hstep : ∀ s e t, I s → C s e → step s e = some t → I t) {s : σ} (hs : I s) :
    ∀ {es u}, Meets step C s es → run step s es = some u → I u := by
  intro es
  induction es generalizing s with
  | nil => intro u _ h; cases h; exact hs
  | cons e es ih =>
    intro u hm h
    obtain ⟨t, ht, hu⟩ := run_cons.1 h
    exact ih (hstep s e t hs hm.1 ht) (hm.2 t ht) hu

/-- Under an invariant, one step condition may give another. -/
theorem meets_of_inv {C D : σ → ε → Prop} {I : σ → Prop}
    (hstep : ∀ s e t, I s → C s e → step s e = some t → I t) (hD : ∀ s e, I s → C s e → D s e) {s : σ}
    {es : List ε} (hs : I s) (hC : Meets step C s es) : Meets step D s es := by
  induction es generalizing s with
  | nil => trivial
  | cons e es ih => exact ⟨hD s e hs hC.1, fun t ht => ih (hstep s e t hs hC.1 ht) (hC.2 t ht)⟩

/-- **The invariant rule with history**: `I es s` may mention the events so far. -/
theorem run_trace {I : List ε → σ → Prop} {s₀ : σ} (h₀ : I [] s₀)
    (hstep : ∀ es s e t, run step s₀ es = some s → I es s → step s e = some t → I (es ++ [e]) t) :
    ∀ {es u}, run step s₀ es = some u → I es u := by
  intro es
  induction es using List.reverseRecOn with
  | nil => intro u h; cases h; exact h₀
  | append_singleton es e ih =>
    intro u h
    obtain ⟨t, ht, hu⟩ := run_snoc.1 h
    exact hstep es t e u ht (ih ht) hu

/-- **The invariant rule with history, under a step condition.** -/
theorem run_trace_of {C : σ → ε → Prop} {I : List ε → σ → Prop} {s₀ : σ} (h₀ : I [] s₀)
    (hstep : ∀ es s e t, run step s₀ es = some s → I es s → C s e → step s e = some t → I (es ++ [e]) t)
    {es : List ε} {u : σ} (hC : Meets step C s₀ es) (h : run step s₀ es = some u) : I es u := by
  induction es using List.reverseRecOn generalizing u with
  | nil => cases h; exact h₀
  | append_singleton es e ih =>
    obtain ⟨t, ht, hu⟩ := run_snoc.1 h
    obtain ⟨hes, he⟩ := meets_append hC
    exact hstep es t e u ht (ih hes ht) (he t ht).1 hu

@[simp] theorem tally_nil (P : σ → ε → Bool) (s : σ) : tally step P s [] = 0 := rfl

theorem tally_append {P : σ → ε → Bool} {s t : σ} {es fs : List ε} (h : run step s es = some t) :
    tally step P s (es ++ fs) = tally step P s es + tally step P t fs := by
  induction es generalizing s with
  | nil => cases h; simp
  | cons e es ih =>
    obtain ⟨u, hu, ht⟩ := run_cons.1 h
    simp only [List.cons_append, tally, hu, Option.elim_some, ih ht, Nat.add_assoc]

theorem tally_snoc {P : σ → ε → Bool} {s t : σ} {es : List ε} (e : ε) (h : run step s es = some t) :
    tally step P s (es ++ [e]) = tally step P s es + if P t e then 1 else 0 := by
  rw [tally_append h]
  cases hse : step t e <;> simp [tally, hse]

/-- **The potential rule.** If every counted step of a run lowers the potential `φ`, and no step
raises it, there are at most as many as `φ` says. -/
theorem run_potential {C : σ → ε → Prop} {I : σ → Prop} {P : σ → ε → Bool} {φ : σ → ℕ}
    (hI : ∀ s e t, I s → C s e → step s e = some t → I t)
    (hφ : ∀ s e t, I s → C s e → step s e = some t → φ t + (if P s e then 1 else 0) ≤ φ s) {s t : σ} {es : List ε}
    (hs : I s) (hC : Meets step C s es) (h : run step s es = some t) : tally step P s es + φ t ≤ φ s := by
  induction es generalizing s with
  | nil => cases h; simp
  | cons e es ih =>
    obtain ⟨u, hu, ht⟩ := run_cons.1 h
    have hone := hφ s e u hs hC.1 hu
    have hrest := ih (hI s e u hs hC.1 hu) (hC.2 u hu) ht
    simp only [tally, hu, Option.elim_some]
    omega

/-- **The amortized rule.** The counted steps lower the potential `φ`, and the steps that raise it
pay for them: event `e` by `g e` at most. -/
theorem run_amortized {I : σ → Prop} {P : σ → ε → Bool} {φ : σ → ℕ} {g : ε → ℕ}
    (hI : ∀ s e t, I s → step s e = some t → I t)
    (hφ : ∀ s e t, I s → step s e = some t → φ t + (if P s e then 1 else 0) ≤ φ s + g e) {s t : σ} {es : List ε}
    (hs : I s) (h : run step s es = some t) : tally step P s es + φ t ≤ φ s + (es.map g).sum := by
  induction es generalizing s with
  | nil => cases h; simp
  | cons e es ih =>
    obtain ⟨u, hu, ht⟩ := run_cons.1 h
    have hone := hφ s e u hs hu
    have hrest := ih (hI s e u hs hu) ht
    simp only [tally, hu, Option.elim_some, List.map_cons, List.sum_cons]
    omega

/-- The number of all steps. -/
theorem tally_true {s t : σ} {es : List ε} (h : run step s es = some t) :
    tally step (fun _ _ => true) s es = es.length := by
  induction es generalizing s with
  | nil => rfl
  | cons e es ih =>
    obtain ⟨u, hu, ht⟩ := run_cons.1 h
    simp only [tally, hu, Option.elim_some, ih ht, List.length_cons, if_true, Nat.add_comm]

/-- **Progress under a potential leads to the end.** -/
theorem completes {C : σ → ε → Prop} {I D : σ → Prop} {φ : σ → ℕ}
    (hI : ∀ s e t, I s → C s e → step s e = some t → I t)
    (hφ : ∀ s e t, I s → C s e → step s e = some t → φ t < φ s)
    (hprogress : ∀ s, I s → ¬D s → ∃ e t, C s e ∧ step s e = some t) {s : σ} (hs : I s) :
    ∃ es t, Meets step C s es ∧ run step s es = some t ∧ D t := by
  induction hn : φ s using Nat.strongRecOn generalizing s with
  | ind n ih =>
    by_cases hD : D s
    · exact ⟨[], s, trivial, rfl, hD⟩
    · obtain ⟨e, t, hC, ht⟩ := hprogress s hs hD
      obtain ⟨es, u, hes, hu, hDu⟩ := ih (φ t) (hn ▸ hφ s e t hs hC ht) (hI s e t hs hC ht) rfl
      exact ⟨e :: es, u, meets_cons ht hC hes, run_cons.2 ⟨t, ht, hu⟩, hDu⟩

theorem collect_append {α : Type*} {f : σ → ε → Option α} {s t : σ} {es fs : List ε} (h : run step s es = some t) :
    collect step f s (es ++ fs) = collect step f s es ++ collect step f t fs := by
  induction es generalizing s with
  | nil => cases h; rfl
  | cons e es ih =>
    obtain ⟨u, hu, ht⟩ := run_cons.1 h
    simp only [List.cons_append, collect, hu, Option.elim_some, ih ht, List.append_assoc]

theorem collect_snoc {α : Type*} {f : σ → ε → Option α} {s t : σ} {es : List ε} (e : ε) (h : run step s es = some t) :
    collect step f s (es ++ [e]) = collect step f s es ++ (f t e).toList := by
  rw [collect_append h]
  cases hse : step t e <;> simp [collect, hse]

section

variable {τ : Type*} {step' : τ → ε → Option τ} {f : σ → τ} {I : σ → Prop}

/-- **A system seen through a map** is another system, if each step is. -/
theorem run_map (hI : ∀ s e t, I s → step s e = some t → I t)
    (hf : ∀ s e, I s → (step s e).map f = step' (f s) e) {s : σ} (hs : I s) (es : List ε) :
    (run step s es).map f = run step' (f s) es := by
  induction es generalizing s with
  | nil => rfl
  | cons e es ih =>
    have hstep := hf s e hs
    unfold run
    rw [← hstep]
    cases ht : step s e with
    | none => rfl
    | some t => exact ih (hI s e t hs ht)

/-- So is what its steps yield. -/
theorem collect_map {α : Type*} {g : σ → ε → Option α} {g' : τ → ε → Option α}
    (hI : ∀ s e t, I s → step s e = some t → I t) (hf : ∀ s e, I s → (step s e).map f = step' (f s) e)
    (hg : ∀ s e, I s → g s e = g' (f s) e) {s : σ} (hs : I s) (es : List ε) :
    collect step g s es = collect step' g' (f s) es := by
  induction es generalizing s with
  | nil => rfl
  | cons e es ih =>
    have hstep := hf s e hs
    unfold collect
    rw [hg s e hs, ← hstep]
    cases ht : step s e with
    | none => rfl
    | some t => exact congrArg _ (ih (hI s e t hs ht))

end

/-- A step of a run takes one of its events. -/
theorem Takes.mem {s₀ s : σ} {es : List ε} {e : ε} (h : Takes step s₀ es s e) : e ∈ es := by
  obtain ⟨pre, post, rfl, -⟩ := h
  exact List.mem_append_right pre List.mem_cons_self

theorem Takes.snoc {s₀ s : σ} {es : List ε} {e : ε} (h : Takes step s₀ es s e) (e' : ε) :
    Takes step s₀ (es ++ [e']) s e := by
  obtain ⟨pre, post, rfl, hs⟩ := h
  exact ⟨pre, post ++ [e'], by simp, hs⟩

/-- A step of a run that meets a condition meets it. -/
theorem Takes.meets {C : σ → ε → Prop} {s₀ s : σ} {es : List ε} {e : ε} (h : Takes step s₀ es s e)
    (hC : Meets step C s₀ es) : C s e := by
  obtain ⟨pre, post, rfl, hs⟩ := h
  exact ((meets_append hC).2 s hs).1

/-- What every step of a run meets, the run meets. -/
theorem meets_of_takes {C : σ → ε → Prop} {s : σ} {es : List ε} (h : ∀ u e, Takes step s es u e → C u e) :
    Meets step C s es := by
  induction es generalizing s with
  | nil => trivial
  | cons e es ih =>
    refine ⟨h s e ⟨[], es, rfl, rfl⟩, fun t ht => ih ?_⟩
    rintro u e' ⟨pre, post, rfl, hu⟩
    exact h u e' ⟨e :: pre, post, rfl, run_cons.2 ⟨t, ht, hu⟩⟩

/-- Conditions that agree on every step of a run. -/
theorem meets_iff {C D : σ → ε → Prop} {s₀ : σ} {es : List ε} (h : ∀ s e, Takes step s₀ es s e → (C s e ↔ D s e)) :
    Meets step C s₀ es ↔ Meets step D s₀ es := by
  constructor
  · intro hC
    exact meets_of_takes fun s e htakes => (h s e htakes).1 (htakes.meets hC)
  · intro hD
    exact meets_of_takes fun s e htakes => (h s e htakes).2 (htakes.meets hD)

/-- A step of a run is one of its steps before the last, or the last. -/
theorem takes_snoc {s₀ s : σ} {es : List ε} {e e' : ε} :
    Takes step s₀ (es ++ [e']) s e ↔ Takes step s₀ es s e ∨ e = e' ∧ run step s₀ es = some s := by
  constructor
  · rintro ⟨pre, post, heq, hs⟩
    rcases List.eq_nil_or_concat post with rfl | ⟨post', x, rfl⟩
    · obtain ⟨rfl, he⟩ := List.append_inj' heq rfl
      exact Or.inr ⟨(List.singleton_inj.1 he).symm, hs⟩
    · -- something follows it, and the last of that is the last step
      have heq' : es ++ [e'] = (pre ++ e :: post') ++ [x] := by simpa using heq
      obtain ⟨rfl, -⟩ := List.append_inj' heq' rfl
      exact Or.inl ⟨pre, post', rfl, hs⟩
  · rintro (h | ⟨rfl, h⟩)
    · exact h.snoc e'
    · exact ⟨es, [], rfl, h⟩

theorem takes_last {s₀ s : σ} {es : List ε} (e : ε) (h : run step s₀ es = some s) :
    Takes step s₀ (es ++ [e]) s e := takes_snoc.2 (Or.inr ⟨rfl, h⟩)

theorem Past.snoc {s₀ : σ} {es : List ε} {P : σ → ε → Prop} (h : Past step s₀ es P) (e : ε) :
    Past step s₀ (es ++ [e]) P := by
  obtain ⟨s, e', htakes, hP⟩ := h
  exact ⟨s, e', htakes.snoc e, hP⟩

theorem past_last {s₀ s : σ} {es : List ε} {e : ε} {P : σ → ε → Prop} (h : run step s₀ es = some s) (hP : P s e) :
    Past step s₀ (es ++ [e]) P := ⟨s, e, takes_last e h, hP⟩

/-- The run before and after such a step. -/
theorem Past.split {s₀ s : σ} {es : List ε} {P : σ → ε → Prop} (h : Past step s₀ es P) (hrun : run step s₀ es = some s) :
    ∃ pre e post u v, es = pre ++ e :: post ∧ run step s₀ pre = some u ∧ P u e ∧ step u e = some v ∧
      run step v post = some s := by
  obtain ⟨u, e, ⟨pre, post, rfl, hu⟩, hP⟩ := h
  obtain ⟨v, hv, hpost⟩ := run_cons.1 (run_rest hrun hu)
  exact ⟨pre, e, post, u, v, rfl, hu, hP, hv, hpost⟩

/-- There is no such step, and the next is none either. -/
theorem not_past_snoc {s₀ s : σ} {es : List ε} {e : ε} {P : σ → ε → Prop} (h : ¬Past step s₀ es P)
    (hrun : run step s₀ es = some s) (he : ¬P s e) : ¬Past step s₀ (es ++ [e]) P := by
  rintro ⟨s', e', htakes, hP⟩
  rcases takes_snoc.1 htakes with hbefore | ⟨rfl, hs⟩
  · exact h ⟨s', e', hbefore, hP⟩
  · rw [hrun] at hs
    rw [Option.some.inj hs] at he
    exact he hP

/-- What a run yields, one of its steps yields. -/
theorem mem_collect {α : Type*} {f : σ → ε → Option α} {s₀ : σ} {es : List ε} {a : α} :
    a ∈ collect step f s₀ es ↔ Past step s₀ es fun s e => f s e = some a := by
  induction es generalizing s₀ with
  | nil => simp [collect, Past, Takes]
  | cons e es ih =>
    simp only [collect, List.mem_append, Option.mem_toList]
    constructor
    · rintro (hnow | hlater)
      · exact ⟨s₀, e, ⟨[], es, rfl, rfl⟩, hnow⟩
      · cases ht : step s₀ e with
        | none =>
          rw [ht] at hlater
          cases hlater
        | some t =>
          rw [ht] at hlater
          obtain ⟨u, e', ⟨pre, post, rfl, hu⟩, hf⟩ := ih.1 hlater
          exact ⟨u, e', ⟨e :: pre, post, rfl, run_cons.2 ⟨t, ht, hu⟩⟩, hf⟩
    · rintro ⟨u, e', ⟨pre, post, heq, hu⟩, hf⟩
      cases pre with
      | nil =>
        obtain ⟨rfl, rfl⟩ := List.cons.inj heq
        cases hu
        exact Or.inl hf
      | cons e₁ pre =>
        obtain ⟨rfl, rfl⟩ := List.cons.inj heq
        obtain ⟨t, ht, hu⟩ := run_cons.1 hu
        rw [ht]
        exact Or.inr (ih.2 ⟨u, e', ⟨pre, post, rfl, hu⟩, hf⟩)

/-- In a list whose elements are related pairwise, two that are not are one, at one place. -/
theorem split_unique {R : ε → ε → Prop} {l a b a' b' : List ε} {e e' : ε} (h : l.Pairwise R)
    (hl : l = a ++ e :: b) (hl' : l = a' ++ e' :: b') (hne : ¬R e e') (hne' : ¬R e' e) : a = a' ∧ e = e' ∧ b = b' := by
  have hlate : ∀ {a c b : List ε} {x y : ε}, (a ++ x :: (c ++ y :: b)).Pairwise R → R x y := by
    intro a c b x y hpair
    obtain ⟨-, hsuffix, -⟩ := List.pairwise_append.1 hpair
    exact (List.pairwise_cons.1 hsuffix).1 y (by simp)
  -- if one place is before the other, the two elements are related
  rcases List.append_eq_append_iff.1 (hl.symm.trans hl') with ⟨c, ha, hc⟩ | ⟨c, ha, hc⟩
  · cases c with
    | nil =>
      obtain ⟨rfl, rfl⟩ := List.cons.inj hc
      exact ⟨by simpa using ha.symm, rfl, rfl⟩
    | cons x c =>
      obtain ⟨rfl, rfl⟩ := List.cons.inj hc
      rw [hl] at h
      exact absurd (hlate h) hne
  · cases c with
    | nil =>
      obtain ⟨rfl, rfl⟩ := List.cons.inj hc
      exact ⟨by simpa using ha, rfl, rfl⟩
    | cons x c =>
      obtain ⟨rfl, rfl⟩ := List.cons.inj hc
      rw [hl'] at h
      exact absurd (hlate h) hne'

end Machine
