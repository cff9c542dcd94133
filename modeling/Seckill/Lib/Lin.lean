import Seckill.Lib.Run

/-!
# Linearizable systems

A sequential object is a function `apply : α → ο → α × ρ`: an operation changes its
state and is answered. A system of many callers behaves like that object if every
operation takes effect at one step, its point.

`Points` asks three things of the points of a system: at a point the object seen
through `abs` makes the operation, at any other step it does nothing
(`Points.apply`, `Points.skip`), and a caller has one point (`Points.point`,
`Points.bound`). Then in every run the points, in their order, are a sequential run
of the object with the same answers (`Points.play_eq`), and no caller has two
(`Points.callers_nodup`).
-/

namespace Lin

open Machine

variable {σ ε α ο ρ ι : Type*}

/-- A sequential run of an object: its last state, and the answers. -/
def play (apply : α → ο → α × ρ) (a : α) : List ο → α × List ρ
  | [] => (a, [])
  | o :: os => ((play apply (apply a o).1 os).1, (apply a o).2 :: (play apply (apply a o).1 os).2)

theorem play_append (apply : α → ο → α × ρ) (a : α) (os os' : List ο) :
    play apply a (os ++ os') =
      ((play apply (play apply a os).1 os').1, (play apply a os).2 ++ (play apply (play apply a os).1 os').2) := by
  induction os generalizing a with
  | nil => rfl
  | cons o os ih => simp only [List.cons_append, play, ih]

theorem play_snoc {apply : α → ο → α × ρ} {a b : α} {os : List ο} {xs : List ρ} (o : ο)
    (h : play apply a os = (b, xs)) : play apply a (os ++ [o]) = ((apply b o).1, xs ++ [(apply b o).2]) := by
  rw [play_append, h]
  rfl

/-- The answers of a sequential run are those of its operations, one by one. -/
theorem play_answer {apply : α → ο → α × ρ} {a b : α} {os os' : List ο} {o : ο} {xs xs' : List ρ} {x : ρ}
    (h : play apply a (os ++ o :: os') = (b, xs ++ x :: xs')) (hlen : os.length = xs.length) :
    (apply (play apply a os).1 o).2 = x ∧ b = (play apply (apply (play apply a os).1 o).1 os').1 := by
  have hanswers : ∀ (a : α) (os : List ο), (play apply a os).2.length = os.length := by
    intro a os
    induction os generalizing a with
    | nil => rfl
    | cons o os ih => simp only [play, List.length_cons, ih]
  rw [play_append] at h
  obtain ⟨hlast, hall⟩ := Prod.mk.inj h
  obtain ⟨-, hrest⟩ := List.append_inj hall ((hanswers a os).trans hlen)
  exact ⟨(List.cons.inj hrest).1, hlast.symm⟩

/-- **What every operation keeps, a sequential run keeps.** -/
theorem play_inv {apply : α → ο → α × ρ} {P : α → Prop} (h : ∀ a o, P a → P (apply a o).1) {a : α} (ha : P a)
    (os : List ο) : P (play apply a os).1 := by
  induction os generalizing a with
  | nil => exact ha
  | cons o os ih => exact ih (h a o ha)

/-- An operation of a history: who made it, what it was, and its answer. -/
structure Entry (ι ο ρ : Type*) where
  caller : ι
  op : ο
  answer : ρ
  deriving DecidableEq

/-- The points of a system whose states satisfy `I`. A caller that is `bound` to an
entry has had its point. -/
structure Points (step : σ → ε → Option σ) (apply : α → ο → α × ρ) (abs : σ → α)
    (point : σ → ε → Option (Entry ι ο ρ)) (I : σ → Prop) (bound : σ → Entry ι ο ρ → Prop) : Prop where
  inv : ∀ s e t, I s → step s e = some t → I t
  skip : ∀ s e t, I s → step s e = some t → point s e = none → abs t = abs s
  apply : ∀ s e t p, I s → step s e = some t → point s e = some p → apply (abs s) p.op = (abs t, p.answer)
  point : ∀ s e t p, I s → step s e = some t → point s e = some p →
    bound t p ∧ ∀ p', p'.caller = p.caller → ¬bound s p'
  bound : ∀ s e t p, I s → step s e = some t → bound s p → bound t p

section

variable {step : σ → ε → Option σ} {apply : α → ο → α × ρ} {abs : σ → α} {point : σ → ε → Option (Entry ι ο ρ)}
  {I : σ → Prop} {bound : σ → Entry ι ο ρ → Prop} {s₀ s : σ} {es : List ε}

/-- **The points of a run are a sequential run** with the same answers. -/
theorem Points.play_eq (hp : Points step apply abs point I bound) (h₀ : I s₀) (h : run step s₀ es = some s) :
    play apply (abs s₀) ((collect step point s₀ es).map Entry.op) =
      (abs s, (collect step point s₀ es).map Entry.answer) := by
  refine run_trace (I := fun es s => play apply (abs s₀) ((collect step point s₀ es).map Entry.op) =
    (abs s, (collect step point s₀ es).map Entry.answer)) rfl ?_ h
  intro es s e t hrun hplay hs
  have hI : I s := run_inv hp.inv h₀ hrun
  rw [collect_snoc e hrun]
  cases hpoint : point s e with
  | none =>
    rw [Option.toList_none, List.append_nil, hp.skip s e t hI hs hpoint]
    exact hplay
  | some p =>
    have happly := hp.apply s e t p hI hs hpoint
    simp only [Option.toList_some, List.map_append, List.map_cons, List.map_nil]
    rw [play_snoc p.op hplay, happly]

/-- Who is in the history is bound to its entry. -/
theorem Points.bound_of_mem (hp : Points step apply abs point I bound) (h₀ : I s₀) (h : run step s₀ es = some s) :
    ∀ p ∈ collect step point s₀ es, bound s p := by
  refine run_trace (I := fun es s => ∀ p ∈ collect step point s₀ es, bound s p) ?_ ?_ h
  · intro p hmem
    cases hmem
  · intro es s e t hrun hbound hs p hmem
    have hI : I s := run_inv hp.inv h₀ hrun
    rw [collect_snoc e hrun, List.mem_append] at hmem
    rcases hmem with hmem | hmem
    · exact hp.bound s e t p hI hs (hbound p hmem)
    · exact (hp.point s e t p hI hs (Option.mem_toList.1 hmem)).1

/-- **No caller has two points.** -/
theorem Points.callers_nodup (hp : Points step apply abs point I bound) (h₀ : I s₀) (h : run step s₀ es = some s) :
    ((collect step point s₀ es).map Entry.caller).Nodup := by
  refine run_trace (I := fun es _ => ((collect step point s₀ es).map Entry.caller).Nodup) List.nodup_nil ?_ h
  intro es s e t hrun hnodup hs
  rw [collect_snoc e hrun]
  cases hpoint : point s e with
  | none => simpa using hnodup
  | some p =>
    have hfresh : ∀ p' ∈ collect step point s₀ es, p'.caller ≠ p.caller := by
      intro p' hmem hcaller
      have hI : I s := run_inv hp.inv h₀ hrun
      exact (hp.point s e t p hI hs hpoint).2 p' hcaller (hp.bound_of_mem h₀ hrun p' hmem)
    simp only [Option.toList_some, List.map_append, List.map_cons, List.map_nil]
    rw [List.nodup_append]
    refine ⟨hnodup, by simp, ?_⟩
    intro i hi j hj
    obtain ⟨p', hmem, rfl⟩ := List.mem_map.1 hi
    rw [List.mem_singleton.1 hj]
    exact hfresh p' hmem

end

end Lin
