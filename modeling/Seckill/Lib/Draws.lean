import Mathlib.Algebra.BigOperators.Ring.Finset
import Mathlib.Algebra.Group.Action.Defs
import Mathlib.Data.Fintype.BigOperators
import Mathlib.Data.List.OfFn
import Mathlib.Logic.Equiv.Fin.Basic
import Mathlib.Tactic.Common
import Mathlib.Tactic.Ring

/-!
# Rejection sampling

A source gives one word of a finite type after the other; the first one that is
accepted gives the result. Of the sequences of `k` words, `Draws.count` give a certain
result. If each of `n` results is accepted for the same number of words, then each is
given by one `n`-th of the sequences that give any (`count_share`), however many words
are drawn: the result is uniform.
-/

namespace Draws

variable {W C : Type*} [Fintype W] [DecidableEq C]

/-- The words a result is accepted for. -/
def fiber (accept : W → Option C) (c : C) : ℕ := Fintype.card {w // accept w = some c}

/-- The words that are rejected. -/
def rejected (accept : W → Option C) : ℕ := Fintype.card {w // accept w = none}

/-- The sequences of `k` words whose first accepted word gives `c`. -/
def count (accept : W → Option C) (k : ℕ) (c : C) : ℕ :=
  Fintype.card {ws : Fin k → W // (List.ofFn ws).findSome? accept = some c}

/-- What one word leaves to the next ones. -/
theorem card_after (accept : W → Option C) (k : ℕ) (c : C) (w : W) :
    Fintype.card {ws : Fin k → W // (w :: List.ofFn ws).findSome? accept = some c} =
      (if accept w = some c then Fintype.card W ^ k else 0) + if accept w = none then count accept k c else 0 := by
  cases hw : accept w with
  | none => simp [hw, count]
  | some c' =>
    by_cases hc : c' = c
    · simp [hw, hc, Fintype.card_pi]
    · simp [hw, hc]

/-- **One word more**: it gives the result, or it is rejected and the rest gives it. -/
theorem count_succ (accept : W → Option C) (k : ℕ) (c : C) :
    count accept (k + 1) c = fiber accept c * Fintype.card W ^ k + rejected accept * count accept k c := by
  have hsplit : count accept (k + 1) c =
      ∑ w : W, Fintype.card {ws : Fin k → W // (w :: List.ofFn ws).findSome? accept = some c} := by
    rw [← Fintype.card_sigma]
    refine Fintype.card_congr ?_
    refine Equiv.trans ?_ (Equiv.subtypeProdEquivSigmaSubtype fun (w : W) (ws : Fin k → W) =>
      (w :: List.ofFn ws).findSome? accept = some c)
    refine Equiv.subtypeEquiv (Fin.consEquiv fun _ => W).symm fun ws => ?_
    rw [List.ofFn_succ]
    rfl
  rw [hsplit]
  simp only [card_after, Finset.sum_add_distrib, ← Finset.sum_filter, Finset.sum_const, smul_eq_mul]
  rw [fiber, rejected, Fintype.card_subtype, Fintype.card_subtype]

/-- **Equal shares.** If `n` results are accepted for as many words as `c` and the others
are rejected, `c` gets one `n`-th of the sequences that accept anything. -/
theorem count_share {accept : W → Option C} {c : C} {n : ℕ} (h : n * fiber accept c + rejected accept = Fintype.card W)
    (k : ℕ) : n * count accept k c + rejected accept ^ k = Fintype.card W ^ k := by
  induction k with
  | zero => simp [count]
  | succ k ih =>
    calc n * count accept (k + 1) c + rejected accept ^ (k + 1)
        = n * fiber accept c * Fintype.card W ^ k + rejected accept * (n * count accept k c + rejected accept ^ k) := by
          rw [count_succ]; ring
      _ = (n * fiber accept c + rejected accept) * Fintype.card W ^ k := by rw [ih]; ring
      _ = Fintype.card W ^ (k + 1) := by rw [h]; ring

/-- The sequences with a result of `p` are at most those of the results in a list of them. -/
theorem card_result_le (accept : W → Option C) (k : ℕ) (p : C → Bool) (cs : Finset C)
    (h : ∀ w c, accept w = some c → p c = true → c ∈ cs) :
    Fintype.card {ws : Fin k → W // ((List.ofFn ws).findSome? accept).any p = true} ≤ ∑ c ∈ cs, count accept k c := by
  classical
  simp only [count, Fintype.card_subtype]
  refine le_trans (Finset.card_le_card fun ws hws => ?_) Finset.card_biUnion_le
  obtain ⟨c, hc, hp⟩ := (Option.any_eq_true _ _).1 (Finset.mem_filter.1 hws).2
  obtain ⟨w, -, hw⟩ := List.exists_of_findSome?_eq_some hc
  exact Finset.mem_biUnion.2 ⟨c, h w c hw hp, Finset.mem_filter.2 ⟨Finset.mem_univ _, hc⟩⟩

end Draws
