import Mathlib.Logic.Function.Basic
import Mathlib.Tactic.Common

/-!
# Marks and their holders

Mutual exclusion by marks: keys of type `κ` share marks of type `α` (`slot`),
`marked k` says that the mark of key `k` is set, and `holder i` is the mark party
`i` has taken, if any. `Held` is the invariant: a mark is set exactly when some
party holds it, and no mark has two holders. Taking a clear mark (`acquire`),
being turned away (`refuse`) and giving a mark back (`release`) keep it; a mark
nobody holds is clear (`clear`).
-/

namespace Marks

variable {ι κ α : Type*} {slot : κ → α} {marked marked' : κ → Prop} {holder : ι → Option α}
  {i : ι} {k : κ}

/-- The set marks are those of the holders, and no mark has two. -/
structure Held (slot : κ → α) (marked : κ → Prop) (holder : ι → Option α) : Prop where
  marks : ∀ k, marked k ↔ ∃ i, holder i = some (slot k)
  alone : ∀ i j a, holder i = some a → holder j = some a → i = j

theorem Held.empty (hm : ∀ k, ¬marked k) (hn : ∀ i, holder i = none) : Held slot marked holder where
  marks k := by
    constructor
    · intro h; exact absurd h (hm k)
    · rintro ⟨i, hi⟩; rw [hn i] at hi; cases hi
  alone i j a hi := by rw [hn i] at hi; cases hi

/-- Trying to take a mark that is set changes nothing. -/
theorem Held.refuse (h : Held slot marked holder) (hk : marked k)
    (hm : ∀ k', marked' k' ↔ marked k' ∨ slot k = slot k') : Held slot marked' holder where
  marks k' := by
    obtain ⟨j, hj⟩ := (h.marks k).1 hk
    rw [hm k', h.marks k']
    constructor
    · rintro (hk' | hs)
      · exact hk'
      · exact ⟨j, by rw [hj, hs]⟩
    · exact Or.inl
  alone := h.alone

/-- **A mark nobody holds is clear.** -/
theorem Held.clear (h : Held slot marked holder) (hn : ∀ i, holder i ≠ some (slot k)) : ¬marked k := by
  intro hk
  obtain ⟨i, hi⟩ := (h.marks k).1 hk
  exact hn i hi

variable [DecidableEq ι]

/-- **A clear mark can be taken.** -/
theorem Held.acquire (h : Held slot marked holder) (hk : ¬marked k) (hi : holder i = none)
    (hm : ∀ k', marked' k' ↔ marked k' ∨ slot k = slot k') :
    Held slot marked' (Function.update holder i (some (slot k))) := by
  have hnobody : ∀ j, holder j ≠ some (slot k) := fun j hj => hk ((h.marks k).2 ⟨j, hj⟩)
  refine ⟨fun k' => ?_, fun j₁ j₂ a h₁ h₂ => ?_⟩
  · rw [hm k', h.marks k']
    constructor
    · rintro (⟨j, hj⟩ | hs)
      · have hji : j ≠ i := by intro hji; rw [hji, hi] at hj; cases hj
        exact ⟨j, by rw [Function.update_of_ne hji, hj]⟩
      · exact ⟨i, by rw [Function.update_self, hs]⟩
    · rintro ⟨j, hj⟩
      by_cases hji : j = i
      · rw [hji, Function.update_self] at hj
        exact Or.inr (Option.some.inj hj)
      · rw [Function.update_of_ne hji] at hj
        exact Or.inl ⟨j, hj⟩
  · by_cases e₁ : j₁ = i <;> by_cases e₂ : j₂ = i
    · rw [e₁, e₂]
    · rw [e₁, Function.update_self] at h₁
      rw [Function.update_of_ne e₂, ← h₁] at h₂
      exact absurd h₂ (hnobody j₂)
    · rw [e₂, Function.update_self] at h₂
      rw [Function.update_of_ne e₁, ← h₂] at h₁
      exact absurd h₁ (hnobody j₁)
    · rw [Function.update_of_ne e₁] at h₁
      rw [Function.update_of_ne e₂] at h₂
      exact h.alone j₁ j₂ a h₁ h₂

/-- **A holder can give its mark back.** -/
theorem Held.release (h : Held slot marked holder) (hi : holder i = some (slot k))
    (hm : ∀ k', marked' k' ↔ marked k' ∧ slot k ≠ slot k') :
    Held slot marked' (Function.update holder i none) := by
  refine ⟨fun k' => ?_, fun j₁ j₂ a h₁ h₂ => ?_⟩
  · rw [hm k', h.marks k']
    constructor
    · rintro ⟨⟨j, hj⟩, hs⟩
      have hji : j ≠ i := by
        intro hji
        rw [hji, hi] at hj
        exact hs (Option.some.inj hj)
      exact ⟨j, by rw [Function.update_of_ne hji, hj]⟩
    · rintro ⟨j, hj⟩
      by_cases hji : j = i
      · rw [hji, Function.update_self] at hj; cases hj
      · rw [Function.update_of_ne hji] at hj
        refine ⟨⟨j, hj⟩, fun hs => hji ?_⟩
        rw [← hs] at hj
        exact h.alone j i _ hj hi
  · by_cases e₁ : j₁ = i
    · rw [e₁, Function.update_self] at h₁; cases h₁
    · by_cases e₂ : j₂ = i
      · rw [e₂, Function.update_self] at h₂; cases h₂
      · rw [Function.update_of_ne e₁] at h₁
        rw [Function.update_of_ne e₂] at h₂
        exact h.alone j₁ j₂ a h₁ h₂

end Marks
