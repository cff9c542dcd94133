import Mathlib.Data.Set.Insert
import Mathlib.Tactic.Common

/-!
# Bloom filters

A filter over elements `x : α`, each with a few positions `pos x : List β`, is the
set of the positions marked so far. Inserting an element marks its positions; an
element passes when all of its positions are marked. Nothing inserted is ever
turned away (`passes_ofList`), a filter with more marks turns away less
(`Passes.mono`), and what passes depends on the set of the elements inserted only
(`passes_ofList_iff`, `ofList_congr`).
-/

namespace Bloom

variable {α β : Type*} (pos : α → List β)

/-- Mark the positions of `x`. -/
def insert (S : Set β) (x : α) : Set β := S ∪ {p | p ∈ pos x}

/-- The filter of the elements inserted in turn. -/
def ofList (xs : List α) : Set β := xs.foldl (insert pos) ∅

/-- Every position of `x` is marked. -/
def Passes (S : Set β) (x : α) : Prop := ∀ p ∈ pos x, p ∈ S

variable {pos}

theorem Passes.mono {S T : Set β} {x : α} (h : Passes pos S x) (hST : S ⊆ T) : Passes pos T x :=
  fun p hp => hST (h p hp)

theorem passes_insert (S : Set β) (x : α) : Passes pos (insert pos S x) x := fun _ hp => Or.inr hp

theorem subset_insert (S : Set β) (x : α) : S ⊆ insert pos S x := Set.subset_union_left

theorem subset_foldl (xs : List α) (S : Set β) : S ⊆ xs.foldl (insert pos) S := by
  induction xs generalizing S with
  | nil => exact subset_refl S
  | cons x xs ih => exact (subset_insert S x).trans (ih (insert pos S x))

/-- **No false negatives**: every element inserted passes. -/
theorem passes_foldl {xs : List α} {x : α} (h : x ∈ xs) (S : Set β) :
    Passes pos (xs.foldl (insert pos) S) x := by
  induction xs generalizing S with
  | nil => cases h
  | cons y ys ih =>
    rcases List.mem_cons.1 h with rfl | h
    · exact (passes_insert S x).mono (subset_foldl ys _)
    · exact ih h (insert pos S y)

theorem passes_ofList {xs : List α} {x : α} (h : x ∈ xs) : Passes pos (ofList pos xs) x := passes_foldl h ∅

theorem mem_foldl (xs : List α) (S : Set β) (p : β) : p ∈ xs.foldl (insert pos) S ↔ p ∈ S ∨ ∃ x ∈ xs, p ∈ pos x := by
  induction xs generalizing S with
  | nil => simp
  | cons x xs ih =>
    rw [List.foldl_cons, ih (insert pos S x)]
    change (p ∈ S ∨ p ∈ pos x) ∨ _ ↔ _
    simp only [List.mem_cons, exists_eq_or_imp, or_assoc]

theorem mem_ofList (xs : List α) (p : β) : p ∈ ofList pos xs ↔ ∃ x ∈ xs, p ∈ pos x := by
  have h : p ∈ xs.foldl (insert pos) ∅ ↔ p ∈ (∅ : Set β) ∨ ∃ x ∈ xs, p ∈ pos x := mem_foldl xs ∅ p
  rwa [Set.mem_empty_iff_false, false_or] at h

/-- **What passes**: every position is a position of something inserted. -/
theorem passes_ofList_iff (xs : List α) (y : α) : Passes pos (ofList pos xs) y ↔ ∀ p ∈ pos y, ∃ x ∈ xs, p ∈ pos x :=
  forall₂_congr fun p _ => mem_ofList xs p

/-- **The order of the insertions does not matter**, nor does their number. -/
theorem ofList_congr {xs ys : List α} (h : ∀ x, x ∈ xs ↔ x ∈ ys) : ofList pos xs = ofList pos ys := by
  ext p
  rw [mem_ofList, mem_ofList]
  simp only [h]

end Bloom
