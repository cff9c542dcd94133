import Mathlib.Data.Finset.Card
import Mathlib.Data.Int.Notation
import Mathlib.Data.Set.Card
import Mathlib.Tactic.Common

/-!
# How many of a crowd

Bounds on the number of parties `i : ι` with a property `p i`, where there may be
infinitely many parties: `AtMost p n` and `AtLeast p n`. A step of a system lets
one party enter or leave the property; the rules say what that does to a bound.
The bound is an integer, so that it can be what a counter leaves. Of a crowd that is
finite the number itself is known (`ncard_change`).
-/

namespace Crowd

variable {ι : Type*} {p q : ι → Prop} {n m : ℤ} {a : ι}

/-- No more than `n` parties have the property. -/
def AtMost (p : ι → Prop) (n : ℤ) : Prop := ∀ F : Finset ι, (∀ i ∈ F, p i) → (F.card : ℤ) ≤ n

/-- At least `n` parties have the property. -/
def AtLeast (p : ι → Prop) (n : ℤ) : Prop := ∃ F : Finset ι, (∀ i ∈ F, p i) ∧ n ≤ (F.card : ℤ)

theorem AtMost.none (h : ∀ i, ¬p i) (hn : 0 ≤ n) : AtMost p n := by
  intro F hF
  have hempty : F = ∅ := Finset.eq_empty_of_forall_notMem fun i hi => h i (hF i hi)
  rw [hempty, Finset.card_empty]
  omega

/-- All of them are in a list. -/
theorem AtMost.of_list {l : List ι} (h : ∀ i, p i → i ∈ l) (hn : l.length ≤ n) : AtMost p n := by
  classical
  intro F hF
  have hcard := Finset.card_le_card fun i hi => List.mem_toFinset.2 (h i (hF i hi))
  have hlength := l.toFinset_card_le
  omega

theorem AtMost.one_le (h : AtMost p n) (ha : p a) : 1 ≤ n := by
  have hsingle := h {a} fun i hi => by
    rw [Finset.mem_singleton.1 hi]
    exact ha
  rw [Finset.card_singleton] at hsingle
  omega

theorem AtMost.mono (h : AtMost p n) (hq : ∀ i, q i → p i) (hn : n ≤ m) : AtMost q m := by
  intro F hF
  have hcard := h F fun i hi => hq i (hF i hi)
  omega

/-- One party may have entered. -/
theorem AtMost.enter [DecidableEq ι] (h : AtMost p n) (a : ι) (hq : ∀ i, q i → i = a ∨ p i) :
    AtMost q (n + 1) := by
  intro F hF
  have herase := h (F.erase a) fun i hi => by
    obtain ⟨hne, hmem⟩ := Finset.mem_erase.1 hi
    rcases hq i (hF i hmem) with heq | hp
    · exact absurd heq hne
    · exact hp
  have hcard := Finset.pred_card_le_card_erase (s := F) (a := a)
  omega

/-- One party left. -/
theorem AtMost.leave [DecidableEq ι] (h : AtMost p n) (ha : p a) (hq : ∀ i, q i → i ≠ a ∧ p i) :
    AtMost q (n - 1) := by
  intro F hF
  have hnot : a ∉ F := fun hmem => (hq a (hF a hmem)).1 rfl
  have hinsert := h (insert a F) fun i hi => by
    rcases Finset.mem_insert.1 hi with rfl | hmem
    · exact ha
    · exact (hq i (hF i hmem)).2
  rw [Finset.card_insert_of_notMem hnot] at hinsert
  omega

/-- Two properties together. -/
theorem AtMost.or (hp : AtMost p n) (hq : AtMost q m) : AtMost (fun i => p i ∨ q i) (n + m) := by
  classical
  intro F hF
  have h₁ := hp (F.filter p) fun i hi => (Finset.mem_filter.1 hi).2
  have h₂ := hq (F.filter fun i => ¬p i) fun i hi => by
    obtain ⟨hmem, hnot⟩ := Finset.mem_filter.1 hi
    exact (hF i hmem).resolve_left hnot
  have hsplit := Finset.card_filter_add_card_filter_not (s := F) p
  omega

theorem AtLeast.zero (hn : n ≤ 0) : AtLeast p n := by
  refine ⟨∅, fun i hi => absurd hi (Finset.notMem_empty i), ?_⟩
  rw [Finset.card_empty]
  omega

theorem AtLeast.mono (h : AtLeast p n) (hq : ∀ i, p i → q i) (hm : m ≤ n) : AtLeast q m := by
  obtain ⟨F, hF, hcard⟩ := h
  exact ⟨F, fun i hi => hq i (hF i hi), by omega⟩

/-- A party entered. -/
theorem AtLeast.enter [DecidableEq ι] (h : AtLeast p n) (ha : ¬p a) (hqa : q a) (hq : ∀ i, p i → q i) :
    AtLeast q (n + 1) := by
  obtain ⟨F, hF, hcard⟩ := h
  have hnot : a ∉ F := fun hmem => ha (hF a hmem)
  refine ⟨insert a F, fun i hi => ?_, ?_⟩
  · rcases Finset.mem_insert.1 hi with rfl | hmem
    · exact hqa
    · exact hq i (hF i hmem)
  · rw [Finset.card_insert_of_notMem hnot]
    omega

/-- One party may have left. -/
theorem AtLeast.leave [DecidableEq ι] (h : AtLeast p n) (a : ι) (hq : ∀ i, p i → i ≠ a → q i) :
    AtLeast q (n - 1) := by
  obtain ⟨F, hF, hcard⟩ := h
  refine ⟨F.erase a, fun i hi => ?_, ?_⟩
  · obtain ⟨hne, hmem⟩ := Finset.mem_erase.1 hi
    exact hq i (hF i hmem) hne
  · have herase := Finset.pred_card_le_card_erase (s := F) (a := a)
    omega

theorem AtLeast.le (h : AtLeast p n) (h' : AtMost p m) : n ≤ m := by
  obtain ⟨F, hF, hcard⟩ := h
  have hle := h' F hF
  omega

theorem AtLeast.exists (h : AtLeast p n) (hn : 0 < n) : ∃ i, p i := by
  obtain ⟨F, hF, hcard⟩ := h
  have hpos : 0 < F.card := by omega
  obtain ⟨i, hi⟩ := Finset.card_pos.1 hpos
  exact ⟨i, hF i hi⟩

/-- **The number itself**, where one party may have changed. -/
theorem ncard_change [DecidablePred p] [DecidablePred q] (hfin : {i | p i}.Finite) (h : ∀ i, i ≠ a → (q i ↔ p i)) :
    {i | q i}.ncard + (if p a then 1 else 0) = {i | p i}.ncard + if q a then 1 else 0 := by
  have hrest : {i | q i} \ {a} = {i | p i} \ {a} := by
    ext i
    exact ⟨fun hi => ⟨(h i hi.2).1 hi.1, hi.2⟩, fun hi => ⟨(h i hi.2).2 hi.1, hi.2⟩⟩
  have hcount : ∀ (r : ι → Prop) [DecidablePred r], {i | r i}.Finite →
      {i | r i}.ncard = ({i | r i} \ {a}).ncard + if r a then 1 else 0 := by
    intro r _ hr
    split
    next ha => exact (Set.ncard_sdiff_singleton_add_one (s := {i | r i}) ha hr).symm
    next ha => rw [Set.sdiff_singleton_eq_self (s := {i | r i}) ha, add_zero]
  have hq : {i | q i}.Finite := by
    refine (hfin.insert a).subset fun i hi => ?_
    by_cases hia : i = a
    · exact Or.inl hia
    · exact Or.inr ((h i hia).1 hi)
  rw [hcount p hfin, hcount q hq, hrest]
  omega

end Crowd
