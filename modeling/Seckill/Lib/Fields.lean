import Mathlib.Data.Fintype.Defs
import Mathlib.Tactic.Common

/-!
# Texts made of fields

A text that is concatenated from fields is not escaped: a field can contain the separator.
What can still be read off it is the first field when it has no separator (`first_inj`),
the last one when it has none (`last_inj`), and a tag at the front when no tag begins with
another one (`PrefixFree`).
-/

namespace Fields

variable {α ι : Type*} {sep : α} {a a' s s' : List α}

/-- **The first field**, when it has no separator. -/
theorem first_inj (ha : sep ∉ a) (ha' : sep ∉ a') (h : a ++ sep :: s = a' ++ sep :: s') : a = a' ∧ s = s' := by
  induction a generalizing a' with
  | nil =>
    cases a' with
    | nil => exact ⟨rfl, (List.cons.inj h).2⟩
    | cons b a' =>
      obtain ⟨rfl, -⟩ := List.cons.inj h
      exact absurd List.mem_cons_self ha'
  | cons b a ih =>
    cases a' with
    | nil =>
      obtain ⟨rfl, -⟩ := List.cons.inj h
      exact absurd List.mem_cons_self ha
    | cons b' a' =>
      obtain ⟨rfl, hrest⟩ := List.cons.inj h
      obtain ⟨rfl, rfl⟩ := ih (List.not_mem_of_not_mem_cons ha) (List.not_mem_of_not_mem_cons ha') hrest
      exact ⟨rfl, rfl⟩

/-- **The last field**, when it has no separator, whatever the fields before it are. -/
theorem last_inj (hs : sep ∉ s) (hs' : sep ∉ s') (h : a ++ sep :: s = a' ++ sep :: s') : a = a' ∧ s = s' := by
  have hreverse := congrArg List.reverse h
  simp only [List.reverse_append, List.reverse_cons, List.append_assoc, List.singleton_append] at hreverse
  obtain ⟨hlast, hfront⟩ := first_inj (by rwa [List.mem_reverse]) (by rwa [List.mem_reverse]) hreverse
  exact ⟨List.reverse_inj.1 hfront, List.reverse_inj.1 hlast⟩

/-- No tag begins with another one. -/
def PrefixFree (tag : ι → List α) : Prop := ∀ i j, tag i <+: tag j → i = j

instance [Fintype ι] [DecidableEq ι] [DecidableEq α] (tag : ι → List α) : Decidable (PrefixFree tag) :=
  inferInstanceAs (Decidable (∀ i j, tag i <+: tag j → i = j))

/-- **A tagged text** determines its tag, and so the rest. -/
theorem PrefixFree.append_inj {tag : ι → List α} (htag : PrefixFree tag) {i j : ι} (h : tag i ++ s = tag j ++ s') :
    i = j ∧ s = s' := by
  have hij : i = j := by
    rcases List.prefix_or_prefix_of_prefix (List.prefix_append (tag i) s) (h ▸ List.prefix_append (tag j) s') with hp | hp
    · exact htag i j hp
    · exact (htag j i hp).symm
  subst hij
  exact ⟨rfl, List.append_cancel_left h⟩

end Fields
