import Mathlib.Tactic.Common

/-!
# Lists in a circular array

`Window cells head l`: from the slot `head` on, and on from slot zero after the last, the
array holds the list `l`. The list grows at its end by a write to the slot after it
(`Window.snoc`) and shrinks at its front by a step of `head` (`Window.tail`).
-/

namespace Ring

variable {α : Type*} {cells : Array α} {head : ℕ} {l : List α} {x : α}

structure Window (cells : Array α) (head : ℕ) (l : List α) : Prop where
  fits : l.length ≤ cells.size
  get : ∀ i y, l[i]? = some y → cells[(head + i) % cells.size]? = some y

/-- Within one round the slots differ. -/
theorem slot_ne {i j n : ℕ} (head : ℕ) (hij : i < j) (hj : j < n) : (head + i) % n ≠ (head + j) % n := by
  intro h
  have hdvd : n ∣ (head + j) - (head + i) := Nat.dvd_of_mod_eq_zero (Nat.sub_mod_eq_zero_of_mod_eq h.symm)
  have hle := Nat.le_of_dvd (by omega) hdvd
  omega

theorem Window.nil (cells : Array α) (head : ℕ) : Window cells head [] :=
  ⟨Nat.zero_le _, fun i y h => by cases h⟩

theorem Window.snoc (h : Window cells head l) (hlt : l.length < cells.size) (x : α) :
    Window (cells.setIfInBounds ((head + l.length) % cells.size) x) head (l ++ [x]) := by
  have hslot : (head + l.length) % cells.size < cells.size := Nat.mod_lt _ (by omega)
  refine ⟨by rw [List.length_append, Array.size_setIfInBounds]; exact hlt, fun i y hi => ?_⟩
  rw [Array.size_setIfInBounds]
  rcases Nat.lt_trichotomy i l.length with hlt' | rfl | hgt
  · -- an older element is in another slot
    rw [List.getElem?_append_left hlt'] at hi
    rw [Array.getElem?_setIfInBounds_ne (slot_ne head hlt' hlt).symm]
    exact h.get i y hi
  · -- the new one is in the slot that was written
    rw [List.getElem?_concat_length] at hi
    rw [Array.getElem?_setIfInBounds_self_of_lt hslot]
    exact hi
  · rw [List.getElem?_eq_none (by rw [List.length_append]; exact hgt)] at hi
    cases hi

theorem Window.first (h : Window cells head (x :: l)) (hhead : head < cells.size) : cells[head]? = some x := by
  have hget := h.get 0 x rfl
  rwa [Nat.add_zero, Nat.mod_eq_of_lt hhead] at hget

theorem Window.tail (h : Window cells head (x :: l)) : Window cells ((head + 1) % cells.size) l := by
  refine ⟨Nat.le_of_succ_le h.fits, fun i y hi => ?_⟩
  -- the element that was `i + 1` after the old head is `i` after the new one
  rw [Nat.mod_add_mod, Nat.add_assoc, Nat.add_comm 1 i]
  exact h.get (i + 1) y hi

end Ring
