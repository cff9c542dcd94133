import Mathlib.Data.List.Nodup
import Mathlib.Tactic.Common

/-!
# A bounded table that forgets what was least recently used

A list of keyed entries, the most recently used first: no key twice, no more than
`capacity` of them. `put` and `touch` bring an entry to the front, and `put` drops
the last one when the table is full.

What is under a key after an operation (`find_put`, `find_touch`, `find_erase`): a
write may cost another key its entry, and never gives it a different one.
-/

structure Lru (κ α : Type) where
  capacity : ℕ
  items : List (κ × α)
  nodup : (items.map Prod.fst).Nodup
  bounded : items.length ≤ capacity

namespace Lru

variable {κ α : Type} [DecidableEq κ]

/-! ## Lists without a key -/

/-- The entries under other keys. -/
def without (l : List (κ × α)) (k : κ) : List (κ × α) := l.filter fun p => p.1 ≠ k

/-- The entry under a key. -/
def entry (l : List (κ × α)) (k : κ) : Option (κ × α) := l.find? fun p => p.1 = k

omit [DecidableEq κ] in
/-- In a list whose keys differ, what is found under the key of an element is that element. -/
theorem find_of_nodup {β : Type} [DecidableEq β] (f : α → β) {l : List α} (h : (l.map f).Nodup) {a : α} (ha : a ∈ l) :
    l.find? (fun b => f b = f a) = some a := by
  cases hfind : l.find? fun b => f b = f a with
  | none =>
    have hnot := List.find?_eq_none.1 hfind a ha
    simp at hnot
  | some b =>
    have hkey : f b = f a := by simpa using List.find?_some hfind
    rw [List.inj_on_of_nodup_map h (List.mem_of_find?_eq_some hfind) ha hkey]

theorem entry_cons (p : κ × α) (l : List (κ × α)) (k : κ) :
    entry (p :: l) k = if p.1 = k then some p else entry l k := by
  unfold entry
  rw [List.find?_cons]
  by_cases h : p.1 = k <;> simp [h]

theorem entry_without (l : List (κ × α)) (k k' : κ) :
    entry (without l k) k' = if k' = k then none else entry l k' := by
  induction l with
  | nil => simp [entry, without]
  | cons p l ih =>
    unfold without at ih ⊢
    rw [List.filter_cons, entry_cons]
    by_cases hp : p.1 = k
    · have hskip : decide (p.1 ≠ k) = false := by simp [hp]
      rw [hskip]
      by_cases hk : k' = k
      · simpa [hk] using ih
      · have hne : p.1 ≠ k' := fun h => hk (h.symm.trans hp)
        simpa [hk, hne] using ih
    · have hkeep : decide (p.1 ≠ k) = true := by simp [hp]
      rw [hkeep, if_pos rfl, entry_cons, ih]
      by_cases hk : p.1 = k'
      · have hne : k' ≠ k := fun h => hp (hk.trans h)
        simp [hk, hne]
      · simp [hk]

theorem nodup_cons_without {l : List (κ × α)} (h : (l.map Prod.fst).Nodup) (k : κ) (a : α) :
    (((k, a) :: without l k).map Prod.fst).Nodup := by
  have hsub : List.Sublist ((without l k).map Prod.fst) (l.map Prod.fst) := List.filter_sublist.map _
  rw [List.map_cons, List.nodup_cons]
  refine ⟨?_, h.sublist hsub⟩
  intro hmem
  obtain ⟨p, hp, hpk⟩ := List.mem_map.1 hmem
  have hne := (List.mem_filter.1 hp).2
  simp [hpk] at hne

theorem length_without_lt {l : List (κ × α)} {k : κ} {p : κ × α} (h : entry l k = some p) :
    (without l k).length < l.length := by
  have hmem : p ∈ l := List.mem_of_find?_eq_some h
  have hkey : p.1 = k := by simpa using List.find?_some h
  refine List.length_filter_lt_length_iff_exists.2 ⟨p, hmem, ?_⟩
  simp [hkey]

/-- A list without its last entry: the entry under a key is still there, or gone. -/
theorem entry_dropLast (l : List (κ × α)) (k : κ) : entry l.dropLast k = entry l k ∨ entry l.dropLast k = none := by
  rcases List.eq_nil_or_concat l with rfl | ⟨l', p, rfl⟩
  · exact Or.inl rfl
  · rw [List.concat_eq_append, List.dropLast_concat]
    unfold entry
    rw [List.find?_append]
    cases List.find? (fun p => decide (p.1 = k)) l' with
    | none => exact Or.inr rfl
    | some q => exact Or.inl rfl

/-! ## The table -/

def empty (capacity : ℕ) : Lru κ α := ⟨capacity, [], List.nodup_nil, Nat.zero_le _⟩

def find (c : Lru κ α) (k : κ) : Option α := (entry c.items k).map Prod.snd

def erase (c : Lru κ α) (k : κ) : Lru κ α :=
  { c with
    items := without c.items k
    nodup := c.nodup.sublist (List.filter_sublist.map _)
    bounded := Nat.le_trans (List.length_filter_le _ _) c.bounded }

/-- Bring the entry under a key, if there is one, to the front. -/
def touch (c : Lru κ α) (k : κ) : Lru κ α :=
  match h : entry c.items k with
  | none => c
  | some p =>
    { c with
      items := (k, p.2) :: without c.items k
      nodup := nodup_cons_without c.nodup k p.2
      bounded := Nat.le_trans (length_without_lt h) c.bounded }

/-- Put an entry at the front, in place of the one its key had; what no longer fits
is dropped from the end. -/
def put (c : Lru κ α) (k : κ) (a : α) : Lru κ α :=
  let items := (k, a) :: without c.items k
  if h : items.length ≤ c.capacity then
    { c with items := items, nodup := nodup_cons_without c.nodup k a, bounded := h }
  else
    { c with
      items := items.dropLast
      nodup := (nodup_cons_without c.nodup k a).sublist ((List.dropLast_sublist _).map _)
      bounded := by
        have hlen : (without c.items k).length ≤ c.items.length := List.length_filter_le _ _
        have hbound := c.bounded
        simp only [items, List.length_dropLast, List.length_cons]
        omega }

/-- What `touch` leaves of a key that is there. -/
theorem touch_items {c : Lru κ α} {k : κ} {p : κ × α} (h : entry c.items k = some p) :
    (c.touch k).items = (k, p.2) :: without c.items k ∧ (c.touch k).capacity = c.capacity := by
  unfold touch
  split
  next hnone =>
    rw [h] at hnone
    cases hnone
  next q hq =>
    rw [h] at hq
    rw [Option.some.inj hq]
    exact ⟨rfl, rfl⟩

/-- What `put` leaves: the new entry at the front, and the last one dropped if that is
one too many. -/
theorem put_items (c : Lru κ α) (k : κ) (a : α) :
    (c.put k a).capacity = c.capacity ∧
      (c.put k a).items = if (without c.items k).length + 1 ≤ c.capacity then (k, a) :: without c.items k
        else ((k, a) :: without c.items k).dropLast := by
  unfold put
  dsimp only
  split
  next h => exact ⟨rfl, (if_pos h).symm⟩
  next h => exact ⟨rfl, (if_neg h).symm⟩

/-- Without a key that is not there, nothing is missing. -/
theorem without_of_not_mem {l : List (κ × α)} {k : κ} (h : entry l k = none) : without l k = l := by
  unfold without
  rw [List.filter_eq_self]
  intro p hp
  have hne := List.find?_eq_none.1 h p hp
  simpa using hne

theorem entry_eq_none {l : List (κ × α)} {k : κ} : entry l k = none ↔ k ∉ l.map Prod.fst := by
  unfold entry
  rw [List.find?_eq_none, List.mem_map]
  simp only [decide_eq_true_eq, not_exists, not_and]

/-- A key that is there, or room for one more: nothing is dropped. -/
theorem put_room {c : Lru κ α} {k : κ} (h : k ∈ c.items.map Prod.fst ∨ c.items.length < c.capacity) (a : α) :
    (c.put k a).items = (k, a) :: without c.items k := by
  rw [(put_items c k a).2, if_pos]
  have hbounded := c.bounded
  have hle : (without c.items k).length ≤ c.items.length := List.length_filter_le _ _
  by_cases hk : k ∈ c.items.map Prod.fst
  · obtain ⟨p, hp⟩ := Option.ne_none_iff_exists'.1 (mt entry_eq_none.1 (not_not_intro hk))
    have hlt := length_without_lt hp
    omega
  · have hroom := h.resolve_left hk
    omega

/-- A new key in a full table: the last entry makes room for it. -/
theorem put_full {c : Lru κ α} {k : κ} (hk : k ∉ c.items.map Prod.fst) (hfull : c.capacity ≤ c.items.length) (a : α) :
    (c.put k a).items = ((k, a) :: c.items).dropLast := by
  rw [(put_items c k a).2, without_of_not_mem (entry_eq_none.2 hk), if_neg (by omega)]

theorem find_erase (c : Lru κ α) (k k' : κ) : (c.erase k).find k' = if k' = k then none else c.find k' := by
  unfold find erase
  rw [entry_without]
  split <;> rfl

/-- **Using an entry changes no entry.** -/
theorem find_touch (c : Lru κ α) (k k' : κ) : (c.touch k).find k' = c.find k' := by
  unfold touch
  split
  next => rfl
  next p h =>
    have hkey : p.1 = k := by simpa using List.find?_some h
    unfold find
    rw [entry_cons, entry_without]
    by_cases hk : k = k'
    · subst hk
      rw [if_pos rfl, h]
      rfl
    · rw [if_neg hk, if_neg (Ne.symm hk)]

/-- **What a write leaves under a key**: the new entry, or the one there was; or, where
it did not fit, nothing. -/
theorem find_put (c : Lru κ α) (k k' : κ) (a : α) :
    (c.put k a).find k' = (if k' = k then some a else c.find k') ∨ (c.put k a).find k' = none := by
  -- before anything is dropped
  have hfront : (entry ((k, a) :: without c.items k) k').map Prod.snd = if k' = k then some a else c.find k' := by
    rw [entry_cons, entry_without]
    by_cases hk : k' = k
    · rw [if_pos hk.symm, if_pos hk]
      rfl
    · rw [if_neg (Ne.symm hk), if_neg hk, if_neg hk]
      rfl
  unfold put
  dsimp only
  split
  next =>
    left
    rw [← hfront]
    rfl
  next =>
    rw [← hfront]
    unfold find
    dsimp only
    rcases entry_dropLast ((k, a) :: without c.items k) k' with h | h
    · exact Or.inl (by rw [h])
    · exact Or.inr (by rw [h]; rfl)

end Lru
