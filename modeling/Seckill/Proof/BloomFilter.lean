import Seckill.Lib.Bloom
import Seckill.Spec.RebuildBloom
import Mathlib.Data.Nat.ModEq

/-!
# The filter as a set of marks

The packed bits of a `BloomFilter` are a set of marked positions (`marks`), and
`add` and `maybeContains` are insertion and test of the abstract filter
(`marks_add`, `maybeContains_iff`). So the filter built from a list of ids lets
every one of them through (`bloomAllows_fresh`), and it lets nothing through but what
their positions cover (`maybeContains_adds`).
-/

namespace Seckill

namespace BloomFilter

variable {f : BloomFilter}

/-- The bit a position names is set. -/
def marked (f : BloomFilter) (p : UInt64) : Prop :=
  Bits.bitAt f.bits (p >>> 6).toNat (p.toNat % 64) = true

/-- The marked positions. -/
def marks (f : BloomFilter) : Set UInt64 := {p | p < f.bitsCount ∧ f.marked p}

/-- The positions of `x` in a filter like `f`. -/
def positions (f : BloomFilter) (x : UInt64) : List UInt64 := (List.range f.hashes).map (f.index x)

theorem toNat_shiftRight_six (p : UInt64) : (p >>> 6).toNat = p.toNat / 64 := by
  rw [UInt64.toNat_shiftRight, show (6 : UInt64).toNat % 64 = 6 from rfl, Nat.shiftRight_eq_div_pow]

/-- Different positions are different bits. -/
theorem word_bit_inj {p q : UInt64} (h : (p >>> 6).toNat = (q >>> 6).toNat ∧ p.toNat % 64 = q.toNat % 64) :
    p = q := by
  rw [toNat_shiftRight_six, toNat_shiftRight_six] at h
  apply UInt64.toNat_inj.1
  omega

theorem index_lt (hf : f.ready = true) (x : UInt64) (i : ℕ) : f.index x i < f.bitsCount := by
  apply UInt64.mod_lt
  simpa [ready] using hf

/-- A position within the filter is in one of its words. -/
theorem word_lt {p : UInt64} (hp : p < f.bitsCount) : (p >>> 6).toNat < f.bits.size := by
  have hlt : p.toNat < f.bitsCount.toNat := UInt64.lt_iff_toNat_lt.1 hp
  have hcovers := f.covers
  rw [toNat_shiftRight_six]
  omega

theorem marked_setBit {q : UInt64} (hq : q < f.bitsCount) (p : UInt64) :
    (f.setBit q).marked p ↔ f.marked p ∨ p = q := by
  unfold marked setBit
  rw [Bits.bitAt_modify (word_lt hq)]
  simp only [Bool.or_eq_true, decide_eq_true_eq]
  constructor
  · rintro (h | h)
    · exact Or.inl h
    · exact Or.inr (word_bit_inj h).symm
  · rintro (h | rfl)
    · exact Or.inl h
    · exact Or.inr ⟨rfl, rfl⟩

theorem marks_setBit {q : UInt64} (hq : q < f.bitsCount) : (f.setBit q).marks = f.marks ∪ {q} := by
  ext p
  change (p < f.bitsCount ∧ (f.setBit q).marked p) ↔ (p < f.bitsCount ∧ f.marked p) ∨ p = q
  rw [marked_setBit hq]
  constructor
  · rintro ⟨hp, h | h⟩
    · exact Or.inl ⟨hp, h⟩
    · exact Or.inr h
  · rintro (⟨hp, h⟩ | rfl)
    · exact ⟨hp, Or.inl h⟩
    · exact ⟨hq, Or.inr rfl⟩

theorem testBit_eq_true {p : UInt64} : f.testBit p = true ↔ f.marked p := by
  unfold testBit marked Bits.bitAt
  rw [decide_eq_true_iff, ne_eq, Bits.and_mask_eq_zero, Bool.not_eq_false]

/-- Setting bits changes nothing else of the filter. -/
theorem setBits_config (ps : List UInt64) (f : BloomFilter) :
    (ps.foldl setBit f).bitsCount = f.bitsCount ∧ (ps.foldl setBit f).hashes = f.hashes := by
  induction ps generalizing f with
  | nil => exact ⟨rfl, rfl⟩
  | cons p ps ih => exact ih (f.setBit p)

theorem marks_setBits {ps : List UInt64} (hps : ∀ p ∈ ps, p < f.bitsCount) :
    (ps.foldl setBit f).marks = f.marks ∪ {p | p ∈ ps} := by
  induction ps generalizing f with
  | nil => simp
  | cons p ps ih =>
    have hp := hps p List.mem_cons_self
    have htail := ih (f := f.setBit p) fun q hq => hps q (List.mem_cons_of_mem p hq)
    rw [List.foldl_cons, htail, marks_setBit hp, Set.union_assoc]
    congr 1
    ext q
    simp

theorem add_config (f : BloomFilter) (x : UInt64) :
    (f.add x).bitsCount = f.bitsCount ∧ (f.add x).hashes = f.hashes := by
  unfold add
  split
  · exact ⟨rfl, rfl⟩
  · exact setBits_config _ f

theorem positions_add (f : BloomFilter) (x : UInt64) : (f.add x).positions = f.positions := by
  obtain ⟨hbits, hhashes⟩ := add_config f x
  funext y
  unfold positions index
  rw [hbits, hhashes]

theorem ready_add (f : BloomFilter) (x : UInt64) : (f.add x).ready = f.ready := by
  unfold ready
  rw [(add_config f x).1]

/-- **`add` is insertion.** -/
theorem marks_add (hf : f.ready = true) (x : UInt64) : (f.add x).marks = Bloom.insert f.positions f.marks x := by
  -- the positions are within the filter, so no write is lost
  have hps : ∀ p ∈ f.positions x, p < f.bitsCount := by
    intro p hp
    obtain ⟨i, -, rfl⟩ := List.mem_map.1 hp
    exact index_lt hf x i
  unfold add
  rw [if_neg (by simp [hf])]
  exact marks_setBits hps

/-- **`maybeContains` is the test.** -/
theorem maybeContains_iff (hf : f.ready = true) (x : UInt64) :
    f.maybeContains x = true ↔ Bloom.Passes f.positions f.marks x := by
  unfold maybeContains
  rw [if_neg (by simp [hf]), List.all_eq_true]
  constructor
  · intro h p hp
    obtain ⟨i, -, rfl⟩ := List.mem_map.1 hp
    exact ⟨index_lt hf x i, testBit_eq_true.1 (h _ hp)⟩
  · intro h p hp
    exact testBit_eq_true.2 (h p hp).2

/-- The filter after `add`s is the abstract filter of the same elements. -/
theorem marks_foldl (hf : f.ready = true) (xs : List UInt64) :
    (xs.foldl add f).ready = true ∧ (xs.foldl add f).positions = f.positions ∧
      (xs.foldl add f).marks = xs.foldl (Bloom.insert f.positions) f.marks := by
  induction xs generalizing f with
  | nil => exact ⟨hf, rfl, rfl⟩
  | cons x xs ih =>
    obtain ⟨hready, hpos, hmarks⟩ := ih (f := f.add x) (by rw [ready_add, hf])
    rw [positions_add] at hpos hmarks
    rw [marks_add hf] at hmarks
    exact ⟨hready, hpos, hmarks⟩

/-! ## The filter of a list of elements -/

/-- The filter after `add` of every element of a list. -/
def ofList (p : Shape) (xs : List UInt64) : BloomFilter := xs.foldl add (create p)

/-- The `i`-th position of `x` among `m` bits, in numbers. -/
def pos (m : ℕ) (x : UInt64) (i : ℕ) : ℕ := ((splitmix64 x).toNat + i * (h2 x).toNat) % 2 ^ 64 % m

variable {p : Shape} {xs : List UInt64}

theorem index_toNat (f : BloomFilter) (x : UInt64) (i : ℕ) : (f.index x i).toNat = pos f.bitsCount.toNat x i := by
  have hi : i.toUInt64.toNat = i % 2 ^ 64 := UInt64.toNat_ofNat'
  -- the wrapped product and the wrapped sum are the exact ones modulo the word
  have hmul : i % 2 ^ 64 * (h2 x).toNat ≡ i * (h2 x).toNat [MOD 2 ^ 64] := (Nat.mod_modEq i _).mul_right _
  have hsum : (splitmix64 x).toNat + i % 2 ^ 64 * (h2 x).toNat % 2 ^ 64 ≡
      (splitmix64 x).toNat + i * (h2 x).toNat [MOD 2 ^ 64] := ((Nat.mod_modEq _ _).trans hmul).add_left _
  unfold index pos
  rw [UInt64.toNat_mod, UInt64.toNat_add, UInt64.toNat_mul, hi, hsum]

theorem ready_create (hm : 1 ≤ p.bitsCount.toNat) : (create p).ready = true :=
  decide_eq_true (UInt64.lt_iff_toNat_lt.2 hm)

/-- A new filter has no mark. -/
theorem marks_create (p : Shape) : (create p).marks = ∅ := by
  refine Set.eq_empty_of_forall_notMem fun q hq => ?_
  have hbit := hq.2
  unfold marked create at hbit
  rw [Bits.bitAt_replicate] at hbit
  cases hbit

/-- **The packed bits are the abstract filter of the list.** -/
theorem ofList_refines (hm : 1 ≤ p.bitsCount.toNat) (xs : List UInt64) :
    (ofList p xs).ready = true ∧ (ofList p xs).positions = (create p).positions ∧
      (ofList p xs).marks = Bloom.ofList (create p).positions xs := by
  obtain ⟨hready, hpos, hmarks⟩ := marks_foldl (ready_create hm) xs
  rw [marks_create] at hmarks
  exact ⟨hready, hpos, hmarks⟩

/-- A position of the filter is a number. -/
theorem mem_positions (x q : UInt64) :
    q ∈ (create p).positions x ↔ ∃ i < p.hashes, pos p.bitsCount.toNat x i = q.toNat := by
  unfold positions
  rw [List.mem_map]
  constructor
  · rintro ⟨i, hi, rfl⟩
    exact ⟨i, List.mem_range.1 hi, (index_toNat (create p) x i).symm⟩
  · rintro ⟨i, hi, hq⟩
    exact ⟨i, List.mem_range.2 hi, UInt64.toNat_inj.1 ((index_toNat (create p) x i).trans hq)⟩

/-- What passes, in numbers. -/
theorem passes_iff_pos (xs : List UInt64) (y : UInt64) :
    Bloom.Passes (create p).positions (Bloom.ofList (create p).positions xs) y ↔
      ∀ i < p.hashes, ∃ x ∈ xs, ∃ j < p.hashes, pos p.bitsCount.toNat x j = pos p.bitsCount.toNat y i := by
  rw [Bloom.passes_ofList_iff]
  constructor
  · intro h i hi
    have hindex := index_toNat (create p) y i
    obtain ⟨x, hx, hq⟩ := h ((create p).index y i) ((mem_positions y _).2 ⟨i, hi, hindex.symm⟩)
    obtain ⟨j, hj, hpos⟩ := (mem_positions x _).1 hq
    exact ⟨x, hx, j, hj, hpos.trans hindex⟩
  · intro h q hq
    obtain ⟨i, hi, hqi⟩ := (mem_positions y q).1 hq
    obtain ⟨x, hx, j, hj, hji⟩ := h i hi
    exact ⟨x, hx, (mem_positions x q).2 ⟨j, hj, hji.trans hqi⟩⟩

theorem maybeContains_ofList (hm : 1 ≤ p.bitsCount.toNat) (xs : List UInt64) (y : UInt64) :
    (ofList p xs).maybeContains y = true ↔
      Bloom.Passes (create p).positions (Bloom.ofList (create p).positions xs) y := by
  obtain ⟨hready, hpos, hmarks⟩ := ofList_refines hm xs
  rw [maybeContains_iff hready, hpos, hmarks]

/-- The answers depend on the set of the elements. -/
theorem maybeContains_congr (hm : 1 ≤ p.bitsCount.toNat) {xs ys : List UInt64} (h : ∀ x, x ∈ xs ↔ x ∈ ys)
    (y : UInt64) : (ofList p ys).maybeContains y = (ofList p xs).maybeContains y := by
  rw [Bool.eq_iff_iff, maybeContains_ofList hm xs, maybeContains_ofList hm ys, Bloom.ofList_congr h]

/-- **The answers of the filter**, for any number of bits and of hashes and any list of
elements: a query passes exactly when each of its positions is a position of an element.
So nothing that was added is turned away, the order of the elements and their repetitions
do not matter, and every position is in one of the words. -/
theorem maybeContains_adds (p : Shape) (hm : 1 ≤ p.bitsCount.toNat) (xs : List UInt64) (y : UInt64) :
    ((ofList p xs).maybeContains y = true ↔
        ∀ i < p.hashes, ∃ x ∈ xs, ∃ j < p.hashes, pos p.bitsCount.toNat x j = pos p.bitsCount.toNat y i) ∧
      (y ∈ xs → (ofList p xs).maybeContains y = true) ∧
      (∀ ys, (∀ x, x ∈ xs ↔ x ∈ ys) → (ofList p ys).maybeContains y = (ofList p xs).maybeContains y) ∧
      ∀ x i, ((ofList p xs).index x i >>> 6).toNat < (ofList p xs).bits.size := by
  have hready := (ofList_refines hm xs).1
  have hiff := maybeContains_ofList hm xs y
  refine ⟨hiff.trans (passes_iff_pos xs y), fun hy => ?_, fun ys hys => maybeContains_congr hm hys y, fun x i => ?_⟩
  · exact hiff.2 (Bloom.passes_ofList hy)
  · exact word_lt (index_lt hready x i)

/-- A shape whose bits do not fill the last word. -/
def seventy : Shape := ⟨70, 3, by decide⟩

theorem maybeContains_adds_seventy :
    (ofList seventy [7, 8, 7]).maybeContains 8 = true ∧
      (ofList seventy [8, 7]).maybeContains 8 = (ofList seventy [7, 8, 7]).maybeContains 8 := by
  obtain ⟨-, hadded, hset, -⟩ := maybeContains_adds seventy (by decide) [7, 8, 7] 8
  exact ⟨hadded (by decide), hset [8, 7] fun x => by simp [or_comm]⟩

end BloomFilter

open BloomFilter

/-- The filter of a snapshot. -/
theorem RebuildBloom.fresh_eq (cfg : Config) (ids : List Int64) :
    fresh cfg ids = ofList cfg.shape (ids.map Int64.toUInt64) := by
  rw [fresh, ofList, List.foldl_map]

/-- **No false negatives**: the filter of a snapshot lets every id of it through. -/
theorem RebuildBloom.bloomAllows_fresh (cfg : Config) {ids : List Int64} {skuId : Int64} (h : skuId ∈ ids) :
    bloomAllows (some (fresh cfg ids)) skuId = true := by
  have hfresh : fresh cfg ids = (ids.map Int64.toUInt64).foldl add (.create cfg.shape) := fresh_eq cfg ids
  unfold bloomAllows
  by_cases hready : (BloomFilter.create cfg.shape).ready = true
  · obtain ⟨hr, hpos, hmarks⟩ := marks_foldl hready (ids.map Int64.toUInt64)
    rw [← hfresh] at hr hpos hmarks
    simp only [hr, not_true_eq_false, if_false]
    rw [maybeContains_iff hr, hpos, hmarks]
    exact Bloom.passes_foldl (List.mem_map_of_mem h) _
  · -- a filter that is not ready lets everything through
    have hr : ∀ (xs : List UInt64) (f : BloomFilter), (xs.foldl add f).ready = f.ready := by
      intro xs
      induction xs with
      | nil => exact fun f => rfl
      | cons x xs ih => exact fun f => (ih (f.add x)).trans (ready_add f x)
    rw [hfresh]
    simp [hr, hready]

end Seckill
