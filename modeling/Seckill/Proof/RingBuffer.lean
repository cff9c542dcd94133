import Seckill.Lib.Ring
import Seckill.Lib.Run
import Seckill.Spec.RingBuffer

/-!
# The ring buffer is a bounded queue

`Holds b l`: the buffer holds the items of `l`, the oldest first. A push appends one or,
if there are `capacity` already, counts it as dropped (`push_cases`); a batch is all of
them (`waitAndPopBatch_eq`). No operation leaves the array.

Over a whole run (`ringBuffer_fifo`) what was popped and what waits is what was accepted,
in order; what was refused is in `dropped()` (`droppedCounter_run`).
-/

namespace Seckill.RingBuffer

open Ring

variable {T : Type} {capacity : ℕ} {b : RingBuffer T capacity} {l : List T}

structure Holds (b : RingBuffer T capacity) (l : List T) : Prop where
  size : b.buf.size = capacity
  head : 0 < capacity → b.head < capacity
  count : b.count = l.length
  window : Window b.buf b.head l

theorem holds_new [Inhabited T] : Holds (.new : RingBuffer T capacity) [] :=
  ⟨by simp [new], id, rfl, .nil _ _⟩

theorem Holds.requestStop (h : Holds b l) : Holds b.requestStop l := ⟨h.size, h.head, h.count, h.window⟩

theorem Holds.count_pos (h : Holds b l) : b.count ≠ 0 ↔ l ≠ [] := by
  rw [h.count]
  exact List.length_eq_zero_iff.not

/-- **A push**: a full buffer drops the item, another one takes it. -/
theorem push_cases (h : Holds b l) (item : T) :
    (b.count = capacity ∧ b.push item = some (false, { b with dropped := b.dropped + 1 }) ∧
        ({ b with dropped := b.dropped + 1 } : RingBuffer T capacity).Holds l) ∨
      b.count ≠ capacity ∧ ∃ b', b.push item = some (true, b') ∧ Holds b' (l ++ [item]) ∧ b'.dropped = b.dropped ∧
        b'.stop = b.stop := by
  by_cases hfull : b.count = capacity
  · exact Or.inl ⟨hfull, if_pos hfull, h.size, h.head, h.count, h.window⟩
  · right
    -- a buffer that is not full has a slot, so the index is in the array
    have hfits := h.window.fits
    rw [← h.count, h.size] at hfits
    have hpos : 0 < capacity := by omega
    have hslot : (b.head + b.count) % capacity < b.buf.size := by
      rw [h.size]
      exact Nat.mod_lt _ hpos
    refine ⟨hfull, _, (if_neg hfull).trans (if_pos hslot), ⟨?_, fun _ => h.head hpos, ?_, ?_⟩, rfl, rfl⟩
    · rw [Array.size_setIfInBounds]
      exact h.size
    · rw [List.length_append, ← h.count]
      rfl
    · have hlt : l.length < b.buf.size := by
        rw [← h.count, h.size]
        omega
      have hsnoc := h.window.snoc hlt item
      rwa [← h.count, h.size] at hsnoc

/-- The loop takes what the window holds. -/
theorem popLoop_eq {buf : Array T} (hsize : buf.size = capacity) :
    ∀ {l : List T} {head : ℕ}, (0 < capacity → head < capacity) → Window buf head l →
      ∃ head', popLoop capacity buf l.length head = some (l, head') ∧ (0 < capacity → head' < capacity) := by
  intro l
  -- on what waits, wherever the head is
  induction l with
  | nil => exact fun hhead _ => ⟨_, rfl, hhead⟩
  | cons item l ih =>
    intro head hhead h
    have hpos : 0 < capacity := by
      have hfits := h.fits
      rw [hsize, List.length_cons] at hfits
      omega
    have hfirst : buf[head]? = some item := h.first (by rw [hsize]; exact hhead hpos)
    have htail := h.tail
    rw [hsize] at htail
    obtain ⟨head', hloop, hhead'⟩ := ih (fun _ => Nat.mod_lt _ hpos) htail
    refine ⟨head', ?_, hhead'⟩
    simp only [List.length_cons, popLoop, hfirst, hloop, Option.map_some]

/-- **A batch** is everything that waits. -/
theorem waitAndPopBatch_eq (h : Holds b l) :
    ∃ b', b.waitAndPopBatch = some (l, b') ∧ Holds b' [] ∧ b'.dropped = b.dropped ∧ b'.stop = b.stop := by
  obtain ⟨head', hloop, hhead'⟩ := popLoop_eq h.size h.head h.window
  rw [← h.count] at hloop
  unfold waitAndPopBatch
  rw [hloop]
  exact ⟨_, rfl, ⟨h.size, hhead', rfl, .nil _ _⟩, rfl, rfl⟩

/-- What the buffer holds is what it contains. -/
theorem Holds.content_eq (h : Holds b l) : b.content = l := by
  have hmap : (List.range b.count).map (fun i => b.buf[(b.head + i) % capacity]?) = l.map some := by
    refine List.ext_getElem (by simp [h.count]) fun i hi hi' => ?_
    rw [List.length_map] at hi'
    have hwindow := h.window.get i l[i] (List.getElem?_eq_getElem hi')
    rw [h.size] at hwindow
    rw [List.getElem_map, List.getElem_map, List.getElem_range, hwindow]
  calc b.content = ((List.range b.count).map fun i => b.buf[(b.head + i) % capacity]?).filterMap id :=
        by rw [List.filterMap_map]; rfl
    _ = (l.map some).filterMap id := by rw [hmap]
    _ = l.filterMap some := List.filterMap_map
    _ = l := List.filterMap_some

/-! ## Runs -/

open Machine

/-- The item a call puts into the buffer. -/
def accepts (b : RingBuffer T capacity) : Op T → Option T
  | .push item => (b.push item).bind fun p => if p.1 then some item else none
  | _ => none

/-- The batch a call takes. -/
def pops (b : RingBuffer T capacity) : Op T → Option (List T)
  | .waitAndPopBatch => b.waitAndPopBatch.map Prod.fst
  | _ => none

def isPush (_ : RingBuffer T capacity) : Op T → Bool
  | .push _ => true
  | _ => false

/-- **One call**: what it takes and what is left is what there was and what it puts in; a
push that puts nothing in is counted. -/
theorem step_holds (h : Holds b l) {op : Op T} {b' : RingBuffer T capacity} (hstep : b.step op = some b') :
    ∃ l', Holds b' l' ∧ (b.pops op).toList.flatten ++ l' = l ++ (b.accepts op).toList ∧
      b'.dropped + (b.accepts op).toList.length = b.dropped + (if b.isPush op then 1 else 0) ∧
      (b'.stop = true → b.stop = true ∨ op = .requestStop) := by
  cases op with
  | push item =>
    have hpops : b.pops (.push item) = none := rfl
    have hpush : b.isPush (.push item) = true := rfl
    unfold step at hstep
    unfold accepts
    rw [hpops, hpush]
    dsimp only at hstep ⊢
    rcases push_cases h item with ⟨-, heq, hholds⟩ | ⟨-, c, heq, hholds, hdropped, hstop⟩
    · rw [heq] at hstep ⊢
      cases hstep
      exact ⟨l, hholds, (List.append_nil l).symm, rfl, Or.inl⟩
    · rw [heq] at hstep ⊢
      cases hstep
      refine ⟨l ++ [item], hholds, rfl, ?_, fun hs => Or.inl (hstop.symm.trans hs)⟩
      rw [hdropped]
      rfl
  | waitAndPopBatch =>
    have haccepts : b.accepts .waitAndPopBatch = none := rfl
    have hpush : b.isPush .waitAndPopBatch = false := rfl
    obtain ⟨c, heq, hholds, hdropped, hstop⟩ := waitAndPopBatch_eq h
    unfold step at hstep
    unfold pops
    rw [haccepts, hpush]
    dsimp only at hstep ⊢
    split at hstep
    · rw [heq] at hstep ⊢
      cases hstep
      exact ⟨[], hholds, by simp, hdropped, fun hs => Or.inl (hstop.symm.trans hs)⟩
    · cases hstep
  | requestStop =>
    cases hstep
    exact ⟨l, h.requestStop, (List.append_nil l).symm, rfl, fun _ => Or.inr rfl⟩

section Runs

variable [Inhabited T]

/-- The items a run puts into a new buffer. -/
def accepted (capacity : ℕ) (es : List (Op T)) : List T := collect step accepts (.new : RingBuffer T capacity) es

/-- The batches it takes. -/
def popped (capacity : ℕ) (es : List (Op T)) : List (List T) := collect step pops (.new : RingBuffer T capacity) es

/-- The pushes of a run. -/
def pushes (capacity : ℕ) (es : List (Op T)) : ℕ := tally step isPush (.new : RingBuffer T capacity) es

/-- What a run leaves. -/
theorem run_holds {es : List (Op T)} (h : run step (.new : RingBuffer T capacity) es = some b) :
    Holds b b.content ∧ (popped capacity es).flatten ++ b.content = accepted capacity es ∧
      pushes capacity es = (accepted capacity es).length + b.dropped ∧ (b.stop = true → Op.requestStop ∈ es) := by
  refine run_trace (I := fun es b => Holds b b.content ∧ (popped capacity es).flatten ++ b.content = accepted capacity es ∧
    pushes capacity es = (accepted capacity es).length + b.dropped ∧ (b.stop = true → Op.requestStop ∈ es)) ?_ ?_ h
  · exact ⟨holds_new, rfl, rfl, fun hstop => by cases hstop⟩
  · rintro es b op b' hrun ⟨hholds, hfifo, hcount, hstop⟩ hstep
    obtain ⟨l', hholds', htaken, hdropped, hstop'⟩ := step_holds hholds hstep
    rw [hholds'.content_eq]
    unfold popped accepted at hfifo
    unfold pushes accepted at hcount
    unfold popped accepted pushes
    rw [collect_snoc op hrun, collect_snoc op hrun, tally_snoc op hrun]
    refine ⟨hholds', ?_, ?_, fun hs => ?_⟩
    · calc (collect step pops .new es ++ (b.pops op).toList).flatten ++ l'
          = (collect step pops .new es).flatten ++ ((b.pops op).toList.flatten ++ l') := by
            rw [List.flatten_append, List.append_assoc]
        _ = (collect step pops .new es).flatten ++ b.content ++ (b.accepts op).toList := by
            rw [htaken, List.append_assoc]
        _ = collect step accepts .new es ++ (b.accepts op).toList := by rw [hfifo]
    · rw [List.length_append]
      omega
    · rcases hstop' hs with hbefore | rfl
      · exact List.mem_append_left _ (hstop hbefore)
      · exact List.mem_append_right _ (List.mem_singleton_self _)

/-- **What `dropped()` answers after a run**: the pushes that were refused, modulo `2 ^ 64`. -/
theorem droppedCounter_run {es : List (Op T)} (h : run step (.new : RingBuffer T capacity) es = some b) :
    b.droppedCounter.toNat = (pushes capacity es - (accepted capacity es).length) % 2 ^ 64 := by
  obtain ⟨-, -, hcount, -⟩ := run_holds h
  unfold droppedCounter
  rw [hcount, Nat.add_sub_cancel_left, Nat.toUInt64_eq, UInt64.toNat_ofNat']

end Runs

end Seckill.RingBuffer
