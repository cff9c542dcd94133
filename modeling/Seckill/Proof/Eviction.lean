import Seckill.Proof.LocalLruCache

/-!
# Which entry of L1 is given up

A `put` of a new key into a full cache gives up the least recently used entry, whatever
the others' times are: an entry that is still alive may go while one that has expired
stays (`gives_up_live_entry`). `sparesLive_iff`: none goes so exactly when every `put` of
the run finds its key there, or room, or a last entry that has expired, or nothing that
has.
-/

namespace Seckill

namespace LocalLruCache

open Machine

variable {κ : Type} [DecidableEq κ] {second : ℤ} {c c' : Nodes κ} {r : Recency κ} {op : Op κ}

/-- **A live entry is given up only when there is nothing expired to clear**: when a `put`
loses an entry that has not expired, nothing in the cache has. -/
def SparesLive (second : ℤ) (c : Nodes κ) : Op κ → Prop
  | .put now key value ttlSeconds addr =>
    ∀ c', c.put second now key value ttlSeconds addr = some c' →
      ∀ p ∈ c.items, p.1 ∉ c'.items.map Prod.fst → now < p.2.expireAt → ∀ q ∈ c'.items, now < q.2.expireAt
  | _ => True

/-- Before the `put`: its key is there, or there is room, or the least recently used entry
has expired, or nothing has and nothing will at once. -/
def Clear (second : ℤ) (c : Nodes κ) : Op κ → Prop
  | .put now key _ ttlSeconds _ =>
    key ∈ c.items.map Prod.fst ∨ c.items.length < c.capacity_ ∨ (∃ p ∈ c.items.getLast?, p.2.expireAt ≤ now) ∨
      0 < ttlSeconds * second ∧ ∀ p ∈ c.items, now < p.2.expireAt
  | _ => True

/-- What a `put` leaves. -/
theorem put_items (h : Refines c r) {now : ℤ} {key : κ} {value : String} {ttlSeconds : ℤ} {addr : ℕ}
    (hput : c.put second now key value ttlSeconds addr = some c') :
    c'.items = (Lru.put r key ⟨value, now + ttlSeconds * second⟩).items := by
  have hcall : c.call second (.put now key value ttlSeconds addr) = some (none, c') := by
    unfold Nodes.call
    dsimp only
    rw [hput]
    rfl
  exact (call_reply second h hcall).2.items.symm

/-- A key that stays in the table. -/
theorem mem_keys_without {l : List (κ × Item)} {p : κ × Item} (hp : p ∈ l) (key : κ) (item : Item) :
    p.1 ∈ ((key, item) :: Lru.without l key).map Prod.fst := by
  by_cases hkey : p.1 = key
  · rw [hkey]
    exact List.mem_cons_self
  · refine List.mem_cons_of_mem _ (List.mem_map_of_mem (List.mem_filter.2 ⟨hp, ?_⟩))
    simpa using hkey

omit [DecidableEq κ] in
/-- Without the last entry, its key is the one that is lost. -/
theorem lost_iff {front : List (κ × Item)} {last : κ × Item} {key : κ} (item : Item)
    (hnodup : ((front ++ [last]).map Prod.fst).Nodup) (hkey : key ∉ (front ++ [last]).map Prod.fst) {p : κ × Item}
    (hp : p ∈ front ++ [last]) : p.1 ∉ ((key, item) :: front).map Prod.fst ↔ p = last := by
  rw [List.map_append, List.nodup_append] at hnodup
  constructor
  · intro hlost
    rcases List.mem_append.1 hp with hfront | hlast
    · exact absurd (List.mem_cons_of_mem _ (List.mem_map_of_mem hfront)) hlost
    · exact List.mem_singleton.1 hlast
  · rintro rfl hmem
    rcases List.mem_cons.1 hmem with hnew | hfront
    · have hlost : p.1 = key := hnew
      rw [← hlost] at hkey
      exact hkey (List.mem_map_of_mem hp)
    · exact hnodup.2.2 p.1 hfront p.1 (by simp) rfl

omit [DecidableEq κ] in
/-- A full cache spares its live entries exactly when the last one has expired, or nothing
has. -/
theorem spares_full_iff {front : List (κ × Item)} {last : κ × Item} {key : κ} (item : Item) (now : ℤ)
    (hnodup : ((front ++ [last]).map Prod.fst).Nodup) (hkey : key ∉ (front ++ [last]).map Prod.fst) :
    (∀ p ∈ front ++ [last], p.1 ∉ ((key, item) :: front).map Prod.fst → now < p.2.expireAt →
        ∀ q ∈ (key, item) :: front, now < q.2.expireAt) ↔
      last.2.expireAt ≤ now ∨ now < item.expireAt ∧ ∀ p ∈ front ++ [last], now < p.2.expireAt := by
  have hmem : last ∈ front ++ [last] := List.mem_append_right front (List.mem_singleton_self last)
  constructor
  · intro h
    by_cases hlast : last.2.expireAt ≤ now
    · exact Or.inl hlast
    · have hlive := h last hmem ((lost_iff item hnodup hkey hmem).2 rfl) (Int.not_le.1 hlast)
      refine Or.inr ⟨hlive (key, item) List.mem_cons_self, fun p hp => ?_⟩
      rcases List.mem_append.1 hp with hfront | hp
      · exact hlive p (List.mem_cons_of_mem _ hfront)
      · rw [List.mem_singleton.1 hp]
        exact Int.not_le.1 hlast
  · rintro h p hp hlost hlive q hq
    rw [(lost_iff item hnodup hkey hp).1 hlost] at hlive
    rcases h with hlast | ⟨hnew, hall⟩
    · exact absurd hlast (Int.not_le.2 hlive)
    · rcases List.mem_cons.1 hq with rfl | hfront
      · exact hnew
      · exact hall q (List.mem_append_left _ hfront)

/-- **One `put`.** -/
theorem put_spares_iff (h : Refines c r) {now : ℤ} {key : κ} {value : String} {ttlSeconds : ℤ} {addr : ℕ}
    (hput : c.put second now key value ttlSeconds addr = some c') :
    SparesLive second c (.put now key value ttlSeconds addr) ↔
      Clear second c (.put now key value ttlSeconds addr) := by
  have hitems := put_items h hput
  have hstep : SparesLive second c (.put now key value ttlSeconds addr) ↔
      ∀ p ∈ c.items, p.1 ∉ c'.items.map Prod.fst → now < p.2.expireAt → ∀ q ∈ c'.items, now < q.2.expireAt := by
    unfold SparesLive
    simp only [hput, Option.some.injEq, forall_eq']
  rw [hstep]
  unfold Clear
  by_cases hroom : key ∈ c.items.map Prod.fst ∨ c.items.length < c.capacity_
  · -- no entry is lost
    have hput' := Lru.put_room (c := r) (k := key) (by rwa [h.items, h.capacity]) ⟨value, now + ttlSeconds * second⟩
    rw [← hitems, h.items] at hput'
    constructor
    · intro _
      rcases hroom with hkey | hlt
      · exact Or.inl hkey
      · exact Or.inr (Or.inl hlt)
    · intro _ p hp hlost
      rw [hput'] at hlost
      exact absurd (mem_keys_without hp key _) hlost
  · -- the last one is lost, and the others stay behind the new one
    obtain ⟨hkey, hfull⟩ := not_or.1 hroom
    have hput' := Lru.put_full (c := r) (k := key) (by rwa [h.items])
      (by rw [h.items, h.capacity]; exact Nat.not_lt.1 hfull) ⟨value, now + ttlSeconds * second⟩
    rw [← hitems, h.items] at hput'
    have hnodup := r.nodup
    rw [h.items] at hnodup
    rcases List.eq_nil_or_concat c.items with hnil | ⟨front, last, hlast⟩
    · have hpos := h.pos
      rw [hnil] at hfull
      exact absurd hpos hfull
    · rw [List.concat_eq_append] at hlast
      have hback : c.items.getLast? = some last := by rw [hlast, List.getLast?_concat]
      rw [hlast, ← List.cons_append, List.dropLast_concat] at hput'
      rw [hput', hback, hlast]
      rw [hlast] at hkey hnodup
      have hnew : now < now + ttlSeconds * second ↔ 0 < ttlSeconds * second :=
        ⟨fun h => by omega, fun h => by omega⟩
      rw [spares_full_iff _ now hnodup hkey, hnew]
      have hnot : ¬(front ++ [last]).length < c.capacity_ := by rwa [hlast] at hfull
      simp only [hkey, hnot, Option.mem_some_iff, exists_eq_left', false_or]

/-- **One call.** -/
theorem step_spares_iff (h : Refines c r) (hstep : c.step second op = some c') :
    SparesLive second c op ↔ Clear second c op := by
  cases op with
  | get now key => exact Iff.rfl
  | del key => exact Iff.rfl
  | put now key value ttlSeconds addr =>
    obtain ⟨⟨reply, d⟩, hcall, rfl⟩ := Option.map_eq_some_iff.1 hstep
    obtain ⟨d', hput, -⟩ := Option.map_eq_some_iff.1 hcall
    exact put_spares_iff h hput

/-- **When L1 spares its live entries.** In every run, no `put` gives up a live entry
beside one that has expired exactly when every `put` finds its key in the cache, or room,
or a least recently used entry that has expired, or nothing that has (nor does what it
writes itself). -/
theorem sparesLive_iff (second : ℤ) (capacity : ℕ) (ops : List (Op κ)) (c : Nodes κ)
    (h : run (Nodes.step second) (.new capacity) ops = some c) :
    Meets (Nodes.step second) (SparesLive second) (.new capacity) ops ↔
      Meets (Nodes.step second) (Clear second) (.new capacity) ops := by
  -- both say the same of every step
  refine meets_iff fun d op htakes => ?_
  obtain ⟨pre, post, rfl, hpre⟩ := htakes
  obtain ⟨d', hd', -⟩ := run_cons.1 (run_rest h hpre)
  exact step_spares_iff (run_refines hpre).1 hd'

/-- The clock of the calls that read it. -/
def Op.clock : Op κ → Option ℤ
  | .get now _ => some now
  | .put now _ _ _ _ => some now
  | .del _ => none

/-- Two keys in a cache of two; the one that was put for a second is read last. -/
def lastRead : List (Op String) := [.put 0 "a" "x" 10 100, .put 0 "b" "y" 1 200, .get 900 "b"]

/-- A third key comes when that second is over. -/
def third : Op String := .put 5000 "c" "z" 10 300

/-- **A live entry goes while an expired one stays.** -/
theorem gives_up_live_entry :
    ((lastRead ++ [third]).filterMap Op.clock).Pairwise (· ≤ ·) ∧
      (∃ c, run (Nodes.step 1000) (.new 2) (lastRead ++ [third]) = some c) ∧
      ¬Meets (Nodes.step 1000) (SparesLive 1000) (.new 2) (lastRead ++ [third]) := by
  have hrun : ((run (Nodes.step 1000) (.new 2) lastRead).bind fun c =>
      (c.put 1000 5000 "c" "z" 10 300).map fun c' => (c.items, c'.items)) =
        some ([("b", ⟨"y", 1000⟩), ("a", ⟨"x", 10000⟩)], [("c", ⟨"z", 15000⟩), ("b", ⟨"y", 1000⟩)]) := by
    decide +kernel
  obtain ⟨c, hc, hmap⟩ := Option.bind_eq_some_iff.1 hrun
  obtain ⟨c', hput, hitems⟩ := Option.map_eq_some_iff.1 hmap
  obtain ⟨hbefore, hafter⟩ := Prod.mk.inj hitems
  refine ⟨by decide, ⟨c', run_snoc.2 ⟨c, hc, ?_⟩⟩, fun hmeets => ?_⟩
  · unfold Nodes.step Nodes.call third
    dsimp only
    rw [hput]
    rfl
  · have hspares : SparesLive 1000 c third := ((meets_append hmeets).2 c hc).1
    -- "a" is alive at 5000 and gone, "b" has expired and is still there
    have hlive := hspares c' hput ("a", ⟨"x", 10000⟩) (by rw [hbefore]; simp) (by rw [hafter]; simp) (by decide)
      ("b", ⟨"y", 1000⟩) (by rw [hafter]; simp)
    exact absurd hlive (by decide)

instance (second : ℤ) (c : Nodes κ) : DecidablePred (Clear second c)
  | .get _ _ => isTrue trivial
  | .del _ => isTrue trivial
  | .put now key _ ttlSeconds _ => inferInstanceAs (Decidable (key ∈ c.items.map Prod.fst ∨ _ < _ ∨
      (∃ p ∈ c.items.getLast?, p.2.expireAt ≤ now) ∨ 0 < ttlSeconds * second ∧ ∀ p ∈ c.items, now < p.2.expireAt))

/-- The entry that was put for a second is the last one when its second is over; the next
`put` finds nothing expired. -/
def lastExpired : List (Op String) :=
  [.put 0 "a" "x" 1 100, .put 0 "b" "y" 10 200, .get 900 "b", .put 5000 "c" "z" 10 300, .put 6000 "d" "w" 10 100]

/-- Both are given up, and no live entry beside an expired one. -/
theorem sparesLive_iff_lastExpired :
    ∃ c : Nodes String, run (Nodes.step 1000) (.new 2) lastExpired = some c ∧ c.items.map Prod.fst = ["d", "c"] ∧
      Meets (Nodes.step 1000) (SparesLive 1000) (.new 2) lastExpired := by
  have hrun : ((run (Nodes.step 1000) (.new 2) lastExpired).map fun c => c.items.map Prod.fst) = some ["d", "c"] := by
    decide +kernel
  obtain ⟨c, hc, hkeys⟩ := Option.map_eq_some_iff.1 hrun
  exact ⟨c, hc, hkeys, (sparesLive_iff 1000 2 lastExpired c hc).2 (by decide +kernel)⟩

end LocalLruCache

end Seckill
