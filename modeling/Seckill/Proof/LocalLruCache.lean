import Seckill.Spec.LocalLruCache

/-!
# L1 is a list in the order of use

* `Linked`: the two structures hold the same keys, none twice, and every entry of
  the hash table points to the node of its key.
* `call_refines`: a call keeps that, follows no iterator that points nowhere, and
  answers as the reference does.
* `nodes_refine`: so does every sequence of calls; what a `get` returns is what the
  last `put` of its key wrote.
-/

namespace Seckill

namespace LocalLruCache

variable {κ : Type} [DecidableEq κ]

/-! ## The invariant -/

/-- The entry of a node. -/
def Node.entry (n : Node κ) : κ × Item := (n.key, ⟨n.value, n.expireAt⟩)

/-- The entries in the order of use. -/
def Nodes.items (c : Nodes κ) : List (κ × Item) := c.list_.map Node.entry

/-- **The same keys in both structures**, and each with its own node. -/
structure Nodes.Linked (c : Nodes κ) : Prop where
  keys : (c.list_.map Node.key).Nodup
  addrs : (c.list_.map Node.addr).Nodup
  points : ∀ key it, c.map_.lookup key = some it ↔ ∃ n ∈ c.list_, n.key = key ∧ n.addr = it

/-- The list is the reference's. -/
structure Refines (c : Nodes κ) (r : Recency κ) : Prop where
  linked : c.Linked
  items : r.items = c.items
  capacity : r.capacity = c.capacity_
  pos : 1 ≤ c.capacity_

variable {c c' : Nodes κ} {r : Recency κ} {key : κ} {it : ℕ} {n : Node κ}

theorem Nodes.Linked.key_inj (h : c.Linked) {m : Node κ} (hn : n ∈ c.list_) (hm : m ∈ c.list_)
    (heq : m.key = n.key) : m = n := List.inj_on_of_nodup_map h.keys hm hn heq

theorem Nodes.Linked.addr_inj (h : c.Linked) {m : Node κ} (hn : n ∈ c.list_) (hm : m ∈ c.list_)
    (heq : m.addr = n.addr) : m = n := List.inj_on_of_nodup_map h.addrs hm hn heq

/-- The hash table has the keys of the list. -/
theorem Nodes.Linked.perm (h : c.Linked) : c.map_.keys.Perm (c.list_.map Node.key) := by
  refine (List.perm_ext_iff_of_nodup c.map_.keys_nodup h.keys).2 fun key => ?_
  rw [← AList.mem_keys, ← AList.lookup_isSome, Option.isSome_iff_exists, List.mem_map]
  constructor
  · rintro ⟨it, hit⟩
    obtain ⟨n, hn, hkey, -⟩ := (h.points key it).1 hit
    exact ⟨n, hn, hkey⟩
  · rintro ⟨n, hn, hkey⟩
    exact ⟨n.addr, (h.points key n.addr).2 ⟨n, hn, hkey, rfl⟩⟩

theorem Nodes.Linked.size (h : c.Linked) : c.map_.keys.length = c.list_.length := by
  rw [h.perm.length_eq, List.length_map]

/-- **An iterator of the hash table points to the node of its key.** -/
theorem Nodes.Linked.deref (h : c.Linked) (hit : c.map_.lookup key = some it) :
    ∃ n ∈ c.list_, n.key = key ∧ n.addr = it ∧ c.deref it = some n := by
  obtain ⟨n, hn, hkey, haddr⟩ := (h.points key it).1 hit
  refine ⟨n, hn, hkey, haddr, ?_⟩
  unfold Nodes.deref
  rw [← haddr]
  exact Lru.find_of_nodup Node.addr h.addrs hn

/-- To take out a node is to take out its key. -/
theorem Nodes.Linked.unlink (h : c.Linked) (hn : n ∈ c.list_) :
    Nodes.unlink c.list_ n.addr = c.list_.filter fun m => m.key ≠ n.key := by
  refine List.filter_congr fun m hm => ?_
  have hiff : m.addr = n.addr ↔ m.key = n.key :=
    ⟨fun heq => by rw [h.addr_inj hn hm heq], fun heq => by rw [h.key_inj hn hm heq]⟩
  simp [hiff]

theorem items_without (l : List (Node κ)) (key : κ) :
    (l.filter fun m => m.key ≠ key).map Node.entry = Lru.without (l.map Node.entry) key := by
  unfold Lru.without
  rw [List.filter_map]
  rfl

theorem Refines.entry_of_mem (h : Refines c r) (hn : n ∈ c.list_) : Lru.entry r.items n.key = some n.entry := by
  have hnodup := r.nodup
  rw [h.items] at hnodup ⊢
  exact Lru.find_of_nodup Prod.fst hnodup (List.mem_map_of_mem hn)

theorem Refines.find_of_mem (h : Refines c r) (hn : n ∈ c.list_) : r.find n.key = some ⟨n.value, n.expireAt⟩ := by
  unfold Lru.find
  rw [h.entry_of_mem hn]
  rfl

/-- A key that is not in the hash table is not in the list. -/
theorem Nodes.Linked.not_mem (h : c.Linked) (hnone : c.map_.lookup key = none) : ∀ m ∈ c.list_, m.key ≠ key := by
  rintro m hm rfl
  have hsome := (h.points m.key m.addr).2 ⟨m, hm, rfl, rfl⟩
  rw [hnone] at hsome
  cases hsome

theorem Refines.entry_none (h : Refines c r) (hnone : c.map_.lookup key = none) : Lru.entry r.items key = none := by
  rw [h.items]
  refine List.find?_eq_none.2 fun p hp => ?_
  obtain ⟨m, hm, rfl⟩ := List.mem_map.1 hp
  have hne := h.linked.not_mem hnone m hm
  simp [Node.entry, hne]

/-! ## What keeps the structures together -/

/-- A node and its key are taken out. -/
theorem Nodes.Linked.erase (h : c.Linked) (hn : n ∈ c.list_) :
    Nodes.Linked { c with list_ := Nodes.unlink c.list_ n.addr, map_ := c.map_.erase n.key } := by
  have hsub : List.Sublist (Nodes.unlink c.list_ n.addr) c.list_ := List.filter_sublist
  refine ⟨h.keys.sublist (hsub.map _), h.addrs.sublist (hsub.map _), fun key it => ?_⟩
  dsimp only
  rw [h.unlink hn]
  by_cases hkey : key = n.key
  · -- no node has the key any more
    rw [hkey, AList.lookup_erase]
    constructor
    · intro hnone
      cases hnone
    · rintro ⟨m, hm, hmkey, -⟩
      have hne := (List.mem_filter.1 hm).2
      simp [hmkey] at hne
  · rw [AList.lookup_erase_ne hkey, h.points]
    constructor
    · rintro ⟨m, hm, rfl, haddr⟩
      exact ⟨m, List.mem_filter.2 ⟨hm, by simpa using hkey⟩, rfl, haddr⟩
    · rintro ⟨m, hm, hmkey, haddr⟩
      exact ⟨m, (List.mem_filter.1 hm).1, hmkey, haddr⟩

/-- A node goes to the front, perhaps with a new value. -/
theorem Nodes.Linked.front (h : c.Linked) (hn : n ∈ c.list_) (value : String) (expireAt : ℤ) :
    Nodes.Linked { c with list_ := { n with value, expireAt } :: Nodes.unlink c.list_ n.addr } := by
  have hsub : List.Sublist (Nodes.unlink c.list_ n.addr) c.list_ := List.filter_sublist
  refine ⟨?_, ?_, fun key it => ?_⟩
  · rw [List.map_cons, List.nodup_cons]
    refine ⟨?_, h.keys.sublist (hsub.map _)⟩
    rw [h.unlink hn]
    intro hmem
    obtain ⟨m, hm, hkey⟩ := List.mem_map.1 hmem
    have hne := (List.mem_filter.1 hm).2
    simp [hkey] at hne
  · rw [List.map_cons, List.nodup_cons]
    refine ⟨?_, h.addrs.sublist (hsub.map _)⟩
    intro hmem
    obtain ⟨m, hm, haddr⟩ := List.mem_map.1 hmem
    have hne := (List.mem_filter.1 hm).2
    simp [haddr] at hne
  · -- the nodes are where they were: `splice` moves no node in memory
    dsimp only
    rw [h.points]
    constructor
    · rintro ⟨m, hm, hkey, haddr⟩
      by_cases hmn : m.addr = n.addr
      · have heq := h.addr_inj hn hm hmn
        rw [heq] at hkey haddr
        exact ⟨_, List.mem_cons_self, hkey, haddr⟩
      · exact ⟨m, List.mem_cons_of_mem _ (List.mem_filter.2 ⟨hm, by simpa using hmn⟩), hkey, haddr⟩
    · rintro ⟨m, hm, hkey, haddr⟩
      rcases List.mem_cons.1 hm with rfl | hm
      · exact ⟨n, hn, hkey, haddr⟩
      · exact ⟨m, (List.mem_filter.1 hm).1, hkey, haddr⟩

/-- A new node is put at the front. -/
theorem Nodes.Linked.emplace (h : c.Linked) (hnone : c.map_.lookup n.key = none)
    (hfresh : n.addr ∉ c.list_.map Node.addr) :
    Nodes.Linked { c with list_ := n :: c.list_, map_ := c.map_.insert n.key n.addr } := by
  refine ⟨?_, ?_, fun key it => ?_⟩
  · rw [List.map_cons, List.nodup_cons]
    refine ⟨?_, h.keys⟩
    intro hmem
    obtain ⟨m, hm, hkey⟩ := List.mem_map.1 hmem
    exact h.not_mem hnone m hm hkey
  · rw [List.map_cons, List.nodup_cons]
    exact ⟨hfresh, h.addrs⟩
  · dsimp only
    by_cases hkey : key = n.key
    · rw [hkey, AList.lookup_insert]
      constructor
      · intro heq
        exact ⟨n, List.mem_cons_self, rfl, Option.some.inj heq⟩
      · rintro ⟨m, hm, hmkey, haddr⟩
        rcases List.mem_cons.1 hm with rfl | hm
        · rw [haddr]
        · exact absurd hmkey (h.not_mem hnone m hm)
    · rw [AList.lookup_insert_ne hkey, h.points]
      constructor
      · rintro ⟨m, hm, hmkey, haddr⟩
        exact ⟨m, List.mem_cons_of_mem _ hm, hmkey, haddr⟩
      · rintro ⟨m, hm, hmkey, haddr⟩
        rcases List.mem_cons.1 hm with rfl | hm
        · exact absurd hmkey.symm hkey
        · exact ⟨m, hm, hmkey, haddr⟩

/-- The last node and its key are dropped: they are the node's that `back` is. -/
theorem Nodes.Linked.evictTail (h : c.Linked) (hne : c.list_ ≠ []) :
    ∃ c', c.evictTail = some c' ∧ c'.Linked ∧ c'.list_ = c.list_.dropLast ∧ c'.capacity_ = c.capacity_ := by
  have hlast : c.list_.getLast? = some (c.list_.getLast hne) := List.getLast?_eq_some_getLast hne
  have hmem : c.list_.getLast hne ∈ c.list_ := List.getLast_mem hne
  set back := c.list_.getLast hne
  have hsplit : c.list_ = c.list_.dropLast ++ [back] := (List.dropLast_append_getLast hne).symm
  -- the addresses differ, so `pop_back` takes out that node and no other
  have hunlink : Nodes.unlink c.list_ back.addr = c.list_.dropLast := by
    have haddrs := h.addrs
    rw [hsplit, List.map_append, List.nodup_append] at haddrs
    unfold Nodes.unlink
    rw [hsplit, List.filter_append, List.dropLast_concat]
    have hlast' : [back].filter (fun m => m.addr ≠ back.addr) = [] := by simp
    rw [hlast', List.append_nil, List.filter_eq_self]
    intro m hm
    have hdiff := haddrs.2.2 m.addr (List.mem_map_of_mem hm) back.addr (by simp)
    simpa using hdiff
  refine ⟨{ c with map_ := c.map_.erase back.key, list_ := c.list_.dropLast }, ?_, ?_, rfl, rfl⟩
  · unfold Nodes.evictTail
    rw [hlast]
    rfl
  · have herase := h.erase hmem
    rwa [hunlink] at herase

/-! ## The calls -/

variable (second : ℤ)

theorem get_refines (h : Refines c r) (now : ℤ) (key : κ) :
    ∃ c', c.get now key = some ((Recency.get r now key).1, c') ∧ Refines c' (Recency.get r now key).2 := by
  unfold Nodes.get Recency.get
  cases hit : c.map_.lookup key with
  | none =>
    have hnone : r.find key = none := by
      unfold Lru.find
      rw [h.entry_none hit]
      rfl
    rw [hnone]
    exact ⟨c, rfl, h⟩
  | some it =>
    obtain ⟨n, hn, rfl, rfl, hderef⟩ := h.linked.deref hit
    rw [h.find_of_mem hn]
    dsimp only
    rw [hderef, Option.map_some]
    by_cases hexpired : n.expireAt ≤ now
    · -- it has expired
      rw [if_pos hexpired, if_pos hexpired]
      refine ⟨_, rfl, h.linked.erase hn, ?_, h.capacity, h.pos⟩
      change Lru.without r.items n.key = (Nodes.unlink c.list_ n.addr).map Node.entry
      rw [h.linked.unlink hn, items_without, h.items]
      rfl
    · rw [if_neg hexpired, if_neg hexpired]
      obtain ⟨hitems, hcapacity⟩ := Lru.touch_items (h.entry_of_mem hn)
      refine ⟨_, rfl, h.linked.front hn n.value n.expireAt, ?_, hcapacity.trans h.capacity, h.pos⟩
      rw [hitems, h.items]
      change _ = n.entry :: (Nodes.unlink c.list_ n.addr).map Node.entry
      rw [h.linked.unlink hn, items_without]
      rfl

theorem del_refines (h : Refines c r) (key : κ) : Refines (c.del key) (r.erase key) := by
  unfold Nodes.del
  cases hit : c.map_.lookup key with
  | none =>
    refine ⟨h.linked, ?_, h.capacity, h.pos⟩
    change Lru.without r.items key = c.items
    rw [Lru.without_of_not_mem (h.entry_none hit), h.items]
  | some it =>
    obtain ⟨n, hn, rfl, rfl, -⟩ := h.linked.deref hit
    refine ⟨h.linked.erase hn, ?_, h.capacity, h.pos⟩
    change Lru.without r.items n.key = (Nodes.unlink c.list_ n.addr).map Node.entry
    rw [h.linked.unlink hn, items_without, h.items]
    rfl

theorem put_refines (h : Refines c r) (now : ℤ) (key : κ) (value : String) (ttlSeconds : ℤ) {addr : ℕ}
    (hfresh : c.map_.lookup key = none → addr ∉ c.list_.map Node.addr) :
    ∃ c', c.put second now key value ttlSeconds addr = some c' ∧
      Refines c' (Lru.put r key ⟨value, now + ttlSeconds * second⟩) := by
  obtain ⟨hcapacity, hitems⟩ := Lru.put_items r key ⟨value, now + ttlSeconds * second⟩
  have hlength : r.items.length = c.list_.length := by rw [h.items, Nodes.items, List.length_map]
  have hbounded := r.bounded
  rw [hlength, h.capacity] at hbounded
  unfold Nodes.put
  dsimp only
  cases hit : c.map_.lookup key with
  | some it =>
    obtain ⟨n, hn, rfl, rfl, hderef⟩ := h.linked.deref hit
    -- the key was there, so nothing is evicted
    have hroom : (Lru.without r.items n.key).length + 1 ≤ r.capacity := by
      have hlt := Lru.length_without_lt (h.entry_of_mem hn)
      rw [h.capacity]
      omega
    rw [if_pos hroom] at hitems
    dsimp only
    rw [hderef]
    refine ⟨_, rfl, h.linked.front hn value (now + ttlSeconds * second), ?_, hcapacity.trans h.capacity, h.pos⟩
    rw [hitems, h.items]
    change _ = _ :: (Nodes.unlink c.list_ n.addr).map Node.entry
    rw [h.linked.unlink hn, items_without]
    rfl
  | none =>
    rw [Lru.without_of_not_mem (h.entry_none hit), hlength, h.capacity] at hitems
    have hfresh := hfresh hit
    have hlinked := h.linked.emplace (n := ⟨addr, key, value, now + ttlSeconds * second⟩) hit hfresh
    have hsize := hlinked.size
    dsimp only at hlinked hsize ⊢
    rw [if_neg hfresh, hsize, List.length_cons]
    by_cases hroom : c.list_.length + 1 ≤ c.capacity_
    · rw [if_neg (by omega)]
      rw [if_pos hroom] at hitems
      refine ⟨_, rfl, hlinked, ?_, hcapacity.trans h.capacity, h.pos⟩
      rw [hitems, h.items]
      rfl
    · -- the table was full: the last entry makes room
      rw [if_pos (by omega)]
      rw [if_neg hroom] at hitems
      obtain ⟨c', hevict, hlinked', hlist, hcapacity'⟩ := hlinked.evictTail (by simp)
      refine ⟨c', hevict, hlinked', ?_, hcapacity.trans (h.capacity.trans hcapacity'.symm), ?_⟩
      · rw [hitems, h.items]
        unfold Nodes.items
        rw [hlist, List.map_dropLast]
        rfl
      · rw [hcapacity']
        exact h.pos

/-- The allocator has a free address for a new node. -/
def Nodes.Offered (c : Nodes κ) : Op κ → Prop
  | .put _ key _ _ addr => c.map_.lookup key = none → addr ∉ c.list_.map Node.addr
  | _ => True

/-- **One call**: no iterator points nowhere, the answer is the reference's, and so is
the list. -/
theorem call_refines (h : Refines c r) (op : Op κ) (hoffered : c.Offered op) :
    ∃ c', c.call second op = some ((r.call second op).1, c') ∧ Refines c' (r.call second op).2 := by
  cases op with
  | get now key => exact get_refines h now key
  | put now key value ttlSeconds addr =>
    obtain ⟨c', hput, hc'⟩ := put_refines second h now key value ttlSeconds hoffered
    refine ⟨c', ?_, hc'⟩
    unfold Nodes.call
    dsimp only
    rw [hput]
    rfl
  | del key => exact ⟨_, rfl, del_refines h key⟩

theorem call_offered {op : Op κ} {reply : Option String} (hcall : c.call second op = some (reply, c')) :
    c.Offered op := by
  cases op with
  | get now key => trivial
  | del key => trivial
  | put now key value ttlSeconds addr =>
    intro hnone hused
    unfold Nodes.call Nodes.put at hcall
    dsimp only at hcall
    rw [hnone] at hcall
    dsimp only at hcall
    rw [if_pos hused] at hcall
    cases hcall

/-- The answers are the reference's. -/
theorem call_reply {op : Op κ} {reply : Option String} (h : Refines c r) (hcall : c.call second op = some (reply, c')) :
    reply = (r.call second op).1 ∧ Refines c' (r.call second op).2 := by
  obtain ⟨d, hd, hrefines⟩ := call_refines second h op (call_offered second hcall)
  rw [hcall, Option.some.injEq] at hd
  obtain ⟨rfl, rfl⟩ := Prod.mk.inj hd
  exact ⟨rfl, hrefines⟩

/-! ## Sequences of calls -/

open Machine

/-- The call sets or removes the entry of a key. -/
def Op.Writes (key : κ) : Op κ → Prop
  | .put _ k _ _ _ => k = key
  | .del k => k = key
  | .get _ _ => False

/-- The last call to write the key put this entry. -/
def Latest (ops : List (Op κ)) (key : κ) (item : Item) : Prop :=
  ∃ pre now ttlSeconds addr post, ops = pre ++ .put now key item.value ttlSeconds addr :: post ∧
    item.expireAt = now + ttlSeconds * second ∧ ∀ op ∈ post, ¬op.Writes key

variable {second}

omit [DecidableEq κ] in
theorem Latest.snoc {ops : List (Op κ)} {item : Item} (h : Latest second ops key item) {op : Op κ}
    (hop : ¬op.Writes key) : Latest second (ops ++ [op]) key item := by
  obtain ⟨pre, now, ttlSeconds, addr, post, rfl, hexpire, hpost⟩ := h
  refine ⟨pre, now, ttlSeconds, addr, post ++ [op], by simp, hexpire, fun op' hop' => ?_⟩
  rcases List.mem_append.1 hop' with hop' | hop'
  · exact hpost op' hop'
  · rwa [List.mem_singleton.1 hop']

/-- What the reference has under a key is what was put there last. -/
def Recency.Kept (second : ℤ) (ops : List (Op κ)) (r : Recency κ) : Prop :=
  ∀ key item, r.find key = some item → Latest second ops key item

theorem Recency.Kept.call {ops : List (Op κ)} (h : Recency.Kept second ops r) (op : Op κ) :
    Recency.Kept second (ops ++ [op]) (r.call second op).2 := by
  intro key item hfind
  cases op with
  | get now k =>
    refine (h key item ?_).snoc fun hwrites => hwrites
    change (Recency.get r now k).2.find key = some item at hfind
    unfold Recency.get at hfind
    split at hfind
    next => exact hfind
    next =>
      split at hfind
      · change (r.erase k).find key = some item at hfind
        rw [Lru.find_erase] at hfind
        split at hfind
        · cases hfind
        · exact hfind
      · rwa [← Lru.find_touch r k key]
  | put now k value ttlSeconds addr =>
    change (Lru.put r k _).find key = some item at hfind
    rcases Lru.find_put r k key ⟨value, now + ttlSeconds * second⟩ with hput | hput
    · rw [hput] at hfind
      by_cases hkey : key = k
      · subst hkey
        -- this call put it there
        rw [if_pos rfl, Option.some.injEq] at hfind
        subst hfind
        exact ⟨ops, now, ttlSeconds, addr, [], rfl, rfl, fun op hop => by cases hop⟩
      · rw [if_neg hkey] at hfind
        exact (h key item hfind).snoc fun hwrites => hkey hwrites.symm
    · -- the entry was evicted
      rw [hput] at hfind
      cases hfind
  | del k =>
    change (r.erase k).find key = some item at hfind
    rw [Lru.find_erase] at hfind
    by_cases hkey : key = k
    · rw [if_pos hkey] at hfind
      cases hfind
    · rw [if_neg hkey] at hfind
      exact (h key item hfind).snoc fun hwrites => hkey hwrites.symm

theorem refines_new (capacity : ℕ) : Refines (.new capacity : Nodes κ) (.new capacity) := by
  refine ⟨⟨List.nodup_nil, List.nodup_nil, fun key it => ?_⟩, rfl, ?_, ?_⟩
  · constructor
    · intro h
      cases h
    · rintro ⟨n, hn, -⟩
      cases hn
  · unfold Recency.new Nodes.new Lru.empty
    dsimp only
    split <;> omega
  · unfold Nodes.new
    dsimp only
    split <;> omega

theorem after_snoc (r : Recency κ) (ops : List (Op κ)) (op : Op κ) :
    r.after second (ops ++ [op]) = ((r.after second ops).call second op).2 := by
  unfold Recency.after
  rw [List.foldl_append]
  rfl

/-- No call changes the capacity. -/
theorem call_capacity (second : ℤ) (r : Recency κ) (op : Op κ) : (r.call second op).2.capacity = r.capacity := by
  cases op with
  | get now key =>
    change (Recency.get r now key).2.capacity = r.capacity
    unfold Recency.get Lru.touch
    repeat' split
    all_goals rfl
  | put now key value ttlSeconds addr => exact (Lru.put_items r key _).1
  | del key => rfl

/-- Every sequence of calls leaves what the reference has. -/
theorem run_refines {capacity : ℕ} {ops : List (Op κ)} (h : run (Nodes.step second) (.new capacity) ops = some c) :
    Refines c (Recency.after second (.new capacity) ops) ∧
      Recency.Kept second ops (Recency.after second (.new capacity) ops) ∧
      (Recency.after second (.new capacity : Recency κ) ops).capacity = max capacity 1 := by
  refine run_trace (I := fun ops c => Refines c (Recency.after second (.new capacity) ops) ∧
    Recency.Kept second ops (Recency.after second (.new capacity) ops) ∧
    (Recency.after second (.new capacity : Recency κ) ops).capacity = max capacity 1) ⟨refines_new capacity, ?_, rfl⟩ ?_ h
  · intro key item hfind
    cases hfind
  · rintro ops c op c' - ⟨hrefines, hkept, hcapacity⟩ hstep
    obtain ⟨⟨reply, d⟩, hcall, rfl⟩ := Option.map_eq_some_iff.1 hstep
    rw [after_snoc, call_capacity]
    exact ⟨(call_reply second hrefines hcall).2, hkept.call op, hcapacity⟩

/-- **L1 is its reference.** After every sequence of calls, whatever the clock said and
wherever the nodes were allocated: the two structures hold the same keys, none twice,
each entry of the table points to its own node, and there are no more of them than the
capacity; no call follows an iterator that points nowhere; what a call answers is what
the reference answers, and a `get` answers what the last `put` of its key wrote, if
nothing removed it since. -/
theorem nodes_refine (second : ℤ) (capacity : ℕ) (ops : List (Op κ)) (c : Nodes κ)
    (h : run (Nodes.step second) (.new capacity) ops = some c) :
    c.Linked ∧ c.map_.keys.Perm (c.list_.map Node.key) ∧ c.map_.keys.length ≤ max capacity 1 ∧
      (Recency.after second (.new capacity) ops).items = c.items ∧
      (∀ op, c.call second op = none → ¬c.Offered op) ∧
      (∀ op reply c', c.call second op = some (reply, c') →
        reply = ((Recency.after second (.new capacity) ops).call second op).1) ∧
      ∀ now key value c', c.get now key = some (some value, c') →
        ∃ expireAt, now < expireAt ∧ Latest second ops key ⟨value, expireAt⟩ := by
  obtain ⟨hrefines, hkept, hcapacity⟩ := run_refines h
  set r := Recency.after second (.new capacity) ops
  refine ⟨hrefines.linked, hrefines.linked.perm, ?_, hrefines.items, ?_, ?_, ?_⟩
  · have hbounded := r.bounded
    rw [hrefines.items, Nodes.items, List.length_map, hcapacity] at hbounded
    rw [hrefines.linked.size]
    exact hbounded
  · intro op hnone hoffered
    obtain ⟨c', hcall, -⟩ := call_refines second hrefines op hoffered
    rw [hnone] at hcall
    cases hcall
  · intro op reply c' hcall
    exact (call_reply second hrefines hcall).1
  · intro now key value c' hget
    have hcall : c.call second (.get now key) = some (some value, c') := hget
    have hreply : some value = (Recency.get r now key).1 := (call_reply second hrefines hcall).1
    unfold Recency.get at hreply
    split at hreply
    next => cases hreply
    next item hfind =>
      split at hreply
      · cases hreply
      next hlive =>
        cases hreply
        exact ⟨item.expireAt, Int.not_le.1 hlive, hkept key item hfind⟩

/-! ## The table of the sku cache -/

/-- `SkuCache` has the reference for its L1, with a clock in milliseconds. -/
theorem get_recency (l : LocalLruCache) (now : ℕ) (key : Key) : l.get now key = Recency.get l now key := rfl

theorem put_recency (l : LocalLruCache) (now : ℕ) (key : Key) (value : String) (ttlSeconds : ℤ) (addr : ℕ) :
    l.put now key value ttlSeconds = (Recency.call 1000 l (.put now key value ttlSeconds addr)).2 := rfl

/-! ## Eviction and expiry -/

/-- Four keys in a table of two; the last node is where the first one to go was. -/
def fourKeys : List (Op ℕ) :=
  [.put 0 1 "a" 10 100, .put 0 2 "b" 10 200, .get 5 1, .put 6 3 "c" 10 300, .put 7 4 "d" 1 200, .get 2000 4]

theorem nodes_refine_fourKeys : ∃ c : Nodes ℕ, run (Nodes.step 1000) (.new 2) fourKeys = some c ∧
    c.map_.keys.length ≤ 2 ∧ c.list_.map Node.key = [3] ∧
    (Recency.after 1000 (.new 2) fourKeys).items = c.items := by
  have hrun : (run (Nodes.step 1000) (.new 2) fourKeys).map (fun c => c.list_.map Node.key) = some [3] := by
    decide +kernel
  obtain ⟨c, hc, hkeys⟩ := Option.map_eq_some_iff.1 hrun
  obtain ⟨-, -, hsize, hitems, -, -, -⟩ := nodes_refine 1000 2 fourKeys c hc
  exact ⟨c, hc, hsize, hkeys, hitems⟩

end LocalLruCache

end Seckill
