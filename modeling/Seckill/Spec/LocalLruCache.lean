import Seckill.Lib.Run
import Seckill.Spec.SkuCache
import Mathlib.Data.List.AList

/-!
# The two structures of L1 (`service/LocalLruCache.h`)

`Nodes` is the class as it is written: `list_`, the nodes from the most to the least
recently used, and `map_`, the hash table from a key to the place of its node. An
iterator is the address of a node; where one is followed that points nowhere, the
behaviour is undefined and the call has no result. The addresses of new nodes are the
allocator's, which gives out none that is in use.

`Recency` is what the class is for: a list in the order of use, without a second
structure.

`second` is the number of ticks of the clock in a second.
-/

namespace Seckill

namespace LocalLruCache

/-- An `Item`, at an address. -/
structure Node (κ : Type) where
  addr : ℕ
  key : κ
  value : String
  expireAt : ℤ
  deriving DecidableEq

structure Nodes (κ : Type) where
  capacity_ : ℕ
  list_ : List (Node κ)
  map_ : AList fun _ : κ => ℕ

/-- The calls, with the reading of the clock and, for a `put`, what the allocator has
to offer. -/
inductive Op (κ : Type)
  | get (now : ℤ) (key : κ)
  | put (now : ℤ) (key : κ) (value : String) (ttlSeconds : ℤ) (addr : ℕ)
  | del (key : κ)

variable {κ : Type} [DecidableEq κ]

namespace Nodes

def new (capacity : ℕ) : Nodes κ := ⟨if capacity > 0 then capacity else 1, [], ∅⟩

/-- `*it`. -/
def deref (c : Nodes κ) (it : ℕ) : Option (Node κ) := c.list_.find? fun n => n.addr = it

/-- The list without the node `it` points to. -/
def unlink (list : List (Node κ)) (it : ℕ) : List (Node κ) := list.filter fun n => n.addr ≠ it

def get (c : Nodes κ) (now : ℤ) (key : κ) : Option (Option String × Nodes κ) :=
  match c.map_.lookup key with
  | none => some (none, c)
  | some it => (c.deref it).map fun n =>
    if now ≥ n.expireAt then (none, { c with list_ := unlink c.list_ it, map_ := c.map_.erase key })
    else (some n.value, { c with list_ := n :: unlink c.list_ it })

/-- `evictTail`: there is no `back` of an empty list. -/
def evictTail (c : Nodes κ) : Option (Nodes κ) :=
  c.list_.getLast?.map fun back => { c with map_ := c.map_.erase back.key, list_ := c.list_.dropLast }

def put (second : ℤ) (c : Nodes κ) (now : ℤ) (key : κ) (value : String) (ttlSeconds : ℤ) (addr : ℕ) :
    Option (Nodes κ) :=
  let expireAt := now + ttlSeconds * second
  match c.map_.lookup key with
  | some it => (c.deref it).map fun n => { c with list_ := { n with value, expireAt } :: unlink c.list_ it }
  | none =>
    if addr ∈ c.list_.map Node.addr then none
    else
      let c := { c with list_ := ⟨addr, key, value, expireAt⟩ :: c.list_, map_ := c.map_.insert key addr }
      if c.map_.keys.length > c.capacity_ then evictTail c else some c

def del (c : Nodes κ) (key : κ) : Nodes κ :=
  match c.map_.lookup key with
  | none => c
  | some it => { c with list_ := unlink c.list_ it, map_ := c.map_.erase key }

/-- A call: what it returns (a `put` and a `del` nothing) and the structures it leaves. -/
def call (second : ℤ) (c : Nodes κ) : Op κ → Option (Option String × Nodes κ)
  | .get now key => c.get now key
  | .put now key value ttlSeconds addr => (c.put second now key value ttlSeconds addr).map fun c => (none, c)
  | .del key => some (none, c.del key)

def step (second : ℤ) (c : Nodes κ) (op : Op κ) : Option (Nodes κ) := (c.call second op).map Prod.snd

end Nodes

/-! ## The reference -/

/-- Entries in the order of use, no more than the capacity. -/
abbrev Recency (κ : Type) := Lru κ Item

namespace Recency

def new (capacity : ℕ) : Recency κ := .empty (max capacity 1)

/-- A live entry moves to the front, one that expired is removed. -/
def get (r : Recency κ) (now : ℤ) (key : κ) : Option String × Recency κ :=
  match r.find key with
  | none => (none, r)
  | some item => if item.expireAt ≤ now then (none, r.erase key) else (some item.value, r.touch key)

def call (second : ℤ) (r : Recency κ) : Op κ → Option String × Recency κ
  | .get now key => r.get now key
  | .put now key value ttlSeconds _ => (none, Lru.put r key ⟨value, now + ttlSeconds * second⟩)
  | .del key => (none, r.erase key)

/-- The list after some calls. -/
def after (second : ℤ) (r : Recency κ) (ops : List (Op κ)) : Recency κ :=
  ops.foldl (fun r op => (r.call second op).2) r

end Recency

end LocalLruCache

end Seckill
