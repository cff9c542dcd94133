import Mathlib.Data.Set.Card
import Seckill.Lib.Lin
import Seckill.Spec.InflightGuard

/-!
# The gate under threads (`service/InflightGuard.h`)

`InflightGuard.tryAcquire` and `release` are one step each. Here a call is the steps of
its thread: it takes the lock of the shard, looks into the hash set, writes what it made
of that, gives the lock back, and counts. Between any two of them other calls take theirs.
A `std::mutex` lets one in; a `SpinLock` is tried with `test_and_set` until the flag was
clear. A `fetch_or`, a `fetch_and` and a `fetch_add` are one step.

The order of the steps is the order of the memory accesses: what the weaker memory orders
of the source would allow is not here. `GuardThreads.point` names the step at which a call
takes effect.
-/

namespace Seckill

namespace GuardThreads

/-- A call. -/
inductive Op
  | tryAcquire (key : UInt64)
  | release (key : UInt64)
  deriving DecidableEq

def Op.key : Op → UInt64
  | .tryAcquire key | .release key => key

/-- Where a call is. -/
inductive Pc
  | idle
  /-- at the lock, or at the word of the bitmap -/
  | entered (op : Op)
  /-- with the lock: before the look, before the write, before the unlock -/
  | looking (op : Op) | writing (op : Op) (set : List UInt64) | unlocking (op : Op) (got : Bool)
  /-- `tryAcquire` before its `fetch_add` -/
  | counting (op : Op) (got : Bool)
  | returned (op : Op) (got : Bool)
  deriving DecidableEq

/-- The guard, which shards are locked (`spins_[i].flag_`, or a thread has `mutexes_[i]`), and
the calls. -/
structure State where
  guard : InflightGuard
  locked : ℕ → Bool
  call : ℕ → Pc

def init (guard : InflightGuard) : State := ⟨guard, fun _ => false, fun _ => .idle⟩

def State.at (s : State) (c : ℕ) (p : Pc) : State := { s with call := Function.update s.call c p }

/-- The shard of a call. -/
def State.shardOf (s : State) (op : Op) : ℕ := s.guard.shard op.key

/-- The `test_and_set` of the shard, or a thread gets the mutex. -/
def State.lock (s : State) (op : Op) : State :=
  { s with locked := Function.update s.locked (s.shardOf op) true }

def State.unlock (s : State) (op : Op) : State :=
  { s with locked := Function.update s.locked (s.shardOf op) false }

def State.store (s : State) (op : Op) (set : List UInt64) : State :=
  { s with guard := { s.guard with sets := s.guard.sets.setIfInBounds (s.shardOf op) set } }

/-- An `insert` that found its key stores nothing. -/
def State.put (s : State) (op : Op) : Option (List UInt64) → State
  | none => s
  | some set => s.store op set

def State.storeWord (s : State) (op : Op) (word : UInt64) : State :=
  { s with guard := { s.guard with bitmap := s.guard.bitmap.setIfInBounds (s.guard.word op.key) word } }

/-- `acquired_.fetch_add(1)`, `rejected_.fetch_add(1)`. -/
def State.count (s : State) (got : Bool) : State :=
  { s with guard := if got then s.guard.countAcquired else s.guard.countRejected }

inductive Ev
  | call (c : ℕ) (op : Op)
  | go (c : ℕ)
  deriving DecidableEq

/-- After the `switch`: `release` is done. -/
def Op.leave (got : Bool) : Op → Pc
  | .tryAcquire key => .counting (.tryAcquire key) got
  | .release key => .returned (.release key) got

/-- The lock of the shard. A thread that spins has tried in vain. -/
def lock (s : State) (c : ℕ) (op : Op) : Option State :=
  if s.guard.shards = 0 then none
  else if s.shardOf op < s.guard.sets.size then
    if s.locked (s.shardOf op) = true then if s.guard.mode = .spin then some s else none
    else some ((s.lock op).at c (.looking op))
  else none

/-- What `fetch_or` and `fetch_and` leave of the word, and the answer. -/
def fetched (before : UInt64) : Op → UInt64 × Bool
  | .tryAcquire key => (before ||| Bits.mask key, before &&& Bits.mask key = 0)
  | .release key => (before &&& ~~~Bits.mask key, true)

def fetch (s : State) (c : ℕ) (op : Op) : Option State :=
  if s.guard.bits = 0 then none
  else s.guard.bitmap[s.guard.word op.key]?.map fun before =>
    (s.storeWord op (fetched before op).1).at c (op.leave (fetched before op).2)

/-- The `switch`. -/
def enter (s : State) (c : ℕ) (op : Op) : Option State :=
  match s.guard.mode with
  | .none => some (s.at c (op.leave true))
  | .mutex | .spin => lock s c op
  | .atomic => fetch s c op

/-- The hash set is read. -/
def look (s : State) (c : ℕ) (op : Op) : Option State :=
  s.guard.sets[s.shardOf op]?.map fun set => s.at c (.writing op set)

/-- What `insert` and `erase` put into the place of the set they found, and the answer. -/
def written (set : List UInt64) : Op → Option (List UInt64) × Bool
  | .tryAcquire key => if set.contains key then (none, false) else (some (key :: set), true)
  | .release key => (some (set.filter (· ≠ key)), true)

/-- The hash set is written. -/
def write (s : State) (c : ℕ) (op : Op) (set : List UInt64) : State :=
  (s.put op (written set op).1).at c (.unlocking op (written set op).2)

/-- The end of the block of the lock. -/
def unlock (s : State) (c : ℕ) (op : Op) (got : Bool) : State := (s.unlock op).at c (op.leave got)

def count (s : State) (c : ℕ) (op : Op) (got : Bool) : State := (s.count got).at c (.returned op got)

def step (s : State) : Ev → Option State
  | .call c op => if s.call c = .idle then some (s.at c (.entered op)) else none
  | .go c => match s.call c with
    | .idle | .returned _ _ => none
    | .entered op => enter s c op
    | .looking op => look s c op
    | .writing op set => some (write s c op set)
    | .unlocking op got => some (unlock s c op got)
    | .counting op got => some (count s c op got)

/-! ## The guard, one call after the other -/

/-- A call by itself, if it is defined. -/
def apply : Option InflightGuard → Op → Option InflightGuard × Bool
  | none, _ => (none, false)
  | some g, .tryAcquire key => match g.tryAcquire key with
    | some (g, got) => (some g, got)
    | none => (none, false)
  | some g, .release key => (g.release key, true)

/-- The step at which a call takes effect: its write, its `fetch_or` or `fetch_and`, or what
it does in place of these. -/
def point (s : State) : Ev → Option (Lin.Entry ℕ Op Bool)
  | .call _ _ => none
  | .go c => match s.call c with
    | .entered op => match s.guard.mode with
      | .none => some ⟨c, op, true⟩
      | .mutex | .spin => none
      | .atomic => s.guard.bitmap[s.guard.word op.key]?.map fun before => ⟨c, op, (fetched before op).2⟩
    | .writing op set => some ⟨c, op, (written set op).2⟩
    | _ => none

/-- The calls that took effect along a run, in the order of their points. -/
def history (guard : InflightGuard) (es : List Ev) : List (Lin.Entry ℕ Op Bool) :=
  Machine.collect step point (init guard) es

/-- What a call still has to count. -/
def Pc.owes : Pc → Option Bool
  | .unlocking (.tryAcquire _) got | .counting _ got => some got
  | _ => none

/-- How many calls have still to count `got`. -/
noncomputable def State.owed (s : State) (got : Bool) : ℕ := {c | (s.call c).owes = some got}.ncard

/-- The guard with what the calls under way have still to count. -/
noncomputable def State.settled (s : State) : InflightGuard :=
  { s.guard with acquired := s.guard.acquired + s.owed true, rejected := s.guard.rejected + s.owed false }

end GuardThreads

end Seckill
