import Mathlib.Tactic.Common

/-!
# The ring buffer of the logger (`logging/ring_buffer.h`)

Each operation holds the mutex, so it is one step. An index outside the array is
undefined in the source and has no result here (`none`). `dropped` is the number of refused
pushes; the `size_t` of the source is that number modulo `2 ^ 64` (`droppedCounter`). A slot
that was moved from keeps its value: it is written before it is read again.
-/

namespace Seckill

structure RingBuffer (T : Type) (capacity : ℕ) where
  buf : Array T
  head : ℕ
  count : ℕ
  dropped : ℕ
  stop : Bool

namespace RingBuffer

variable {T : Type} {capacity : ℕ}

def new [Inhabited T] : RingBuffer T capacity := ⟨.replicate capacity default, 0, 0, 0, false⟩

/-- A full buffer drops the item and answers `false`. -/
def push (b : RingBuffer T capacity) (item : T) : Option (Bool × RingBuffer T capacity) :=
  if b.count = capacity then some (false, { b with dropped := b.dropped + 1 })
  else
    let i := (b.head + b.count) % capacity
    if i < b.buf.size then some (true, { b with buf := b.buf.setIfInBounds i item, count := b.count + 1 })
    else none

/-- What `waitAndPopBatch` waits for. -/
def ready (b : RingBuffer T capacity) : Bool := b.count > 0 || b.stop

/-- Its loop: the items it takes, and the head it ends with. -/
def popLoop (capacity : ℕ) (buf : Array T) : ℕ → ℕ → Option (List T × ℕ)
  | 0, head => some ([], head)
  | count + 1, head =>
    match buf[head]? with
    | none => none
    | some item => (popLoop capacity buf count ((head + 1) % capacity)).map fun p => (item :: p.1, p.2)

/-- `waitAndPopBatch` of a buffer that is `ready`. -/
def waitAndPopBatch (b : RingBuffer T capacity) : Option (List T × RingBuffer T capacity) :=
  (popLoop capacity b.buf b.count b.head).map fun p => (p.1, { b with head := p.2, count := 0 })

def requestStop (b : RingBuffer T capacity) : RingBuffer T capacity := { b with stop := true }

/-- What `dropped()` answers. -/
def droppedCounter (b : RingBuffer T capacity) : UInt64 := b.dropped.toUInt64

/-- The items that wait, the oldest first. -/
def content (b : RingBuffer T capacity) : List T :=
  (List.range b.count).filterMap fun i => b.buf[(b.head + i) % capacity]?

/-- The calls, in the order in which they have the mutex. -/
inductive Op (T : Type)
  | push (item : T)
  | waitAndPopBatch
  | requestStop
  deriving DecidableEq

/-- `waitAndPopBatch` waits for a buffer that is `ready`. -/
def step (b : RingBuffer T capacity) : Op T → Option (RingBuffer T capacity)
  | .push item => (b.push item).map Prod.snd
  | .waitAndPopBatch => if b.ready then b.waitAndPopBatch.map Prod.snd else none
  | .requestStop => some b.requestStop

end RingBuffer

end Seckill
