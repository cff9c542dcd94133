import Mathlib.Data.Int.Notation
import Mathlib.Logic.Function.Basic
import Mathlib.Tactic.Common

/-!
# The thread of the delayed delete (`service/SkuCache.h`)

`schedule` puts a batch of keys at the end of `queue_` and wakes the worker, which fires
it `delay` later. The mutex makes every critical section one step: the push of a
`schedule`, and in `run` the way from the test of `stop_` to the next wait or unlock.
Between them the clock goes on, other threads push, and a thread that has pushed may not
have notified yet.

A wait starts and gives the lock back in one step. A notification reaches a worker that
waits at that moment and nobody else; it may wake up without one.
-/

namespace Seckill

namespace DelayDeleter

structure Task where
  fireAt : ℤ
  keys : List String
  deriving DecidableEq

/-- Where the worker is in `run`. -/
inductive Worker
  /-- at the test of the loop, as soon as it has the lock -/
  | loop
  /-- in `cv_.wait`, with a notification for it or without -/
  | waiting (notified : Bool)
  /-- in `cv_.wait_until` -/
  | waitingUntil (time : ℤ) (notified : Bool)
  /-- at the call of `fire_`, without the lock -/
  | firing (keys : List String)
  | exited
  deriving DecidableEq

/-- `ι` are the threads that call `schedule`. -/
structure State (ι : Type) where
  now : ℤ
  queue_ : List Task
  stop_ : Bool
  worker : Worker
  /-- the thread has pushed and not notified yet -/
  notifies : ι → Bool

inductive Ev (ι : Type)
  | tick (d : ℕ)
  | schedule (i : ι) (keys : List String)
  | notifyOne (i : ι)
  | run
  | wake
  | spurious
  | fire
  | stop
  | notifyAll
  deriving DecidableEq

variable {ι : Type} [DecidableEq ι]

/-- The constructor starts the worker. -/
def init (now : ℤ) : State ι := ⟨now, [], false, .loop, fun _ => false⟩

/-- `schedule`, up to the end of its block. -/
def schedule (delay : ℤ) (s : State ι) (i : ι) (keys : List String) : Option (State ι) :=
  if s.notifies i then none
  else if keys = [] then some s
  else some { s with
    queue_ := s.queue_ ++ [⟨s.now + delay, keys⟩]
    notifies := Function.update s.notifies i true }

/-- What a notification does to the worker. -/
def Worker.notify : Worker → Worker
  | .waiting _ => .waiting true
  | .waitingUntil time _ => .waitingUntil time true
  | w => w

/-- The rest of `schedule`. -/
def notifyOne (s : State ι) (i : ι) : Option (State ι) :=
  if s.notifies i then
    some { s with worker := s.worker.notify, notifies := Function.update s.notifies i false }
  else none

/-- One pass through the loop of `run`, with the lock. -/
def pass (s : State ι) : Option (State ι) :=
  if s.worker = .loop then
    if s.stop_ then some { s with worker := .exited }
    else match s.queue_ with
      | [] => some { s with worker := .waiting false }
      | next :: rest =>
        if s.now < next.fireAt then some { s with worker := .waitingUntil next.fireAt false }
        else some { s with queue_ := rest, worker := .firing next.keys }
  else none

/-- The end of a wait, by a notification or because it is time. -/
def wake (s : State ι) : Option (State ι) :=
  match s.worker with
  | .waiting notified => if notified then some { s with worker := .loop } else none
  | .waitingUntil time notified => if notified ∨ time ≤ s.now then some { s with worker := .loop } else none
  | _ => none

def spurious (s : State ι) : Option (State ι) :=
  match s.worker with
  | .waiting _ | .waitingUntil _ _ => some { s with worker := .loop }
  | _ => none

/-- `fire_(std::move(keys))`. -/
def fire (s : State ι) : Option (State ι) :=
  match s.worker with
  | .firing _ => some { s with worker := .loop }
  | _ => none

/-- One step. The destructor is `stop` and `notifyAll`. -/
def step (delay : ℤ) (s : State ι) : Ev ι → Option (State ι)
  | .tick d => some { s with now := s.now + d }
  | .schedule i keys => schedule delay s i keys
  | .notifyOne i => notifyOne s i
  | .run => pass s
  | .wake => wake s
  | .spurious => spurious s
  | .fire => fire s
  | .stop => some { s with stop_ := true }
  | .notifyAll => if s.stop_ then some { s with worker := s.worker.notify } else none

end DelayDeleter

end Seckill
