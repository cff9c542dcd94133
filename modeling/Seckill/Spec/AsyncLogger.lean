import Mathlib.Logic.Function.Basic
import Seckill.Spec.RingBuffer

/-!
# The asynchronous logger (`logging/AsyncLogger.cc`)

Any thread may call `start`, `log` and `shutdown`; a call runs in steps, each one access
to what the threads share, and so does a worker. An event is one step; which call or
worker takes it, and what the file system does, comes from outside.

`sink` is what was written: spdlog writes what is not below the level of its logger.
`enabled` and the level it reads are left out: `log` does not ask. A thread can always be
created.
-/

namespace Seckill

/-- `LogMessage`, with the level as the number that spdlog compares. -/
structure LogMessage where
  level : ℕ
  msg : String
  deriving DecidableEq, Inhabited

namespace AsyncLogger

def kCapacity : ℕ := 4096

/-- `spdlog::level::info`, the level of a logger that is not told another. -/
def info : ℕ := 2

/-- Where a call of `start`, `log` or `shutdown` is. -/
inductive Pc
  | idle
  /-- `start` has set `running_`; the file is open; worker `w` runs and is not in `worker_` yet -/
  | opening (level : ℕ) | creating | assigning (w : ℕ)
  /-- `log` has seen `running_` -/
  | pushing (m : LogMessage)
  /-- `shutdown` has reset `running_`; has set `stop_`; has seen a joinable `worker_`; does not wait any more -/
  | stopping | testing | joining | flushing
  | returned
  /-- an exception left the call -/
  | threw
  deriving DecidableEq

/-- Where a worker is: before `waitAndPopBatch`, or at an item of its batch. -/
inductive Worker
  | absent
  | waiting
  | writing (m : LogMessage) (rest : List LogMessage)
  | exited
  deriving DecidableEq

/-- The file opens, or the logger falls back to stderr, or neither works. -/
inductive Opens
  | file | fallback | throws
  deriving DecidableEq

structure State where
  running : Bool
  buf : RingBuffer LogMessage kCapacity
  /-- the level of the logger, if there is one -/
  fileLogger : Option ℕ
  sink : List LogMessage
  /-- the thread of `worker_`, if it is joinable -/
  worker : Option ℕ
  workers : ℕ → Worker
  call : ℕ → Pc
  /-- `std::terminate` was called -/
  terminated : Bool

def State.init : State := ⟨false, .new, none, [], none, fun _ => .absent, fun _ => .idle, false⟩

def State.at (s : State) (c : ℕ) (p : Pc) : State := { s with call := Function.update s.call c p }

def State.run (s : State) (w : ℕ) (x : Worker) : State := { s with workers := Function.update s.workers w x }

inductive Ev
  | start (c level : ℕ)
  | opens (c : ℕ) (how : Opens)
  | create (c w : ℕ)
  | assign (c : ℕ)
  | log (c : ℕ) (m : LogMessage)
  | push (c : ℕ)
  | shutdown (c : ℕ)
  | requestStop (c : ℕ)
  | joinable (c : ℕ)
  | join (c : ℕ)
  | flush (c : ℕ)
  | pop (w : ℕ)
  | write (w : ℕ)
  deriving DecidableEq

/-! ## `start` -/

/-- `running_.exchange(true)`. -/
def start (s : State) (c level : ℕ) : Option State :=
  if s.call c = .idle then
    some (if s.running then s.at c .returned else { s with running := true }.at c (.opening level))
  else none

/-- The `try` block and its handler. -/
def opens (s : State) (c : ℕ) (how : Opens) : Option State :=
  match s.call c, how with
  | .opening level, .file => some ({ s with fileLogger := some level }.at c .creating)
  | .opening _, .fallback => some ({ s with fileLogger := some info }.at c .creating)
  | .opening _, .throws => some (s.at c .threw)
  | _, _ => none

/-- `std::thread([this] { workerLoop(); })`. -/
def create (s : State) (c w : ℕ) : Option State :=
  if s.call c = .creating ∧ s.workers w = .absent then some ((s.run w .waiting).at c (.assigning w)) else none

/-- The move into `worker_`, which must not be joinable. -/
def assign (s : State) (c : ℕ) : Option State :=
  match s.call c with
  | .assigning w =>
    some (if s.worker.isSome then { s with terminated := true } else { s with worker := some w }.at c .returned)
  | _ => none

/-! ## `log` -/

def log (s : State) (c : ℕ) (m : LogMessage) : Option State :=
  if s.call c = .idle then some (s.at c (if s.running then .pushing m else .returned)) else none

def push (s : State) (c : ℕ) : Option State :=
  match s.call c with
  | .pushing m => (s.buf.push m).map fun p => { s with buf := p.2 }.at c .returned
  | _ => none

/-! ## `shutdown` -/

/-- `running_.exchange(false)`. -/
def shutdown (s : State) (c : ℕ) : Option State :=
  if s.call c = .idle then some (if s.running then { s with running := false }.at c .stopping else s.at c .returned)
  else none

def requestStop (s : State) (c : ℕ) : Option State :=
  if s.call c = .stopping then some ({ s with buf := s.buf.requestStop }.at c .testing) else none

def joinable (s : State) (c : ℕ) : Option State :=
  if s.call c = .testing then some (s.at c (if s.worker.isSome then .joining else .flushing)) else none

/-- `worker_.join()` waits for the thread to exit; another call may have joined it. -/
def join (s : State) (c : ℕ) : Option State :=
  if s.call c = .joining then
    match s.worker with
    | none => some (s.at c .threw)
    | some w => if s.workers w = .exited then some ({ s with worker := none }.at c .flushing) else none
  else none

/-- The flush, and the return. -/
def flush (s : State) (c : ℕ) : Option State :=
  if s.call c = .flushing then some (s.at c .returned) else none

/-! ## `workerLoop` -/

/-- The worker with the rest of its batch to write. -/
def Worker.ofBatch : List LogMessage → Worker
  | [] => .waiting
  | m :: rest => .writing m rest

def pop (s : State) (w : ℕ) : Option State :=
  if s.workers w = .waiting ∧ s.buf.ready then
    (s.buf.waitAndPopBatch).map fun p =>
      { s with buf := p.2 }.run w (if p.1.length = 0 then .exited else .ofBatch p.1)
  else none

def write (s : State) (w : ℕ) : Option State :=
  match s.workers w, s.fileLogger with
  | .writing m rest, some level =>
    some ({ s with sink := if level ≤ m.level then s.sink ++ [m] else s.sink }.run w (.ofBatch rest))
  | .writing _ rest, none => some (s.run w (.ofBatch rest))
  | _, _ => none

/-- One step. After `std::terminate` there is none. -/
def step (s : State) (e : Ev) : Option State :=
  if s.terminated then none
  else match e with
    | .start c level => start s c level
    | .opens c how => opens s c how
    | .create c w => create s c w
    | .assign c => assign s c
    | .log c m => log s c m
    | .push c => push s c
    | .shutdown c => shutdown s c
    | .requestStop c => requestStop s c
    | .joinable c => joinable s c
    | .join c => join s c
    | .flush c => flush s c
    | .pop w => pop s w
    | .write w => write s w

end AsyncLogger

end Seckill
