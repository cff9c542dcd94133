import Seckill.Lib.Run
import Seckill.Spec.InflightGuard
import Seckill.Spec.Mysql

/-!
# Concurrent orders (`SeckillService::doSeckill`)

Requests run as chains of callbacks. A request's `pc` says which asynchronous
operation is outstanding (or what became of its transaction); `live` lists the
frames and closures of the request that still exist, each with copies of the
values it captured. The events are the steps that interleave: a call, Drogon
running a callback, MySQL executing a statement, and the destruction of a frame
or closure (`drop`).

Two things happen by destruction only. The last copy of the token to go releases
the in-flight mark. The last reference to the transaction to go, if nobody called
`rollback()`, issues the COMMIT: the `commit` event needs a transaction that was
not rolled back and no live holder of a reference.

Drogon and MySQL as assumed: every statement gets one outcome (`err` is an
error's text), a transaction object keeps its commit callback alive until its
COMMIT or ROLLBACK has completed, the commit callback fires once with the result
of COMMIT and never after a rollback, a failed COMMIT changes nothing.
-/

namespace Seckill

/-- The frames and closures of one request. -/
inductive Holder
  /-- the call of `doSeckill` itself (its local `token`) -/
  | call
  /-- the callback of `newTransactionAsync` -/
  | newTx
  /-- the `shared_ptr<Transaction>` that callback is given -/
  | txArg
  /-- the closure given to `setCommitCallback`, owned by the transaction -/
  | commitCb
  /-- the two callbacks of the UPDATE -/
  | updOk | updErr
  /-- the two callbacks of the INSERT -/
  | insOk | insErr
  deriving DecidableEq, Repr

/-- The holder captured a copy of the in-flight token. -/
def Holder.hasToken : Holder → Bool
  | .txArg => false
  | _ => true

/-- The holder captured a reference to the transaction. -/
def Holder.hasTx : Holder → Bool
  | .txArg | .updOk | .updErr | .insOk | .insErr => true
  | _ => false

/-- The outcome of a statement: its affected rows, or the error's text. -/
abbrev Outcome := Except String ℕ

/-- Where a request is. -/
inductive Pc
  | idle
  /-- turned away by the in-flight gate -/
  | refused
  /-- `newTransactionAsync` outstanding -/
  | opening
  /-- it gave a null transaction -/
  | noTx
  /-- the UPDATE outstanding, then its outcome on the way to the callbacks -/
  | updating | updated (o : Outcome)
  /-- the INSERT outstanding, then its outcome on the way to the callbacks -/
  | inserting | inserted (o : Outcome)
  /-- the INSERT's callback returned: only references to the transaction are left -/
  | ordered
  /-- COMMIT executed, its result on the way to the commit callback -/
  | committed (ok : Bool)
  /-- the commit callback ran -/
  | closed (ok : Bool)
  /-- `rollback()` called -/
  | rollingBack
  /-- ROLLBACK executed -/
  | rolledBack
  /-- the process died under it, before or after a COMMIT -/
  | dead (ok : Bool)
  deriving DecidableEq

/-- The transaction is alive and `rollback()` was not called on it. -/
def Pc.active : Pc → Bool
  | .updating | .updated _ | .inserting | .inserted _ | .ordered => true
  | _ => false

/-- The transaction is open: neither committed nor rolled back yet. -/
def Pc.isOpen (p : Pc) : Bool := p.active || p = .rollingBack

/-- The request's COMMIT took effect. -/
def Pc.isCommitted : Pc → Bool
  | .committed ok | .closed ok | .dead ok => ok
  | _ => false

/-- A frame or closure can be destroyed: it returned, ran, or its sibling ran. -/
def Pc.lets (p : Pc) : Holder → Bool
  | .call => true
  | .newTx | .txArg => p ≠ .opening
  | .updOk | .updErr => match p with
    | .updating | .updated _ => false
    | _ => true
  | .insOk | .insErr => match p with
    | .inserting | .inserted _ => false
    | _ => true
  | .commitCb => match p with
    | .closed _ | .rolledBack => true
    | _ => false

/-- What the process's death makes of a request. -/
def Pc.crash : Pc → Pc
  | .committed ok => .dead ok
  | .opening | .updating | .updated _ | .inserting | .inserted _ | .ordered | .rollingBack => .dead false
  | p => p

/-- A request: its ids, whether it holds a valid token, its live frames and
closures, where it is, and the calls of its `callback` so far. -/
structure Req where
  userId : Int64
  skuId : Int64
  token : Bool
  live : List Holder
  pc : Pc
  answers : List (Bool × String)

def Req.idle : Req := ⟨0, 0, false, [], .idle, []⟩

def Req.key (q : Req) : UInt64 := makeKey q.userId q.skuId

def Req.order (q : Req) : Order := ⟨q.userId, q.skuId⟩

/-- Some live frame or closure has a copy of a valid token. -/
def Req.holds (q : Req) : Bool := q.token && q.live.any Holder.hasToken

/-- The callback chain is over: the request was called, and nothing of it is left. -/
def Req.finished (q : Req) : Prop := q.pc ≠ .idle ∧ (∀ ok, q.pc ≠ .dead ok) ∧ q.live = []

def Req.answer (q : Req) (a : Bool × String) : Req := { q with answers := q.answers ++ [a] }

/-- A request after one of its frames or closures went. -/
def Req.without (q : Req) (h : Holder) : Req := { q with live := q.live.filter (· ≠ h) }

structure State where
  db : Db
  guard : InflightGuard
  req : ℕ → Req
  /-- the skus `SkuCache::invalidateOnOrder` was called for -/
  invalidated : List Int64

/-- Tables without open transactions, and no request yet. -/
def State.init (stock : Int64 → Option ℤ) (orders : List Order) (guard : InflightGuard) : State :=
  ⟨.init stock orders, guard, fun _ => .idle, []⟩

def State.set (s : State) (r : ℕ) (q : Req) : State := { s with req := Function.update s.req r q }

/-- The steps that interleave. `r` names the request. -/
inductive Ev
  | call (r : ℕ) (userId skuId : Int64)
  | drop (r : ℕ) (h : Holder)
  | newTx (r : ℕ) (ok : Bool)
  | update (r : ℕ) (err : Option String)
  | onUpdate (r : ℕ)
  | insert (r : ℕ) (err : Option String)
  | onInsert (r : ℕ)
  | commit (r : ℕ) (ok : Bool)
  | onCommit (r : ℕ)
  | rollback (r : ℕ)
  /-- the MySQL server restarts -/
  | dbCrash
  /-- the service process dies and starts again -/
  | crash

/-! ## The callbacks -/

/-- The UPDATE's callbacks: the answer, when they give one (and roll back). -/
def updateAnswer : Outcome → Option (Bool × String)
  | .error what => some (false, "DB_ERROR: " ++ what)
  | .ok n => if n = 0 then some (false, "SOLD_OUT") else none

/-- The INSERT's callbacks: the answer, when they give one (and roll back). -/
def insertAnswer : Outcome → Option (Bool × String)
  | .error what => some (false, "DB_ERROR: " ++ what)
  | .ok n => if n = 0 then some (false, "DUPLICATE_ORDER") else none

/-- The commit callback's answer. -/
def commitAnswer (committed : Bool) : Bool × String :=
  if committed then (true, "OK") else (false, "DB_ERROR: commit failed")

/-- `doSeckill(userId, skuId, callback)` up to `newTransactionAsync`. -/
def callStep (s : State) (r : ℕ) (userId skuId : Int64) : Option State :=
  let q : Req := ⟨userId, skuId, false, [.call, .newTx], .opening, []⟩
  if (s.req r).pc ≠ .idle then none
  else if s.guard.mode = .none then some (s.set r q)
  else (s.guard.tryAcquire (makeKey userId skuId)).map fun (g, got) =>
    if got then { s with guard := g }.set r { q with token := true }
    else { s with guard := g }.set r
      ({ q with live := [], pc := .refused }.answer (false, "DUPLICATE_ORDER"))

/-- A frame returns or a closure is destroyed; the last token copy releases the mark. -/
def dropStep (s : State) (r : ℕ) (h : Holder) : Option State :=
  let q := s.req r
  let q' := q.without h
  if h ∈ q.live ∧ q.pc.lets h then
    if q.holds && !q'.holds then (s.guard.release q.key).map fun g => { s with guard := g }.set r q'
    else some (s.set r q')
  else none

/-- The callback of `newTransactionAsync`. -/
def newTxStep (s : State) (r : ℕ) (ok : Bool) : Option State :=
  let q := s.req r
  if q.pc ≠ .opening then none
  else if ok then
    some ({ s with db := s.db.begin r }.set r
      { q with pc := .updating, live := q.live ++ [Holder.txArg, .commitCb, .updOk, .updErr] })
  else some (s.set r ({ q with pc := .noTx }.answer (false, "DB_ERROR: no transaction (timeout)")))

/-- MySQL executes the UPDATE, or the statement fails. -/
def updateStep (s : State) (r : ℕ) (err : Option String) : Option State :=
  let q := s.req r
  if q.pc ≠ .updating then none
  else match err with
    | some what => some (s.set r { q with pc := .updated (.error what) })
    | none => (s.db.deduct r q.skuId).map fun (d, n) =>
      { s with db := d }.set r { q with pc := .updated (.ok n) }

/-- The UPDATE's success or exception callback. -/
def onUpdateStep (s : State) (r : ℕ) : Option State :=
  let q := s.req r
  match q.pc with
  | .updated o => match updateAnswer o with
    | some a => some (s.set r ({ q with pc := .rollingBack }.answer a))
    | none => some (s.set r { q with pc := .inserting, live := q.live ++ [Holder.insOk, .insErr] })
  | _ => none

/-- MySQL executes the INSERT, or the statement fails. -/
def insertStep (s : State) (r : ℕ) (err : Option String) : Option State :=
  let q := s.req r
  if q.pc ≠ .inserting then none
  else match err with
    | some what => some (s.set r { q with pc := .inserted (.error what) })
    | none => (s.db.insertOrder r q.order).map fun (d, n) =>
      { s with db := d }.set r { q with pc := .inserted (.ok n) }

/-- The INSERT's success or exception callback. -/
def onInsertStep (s : State) (r : ℕ) : Option State :=
  let q := s.req r
  match q.pc with
  | .inserted o => match insertAnswer o with
    | some a => some (s.set r ({ q with pc := .rollingBack }.answer a))
    | none => some (s.set r { q with pc := .ordered })
  | _ => none

/-- The last reference to a transaction nobody rolled back is gone: COMMIT runs. -/
def commitStep (s : State) (r : ℕ) (ok : Bool) : Option State :=
  let q := s.req r
  if q.pc.active ∧ ¬q.live.any Holder.hasTx then
    if ok then (s.db.commit r).map fun d => { s with db := d }.set r { q with pc := .committed true }
    else some ({ s with db := s.db.rollback r }.set r { q with pc := .committed false })
  else none

/-- The commit callback. -/
def onCommitStep (s : State) (r : ℕ) : Option State :=
  let q := s.req r
  match q.pc with
  | .committed ok =>
    some ({ s with invalidated := if ok then s.invalidated ++ [q.skuId] else s.invalidated }.set r
      ({ q with pc := .closed ok }.answer (commitAnswer ok)))
  | _ => none

/-- MySQL executes the ROLLBACK. -/
def rollbackStep (s : State) (r : ℕ) : Option State :=
  let q := s.req r
  if q.pc = .rollingBack then some ({ s with db := s.db.rollback r }.set r { q with pc := .rolledBack })
  else none

/-- The process dies: nothing of any request is left, and the gate starts empty. -/
def crashStep (s : State) : State :=
  { s with
    db := s.db.abortAll
    guard := .new s.guard.mode s.guard.shards s.guard.bits
    req := fun r => { s.req r with live := [], pc := (s.req r).pc.crash } }

/-- One step of the service and its database. -/
def step (s : State) : Ev → Option State
  | .call r userId skuId => callStep s r userId skuId
  | .drop r h => dropStep s r h
  | .newTx r ok => newTxStep s r ok
  | .update r err => updateStep s r err
  | .onUpdate r => onUpdateStep s r
  | .insert r err => insertStep s r err
  | .onInsert r => onInsertStep s r
  | .commit r ok => commitStep s r ok
  | .onCommit r => onCommitStep s r
  | .rollback r => rollbackStep s r
  | .dbCrash => some { s with db := s.db.abortAll }
  | .crash => some (crashStep s)

end Seckill
