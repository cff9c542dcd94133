import Seckill.Lib.Run
import Seckill.Spec.SkuReads

/-!
# Reads, warm-ups and orders at the same time

The read path of `SkuReads` one step at a time, for any number of requests, with the
database, the delay thread and commands in flight. The Bloom filter is off.

A write of the cache is two effects, the `SETEX` in Redis and the `put` in L1, a delete
is two as well, and one more queues the second delete. Each happens by itself (`apply`):
a command is applied late, or after one that was issued later, or it fails; and another
thread may come in before L1 is written.

A write carries the moment of the SELECT its value is from (`Stamp`), and each level
the stamp of what it has under a key: they are not part of the program, they say what
a value was read from. So does the order a delayed delete is for.
-/

namespace Seckill

open Redis

/-- `UPDATE seckill_sku SET stock = stock - 1 WHERE id = ?`. -/
def SkuTable.deduct (t : SkuTable) (skuId : Int64) : SkuTable where
  rows := t.rows.map fun row => if row.id = skuId then { row with stock := row.stock - 1 } else row
  sorted := by
    rw [List.pairwise_map]
    refine t.sorted.imp fun {a b} h => ?_
    split <;> split <;> exact h

namespace ReadPath

open SeckillService (Config Answer)

/-- A moment of the database: the time, and which orders were committed. -/
structure Stamp where
  time : ℕ
  seen : ℕ → Bool

inductive Level
  | redis | local_
  deriving DecidableEq

/-- What is on its way: a write of a level (`SETEX`, `put`), a delete (`DEL`, `del`),
with the order for which the delay thread deletes a second time, or a task for that
thread. -/
inductive Effect
  | write (level : Level) (key : Key) (value : String) (ttlSeconds : ℤ) (stamp : Stamp)
  | delete (level : Level) (keys : List Key) (second : Option ℕ)
  | schedule (keys : List Key) (order : Option ℕ)

/-- A task of the delay thread, and the order that scheduled it, if one did. -/
structure Task where
  fireAt : ℤ
  keys : List Key
  order : Option ℕ

/-- What a read asks for: `listSkus`, `detailSku`. -/
inductive Query
  | list
  | detail (skuId : Int64)

def Query.key : Query → Key
  | .list => .skuList
  | .detail skuId => .skuItem skuId

/-- Where a request is. `looked` is the time its cache lookup ran. -/
inductive Read
  | idle
  /-- the GET outstanding, then its reply on the way -/
  | get (query : Query) | reply (query : Query) (value : Option String) (looked : ℕ)
  /-- the SELECT outstanding, then its result on the way -/
  | select (query : Query) (looked : ℕ) | selected (query : Query) (looked : ℕ) (table : SkuTable) (stamp : Stamp)
  | answered (query : Query) (answer : Answer) (looked : ℕ)
  | failed (query : Query)
  | warmSelect (limit : ℤ) | warmSelected (limit : ℤ) (table : SkuTable) (stamp : Stamp)
  | warmed (ok : Bool) (count : ℕ)

/-- An order that was committed: its sku, when, and whether the cache was told. -/
structure Order where
  skuId : Int64
  time : ℕ
  told : Bool

structure State where
  redis : Store Key
  local_ : Option LocalLruCache
  delayed : List Task
  pending : List Effect
  table : SkuTable
  reads : ℕ → Read
  orders : ℕ → Option Order
  /-- the stamp of what a level has under a key -/
  stampOf : Level → Key → Stamp

def State.init (cfg : Config) (now : ℕ) (table : SkuTable) : State where
  redis := .empty now
  local_ := if cfg.cache.localEnabled then some (.new cfg.cache.localCapacity) else none
  delayed := []
  pending := []
  table := table
  reads := fun _ => .idle
  orders := fun _ => none
  stampOf := fun _ _ => ⟨now, fun _ => false⟩

/-- The present moment. -/
def State.stamp (s : State) : Stamp := ⟨s.redis.now, fun q => (s.orders q).isSome⟩

def State.set (s : State) (r : ℕ) (p : Read) : State := { s with reads := Function.update s.reads r p }

inductive Ev
  | detailSku (r : ℕ) (skuId : Int64)
  | listSkus (r : ℕ)
  | get (r : ℕ) (err : Option String)
  | reply (r : ℕ)
  | select (r : ℕ) (err : Option String)
  | answer (r : ℕ) (draw : ℤ)
  | warmCache (r : ℕ) (limit : ℤ)
  | warmSelect (r : ℕ) (err : Option String)
  | warm (r : ℕ) (draw : ℕ → ℤ)
  | commit (q : ℕ) (skuId : Int64)
  | invalidateOnOrder (q : ℕ)
  | update (table : SkuTable)
  | fireDelayed
  | apply (i : ℕ) (err : Option String)
  | wait (ms : ℕ)

/-! ## Issuing -/

def issue (cfg : Config) (fs : List Effect) (s : State) : State :=
  if cfg.cache.enabled then { s with pending := s.pending ++ fs } else s

def setex (cfg : Config) (key : Key) (value : String) (ttlSeconds : ℤ) (stamp : Stamp) (s : State) : State :=
  issue cfg [.write .redis key value ttlSeconds stamp, .write .local_ key value ttlSeconds stamp] s

def setList (cfg : Config) (draw : ℤ) (json : String) (stamp : Stamp) (s : State) : State :=
  setex cfg .skuList json (SkuCache.ttlWithJitter cfg.cache draw cfg.cache.listTtlSeconds) stamp s

def setDetail (cfg : Config) (draw : ℤ) (skuId : Int64) (json : String) (stamp : Stamp) (s : State) : State :=
  setex cfg (.skuItem skuId) json (SkuCache.ttlWithJitter cfg.cache draw cfg.cache.detailTtlSeconds) stamp s

def setNull (cfg : Config) (draw : ℤ) (skuId : Int64) (stamp : Stamp) (s : State) : State :=
  setex cfg (.skuItem skuId) SkuCache.kNullValue
    (SkuCache.ttlWithJitter cfg.cache draw cfg.cache.nullTtlSeconds) stamp s

/-- `std::uniform_int_distribution` draws the jitter from `0` to `jitterSeconds`. -/
def Draws (cfg : Config) (draw : ℤ) : Prop := 0 ≤ draw ∧ draw ≤ max cfg.cache.jitterSeconds 0

instance (cfg : Config) (draw : ℤ) : Decidable (Draws cfg draw) := inferInstanceAs (Decidable (_ ∧ _))

def del (cfg : Config) (key : Key) (second : Option ℕ) (s : State) : State :=
  issue cfg [.delete .redis [key] second, .delete .local_ [key] second] s

def invalidate (cfg : Config) (skuId : Int64) (order : Option ℕ) (s : State) : State :=
  issue cfg [.delete .redis [.skuItem skuId, .skuList] none, .delete .local_ [.skuItem skuId] none,
    .delete .local_ [.skuList] none, .schedule [.skuItem skuId, .skuList] order] s

def invalidateItem (cfg : Config) (skuId : Int64) (order : Option ℕ) (s : State) : State :=
  issue cfg [.schedule [.skuItem skuId] order] (del cfg (.skuItem skuId) none s)

def invalidateList (cfg : Config) (order : Option ℕ) (s : State) : State :=
  issue cfg [.schedule [.skuList] order] (del cfg .skuList none s)

/-! ## Effects -/

/-- `DEL` of several keys. -/
def delAll (keys : List Key) : Script Key Unit := fun s => (.ok (), keys.foldl (fun s key => s.put key none) s)

/-- `scheduleDelayedDelete`: there is a delay thread if `doubleDeleteMs > 0`. -/
def scheduleDelayedDelete (cfg : Config) (keys : List Key) (order : Option ℕ) (s : State) : State :=
  if cfg.cache.doubleDeleteMs > 0 then
    { s with delayed := s.delayed ++ [⟨s.redis.now + cfg.cache.doubleDeleteMs, keys, order⟩] }
  else s

/-- An effect happens; a command may fail, L1 and the queue do not. -/
def perform (cfg : Config) (err : Option String) (s : State) : Effect → Option State
  | .write .redis key value ttlSeconds stamp =>
    match exec err (Redis.setex key ttlSeconds (.raw value)) s.redis with
    | (.ok _, redis) =>
      some { s with
        redis := redis
        stampOf := Function.update s.stampOf .redis (Function.update (s.stampOf .redis) key stamp) }
    | (.error _, redis) => some { s with redis := redis }
  | .delete .redis keys _ => some { s with redis := (exec err (delAll keys) s.redis).2 }
  | .write .local_ key value ttlSeconds stamp =>
    if err ≠ none then none
    else some { s with
      local_ := s.local_.map fun l => l.put s.redis.now key value ttlSeconds
      stampOf := Function.update s.stampOf .local_ (Function.update (s.stampOf .local_) key stamp) }
  | .delete .local_ keys _ =>
    if err ≠ none then none
    else some { s with local_ := s.local_.map fun l => keys.foldl (fun l key => l.erase key) l }
  | .schedule keys order => if err ≠ none then none else some (scheduleDelayedDelete cfg keys order s)

/-- Any of the pending effects may be the next. -/
def applyStep (cfg : Config) (s : State) (i : ℕ) (err : Option String) : Option State :=
  match s.pending[i]? with
  | some f => perform cfg err { s with pending := s.pending.eraseIdx i } f
  | none => none

/-! ## Reading -/

/-- What the callback of a lookup makes of a string: the answer, unless it does not parse. -/
def decode (cfg : Config) : Query → String → Option Answer
  | .list, value => match cfg.json.fromJson value with
    | some (.arr items) => some (true, .arr items)
    | _ => none
  | .detail _, value =>
    if value = SkuCache.kNullValue then some (false, .null)
    else match cfg.json.fromJson value with
      | some (.obj fields) => some (true, .obj fields)
      | _ => none

/-- What is done about a string that does not parse. -/
def repair (cfg : Config) : Query → State → State
  | .list, s => invalidateList cfg none s
  | .detail skuId, s => invalidate cfg skuId none s

/-- What `queryListFromDb` and `queryDetailFromDb` answer. -/
def answer : Query → SkuTable → Answer
  | .list, t => (true, .arr ((t.first 100).map itemJson))
  | .detail skuId, t => match t.find skuId with
    | none => (false, .null)
    | some row => (true, itemJson row)

/-- What they write back. -/
def writeBack (cfg : Config) (draw : ℤ) (t : SkuTable) (stamp : Stamp) : Query → State → State
  | .list, s => setList cfg draw (cfg.json.toCompactJson (.arr ((t.first 100).map itemJson))) stamp s
  | .detail skuId, s => match t.find skuId with
    | none => setNull cfg draw skuId stamp s
    | some row => setDetail cfg draw skuId (cfg.json.toCompactJson (itemJson row)) stamp s

/-- A read up to its GET: a hit in L1 needs none. -/
def readStep (cfg : Config) (s : State) (r : ℕ) (query : Query) : Option State :=
  match s.reads r with
  | .idle =>
    if ¬cfg.cache.enabled then some (s.set r (.select query s.redis.now))
    else match s.local_ with
      | none => some (s.set r (.get query))
      | some l =>
        let p := l.get s.redis.now query.key
        some ({ s with local_ := some p.2 }.set r (match p.1 with
          | some value => .reply query (some value) s.redis.now
          | none => .get query))
  | _ => none

def getStep (s : State) (r : ℕ) (err : Option String) : Option State :=
  match s.reads r with
  | .get query =>
    let p := exec err (Redis.get query.key) s.redis
    let value := match p.1 with
      | .ok reply => (reply.map Val.text).filter (· ≠ "")
      | .error _ => none
    some ({ s with redis := p.2 }.set r (.reply query value s.redis.now))
  | _ => none

def replyStep (cfg : Config) (s : State) (r : ℕ) : Option State :=
  match s.reads r with
  | .reply query none looked => some (s.set r (.select query looked))
  | .reply query (some value) looked => match decode cfg query value with
    | some a => some (s.set r (.answered query a looked))
    | none => some ((repair cfg query s).set r (.select query looked))
  | _ => none

def selectStep (s : State) (r : ℕ) (err : Option String) : Option State :=
  match s.reads r with
  | .select query looked => match err with
    | some _ => some (s.set r (.failed query))
    | none => some (s.set r (.selected query looked s.table s.stamp))
  | _ => none

/-- The callback of the SELECT: write back, answer. -/
def answerStep (cfg : Config) (s : State) (r : ℕ) (draw : ℤ) : Option State :=
  match s.reads r with
  | .selected query looked t stamp =>
    if ¬Draws cfg draw then none
    else some ((writeBack cfg draw t stamp query s).set r (.answered query (answer query t) looked))
  | _ => none

/-! ## Warming -/

def warmCacheStep (s : State) (r : ℕ) (limit : ℤ) : Option State :=
  match s.reads r with
  | .idle => some (s.set r (.warmSelect (if limit < 1 then 1 else limit)))
  | _ => none

def warmSelectStep (s : State) (r : ℕ) (err : Option String) : Option State :=
  match s.reads r with
  | .warmSelect limit => match err with
    | some _ => some (s.set r (.warmed false 0))
    | none => some (s.set r (.warmSelected limit s.table s.stamp))
  | _ => none

/-- The loop over the rows, from write `i` on: the list so far, the count and the state. -/
def warmLoop (cfg : Config) (draw : ℕ → ℤ) (stamp : Stamp) (i : ℕ) (listArr : List Json) (s : State) :
    List SkuRow → List Json × ℕ × State
  | [] => (listArr, i, s)
  | row :: rows =>
    let item := itemJson row
    let listArr := if listArr.length < 100 then listArr ++ [item] else listArr
    warmLoop cfg draw stamp (i + 1) listArr
      (setDetail cfg (draw i) row.id (cfg.json.toCompactJson item) stamp s) rows

def warmStep (cfg : Config) (s : State) (r : ℕ) (draw : ℕ → ℤ) : Option State :=
  match s.reads r with
  | .warmSelected limit t stamp =>
    let rows := t.first limit.toNat
    if ¬∀ i ≤ rows.length, Draws cfg (draw i) then none
    else
      let (listArr, warmed, s) := warmLoop cfg draw stamp 0 [] s rows
      let s := if listArr ≠ [] then setList cfg (draw warmed) (cfg.json.toCompactJson (.arr listArr)) stamp s else s
      some (s.set r (.warmed true warmed))
  | _ => none

/-! ## Orders -/

/-- The order is committed: the stock is one less. -/
def commitStep (s : State) (q : ℕ) (skuId : Int64) : Option State :=
  match s.orders q, s.table.find skuId with
  | none, some row =>
    if row.stock > 0 then
      some { s with
        table := s.table.deduct skuId
        orders := Function.update s.orders q (some ⟨skuId, s.redis.now, false⟩) }
    else none
  | _, _ => none

/-- The keys an order deletes. -/
def invalidateOnOrder (cfg : Config) (skuId : Int64) (q : ℕ) (s : State) : State :=
  match cfg.cache.invalidateOnOrder with
  | .item => invalidateItem cfg skuId (some q) s
  | .itemAndList => invalidate cfg skuId (some q) s
  | .none => s

/-- The commit callback. -/
def invalidateOnOrderStep (cfg : Config) (s : State) (q : ℕ) : Option State :=
  match s.orders q with
  | some order =>
    if order.told then none
    else some { invalidateOnOrder cfg order.skuId q s with
      orders := Function.update s.orders q (some { order with told := true }) }
  | none => none

/-- The delay thread takes the first task of its queue, if that is due. -/
def fireDelayedStep (cfg : Config) (s : State) : Option State :=
  match s.delayed with
  | [] => none
  | task :: rest =>
    if s.redis.now < task.fireAt then none
    else some (task.keys.foldl (fun s key => del cfg key task.order s) { s with delayed := rest })

def step (cfg : Config) (s : State) : Ev → Option State
  | .detailSku r skuId => readStep cfg s r (.detail skuId)
  | .listSkus r => readStep cfg s r .list
  | .get r err => getStep s r err
  | .reply r => replyStep cfg s r
  | .select r err => selectStep s r err
  | .answer r draw => answerStep cfg s r draw
  | .warmCache r limit => warmCacheStep s r limit
  | .warmSelect r err => warmSelectStep s r err
  | .warm r draw => warmStep cfg s r draw
  | .commit q skuId => commitStep s q skuId
  | .invalidateOnOrder q => invalidateOnOrderStep cfg s q
  | .update table => some { s with table := table }
  | .fireDelayed => fireDelayedStep cfg s
  | .apply i err => applyStep cfg s i err
  | .wait ms => some { s with redis := s.redis.wait ms }

end ReadPath

end Seckill
