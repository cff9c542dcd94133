import Seckill.Lib.Lru
import Seckill.Spec.Guards

/-!
# The sku cache (`service/SkuCache.cc`, `service/LocalLruCache.h`)

Two levels: `local_`, a bounded table in the process, and Redis behind it, with the
clock of the Redis store (ms) for both. A read that fails in any way is a miss, a
write or delete that fails is only counted (`Stats.err`).

Each operation is a state transformer; the outcome of its Redis command (`err`, the
text of an error) and the draw of its TTL's jitter come from outside. The deletes of
the delay thread wait in `delayed`. `enabled` is false where there is no client.
Values are JSON texts, which have no NUL byte: the `%s` of a command sends them whole.
-/

namespace Seckill

open Redis

/-! ## L1 -/

/-- `LocalLruCache::Item`. -/
structure LocalLruCache.Item where
  value : String
  expireAt : ℤ
  deriving DecidableEq

/-- `LocalLruCache`: the list and the hash table into it. -/
abbrev LocalLruCache := Lru Key LocalLruCache.Item

namespace LocalLruCache

def new (capacity : ℕ) : LocalLruCache := .empty (if capacity > 0 then capacity else 1)

/-- `get`: an entry that is there moves to the front, one that expired is dropped. -/
def get (c : LocalLruCache) (now : ℕ) (key : Key) : Option String × LocalLruCache :=
  match c.find key with
  | none => (none, c)
  | some item => if item.expireAt ≤ now then (none, c.erase key) else (some item.value, c.touch key)

def put (c : LocalLruCache) (now : ℕ) (key : Key) (value : String) (ttlSeconds : ℤ) : LocalLruCache :=
  Lru.put c key ⟨value, now + ttlSeconds * 1000⟩

end LocalLruCache

/-! ## Both levels -/

namespace SkuCache

/-- Which keys an order deletes. -/
inductive InvalidateOnOrder
  | none | item | itemAndList
  deriving DecidableEq, Repr

structure Config where
  enabled : Bool
  listTtlSeconds : ℤ
  detailTtlSeconds : ℤ
  nullTtlSeconds : ℤ
  jitterSeconds : ℤ
  doubleDeleteMs : ℤ
  localEnabled : Bool
  localCapacity : ℕ
  invalidateOnOrder : InvalidateOnOrder

def Config.default : Config := ⟨true, 30, 60, 60, 30, 0, false, 4096, .item⟩

/-- `__nil__`: the database has no such sku. -/
def kNullValue : String := "__nil__"

structure Stats where
  hit : ℕ
  localHit : ℕ
  miss : ℕ
  err : ℕ
  write : ℕ
  delayedDelete : ℕ

/-- What comes from outside to a write: the jitter drawn, the error of the command. -/
structure Io where
  draw : ℤ
  err : Option String

end SkuCache

/-- Redis, L1 if there is one, the queue of the delay thread and the counters. -/
structure SkuCache where
  redis : Store Key
  local_ : Option LocalLruCache
  delayed : List (ℤ × List Key)
  stats : SkuCache.Stats

namespace SkuCache

def new (cfg : Config) (redis : Store Key) : SkuCache :=
  ⟨redis, if cfg.localEnabled then some (.new cfg.localCapacity) else none, [], ⟨0, 0, 0, 0, 0, 0⟩⟩

def wait (c : SkuCache) (ms : ℕ) : SkuCache := { c with redis := c.redis.wait ms }

/-- A command on its way to Redis; an error is counted. -/
def issue {α : Type} (err : Option String) (x : Script Key α) (c : SkuCache) : Except String α × SkuCache :=
  match exec err x c.redis with
  | (.ok a, s) => (.ok a, { c with redis := s })
  | (.error what, s) => (.error what, { c with redis := s, stats := { c.stats with err := c.stats.err + 1 } })

def ttlWithJitter (cfg : Config) (draw baseSeconds : ℤ) : ℤ :=
  if cfg.jitterSeconds ≤ 0 then baseSeconds else baseSeconds + draw

/-- The look into L1. -/
def getLocal (key : Key) (c : SkuCache) : Option String × SkuCache :=
  match c.local_ with
  | none => (none, c)
  | some l => ((l.get c.redis.now key).1, { c with local_ := some (l.get c.redis.now key).2 })

/-- The GET and its callbacks: no string, or an empty one, is a miss. -/
def getRedis (err : Option String) (key : Key) (c : SkuCache) : Option String × SkuCache :=
  match issue err (Redis.get key) c with
  | (.error _, c) => (none, c)
  | (.ok reply, c) =>
    let v := (reply.map Val.text).getD ""
    if v = "" then (none, { c with stats := { c.stats with miss := c.stats.miss + 1 } })
    else (some v, { c with stats := { c.stats with hit := c.stats.hit + 1 } })

/-- `get`: `some value` for a hit. -/
def get (cfg : Config) (err : Option String) (key : Key) (c : SkuCache) : Option String × SkuCache :=
  if ¬cfg.enabled then (none, c)
  else match getLocal key c with
    | (some v, c) =>
      (some v, { c with stats := { c.stats with hit := c.stats.hit + 1, localHit := c.stats.localHit + 1 } })
    | (none, c) => getRedis err key c

/-- `setex`: the command is issued, and L1 written whatever becomes of it. -/
def setex (cfg : Config) (err : Option String) (key : Key) (value : String) (ttlSeconds : ℤ) (c : SkuCache) :
    SkuCache :=
  if ¬cfg.enabled then c
  else
    let c := { c with stats := { c.stats with write := c.stats.write + 1 } }
    let c := (issue err (Redis.setex key ttlSeconds (.raw value)) c).2
    { c with local_ := c.local_.map fun l => l.put c.redis.now key value ttlSeconds }

/-- `del`. -/
def del (cfg : Config) (err : Option String) (key : Key) (c : SkuCache) : SkuCache :=
  if ¬cfg.enabled then c
  else
    let c := (issue err (Redis.del key) c).2
    { c with local_ := c.local_.map fun l => l.erase key }

def getList (cfg : Config) (err : Option String) (c : SkuCache) : Option String × SkuCache :=
  get cfg err .skuList c

def getDetail (cfg : Config) (err : Option String) (skuId : Int64) (c : SkuCache) : Option String × SkuCache :=
  get cfg err (.skuItem skuId) c

def setList (cfg : Config) (io : Io) (json : String) (c : SkuCache) : SkuCache :=
  setex cfg io.err .skuList json (ttlWithJitter cfg io.draw cfg.listTtlSeconds) c

def setDetail (cfg : Config) (io : Io) (skuId : Int64) (json : String) (c : SkuCache) : SkuCache :=
  setex cfg io.err (.skuItem skuId) json (ttlWithJitter cfg io.draw cfg.detailTtlSeconds) c

def setNull (cfg : Config) (io : Io) (skuId : Int64) (c : SkuCache) : SkuCache :=
  setex cfg io.err (.skuItem skuId) kNullValue (ttlWithJitter cfg io.draw cfg.nullTtlSeconds) c

/-- `scheduleDelayedDelete`: there is a delay thread if `doubleDeleteMs > 0`. -/
def scheduleDelayedDelete (cfg : Config) (keys : List Key) (c : SkuCache) : SkuCache :=
  if cfg.doubleDeleteMs > 0 then { c with delayed := c.delayed ++ [(c.redis.now + cfg.doubleDeleteMs, keys)] }
  else c

/-- The delay thread takes the first task of its queue, if that is due. -/
def fireDelayed (cfg : Config) (err : Key → Option String) (c : SkuCache) : Option SkuCache :=
  match c.delayed with
  | [] => none
  | (fireAt, keys) :: rest =>
    if c.redis.now < fireAt then none
    else some (keys.foldl (fun c key => del cfg (err key) key c)
      { c with delayed := rest, stats := { c.stats with delayedDelete := c.stats.delayedDelete + 1 } })

/-- `invalidate`: one DEL of both keys. -/
def invalidate (cfg : Config) (err : Option String) (skuId : Int64) (c : SkuCache) : SkuCache :=
  if ¬cfg.enabled then c
  else
    let both : Script Key Unit := do
      let _ ← Redis.del (.skuItem skuId)
      let _ ← Redis.del .skuList
    let c := (issue err both c).2
    let c := { c with local_ := c.local_.map fun l => (l.erase (.skuItem skuId)).erase .skuList }
    scheduleDelayedDelete cfg [.skuItem skuId, .skuList] c

def invalidateItem (cfg : Config) (err : Option String) (skuId : Int64) (c : SkuCache) : SkuCache :=
  if ¬cfg.enabled then c
  else scheduleDelayedDelete cfg [.skuItem skuId] (del cfg err (.skuItem skuId) c)

def invalidateList (cfg : Config) (err : Option String) (c : SkuCache) : SkuCache :=
  if ¬cfg.enabled then c
  else scheduleDelayedDelete cfg [.skuList] (del cfg err .skuList c)

def invalidateOnOrder (cfg : Config) (err : Option String) (skuId : Int64) (c : SkuCache) : SkuCache :=
  match cfg.invalidateOnOrder with
  | .item => invalidateItem cfg err skuId c
  | .itemAndList => invalidate cfg err skuId c
  | .none => c

end SkuCache

end Seckill
