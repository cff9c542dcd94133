import Seckill.Spec.BloomFilter
import Seckill.Spec.Jwt
import Seckill.Spec.SkuCache

/-!
# Reading skus (`SeckillService::listSkus`, `detailSku`, `warmCache`)

The read path is cache-aside: the cache, then on a miss the database, whose answer
is written back. `warmCache` writes the same values ahead of time.

A query takes the table as its SELECT saw it, or the text of an error. jsoncpp's
writer and reader are parameters (`JsonCpp`); the service always has a cache object,
which may be disabled.
-/

namespace Seckill

/-! ## The table -/

/-- A row of `seckill_sku`, the dates formatted by the SELECT. -/
structure SkuRow where
  id : Int64
  name : Bytes
  stock : ℤ
  total : ℤ
  startTime : Bytes
  endTime : Bytes
  deriving DecidableEq

/-- `seckill_sku` in the order of its primary key. -/
structure SkuTable where
  rows : List SkuRow
  sorted : rows.Pairwise fun a b => a.id < b.id

/-- `ORDER BY id ASC LIMIT n`. -/
def SkuTable.first (t : SkuTable) (n : ℕ) : List SkuRow := t.rows.take n

/-- `WHERE id = ?`. -/
def SkuTable.find (t : SkuTable) (skuId : Int64) : Option SkuRow := t.rows.find? fun row => row.id = skuId

/-! ## JSON -/

/-- jsoncpp: the compact writer and the reader. -/
structure JsonCpp where
  writeString : Json → String
  /-- assumed to read a value or to refuse, as in `Jwt` -/
  parse : String → Option Json

def JsonCpp.toCompactJson (j : JsonCpp) (v : Json) : String := j.writeString v

def JsonCpp.fromJson (j : JsonCpp) (s : String) : Option Json := if s = "" then none else j.parse s

/-- A row as an object; an object keeps its members by name. -/
def itemJson (row : SkuRow) : Json :=
  .obj [(ascii "endTime", .str row.endTime), (ascii "id", .int row.id.toInt), (ascii "name", .str row.name),
    (ascii "startTime", .str row.startTime), (ascii "stock", .int row.stock), (ascii "total", .int row.total)]

namespace SeckillService

/-- The collaborators of the service that do not change. -/
structure Config where
  json : JsonCpp
  cache : SkuCache.Config
  bloomEnabled : Bool

/-- `cb(ok, data)`. -/
abbrev Answer := Bool × Json

/-- What comes from outside to a read: the errors of its GET and of the DEL of a value
that does not parse, and its write. -/
structure ReadIo where
  get : Option String
  del : Option String
  write : SkuCache.Io

variable (cfg : Config)

def queryListFromDb (writeCache : Bool) (select : Except String SkuTable) (io : SkuCache.Io) (c : SkuCache) :
    Answer × SkuCache :=
  match select with
  | .error _ => ((false, .null), c)
  | .ok t =>
    let arr := Json.arr ((t.first 100).map itemJson)
    ((true, arr), if writeCache then c.setList cfg.cache io (cfg.json.toCompactJson arr) else c)

def queryDetailFromDb (skuId : Int64) (writeCache : Bool) (select : Except String SkuTable) (io : SkuCache.Io)
    (c : SkuCache) : Answer × SkuCache :=
  match select with
  | .error _ => ((false, .null), c)
  | .ok t =>
    match t.find skuId with
    | none => ((false, .null), if writeCache then c.setNull cfg.cache io skuId else c)
    | some row =>
      let item := itemJson row
      ((true, item), if writeCache then c.setDetail cfg.cache io skuId (cfg.json.toCompactJson item) else c)

/-- What the cache answers to `listSkus`. A value that does not parse is deleted, and
is a miss. -/
def listLookup (io : ReadIo) (c : SkuCache) : Option Answer × SkuCache :=
  match c.getList cfg.cache io.get with
  | (none, c) => (none, c)
  | (some value, c) =>
    match cfg.json.fromJson value with
    | some (.arr items) => (some (true, .arr items), c)
    | _ => (none, c.invalidateList cfg.cache io.del)

def listSkus (io : ReadIo) (select : Except String SkuTable) (c : SkuCache) : Answer × SkuCache :=
  if cfg.cache.enabled then
    match listLookup cfg io c with
    | (some a, c) => (a, c)
    | (none, c) => queryListFromDb cfg true select io.write c
  else queryListFromDb cfg false select io.write c

/-- What the filter or the cache answers to `detailSku`. -/
def detailLookup (bloom : Option BloomFilter) (skuId : Int64) (io : ReadIo) (c : SkuCache) :
    Option Answer × SkuCache :=
  if cfg.bloomEnabled && !bloomAllows bloom skuId then (some (false, .null), c)
  else match c.getDetail cfg.cache io.get skuId with
    | (none, c) => (none, c)
    | (some value, c) =>
      if value = SkuCache.kNullValue then (some (false, .null), c)
      else match cfg.json.fromJson value with
        | some (.obj fields) => (some (true, .obj fields), c)
        | _ => (none, c.invalidate cfg.cache io.del skuId)

def detailSku (bloom : Option BloomFilter) (skuId : Int64) (io : ReadIo) (select : Except String SkuTable)
    (c : SkuCache) : Answer × SkuCache :=
  if cfg.cache.enabled then
    match detailLookup cfg bloom skuId io c with
    | (some a, c) => (a, c)
    | (none, c) => queryDetailFromDb cfg skuId true select io.write c
  else queryDetailFromDb cfg skuId false select io.write c

/-- The loop of `warmCache` over the rows, from write `i` on: the list so far, the
count and the cache. -/
def warmLoop (io : ℕ → SkuCache.Io) (i : ℕ) (listArr : List Json) (warmed : ℕ) (c : SkuCache) :
    List SkuRow → List Json × ℕ × SkuCache
  | [] => (listArr, warmed, c)
  | row :: rows =>
    let item := itemJson row
    let listArr := if listArr.length < 100 then listArr ++ [item] else listArr
    warmLoop io (i + 1) listArr (warmed + 1)
      (c.setDetail cfg.cache (io i) row.id (cfg.json.toCompactJson item)) rows

/-- `warmCache(limit, cb)`; write `i` of the call has the outcome `io i`. -/
def warmCache (limit : ℤ) (select : Except String SkuTable) (io : ℕ → SkuCache.Io) (c : SkuCache) :
    (Bool × ℕ) × SkuCache :=
  let limit := if limit < 1 then 1 else limit
  match select with
  | .error _ => ((false, 0), c)
  | .ok t =>
    let (listArr, warmed, c) := warmLoop cfg io 0 [] 0 c (t.first limit.toNat)
    ((true, warmed),
      if listArr ≠ [] then c.setList cfg.cache (io warmed) (cfg.json.toCompactJson (.arr listArr)) else c)

end SeckillService

end Seckill
