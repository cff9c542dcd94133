import Mathlib.Logic.Function.Basic
import Seckill.Lib.Run
import Seckill.Spec.BloomFilter

/-!
# Rebuilding the Bloom filter (`SeckillService::rebuildBloom`, `detailSku`)

A call of `rebuildBloom` is one asynchronous query: MySQL executes the SELECT, and
later its callback builds a filter from the ids, publishes it and, as its last act,
reports. Calls overlap: only the swap of the pointer is under the mutex. Skus are
inserted meanwhile, and never deleted. `detailSku` asks the published filter first.
-/

namespace Seckill

namespace RebuildBloom

/-- The constructor's arguments, and whether there is a cache that is enabled. -/
structure Config where
  cacheEnabled : Bool
  bloomEnabled : Bool
  shape : BloomFilter.Shape

/-- Where a call of `rebuildBloom` is. -/
inductive Call
  | idle
  /-- the SELECT outstanding -/
  | querying
  /-- it was executed, with these ids; its callback has not run -/
  | selected (ids : List Int64)
  | failed
  /-- the filter of these ids was published, `cb` is not called yet -/
  | published (ids : List Int64)
  /-- `cb(ok, n)` was called; `ids` are those of the SELECT, if there was one -/
  | reported (ok : Bool) (n : ℕ) (ids : List Int64)
  deriving DecidableEq

/-- The ids in `seckill_sku`, the published filter, the calls, and `bloomRejected_`. -/
structure State where
  skus : List Int64
  bloom : Option BloomFilter
  call : ℕ → Call
  bloomRejected : ℕ

def State.init (skus : List Int64) : State := ⟨skus, none, fun _ => .idle, 0⟩

def State.set (s : State) (r : ℕ) (c : Call) : State := { s with call := Function.update s.call r c }

inductive Ev
  | rebuildBloom (r : ℕ)
  /-- MySQL executes the SELECT of call `r`, or it fails -/
  | select (r : ℕ) (fails : Bool)
  /-- the callbacks of the query, up to the swap of the pointer -/
  | publish (r : ℕ)
  /-- the end of a callback: `cb` -/
  | report (r : ℕ)
  | insertSku (skuId : Int64)
  | detailSku (skuId : Int64)

def rebuildBloomStep (cfg : Config) (s : State) (r : ℕ) : Option State :=
  match s.call r with
  | .idle => some (s.set r (if ¬cfg.bloomEnabled then .reported true 0 [] else .querying))
  | _ => none

def selectStep (s : State) (r : ℕ) (fails : Bool) : Option State :=
  match s.call r with
  | .querying => some (s.set r (if fails then .failed else .selected s.skus))
  | _ => none

/-- The filter `fresh` of a SELECT's ids. -/
def fresh (cfg : Config) (ids : List Int64) : BloomFilter :=
  ids.foldl (fun f id => f.add id.toUInt64) (.create cfg.shape)

def publishStep (cfg : Config) (s : State) (r : ℕ) : Option State :=
  match s.call r with
  | .selected ids => some ({ s with bloom := some (fresh cfg ids) }.set r (.published ids))
  | _ => none

def reportStep (s : State) (r : ℕ) : Option State :=
  match s.call r with
  | .published ids => some (s.set r (.reported true ids.length ids))
  | .failed => some (s.set r (.reported false 0 []))
  | _ => none

/-- `detailSku` answers "not found" without asking Redis or MySQL. -/
def rejects (cfg : Config) (s : State) (skuId : Int64) : Bool :=
  cfg.cacheEnabled && (cfg.bloomEnabled && !bloomAllows s.bloom skuId)

def step (cfg : Config) (s : State) : Ev → Option State
  | .rebuildBloom r => rebuildBloomStep cfg s r
  | .select r fails => selectStep s r fails
  | .publish r => publishStep cfg s r
  | .report r => reportStep s r
  | .insertSku skuId => if skuId ∈ s.skus then none else some { s with skus := skuId :: s.skus }
  | .detailSku skuId => some (if rejects cfg s skuId then { s with bloomRejected := s.bloomRejected + 1 } else s)

end RebuildBloom

end Seckill
