import Seckill.Lib.Sync
import Seckill.Spec.DoSeckill
import Seckill.Spec.ReadPath

/-!
# Orders and reads at the same time

The service as a whole, as long as its process lives: the orders of `DoSeckill` and the
read path of `ReadPath` over one table of skus. Two events are common to both. The COMMIT
of an order takes one item off the table that the reads select from, and the commit
callback, when the order was committed, tells the cache (`invalidateOnOrder`). Nobody else
writes the table.
-/

namespace Seckill.Traffic

open SeckillService (Config)

/-- An event of the orders or of the reads. -/
inductive Ev
  | order (e : Seckill.Ev)
  | read (e : ReadPath.Ev)

abbrev State := Seckill.State × ReadPath.State

/-- What an event is to the orders and to the reads. -/
def parts (s : Seckill.State) : Ev → Option (Option Seckill.Ev × Option ReadPath.Ev)
  | .order .crash => none
  | .order (.commit r true) => some (some (.commit r true), some (.commit r (s.req r).skuId))
  | .order (.onCommit r) =>
    some (some (.onCommit r), if (s.req r).pc = .committed true then some (.invalidateOnOrder r) else none)
  | .order e => some (some e, none)
  | .read (.commit _ _) | .read (.invalidateOnOrder _) | .read (.update _) => none
  | .read e => some (none, some e)

def step (cfg : Config) : State → Ev → Option State := Machine.sync Seckill.step (ReadPath.step cfg) parts

/-- The stocks of the table. -/
def stocks (table : SkuTable) : Int64 → Option ℤ := fun skuId => (table.find skuId).map SkuRow.stock

/-- A table of skus and the orders so far, and an empty cache. -/
def init (cfg : Config) (now : ℕ) (table : SkuTable) (orders : List Order) (guard : InflightGuard) : State :=
  (.init (stocks table) orders guard, .init cfg now table)

end Seckill.Traffic
