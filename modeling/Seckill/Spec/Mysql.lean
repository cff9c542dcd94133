import Mathlib.Logic.Function.Basic
import Mathlib.Data.Int.Notation
import Mathlib.Tactic.Common

/-!
# The two order tables and their transactions (`sql/schema.sql`)

The committed tables, and for every open transaction what it has done and not
yet committed. This is the behaviour of MySQL that `doSeckill` relies on:

* `deduct`: `UPDATE seckill_sku SET stock = stock - 1 WHERE id = ? AND stock > 0`
  takes the row's lock and keeps it until the transaction ends; while another
  transaction has the lock the statement waits (no step).
* `insertOrder`: `INSERT INTO seckill_order .. ON DUPLICATE KEY UPDATE id = id`
  reports 1 row or, when `(user_id, sku_id)` is in the table, 0. Only committed
  rows are looked at: less than MySQL checks, so nothing here rests on the rest.
* `commit` applies a transaction, `rollback` forgets it; both free its locks.
-/

namespace Seckill

/-- A row of `seckill_order`. -/
structure Order where
  userId : Int64
  skuId : Int64
  deriving DecidableEq, Repr

/-- What an open transaction has done: the `seckill_sku` row it decremented (and
locked) and the `seckill_order` row it inserted. -/
structure Tx where
  dec : Option Int64
  ins : Option Order
  deriving DecidableEq, Repr

/-- The database. `stock` and `orders` are the committed tables; a transaction is
named by the request that opened it. -/
structure Db where
  stock : Int64 → Option ℤ
  orders : List Order
  lock : Int64 → Option ℕ
  tx : ℕ → Option Tx

namespace Db

def init (stock : Int64 → Option ℤ) (orders : List Order) : Db :=
  ⟨stock, orders, fun _ => none, fun _ => none⟩

/-- `BEGIN`. -/
def begin (d : Db) (r : ℕ) : Db := { d with tx := Function.update d.tx r (some ⟨none, none⟩) }

/-- The UPDATE: the database after it and the affected rows. -/
def deduct (d : Db) (r : ℕ) (sku : Int64) : Option (Db × ℕ) :=
  match d.tx r, d.lock sku with
  | some t, none =>
    match d.stock sku with
    | some n =>
      if 0 < n then
        some ({ d with
          lock := Function.update d.lock sku (some r)
          tx := Function.update d.tx r (some { t with dec := some sku }) }, 1)
      else some (d, 0)
    | none => some (d, 0)
  | _, _ => none

/-- The INSERT: the database after it and the affected rows. -/
def insertOrder (d : Db) (r : ℕ) (o : Order) : Option (Db × ℕ) :=
  (d.tx r).map fun t =>
    if o ∈ d.orders then (d, 0)
    else ({ d with tx := Function.update d.tx r (some { t with ins := some o }) }, 1)

/-- The locks when transaction `r` gives its own back. -/
def unlock (d : Db) (r : ℕ) : Int64 → Option ℕ := fun k => if d.lock k = some r then none else d.lock k

/-- `COMMIT`: the transaction's changes become the committed tables. -/
def commit (d : Db) (r : ℕ) : Option Db :=
  (d.tx r).map fun t =>
    { stock := match t.dec with
        | some sku => Function.update d.stock sku ((d.stock sku).map (· - 1))
        | none => d.stock
      orders := match t.ins with
        | some o => d.orders ++ [o]
        | none => d.orders
      lock := d.unlock r
      tx := Function.update d.tx r none }

/-- `ROLLBACK`, or a COMMIT that failed. -/
def rollback (d : Db) (r : ℕ) : Db := { d with lock := d.unlock r, tx := Function.update d.tx r none }

/-- The server restarts: every open transaction is rolled back. -/
def abortAll (d : Db) : Db := { d with lock := fun _ => none, tx := fun _ => none }

/-- The number of orders of a sku. -/
def sold (d : Db) (sku : Int64) : ℕ := d.orders.countP (·.skuId = sku)

end Db

end Seckill
