import Mathlib.Logic.Function.Basic
import Seckill.Lib.Lin
import Seckill.Spec.DoSeckill

/-!
# The shop

What the order service is for, without requests, transactions and a gate: a shop
with its stock and its order book, where one customer after the other is served
(`Shop.buy`). `orderPoint` names the step of the service at which an order is served.
-/

namespace Seckill

/-- The shop: what is left of each sku, and the orders it took. -/
structure Shop where
  stock : Int64 → Option ℤ
  orders : List Order

/-- One customer's order. An empty shelf is seen before an old order is. -/
def Shop.buy (shop : Shop) (o : Order) : Shop × (Bool × String) :=
  match shop.stock o.skuId with
  | some n =>
    if 0 < n then
      if o ∈ shop.orders then (shop, (false, "DUPLICATE_ORDER"))
      else (⟨Function.update shop.stock o.skuId (some (n - 1)), shop.orders ++ [o]⟩, (true, "OK"))
    else (shop, (false, "SOLD_OUT"))
  | none => (shop, (false, "SOLD_OUT"))

/-- The shop as the committed tables show it. -/
def State.shop (s : State) : Shop := ⟨s.db.stock, s.db.orders⟩

/-- The step at which an order is served: the UPDATE that finds no stock, the INSERT
that finds the order, the COMMIT. -/
def orderPoint (s : State) : Ev → Option (Lin.Entry ℕ Order (Bool × String))
  | .update r none => match s.db.deduct r (s.req r).skuId with
    | some (_, 0) => some ⟨r, (s.req r).order, (false, "SOLD_OUT")⟩
    | _ => none
  | .insert r none => match s.db.insertOrder r (s.req r).order with
    | some (_, 0) => some ⟨r, (s.req r).order, (false, "DUPLICATE_ORDER")⟩
    | _ => none
  | .commit r true => some ⟨r, (s.req r).order, (true, "OK")⟩
  | _ => none

/-- The orders served along a run, in the order of their points. -/
def orderHistory (s₀ : State) (es : List Ev) : List (Lin.Entry ℕ Order (Bool × String)) :=
  Machine.collect step orderPoint s₀ es

end Seckill
