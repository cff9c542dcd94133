import Mathlib.Logic.Function.Basic
import Seckill.Lib.Run
import Seckill.Spec.InflightGuard

/-!
# The gate and its tokens (`service/InflightGuard.h`)

A request that is let in holds a token; the deleter of its last copy releases the key.
The guard and the tokens that are alive are one state, and the calls of `tryAcquire` and
the ends of the tokens its steps, in any order. A request `r : ρ` has the key `key r`:
the key itself, or a pair of ids with `makeKey`.

`Reference` is what the gate is for: a set of live tokens, and a request is let in when
none of them is in its place.
-/

namespace Seckill

/-- `live i` is the request that token `i` was given to, while the token lives. -/
structure InflightTokens (ρ : Type) where
  guard : InflightGuard
  live : ℕ → Option ρ

namespace InflightTokens

/-- Request number `i` asks for a token, or the last copy of its token goes. -/
inductive Ev (ρ : Type)
  | tryAcquire (i : ℕ) (r : ρ)
  | release (i : ℕ)
  deriving DecidableEq

variable {ρ : Type}

def new (mode : Mode) (shards bits : UInt64) : InflightTokens ρ := ⟨.new mode shards bits, fun _ => none⟩

def tryAcquire (key : ρ → UInt64) (s : InflightTokens ρ) (i : ℕ) (r : ρ) : Option (InflightTokens ρ) :=
  (s.guard.tryAcquire (key r)).map fun p => ⟨p.1, if p.2 then Function.update s.live i (some r) else s.live⟩

def release (key : ρ → UInt64) (s : InflightTokens ρ) (i : ℕ) (r : ρ) : Option (InflightTokens ρ) :=
  (s.guard.release (key r)).map fun g => ⟨g, Function.update s.live i none⟩

/-- One step; a number has one token at a time. -/
def step (key : ρ → UInt64) (s : InflightTokens ρ) : Ev ρ → Option (InflightTokens ρ)
  | .tryAcquire i r => if (s.live i).isSome then none else s.tryAcquire key i r
  | .release i => (s.live i).bind fun r => s.release key i r

/-- What a call of `tryAcquire` answers. -/
def answer (key : ρ → UInt64) (s : InflightTokens ρ) : Ev ρ → Option Bool
  | .tryAcquire _ r => (s.guard.tryAcquire (key r)).map Prod.snd
  | .release _ => none

/-- The answers along a run. -/
def answers (key : ρ → UInt64) (s : InflightTokens ρ) (es : List (Ev ρ)) : List Bool :=
  Machine.collect (step key) (answer key) s es

end InflightTokens

/-! ## The reference -/

namespace Reference

open InflightTokens (Ev)

variable {ρ π : Type} (pos : ρ → π)

/-- No live token is in the place of the request. -/
def Free (live : ℕ → Option ρ) (r : ρ) : Prop := ∀ i r', live i = some r' → pos r' ≠ pos r

open Classical in
noncomputable def step (live : ℕ → Option ρ) : Ev ρ → Option (ℕ → Option ρ)
  | .tryAcquire i r =>
    if (live i).isSome then none else some (if Free pos live r then Function.update live i (some r) else live)
  | .release i => if (live i).isSome then some (Function.update live i none) else none

open Classical in
noncomputable def answer (live : ℕ → Option ρ) : Ev ρ → Option Bool
  | .tryAcquire _ r => some (decide (Free pos live r))
  | .release _ => none

noncomputable def answers (live : ℕ → Option ρ) (es : List (Ev ρ)) : List Bool :=
  Machine.collect (step pos) (answer pos) live es

end Reference

end Seckill
