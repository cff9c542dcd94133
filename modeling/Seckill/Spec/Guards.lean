import Seckill.Lib.Redis
import Seckill.Spec.Keys

/-!
# The login lock, the registration quota and the sessions
(`service/LoginGuard.cc`, `service/RegisterGuard.cc`, `service/SessionStore.cc`)

The Redis commands and scripts of the three, and what their callbacks make of a
reply or an error (`Except.error`).
-/

namespace Seckill

open Redis

/-- A command the client issued: Redis executes it, or it fails without effect. -/
def exec {α : Type} (err : Option String) (x : Script Key α) (s : Store Key) : Except String α × Store Key :=
  match err with
  | some what => (.error what, s)
  | none => x s

namespace LoginGuard

/-- `kOnFailureScript`: `(-1, ttl)` already locked, `(-2, seconds)` locked now,
`(n, 0)` the `n`-th failure. -/
def kOnFailureScript (lockKey failKey : Key) (maxFail lockSeconds : ℤ) : Script Key (ℤ × ℤ) := do
  if ← exists_ lockKey then
    return (-1, ← ttl lockKey)
  else
    let n ← incr failKey
    let _ ← expireFirst failKey n lockSeconds
    if n ≥ maxFail then
      setex lockKey lockSeconds (.raw "1")
      let _ ← del failKey
      return (-2, lockSeconds)
    else
      return (n, 0)

/-- `kCheckScript`: the lock's remaining seconds, `0` without a lock. -/
def kCheckScript (lockKey : Key) : Script Key ℤ := do
  if ← exists_ lockKey then ttl lockKey else return 0

inductive FailResult
  | counting (failCount : ℤ)
  | lockedNow (lockSeconds : ℤ)
  | alreadyLocked (lockSeconds : ℤ)
  deriving DecidableEq

/-- The callbacks of `checkLocked`: the remaining seconds if locked. An error lets pass. -/
def onCheck : Except String ℤ → Option ℤ
  | .ok ttl => if ttl > 0 then some ttl else none
  | .error _ => none

/-- The callbacks of `onFailure`. -/
def onReply : Except String (ℤ × ℤ) → FailResult
  | .ok (code, secs) =>
    if code = -1 then .alreadyLocked secs
    else if code = -2 then .lockedNow secs
    else .counting code
  | .error _ => .counting 1

structure Config where
  maxFail : ℤ
  lockSeconds : ℤ

def failKey (phone : String) : Key := .loginFail phone

def lockKey (phone : String) : Key := .loginLock phone

/-- `checkLocked` with a Redis that answers. -/
def checkLocked (s : Store Key) (phone : String) : Option ℤ × Store Key :=
  let (reply, s') := kCheckScript (lockKey phone) s
  (onCheck reply, s')

/-- `onFailure` with a Redis that answers. -/
def onFailure (cfg : Config) (s : Store Key) (phone : String) : FailResult × Store Key :=
  let (reply, s') := kOnFailureScript (lockKey phone) (failKey phone) cfg.maxFail cfg.lockSeconds s
  (onReply reply, s')

/-- `onSuccess` with a Redis that answers. -/
def onSuccess (s : Store Key) (phone : String) : Store Key := (del (failKey phone) s).2

/-- What happens to the keys of the guard: its commands, and time. -/
inductive Ev
  | checkLocked (phone : String)
  | onFailure (phone : String)
  | onSuccess (phone : String)
  | wait (ms : ℕ)
  deriving DecidableEq

def step (cfg : Config) (s : Store Key) : Ev → Option (Store Key)
  | .checkLocked phone => some (checkLocked s phone).2
  | .onFailure phone => some (onFailure cfg s phone).2
  | .onSuccess phone => some (onSuccess s phone)
  | .wait ms => some (s.wait ms)

end LoginGuard

namespace RegisterGuard

/-- `kCheckScript`: `1` may register, `0` may not. -/
def kCheckScript (key : Key) (maxPerIp : ℤ) : Script Key ℤ := do
  match ← get key with
  | none => return 1
  | some v =>
    let n ← tonumber v
    if n < maxPerIp then return 1 else return 0

/-- `kMarkScript`: the accounts of the window, this one included. -/
def kMarkScript (key : Key) (windowSeconds : ℤ) : Script Key ℤ := do
  let n ← incr key
  let _ ← expireFirst key n windowSeconds
  return n

/-- The callbacks of `check`. An error lets pass. -/
def onCheck : Except String ℤ → Bool
  | .ok allowed => allowed = 1
  | .error _ => true

end RegisterGuard

namespace SessionStore

def save (jti : Bytes) (ttlSeconds : ℤ) (userId : Int64) : Script Key Unit :=
  setex (.sess jti) ttlSeconds (.int userId.toInt)

/-- The callbacks of `exists`, and of `revoke`. An error is `false`. -/
def onReply : Except String Bool → Bool
  | .ok b => b
  | .error _ => false

end SessionStore

end Seckill
