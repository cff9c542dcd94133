import Seckill.Lib.Redis
import Seckill.Lib.Run
import Seckill.Spec.Keys

/-!
# SMS codes (`service/SmsService.cc`)

The two Lua scripts, and `sendCode` and `verifyCode` over them. What the source
takes from outside is an argument: the random code (empty if the CSPRNG failed),
the local day and the seconds to midnight, and whether the sender delivered. The
day and the seconds are those of a time zone when they are read at the time of the
call (`OnTime`).
-/

namespace Seckill

open Redis

namespace SmsService

/-- `SmsService::Config`. -/
structure Config where
  codeTtlSeconds : ℤ
  resendIntervalSeconds : ℤ
  dailyLimit : ℤ
  maxVerifyAttempts : ℤ

/-- The defaults of `SmsService::Config`. -/
def Config.default : Config := ⟨300, 60, 10, 5⟩

inductive SendResult
  | ok | invalidPhone | tooFrequent | dailyLimit | redisError
  deriving DecidableEq, Repr

inductive VerifyResult
  | ok | invalidPhone | emptyCode | wrongCode | tooManyAttempts | redisError
  deriving DecidableEq, Repr

/-- A time zone: for each second, the local date as `localtime_r` and `strftime` write it
and the second at which `mktime` lets the next date begin. A date ends there. -/
structure Zone where
  date : ℕ → String
  midnight : ℕ → ℤ
  lt_midnight : ∀ t : ℕ, (t : ℤ) < midnight t
  midnight_date : ∀ t t', date t = date t' → midnight t = midnight t'

/-- `std::time`, of a clock in milliseconds. -/
def time (now : ℕ) : ℕ := now / 1000

def localDayString (z : Zone) (now : ℕ) : String := z.date (time now)

def secondsUntilTomorrow (z : Zone) (now : ℕ) : ℤ :=
  let diff := z.midnight (time now) - time now
  if diff ≤ 0 then 86400 else diff

/-- Eleven digits, the first one `1`. -/
def isValidPhone (phone : String) : Bool :=
  phone.toList.length = 11 && phone.toList.head? = some '1' && phone.toList.all fun c => '0' ≤ c && c ≤ '9'

/-- `kSendScript`: `(-1, ttl)` cooling down, `(-2, used)` over the daily limit,
`(0, n)` stored, the `n`-th of the day. -/
def kSendScript (codeKey cooldownKey dailyKey : Key) (code : String)
    (codeTtl cooldown dailyLimit dailyTtl : ℤ) : Script Key (ℤ × ℤ) := do
  if ← exists_ cooldownKey then
    return (-1, ← ttl cooldownKey)
  else
    let used ← tonumber ((← get dailyKey).getD (.int 0))
    if used ≥ dailyLimit then
      return (-2, used)
    else
      setex codeKey codeTtl (.raw code)
      setex cooldownKey cooldown (.raw "1")
      let n ← incr dailyKey
      let _ ← expireFirst dailyKey n dailyTtl
      return (0, n)

/-- `kVerifyScript`: `(0, 0)` right, `(-1, 0)` no code, `(-2, t)` wrong for the
`t`-th time, `(-3, 0)` too often. -/
def kVerifyScript (codeKey tryKey : Key) (inputCode : String) (maxAttempts : ℤ) : Script Key (ℤ × ℤ) := do
  match ← get codeKey with
  | none => return (-1, 0)
  | some stored =>
    let tries ← tonumber ((← get tryKey).getD (.int 0))
    if tries ≥ maxAttempts then
      let _ ← del codeKey
      return (-3, 0)
    else if stored.text = inputCode then
      let _ ← del codeKey
      let _ ← del tryKey
      return (0, 0)
    else
      let t ← incr tryKey
      let _ ← expire tryKey (← ttl codeKey)
      return (-2, t)

/-- The script of `sendCode` for a phone. -/
def sendScript (cfg : Config) (phone day code : String) (dailyTtl : ℤ) : Script Key (ℤ × ℤ) :=
  kSendScript (.smsCode phone) (.smsCd phone) (.smsDay phone day) code
    cfg.codeTtlSeconds cfg.resendIntervalSeconds cfg.dailyLimit dailyTtl

/-- The script of `verifyCode` for a phone. The source sends `code.c_str()`: `input` is what
the user typed up to its first NUL. -/
def verifyScript (cfg : Config) (phone input : String) : Script Key (ℤ × ℤ) :=
  kVerifyScript (.smsCode phone) (.smsTry phone) input cfg.maxVerifyAttempts

/-- What `sendCode` makes of the script's reply. -/
def onSend (delivered : Bool) : Except String (ℤ × ℤ) → SendResult
  | .error _ => .redisError
  | .ok (code0, _) =>
    if code0 = -1 then .tooFrequent
    else if code0 = -2 then .dailyLimit
    else if delivered then .ok else .redisError

/-- What `verifyCode` makes of the script's reply. -/
def onVerify : Except String (ℤ × ℤ) → VerifyResult
  | .error _ => .redisError
  | .ok (code0, _) =>
    if code0 = 0 then .ok
    else if code0 = -1 then .emptyCode
    else if code0 = -2 then .wrongCode
    else .tooManyAttempts

/-- `SmsService::sendCode`. -/
def sendCode (cfg : Config) (s : Store Key) (phone code day : String) (dailyTtl : ℤ) (delivered : Bool) :
    SendResult × Store Key :=
  if ¬isValidPhone phone then (.invalidPhone, s)
  else if code = "" then (.redisError, s)
  else
    let (reply, s') := sendScript cfg phone day code dailyTtl s
    (onSend delivered reply, s')

/-- `SmsService::verifyCode`. -/
def verifyCode (cfg : Config) (s : Store Key) (phone code : String) : VerifyResult × Store Key :=
  if ¬isValidPhone phone then (.invalidPhone, s)
  else
    let (reply, s') := verifyScript cfg phone code s
    (onVerify reply, s')

/-- What happens to the SMS keys: the calls, and time. -/
inductive Ev
  | sendCode (phone code day : String) (dailyTtl : ℤ) (delivered : Bool)
  | verifyCode (phone code : String)
  | wait (ms : ℕ)

/-- The day and the seconds of a send to the phone are those of the time it is executed at. -/
def OnTime (z : Zone) (phone : String) (s : Store Key) : Ev → Prop
  | .sendCode phone' _ day dailyTtl _ =>
    phone' = phone → day = localDayString z s.now ∧ dailyTtl = secondsUntilTomorrow z s.now
  | _ => True

instance (z : Zone) (phone : String) (s : Store Key) : DecidablePred (OnTime z phone s)
  | .sendCode phone' _ day dailyTtl _ => inferInstanceAs
    (Decidable (phone' = phone → day = localDayString z s.now ∧ dailyTtl = secondsUntilTomorrow z s.now))
  | .verifyCode _ _ => isTrue trivial
  | .wait _ => isTrue trivial

def step (cfg : Config) (s : Store Key) : Ev → Option (Store Key)
  | .sendCode phone code day dailyTtl delivered => some (sendCode cfg s phone code day dailyTtl delivered).2
  | .verifyCode phone code => some (verifyCode cfg s phone code).2
  | .wait ms => some (s.wait ms)

end SmsService

end Seckill
