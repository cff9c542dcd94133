import Seckill.Spec.InflightGuard
import Seckill.Spec.SkuCache
import Seckill.Spec.UserService

/-!
# The configuration (`main.cc`)

`buildBundle` reads the `custom_config` document with the typed readers `cfgStr`,
`cfgInt` and `cfgBool` and constructs the components with what they return; here it
returns the constructors' arguments. `Except.error` is an exception of jsoncpp that
leaves it. The double of a JSON number is a parameter (`asDouble`), and whether there is
a Redis client.
-/

namespace Seckill

namespace Json

/-- The value is in the range of `int`. -/
def isInt (n : ℤ) : Bool := -2 ^ 31 ≤ n && n < 2 ^ 31

/-- What jsoncpp writes for the double that is a whole number. -/
def wholeText (n : ℤ) : Bytes := ascii (toString n ++ ".0")

/-- `asInt` drops a fraction; at the ends of the range there may be none. -/
def asInt : Json → Except String ℤ
  | .null => .ok 0
  | .bool b => .ok (if b then 1 else 0)
  | .int n => if isInt n then .ok n else .error "LargestInt out of Int range"
  | .real text (some n) =>
    if isInt n ∧ (isInt (n - 1) ∧ isInt (n + 1) ∨ text = wholeText n) then .ok n
    else .error "double out of Int range"
  | .real _ none => .error "double out of Int range"
  | .str _ | .arr _ | .obj _ => .error "Value is not convertible to Int."

def isString : Json → Bool
  | .str _ => true
  | _ => false

def isBool : Json → Bool
  | .bool _ => true
  | _ => false

def isNumeric : Json → Bool
  | .int _ | .real _ _ => true
  | _ => false

/-- `asBool`, which is asked of Booleans only. -/
def asBool : Json → Bool
  | .bool b => b
  | _ => false

/-- `operator[]`. -/
def index (key : String) (v : Json) : Except String Json := do
  let _ ← v.isMember key
  return v.field key

end Json

/-! ## Typed readers -/

def cfgStr (root : Json) (key : String) (default : Bytes) : Except String Bytes := do
  if (← root.isMember key) && (root.field key).isString then (root.field key).asString else return default

def cfgInt (root : Json) (key : String) (default : ℤ) : Except String ℤ := do
  if (← root.isMember key) && (root.field key).isNumeric then (root.field key).asInt else return default

def cfgBool (root : Json) (key : String) (default : Bool) : Except String Bool := do
  if (← root.isMember key) && (root.field key).isBool then return (root.field key).asBool else return default

/-- `static_cast<std::size_t>` of an `int`. -/
def sizeT (n : ℤ) : ℕ := (n % 2 ^ 64).toNat

def parseLockMode (s : Bytes) : Mode :=
  if s = ascii "mutex" then .mutex
  else if s = ascii "spin" then .spin
  else if s = ascii "atomic" then .atomic
  else .none

def parseInvalidateOnOrder (s : Bytes) : SkuCache.InvalidateOnOrder :=
  if s = ascii "none" then .none
  else if s = ascii "all" then .itemAndList
  else .item

/-! ## The bundle -/

/-- What the components that need Redis are constructed with. -/
structure AuthConfig where
  secret : Bytes
  issuer : Bytes
  ttlSeconds : ℤ
  guard : LoginGuard.Config
  maxPerIp : ℤ
  windowSeconds : ℤ
  sms : SmsService.Config
  requireSmsOnRegister : Bool
  requireSmsOnLogin : Bool
  minPasswordLength : ℤ

/-- What the others are constructed with; `auth` is there with a Redis client. -/
structure AppBundle (D : Type) where
  mode : Mode
  shards : ℕ
  bits : ℕ
  keyPrefix : Bytes
  keyVersion : Bytes
  cache : SkuCache.Config
  bloomEnabled : Bool
  bloomCapacity : ℕ
  bloomErrorRate : D
  auth : Option AuthConfig

/-- The `cache` block: the prefix and the version of the keys, and the cache. -/
def buildCache (redis : Bool) (c : Json) : Except String (Bytes × Bytes × SkuCache.Config) := do
  let enabled ← cfgBool c "enabled" true
  let listTtlSeconds ← cfgInt c "list_ttl_seconds" 30
  let detailTtlSeconds ← cfgInt c "detail_ttl_seconds" 60
  let nullTtlSeconds ← cfgInt c "null_ttl_seconds" 60
  let jitterSeconds ← cfgInt c "jitter_seconds" 30
  let doubleDeleteMs ← cfgInt c "double_delete_ms" 0
  let localEnabled ← cfgBool c "local_enabled" false
  let localCapacity ← cfgInt c "local_capacity" 4096
  let invalidateOnOrder ← cfgStr c "invalidate_on_order" (ascii "item")
  let keyPrefix ← cfgStr c "key_prefix" (ascii "seckill")
  let keyVersion ← cfgStr c "key_version" (ascii "v1")
  -- without a client every read would go to it for nothing
  return (keyPrefix, keyVersion,
    { enabled := redis && enabled
      listTtlSeconds := listTtlSeconds
      detailTtlSeconds := detailTtlSeconds
      nullTtlSeconds := nullTtlSeconds
      jitterSeconds := jitterSeconds
      doubleDeleteMs := doubleDeleteMs
      localEnabled := localEnabled
      localCapacity := sizeT localCapacity
      invalidateOnOrder := parseInvalidateOnOrder invalidateOnOrder })

/-- The part after `if (!redis) return b`. -/
def buildAuth (cc : Json) : Except String AuthConfig := do
  let jwtCfg ← cc.index "jwt"
  let secret ← cfgStr jwtCfg "secret" (ascii "seckill-cpp-dev-secret")
  let issuer ← cfgStr jwtCfg "issuer" (ascii "seckill-cpp")
  let ttlSeconds ← cfgInt jwtCfg "ttl_seconds" 7200
  let guardCfg ← cc.index "login_guard"
  let maxFail ← cfgInt guardCfg "max_fail" 5
  let lockSeconds ← cfgInt guardCfg "lock_seconds" 600
  let regLimitCfg ← cc.index "register_limit"
  let maxPerIp ← cfgInt regLimitCfg "max_per_ip" 5
  let windowSeconds ← cfgInt regLimitCfg "window_seconds" 3600
  let smsCfg ← cc.index "sms"
  let codeTtlSeconds ← cfgInt smsCfg "code_ttl_seconds" 300
  let resendIntervalSeconds ← cfgInt smsCfg "resend_interval_seconds" 60
  let dailyLimit ← cfgInt smsCfg "daily_limit" 10
  let maxVerifyAttempts ← cfgInt smsCfg "max_verify_attempts" 5
  let authCfg ← cc.index "auth"
  let requireSmsOnRegister ← cfgBool authCfg "require_sms_on_register" true
  let requireSmsOnLogin ← cfgBool authCfg "require_sms_on_login" false
  let minPasswordLength ← cfgInt authCfg "min_password_length" 6
  return {
    secret := secret
    issuer := issuer
    ttlSeconds := ttlSeconds
    guard := ⟨maxFail, lockSeconds⟩
    maxPerIp := maxPerIp
    windowSeconds := windowSeconds
    sms := ⟨codeTtlSeconds, resendIntervalSeconds, dailyLimit, maxVerifyAttempts⟩
    requireSmsOnRegister := requireSmsOnRegister
    requireSmsOnLogin := requireSmsOnLogin
    minPasswordLength := minPasswordLength }

section

variable {D : Type} (asDouble : Json → D)

/-- The error rate of the Bloom filter has no reader of its own. -/
def bloomErrorRate (cc : Json) : Except String D := do
  if (← cc.isMember "bloom_error_rate") && (cc.field "bloom_error_rate").isNumeric then
    return asDouble (cc.field "bloom_error_rate")
  else return asDouble (.real (ascii "0.001") (some 0))

def buildBundle (redis : Bool) (cc : Json) : Except String (AppBundle D) := do
  let lk ← cc.index "seckill_lock"
  let mode ← cfgStr lk "mode" (ascii "none")
  let shards ← cfgInt lk "shards" 64
  let bits ← cfgInt lk "bits" 65536
  let (keyPrefix, keyVersion, cache) ← buildCache redis (← cc.index "cache")
  -- these three are read from the document, not from its `cache` section
  let bloomEnabled ← cfgBool cc "bloom_enabled" false
  let bloomCapacity ← cfgInt cc "bloom_capacity" 500000
  let errorRate ← bloomErrorRate asDouble cc
  let auth ← (if redis then some <$> buildAuth cc else pure none : Except String (Option AuthConfig))
  return {
    mode := parseLockMode mode
    shards := sizeT shards
    bits := sizeT bits
    keyPrefix := keyPrefix
    keyVersion := keyVersion
    cache := cache
    bloomEnabled := bloomEnabled
    bloomCapacity := sizeT bloomCapacity
    bloomErrorRate := errorRate
    auth := auth }

end

/-- The guard that is constructed. -/
def AppBundle.lock {D : Type} (b : AppBundle D) : InflightGuard := .new b.mode b.shards.toUInt64 b.bits.toUInt64

/-- The services as they are modelled, constructed with these arguments. -/
def AuthConfig.userService (a : AuthConfig) (hmacSha256 : Bytes → Bytes → Bytes) (writeJson : Json → Bytes)
    (readJson : Bytes → Option Json) (pbkdf2Hex : String → Bytes → Bytes) : UserService.Config where
  requireSmsOnRegister := a.requireSmsOnRegister
  requireSmsOnLogin := a.requireSmsOnLogin
  minPasswordLength := a.minPasswordLength
  maxFail := a.guard.maxFail
  lockSeconds := a.guard.lockSeconds
  maxPerIp := a.maxPerIp
  windowSeconds := a.windowSeconds
  sessionTtl := a.ttlSeconds
  sms := a.sms
  jwt := ⟨a.secret, a.issuer, a.ttlSeconds, hmacSha256, writeJson, readJson⟩
  pbkdf2Hex := pbkdf2Hex

end Seckill
