import Seckill.Spec.Keys

/-!
# The strings of the keys (`service/CacheKeys.h`)

The keys of the cache, with the prefix and the version that the configuration gives, and
what each `Key` is for Redis: the concatenations of `CacheKeys` and of the auth modules,
in which nothing is escaped.
-/

namespace Seckill

structure CacheKeys where
  prefix_ : Bytes
  version_ : Bytes

/-- What a key of the cache is for. -/
inductive SkuKey
  | list
  | item (skuId : Int64)
  | stock (skuId : Int64)
  deriving DecidableEq

namespace CacheKeys

def base (c : CacheKeys) : Bytes := c.prefix_ ++ ascii ":sku:" ++ c.version_

def list (c : CacheKeys) : Bytes := c.base ++ ascii ":list"

def item (c : CacheKeys) (skuId : Int64) : Bytes := c.base ++ ascii ":item:" ++ ascii (toString skuId.toInt)

def stock (c : CacheKeys) (skuId : Int64) : Bytes := c.base ++ ascii ":stock:" ++ ascii (toString skuId.toInt)

/-- The key of each kind. -/
def key (c : CacheKeys) : SkuKey → Bytes
  | .list => c.list
  | .item skuId => c.item skuId
  | .stock skuId => c.stock skuId

end CacheKeys

/-- The string of a key: `SessionStore::key`; `codeKey`, `cooldownKey`, `tryKey` and
`dailyKey` of `SmsService`; `failKey` and `lockKey` of `LoginGuard`;
`RegisterGuard::keyFor`; and `list` and `item` of `CacheKeys`. -/
def Key.text (c : CacheKeys) : Key → Bytes
  | .sess jti => ascii "sess:" ++ jti
  | .smsCode phone => ascii "sms:code:" ++ ascii phone
  | .smsCd phone => ascii "sms:cd:" ++ ascii phone
  | .smsTry phone => ascii "sms:try:" ++ ascii phone
  | .smsDay phone day => ascii "sms:day:" ++ ascii phone ++ ascii ":" ++ ascii day
  | .loginFail phone => ascii "login:fail:" ++ ascii phone
  | .loginLock phone => ascii "login:lock:" ++ ascii phone
  | .regIp ip => ascii "reg:ip:" ++ ascii ip
  | .skuList => c.list
  | .skuItem skuId => c.item skuId

end Seckill
