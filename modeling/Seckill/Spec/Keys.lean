import Seckill.Spec.Jwt

/-!
# The Redis keys of the service

Every key the program uses, by family, in place of the string it sends. Different
keys are different strings (`Key.text_inj`): no family's tag begins with another one's, and
a phone here has passed `isValidPhone`, so that it has no colon.
-/

namespace Seckill

/-- A Redis key. -/
inductive Key
  /-- `sess:{jti}` -/
  | sess (jti : Bytes)
  /-- `sms:code:{phone}`, `sms:cd:{phone}`, `sms:try:{phone}`, `sms:day:{phone}:{day}` -/
  | smsCode (phone : String) | smsCd (phone : String) | smsTry (phone : String)
  | smsDay (phone day : String)
  /-- `login:fail:{phone}`, `login:lock:{phone}` -/
  | loginFail (phone : String) | loginLock (phone : String)
  /-- `reg:ip:{ip}` -/
  | regIp (ip : String)
  /-- `{prefix}:sku:{version}:list`, `{prefix}:sku:{version}:item:{skuId}` -/
  | skuList | skuItem (skuId : Int64)
  deriving DecidableEq

end Seckill
