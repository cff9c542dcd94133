import Seckill.Spec.DoSeckill
import Seckill.Spec.SkuReads
import Seckill.Spec.UserService

/-!
# The HTTP answers (`controllers/SeckillController.cc`, `controllers/UserController.cc`)

What the controllers' callbacks make of what the services answer, and what the handler
of orders makes of a request's body (`handle`). The other requests that do not get to a
service (a missing field or a bad id: 400; no Redis client: 503) ask no store, and are
left out.
-/

namespace Seckill

/-- A JSON response: `code`, and `msg` or `data` or both. -/
structure Response where
  status : ℕ
  code : ℤ
  msg : Option String
  data : Option Json

namespace SeckillController

/-- `reply`. -/
def reply (code : ℤ) (msg : String) (status : ℕ) : Response := ⟨status, code, some msg, none⟩

/-- `replyData`. -/
def replyData (code : ℤ) (data : Json) (status : ℕ) : Response := ⟨status, code, none, some data⟩

/-- What `seckill` does with a request: it answers, or it calls `doSeckill`. -/
inductive Handled
  | replied (r : Response)
  | doSeckill (userId skuId : Int64)

/-- `seckill` up to the call of the service. `json` is what `getJsonObject` gives: nothing
for a body that is not JSON. An exception of jsoncpp leaves it. -/
def handle (json : Option Json) : Except String Handled := do
  match json with
  | none => return .replied (reply 400 "missing or invalid userId/skuId" 400)
  | some json =>
    if !(← json.isMember "userId") then return .replied (reply 400 "missing or invalid userId/skuId" 400)
    else if !(← json.isMember "skuId") then return .replied (reply 400 "missing or invalid userId/skuId" 400)
    else
      let userId ← (json.field "userId").asInt64
      let skuId ← (json.field "skuId").asInt64
      return .doSeckill (.ofInt userId) (.ofInt skuId)

/-- The callback of `seckill`. -/
def seckill (ok : Bool) (msg : String) : Response :=
  if ok then reply 0 "success" 200
  else if msg = "SOLD_OUT" ∨ msg = "DUPLICATE_ORDER" then reply 1 msg 409
  else reply 1 msg 500

def listSkus (ok : Bool) (data : Json) : Response :=
  if ok then replyData 0 data 200 else reply 1 "query failed" 500

def detailSku (ok : Bool) (data : Json) : Response :=
  if ok then replyData 0 data 200 else reply 1 "sku not found" 404

end SeckillController

namespace UserController

/-- `msg.rfind(start, 0) == 0`. -/
def startsWith (msg start : String) : Bool := start.toList.isPrefixOf msg.toList

def statusForFailure (msg : String) : ℕ :=
  if msg = "REGISTER_IP_LIMITED" then 429
  else if startsWith msg "DB_ERROR:" ∨ startsWith msg "REDIS_ERROR:" ∨ msg = "HASH_FAILED" then 500
  else 409

/-- `jsonResp`. -/
def jsonResp (httpStatus : ℕ) (code : ℤ) (msg : String) : Response := ⟨httpStatus, code, some msg, none⟩

/-- `okWithData`. -/
def okWithData (data : Json) : Response := ⟨200, 0, some "success", some data⟩

def registerUser (ok : Bool) (msg : String) : Response :=
  if ¬ok then jsonResp (statusForFailure msg) 1 msg else okWithData .null

def login (ok : Bool) (token : Bytes) (msg : String) : Response :=
  if ¬ok then jsonResp (statusForFailure msg) 1 msg
  else okWithData (.obj [(ascii "token", .str token), (ascii "tokenType", .str (ascii "Bearer"))])

/-- The response to a registration or a login. -/
def respond : UserService.Answer → Option Response
  | .register ok msg => some (registerUser ok msg)
  | .login ok token msg => some (login ok token msg)
  | _ => none

end UserController

end Seckill
