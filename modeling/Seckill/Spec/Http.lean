import Mathlib.Data.List.DropRight
import Seckill.Spec.Controllers
import Seckill.Spec.SmsService

/-!
# The HTTP handlers (`controllers/UserController.cc`, `SmsController.cc`, `main.cc`)

What a handler does with a request: it answers, or it calls its service with what it took
from the body, the path or the header. `json` is what `getJsonObject` gives: nothing for a
body that is not JSON. An exception of jsoncpp leaves the handler. Texts of a request are
bytes.

A handler that tests for fields and passes them on as strings is `strings` at its own
fields.
-/

namespace Seckill

/-- `isMember` of several fields, in turn: `a && b`. -/
def Json.hasAll (json : Json) : List String → Except String Bool
  | [] => .ok true
  | key :: keys => do
    if ← json.isMember key then json.hasAll keys else return false

/-- A body without one of the fields is refused; `asString` of the fields otherwise. -/
def strings {α : Type} (json : Option Json) (required : List String) (refuse : α)
    (call : (String → Except String Bytes) → Except String α) : Except String α := do
  match json with
  | none => return refuse
  | some json =>
    if ← json.hasAll required then call fun key => (json.field key).asString else return refuse

namespace UserController

/-- What a handler does: it answers, or it calls the service. -/
inductive Handled
  | replied (r : Response)
  | registerUser (phone password code : Bytes)
  | login (phone password : Bytes)
  | logout (token : Bytes)

/-- `registerUser` up to the call of the service. The code is optional. -/
def handleRegister (json : Option Json) : Except String Handled :=
  strings json ["phone", "password"] (.replied (jsonResp 400 400 "missing phone/password")) fun text => do
    let phone ← text "phone"
    let password ← text "password"
    let code ← if ← (json.getD .null).isMember "code" then text "code" else pure []
    return .registerUser phone password code

/-- `login` up to the call of the service. -/
def handleLogin (json : Option Json) : Except String Handled :=
  strings json ["phone", "password"] (.replied (jsonResp 400 400 "missing phone/password")) fun text => do
    let phone ← text "phone"
    let password ← text "password"
    return .login phone password

def kBearerPrefix : Bytes := ascii "Bearer "

/-- `extractBearerToken` of the header `Authorization`, empty if there is none: spaces and
carriage returns at the end go. -/
def extractBearerToken (auth : Bytes) : Bytes :=
  if auth.length ≤ kBearerPrefix.length then []
  else if auth.take kBearerPrefix.length ≠ kBearerPrefix then []
  else (auth.drop kBearerPrefix.length).rdropWhile fun c => c = 32 || c = 13

/-- `logout` up to the call of the service. -/
def handleLogout (auth : Bytes) : Handled :=
  let token := extractBearerToken auth
  if token = [] then .replied (jsonResp 401 401 "missing bearer token") else .logout token

/-- The callback of `logout`. -/
def logout (ok : Bool) (msg : String) : Response := if ¬ok then jsonResp 401 401 msg else okWithData .null

end UserController

/-- What the sender says of a code it delivered (`SmsSender::sendCode`). -/
def SmsSender.detail : String := "SELF_ISSUED"

/-- The text `SmsService::sendCode` gives its callback with the result. -/
def SmsService.sendDetail (cfg : Config) (s : Redis.Store Key) (phone code day : String) (dailyTtl : ℤ)
    (delivered : Bool) : String :=
  if ¬isValidPhone phone then "invalid phone"
  else if code = "" then "csprng unavailable"
  else match (sendScript cfg phone day code dailyTtl s).1 with
    | .error what => what
    | .ok (code0, num) =>
      if code0 = -1 then "retry in " ++ toString num ++ "s"
      else if code0 = -2 then "daily limit reached, used=" ++ toString num
      else if delivered then SmsSender.detail ++ " (today #" ++ toString num ++ ")"
      else "send failed: " ++ SmsSender.detail

namespace SmsController

def resp (httpStatus : ℕ) (code : ℤ) (msg : String) : Response := ⟨httpStatus, code, some msg, none⟩

inductive Handled
  | replied (r : Response)
  | sendCode (phone : Bytes)

/-- `sendCode` up to the call of the service. -/
def handle (json : Option Json) : Except String Handled :=
  strings json ["phone"] (.replied (resp 400 400 "missing phone")) fun text => do
    let phone ← text "phone"
    return .sendCode phone

/-- The callback of `sendCode`. -/
def sendCode (result : SmsService.SendResult) (detail : String) : Response :=
  match result with
  | .ok => resp 200 0 "success"
  | .invalidPhone => resp 400 400 "invalid phone"
  | .tooFrequent => resp 429 1 ("too frequent: " ++ detail)
  | .dailyLimit => resp 429 1 ("daily limit reached: " ++ detail)
  | .redisError => resp 500 1 ("send failed: " ++ detail)

end SmsController

namespace SeckillController

/-- What `detailSku` does with the path: it answers, or it calls the service. -/
inductive DetailHandled
  | replied (r : Response)
  | detailSku (skuId : Int64)

/-- `detailSku` up to the call of the service: `stoll`, and `-1` for its exceptions. -/
def handleDetail (skuIdStr : Bytes) : DetailHandled :=
  let skuId := (stoll skuIdStr).getD (-1)
  if skuId ≤ 0 then .replied (reply 400 "invalid skuId" 400) else .detailSku skuId

end SeckillController

end Seckill
