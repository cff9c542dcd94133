import Mathlib.Algebra.Ring.Int.Defs
import Mathlib.Data.Int.Notation
import Mathlib.Tactic.Common

/-!
# JSON web tokens (`service/Jwt.cc`, `service/password.cc`)

`base64UrlEncode`, `base64UrlDecode`, `constantTimeEquals`, `Jwt.sign` and
`Jwt.verify` over byte strings. What OpenSSL and jsoncpp do is a parameter
(`Jwt.hmacSha256`, `Jwt.writeJson`, `Jwt.readJson`); jsoncpp's accessors are
modelled, exceptions included: `isMember` throws on a value that is neither null
nor an object, `asString` on arrays and objects, `asInt64` on what has no int64.

`verify` answers `.ok none` for `false`, `.ok (some claims)` for `true`, and
`.error` when an exception leaves it.
-/

namespace Seckill

/-- A `std::string`. -/
abbrev Bytes := List UInt8

/-- The bytes of an ASCII text. -/
def ascii (s : String) : Bytes := s.toList.map fun c => c.toNat.toUInt8

/-! ## base64url -/

def kB64UrlAlphabet : Bytes := ascii "ABCDEFGHIJKLMNOPQRSTUVWXYZabcdefghijklmnopqrstuvwxyz0123456789-_"

/-- The alphabet's character for six bits of a chunk. -/
def sextet (chunk : UInt32) (shift : UInt32) : UInt8 :=
  kB64UrlAlphabet.getD ((chunk >>> shift) &&& 0x3f).toNat 0

def base64UrlEncode : Bytes → Bytes
  | a :: b :: c :: raw =>
    let chunk := (a.toUInt32 <<< 16) ||| (b.toUInt32 <<< 8) ||| c.toUInt32
    sextet chunk 18 :: sextet chunk 12 :: sextet chunk 6 :: sextet chunk 0 :: base64UrlEncode raw
  | [a, b] =>
    let chunk := (a.toUInt32 <<< 16) ||| (b.toUInt32 <<< 8)
    [sextet chunk 18, sextet chunk 12, sextet chunk 6]
  | [a] =>
    let chunk := a.toUInt32 <<< 16
    [sextet chunk 18, sextet chunk 12]
  | [] => []

/-- The decoder's loop over the rest of the input, with its accumulator and the
number of bits in it. The accumulator wraps. -/
def decodeLoop (acc : UInt32) (bits : ℕ) : Bytes → Option Bytes
  | [] => some []
  | c :: rest =>
    match kB64UrlAlphabet.idxOf? c with
    | none => none
    | some v =>
      let acc := (acc <<< 6) ||| v.toUInt32
      if bits + 6 ≥ 8 then
        (decodeLoop acc (bits - 2) rest).map fun out => ((acc >>> (bits - 2).toUInt32) &&& 0xff).toUInt8 :: out
      else decodeLoop acc (bits + 6) rest

def base64UrlDecode (input : Bytes) : Option Bytes := decodeLoop 0 0 input

/-! ## Comparing secrets -/

def constantTimeEquals (a b : Bytes) : Bool :=
  let diff₀ : UInt8 := if a.length = b.length then 0 else 1
  (List.range (max a.length b.length)).foldl (fun diff i => diff ||| (a.getD i 0 ^^^ b.getD i 0)) diff₀ = 0

/-! ## jsoncpp -/

/-- A `Json::Value`. A real number carries what `asString` and `asInt64` make of it. -/
inductive Json
  | null
  | bool (b : Bool)
  | int (n : ℤ)
  | real (text : Bytes) (trunc : Option ℤ)
  | str (s : Bytes)
  | arr (items : List Json)
  | obj (fields : List (Bytes × Json))

namespace Json

def isMember (key : String) : Json → Except String Bool
  | .null => .ok false
  | .obj fields => .ok (fields.any fun f => f.1 = ascii key)
  | _ => .error "in Json::Value::find(begin, end): requires objectValue or nullValue"

/-- `value[key]` on a value that `isMember` did not throw on. -/
def field (key : String) : Json → Json
  | .obj fields => ((fields.find? fun f => f.1 = ascii key).map Prod.snd).getD .null
  | _ => .null

def asString : Json → Except String Bytes
  | .null => .ok []
  | .str s => .ok s
  | .bool b => .ok (ascii (if b then "true" else "false"))
  | .int n => .ok (ascii (toString n))
  | .real text _ => .ok text
  | .arr _ | .obj _ => .error "Type is not convertible to string"

/-- The value is in the range of `int64_t`. -/
def isInt64 (n : ℤ) : Bool := -2 ^ 63 ≤ n && n < 2 ^ 63

def asInt64 : Json → Except String ℤ
  | .null => .ok 0
  | .bool b => .ok (if b then 1 else 0)
  | .int n => if isInt64 n then .ok n else .error "LargestUInt out of Int64 range"
  | .real _ (some n) => if isInt64 n then .ok n else .error "double out of Int64 range"
  | .real _ none => .error "double out of Int64 range"
  | .str _ | .arr _ | .obj _ => .error "Value is not convertible to Int64."

end Json

/-! ## Tokens -/

/-- `std::stoll`; its exceptions are caught where it is called. -/
def stoll (s : Bytes) : Option Int64 :=
  let s := s.dropWhile fun c => c = 32 || (9 ≤ c && c ≤ 13)
  let (negative, s) := match s with
    | 45 :: rest => (true, rest)
    | 43 :: rest => (false, rest)
    | s => (false, s)
  let digits := s.takeWhile fun c => 48 ≤ c && c ≤ 57
  let n : ℤ := digits.foldl (fun n c => 10 * n + (c.toNat - 48 : ℕ)) 0
  let n := if negative then -n else n
  if digits ≠ [] ∧ Json.isInt64 n then some (.ofInt n) else none

structure JwtClaims where
  userId : Int64
  jti : Bytes
  issuer : Bytes
  issuedAt : ℤ
  expiresAt : ℤ
  deriving DecidableEq

/-- The object, and what it calls: `HMAC`, jsoncpp's writer and its reader. -/
structure Jwt where
  secret : Bytes
  issuer : Bytes
  ttlSeconds : ℤ
  hmacSha256 : Bytes → Bytes → Bytes
  writeJson : Json → Bytes
  /-- assumed to read a value or to refuse; `parse` also throws, on a text nested beyond its stack limit -/
  readJson : Bytes → Option Json

namespace Jwt

/-- `nowSeconds`, or the system clock when that is `0`. -/
def nowOr (nowSeconds clock : ℤ) : ℤ := if nowSeconds > 0 then nowSeconds else clock

def header : Json := .obj [(ascii "alg", .str (ascii "HS256")), (ascii "typ", .str (ascii "JWT"))]

/-- Assigned in another order; jsoncpp keeps the members of an object by name. -/
def payload (j : Jwt) (userId : Int64) (jti : Bytes) (now : ℤ) : Json :=
  .obj [(ascii "exp", .int (now + j.ttlSeconds)), (ascii "iat", .int now), (ascii "iss", .str j.issuer),
    (ascii "jti", .str jti), (ascii "sub", .str (ascii (toString userId.toInt)))]

def sign (j : Jwt) (userId : Int64) (jti : Bytes) (nowSeconds clock : ℤ) : Bytes :=
  let now := nowOr nowSeconds clock
  let signingInput := base64UrlEncode (j.writeJson header) ++ ascii "." ++
    base64UrlEncode (j.writeJson (j.payload userId jti now))
  signingInput ++ ascii "." ++ base64UrlEncode (j.hmacSha256 j.secret signingInput)

/-- The three non-empty segments of a token. -/
def split (token : Bytes) : Option (Bytes × Bytes × Bytes) :=
  match token.span (· ≠ 46) with
  | (_, []) => none
  | (headerB64, _ :: rest) =>
    match rest.span (· ≠ 46) with
    | (_, []) => none
    | (payloadB64, _ :: sigB64) =>
      if 46 ∈ sigB64 ∨ headerB64 = [] ∨ payloadB64 = [] ∨ sigB64 = [] then none
      else some (headerB64, payloadB64, sigB64)

/-- Parts 1 to 3 of `verify`: structure, algorithm, signature. The decoded payload. -/
def verifySignature (j : Jwt) (token : Bytes) : Except String (Option Json) := do
  match split token with
  | none => return none
  | some (headerB64, payloadB64, sigB64) =>
    match (base64UrlDecode headerB64).bind j.readJson with
    | none => return none
    | some header =>
      if !(← header.isMember "alg") then return none
      else if (← (header.field "alg").asString) ≠ ascii "HS256" then return none
      else
        match base64UrlDecode sigB64 with
        | none => return none
        | some expectedSig =>
          if !constantTimeEquals (j.hmacSha256 j.secret (headerB64 ++ ascii "." ++ payloadB64)) expectedSig then
            return none
          else return (base64UrlDecode payloadB64).bind j.readJson

/-- Part 4 of `verify`: issuer, expiry, and the claims. -/
def verifyPayload (j : Jwt) (payload : Json) (now : ℤ) : Except String (Option JwtClaims) := do
  if !(← payload.isMember "iss") || !(← payload.isMember "exp") || !(← payload.isMember "sub") ||
      !(← payload.isMember "jti") then return none
  else if (← (payload.field "iss").asString) ≠ j.issuer then return none
  else
    let expiresAt ← (payload.field "exp").asInt64
    if now ≥ expiresAt then return none
    else
      let issuer ← (payload.field "iss").asString
      let jti ← (payload.field "jti").asString
      let issuedAt ← if ← payload.isMember "iat" then (payload.field "iat").asInt64 else pure 0
      let sub ← (payload.field "sub").asString
      match stoll sub with
      | none => return none
      | some userId => return some ⟨userId, jti, issuer, issuedAt, expiresAt⟩

def verify (j : Jwt) (token : Bytes) (nowSeconds clock : ℤ) : Except String (Option JwtClaims) := do
  match ← j.verifySignature token with
  | none => return none
  | some payload => j.verifyPayload payload (nowOr nowSeconds clock)

end Jwt

end Seckill
