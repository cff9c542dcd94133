import Seckill.Spec.Guards
import Seckill.Spec.SmsService

/-!
# Accounts and sessions (`service/UserService.cc`)

`registerUser`, `login`, `logout` and `authenticate` are chains of asynchronous
operations. A request's `pc` is the operation it waits for, with the values its
callbacks captured; an event executes that operation and runs its callback (the
reply to a login is delivered by an event of its own). `onSuccess` and
`markSuccess` are not waited for: the first is `reset`, the second is what a
registration is left with after its answer.

Taken from outside, as arguments of the events: whether an operation fails (with
the error's text), random values (empty if the CSPRNG failed) and the clocks.
-/

namespace Seckill

open Redis

namespace UserService

/-- The configuration of the services, and the password hash. -/
structure Config where
  requireSmsOnRegister : Bool
  /-- read by none of the operations -/
  requireSmsOnLogin : Bool
  minPasswordLength : ℤ
  maxFail : ℤ
  lockSeconds : ℤ
  maxPerIp : ℤ
  windowSeconds : ℤ
  sessionTtl : ℤ
  sms : SmsService.Config
  jwt : Jwt
  pbkdf2Hex : String → Bytes → Bytes

/-- The defaults of `main.cc`. -/
def Config.default (jwt : Jwt) (pbkdf2Hex : String → Bytes → Bytes) : Config :=
  ⟨true, false, 6, 5, 600, 5, 3600, jwt.ttlSeconds, .default, jwt, pbkdf2Hex⟩

/-- A row of `user`. -/
structure User where
  id : Int64
  phone : String
  passwordHash : Bytes
  salt : Bytes
  status : ℤ
  deriving DecidableEq

/-- What a request was answered. -/
inductive Answer
  | login (ok : Bool) (token : Bytes) (msg : String)
  | register (ok : Bool) (msg : String)
  | logout (ok : Bool) (msg : String)
  | authenticate (userId : Int64)
  /-- an exception left the call -/
  | threw
  deriving DecidableEq

/-- The operation a request waits for. -/
inductive Pc
  | idle
  | loginCheck (phone password : String)
  | loginSelect (phone password : String)
  | loginHash (phone password : String) (user : User)
  /-- `onFailure` outstanding, of an unknown phone and of a wrong password -/
  | loginUnknown (phone : String) | loginWrong (phone : String)
  /-- `SessionStore::save` outstanding, then its reply on the way -/
  | loginSave (phone : String) (userId : Int64) (jti token : Bytes) | loginSaved (phone : String) (token : Bytes) (ok : Bool)
  | regCheck (phone password code ip : String)
  | regVerify (phone password code ip : String)
  | regSelect (phone password ip : String)
  | regHash (phone password ip : String) (salt : Bytes)
  | regInsert (phone ip : String) (hash salt : Bytes)
  /-- the account is row `row`; the mark is outstanding, then executed -/
  | regMark (ip : String) (row : ℕ) | regMarked (ip : String) (row : ℕ)
  | logoutRevoke (jti : Bytes)
  | authExists (jti : Bytes) (userId : Int64)
  | done
  deriving DecidableEq

/-- A request: where it is, the phone of its outstanding `onSuccess`, its answer. -/
structure Req where
  pc : Pc
  reset : Option String
  answer : Option Answer

def Req.idle : Req := ⟨.idle, none, none⟩

def Req.at (q : Req) (p : Pc) : Req := { q with pc := p }

/-- The request is over, with this answer. -/
def Req.finish (q : Req) (a : Answer) : Req := { q with pc := .done, answer := some a }

/-- Redis, the `user` table (in order of insertion) and the requests. -/
structure State where
  redis : Store Key
  users : List User
  nextId : Int64
  req : ℕ → Req

def State.init (now : ℕ) (users : List User) (nextId : Int64) : State := ⟨.empty now, users, nextId, fun _ => .idle⟩

def State.set (s : State) (r : ℕ) (q : Req) : State := { s with req := Function.update s.req r q }

/-- The row of a phone (`uk_phone`: there is at most one). -/
def State.userOf (s : State) (phone : String) : Option User := s.users.find? (·.phone = phone)

inductive Ev
  | login (r : ℕ) (phone password : String)
  | checkLocked (r : ℕ) (err : Option String)
  | loginSelect (r : ℕ) (err : Option String)
  | loginHash (r : ℕ) (fails : Bool) (jti : Bytes) (clock : ℤ)
  | onFailure (r : ℕ) (err : Option String)
  | onSuccess (r : ℕ) (err : Option String)
  | save (r : ℕ) (err : Option String)
  | saved (r : ℕ)
  | registerUser (r : ℕ) (phone password code ip : String)
  | regCheck (r : ℕ) (err : Option String)
  | regVerify (r : ℕ) (err : Option String)
  | regSelect (r : ℕ) (err : Option String) (salt : Bytes)
  | regHash (r : ℕ) (fails : Bool)
  | regInsert (r : ℕ) (err : Option String)
  | markSuccess (r : ℕ) (err : Option String)
  | logout (r : ℕ) (token : Bytes) (clock : ℤ)
  | revoke (r : ℕ) (err : Option String)
  | authenticate (r : ℕ) (token : Bytes) (clock : ℤ)
  | sessionExists (r : ℕ) (err : Option String)
  | sendCode (phone code day : String) (dailyTtl : ℤ) (delivered : Bool)
  | wait (ms : ℕ)

/-! ## Texts -/

/-- `isDuplicateEntry`. -/
def isDuplicateEntry (err : String) : Bool :=
  ["Duplicate entry", "ER_DUP_ENTRY", "uk_phone"].any fun text => err.toList.tails.any text.toList.isPrefixOf

/-- MySQL's error for a phone that is in the table already. -/
def duplicateEntry (phone : String) : String := "Duplicate entry '" ++ phone ++ "' for key 'user.uk_phone'"

/-- The message of a login with a wrong password. -/
def failMsg : LoginGuard.FailResult → String
  | .counting failCount => "WRONG_PASSWORD:" ++ toString failCount
  | .lockedNow lockSeconds | .alreadyLocked lockSeconds => "ACCOUNT_LOCKED:" ++ toString lockSeconds

/-- The message of a registration that `verifyCode` stopped, `none` if it did not. -/
def verifyMsg : SmsService.VerifyResult → Option String
  | .ok => none
  | .emptyCode => some "CODE_EXPIRED"
  | .wrongCode => some "CODE_WRONG"
  | .tooManyAttempts => some "CODE_TOO_MANY_ATTEMPTS"
  | .invalidPhone | .redisError => some "CODE_INVALID"

/-- The message of a failed INSERT. -/
def insertMsg (err : String) : String :=
  if isDuplicateEntry err then "PHONE_REGISTERED" else "DB_ERROR:" ++ err

/-! ## The steps -/

/-- `login(phone, password, cb)` up to `checkLocked`. -/
def loginStep (s : State) (r : ℕ) (phone password : String) : Option State :=
  match (s.req r).pc with
  | .idle =>
    if ¬SmsService.isValidPhone phone then some (s.set r ((s.req r).finish (.login false [] "INVALID_PHONE")))
    else some (s.set r ((s.req r).at (.loginCheck phone password)))
  | _ => none

def checkLockedStep (s : State) (r : ℕ) (err : Option String) : Option State :=
  match (s.req r).pc with
  | .loginCheck phone password =>
    let p := exec err (LoginGuard.kCheckScript (.loginLock phone)) s.redis
    some ({ s with redis := p.2 }.set r (match LoginGuard.onCheck p.1 with
      | some remain => (s.req r).finish (.login false [] ("ACCOUNT_LOCKED:" ++ toString remain))
      | none => (s.req r).at (.loginSelect phone password)))
  | _ => none

def loginSelectStep (s : State) (r : ℕ) (err : Option String) : Option State :=
  match (s.req r).pc with
  | .loginSelect phone password =>
    match err with
    | some what => some (s.set r ((s.req r).finish (.login false [] ("DB_ERROR:" ++ what))))
    | none =>
      match s.userOf phone with
      | none => some (s.set r ((s.req r).at (.loginUnknown phone)))
      | some user =>
        if user.status ≠ 1 then some (s.set r ((s.req r).finish (.login false [] "ACCOUNT_DISABLED")))
        else some (s.set r ((s.req r).at (.loginHash phone password user)))
  | _ => none

/-- PBKDF2 is done: compare, and on success sign and save. -/
def loginHashStep (cfg : Config) (s : State) (r : ℕ) (fails : Bool) (jti : Bytes) (clock : ℤ) : Option State :=
  match (s.req r).pc with
  | .loginHash phone password user =>
    let computed := if fails then [] else cfg.pbkdf2Hex password user.salt
    if computed = [] then some (s.set r ((s.req r).finish (.login false [] "HASH_FAILED")))
    else if ¬constantTimeEquals computed user.passwordHash then
      some (s.set r ((s.req r).at (.loginWrong phone)))
    else
      some (s.set r { (s.req r) with
        pc := .loginSave phone user.id jti (cfg.jwt.sign user.id jti 0 clock), reset := some phone })
  | _ => none

def onFailureStep (cfg : Config) (s : State) (r : ℕ) (err : Option String) : Option State :=
  let run (phone : String) :=
    exec err (LoginGuard.kOnFailureScript (.loginLock phone) (.loginFail phone) cfg.maxFail cfg.lockSeconds) s.redis
  match (s.req r).pc with
  | .loginUnknown phone =>
    some ({ s with redis := (run phone).2 }.set r ((s.req r).finish (.login false [] "USER_NOT_FOUND")))
  | .loginWrong phone =>
    some ({ s with redis := (run phone).2 }.set r
      ((s.req r).finish (.login false [] (failMsg (LoginGuard.onReply (run phone).1)))))
  | _ => none

/-- The `DEL` of `onSuccess`. -/
def onSuccessStep (s : State) (r : ℕ) (err : Option String) : Option State :=
  (s.req r).reset.map fun phone =>
    { s with redis := (exec err (del (.loginFail phone)) s.redis).2 }.set r { (s.req r) with reset := none }

def saveStep (cfg : Config) (s : State) (r : ℕ) (err : Option String) : Option State :=
  match (s.req r).pc with
  | .loginSave phone userId jti token =>
    let p := exec err (SessionStore.save jti cfg.sessionTtl userId) s.redis
    some ({ s with redis := p.2 }.set r ((s.req r).at (.loginSaved phone token p.1.toBool)))
  | _ => none

def savedStep (s : State) (r : ℕ) : Option State :=
  match (s.req r).pc with
  | .loginSaved _ token ok =>
    some (s.set r ((s.req r).finish
      (if ok then .login true token "OK" else .login false [] "REDIS_ERROR:session save failed")))
  | _ => none

/-- `registerUser(phone, password, code, ip, cb)` up to `check`. -/
def registerUserStep (s : State) (r : ℕ) (phone password code ip : String) : Option State :=
  match (s.req r).pc with
  | .idle => some (s.set r ((s.req r).at (.regCheck phone password code ip)))
  | _ => none

def regCheckStep (cfg : Config) (s : State) (r : ℕ) (err : Option String) : Option State :=
  match (s.req r).pc with
  | .regCheck phone password code ip =>
    let p := exec err (RegisterGuard.kCheckScript (.regIp ip) cfg.maxPerIp) s.redis
    let q := s.req r
    some ({ s with redis := p.2 }.set r (
      if ¬RegisterGuard.onCheck p.1 then q.finish (.register false "REGISTER_IP_LIMITED")
      else if ¬SmsService.isValidPhone phone then q.finish (.register false "INVALID_PHONE")
      else if password.utf8ByteSize < cfg.minPasswordLength then q.finish (.register false "WEAK_PASSWORD")
      else if cfg.requireSmsOnRegister then q.at (.regVerify phone password code ip)
      else q.at (.regSelect phone password ip)))
  | _ => none

def regVerifyStep (cfg : Config) (s : State) (r : ℕ) (err : Option String) : Option State :=
  match (s.req r).pc with
  | .regVerify phone password code ip =>
    -- `verifyCode`; the phone is known to be valid
    let p := exec err (SmsService.verifyScript cfg.sms phone code) s.redis
    some ({ s with redis := p.2 }.set r (match verifyMsg (SmsService.onVerify p.1) with
      | some msg => (s.req r).finish (.register false msg)
      | none => (s.req r).at (.regSelect phone password ip)))
  | _ => none

def regSelectStep (s : State) (r : ℕ) (err : Option String) (salt : Bytes) : Option State :=
  match (s.req r).pc with
  | .regSelect phone password ip =>
    let q := s.req r
    some (s.set r (match err with
      | some what => q.finish (.register false ("DB_ERROR:" ++ what))
      | none =>
        if (s.userOf phone).isSome then q.finish (.register false "PHONE_REGISTERED")
        else if salt = [] then q.finish (.register false "HASH_FAILED")
        else q.at (.regHash phone password ip salt)))
  | _ => none

def regHashStep (cfg : Config) (s : State) (r : ℕ) (fails : Bool) : Option State :=
  match (s.req r).pc with
  | .regHash phone password ip salt =>
    let hash := if fails then [] else cfg.pbkdf2Hex password salt
    if hash = [] then some (s.set r ((s.req r).finish (.register false "HASH_FAILED")))
    else some (s.set r ((s.req r).at (.regInsert phone ip hash salt)))
  | _ => none

/-- The INSERT, which the unique key on the phone can refuse. -/
def regInsertStep (s : State) (r : ℕ) (err : Option String) : Option State :=
  match (s.req r).pc with
  | .regInsert phone ip hash salt =>
    match err with
    | some what => some (s.set r ((s.req r).finish (.register false (insertMsg what))))
    | none =>
      if (s.userOf phone).isSome then
        some (s.set r ((s.req r).finish (.register false (insertMsg (duplicateEntry phone)))))
      else
        some ({ s with users := s.users ++ [User.mk s.nextId phone hash salt 1], nextId := s.nextId + 1 }.set r
          { (s.req r) with pc := .regMark ip s.users.length, answer := some (.register true "OK") })
  | _ => none

def markSuccessStep (cfg : Config) (s : State) (r : ℕ) (err : Option String) : Option State :=
  match (s.req r).pc with
  | .regMark ip row =>
    some ({ s with redis := (exec err (RegisterGuard.kMarkScript (.regIp ip) cfg.windowSeconds) s.redis).2 }.set r
      ((s.req r).at (.regMarked ip row)))
  | _ => none

/-- `logout(token, cb)` up to `revoke`. -/
def logoutStep (cfg : Config) (s : State) (r : ℕ) (token : Bytes) (clock : ℤ) : Option State :=
  match (s.req r).pc with
  | .idle =>
    some (s.set r (match cfg.jwt.verify token 0 clock with
      | .error _ => (s.req r).finish .threw
      | .ok none => (s.req r).finish (.logout false "TOKEN_INVALID")
      | .ok (some claims) => (s.req r).at (.logoutRevoke claims.jti)))
  | _ => none

def revokeStep (s : State) (r : ℕ) (err : Option String) : Option State :=
  match (s.req r).pc with
  | .logoutRevoke jti =>
    let p := exec err (del (.sess jti)) s.redis
    some ({ s with redis := p.2 }.set r ((s.req r).finish
      (.logout true (if SessionStore.onReply p.1 then "OK" else "ALREADY_LOGGED_OUT"))))
  | _ => none

/-- `authenticate(token, cb)` up to `exists`. -/
def authenticateStep (cfg : Config) (s : State) (r : ℕ) (token : Bytes) (clock : ℤ) : Option State :=
  match (s.req r).pc with
  | .idle =>
    some (s.set r (match cfg.jwt.verify token 0 clock with
      | .error _ => (s.req r).finish .threw
      | .ok none => (s.req r).finish (.authenticate 0)
      | .ok (some claims) => (s.req r).at (.authExists claims.jti claims.userId)))
  | _ => none

def existsStep (s : State) (r : ℕ) (err : Option String) : Option State :=
  match (s.req r).pc with
  | .authExists jti userId =>
    let p := exec err (exists_ (.sess jti)) s.redis
    some ({ s with redis := p.2 }.set r ((s.req r).finish
      (.authenticate (if SessionStore.onReply p.1 then userId else 0))))
  | _ => none

def step (cfg : Config) (s : State) : Ev → Option State
  | .login r phone password => loginStep s r phone password
  | .checkLocked r err => checkLockedStep s r err
  | .loginSelect r err => loginSelectStep s r err
  | .loginHash r fails jti clock => loginHashStep cfg s r fails jti clock
  | .onFailure r err => onFailureStep cfg s r err
  | .onSuccess r err => onSuccessStep s r err
  | .save r err => saveStep cfg s r err
  | .saved r => savedStep s r
  | .registerUser r phone password code ip => registerUserStep s r phone password code ip
  | .regCheck r err => regCheckStep cfg s r err
  | .regVerify r err => regVerifyStep cfg s r err
  | .regSelect r err salt => regSelectStep s r err salt
  | .regHash r fails => regHashStep cfg s r fails
  | .regInsert r err => regInsertStep s r err
  | .markSuccess r err => markSuccessStep cfg s r err
  | .logout r token clock => logoutStep cfg s r token clock
  | .revoke r err => revokeStep s r err
  | .authenticate r token clock => authenticateStep cfg s r token clock
  | .sessionExists r err => existsStep s r err
  | .sendCode phone code day dailyTtl delivered =>
    some { s with redis := (SmsService.sendCode cfg.sms s.redis phone code day dailyTtl delivered).2 }
  | .wait ms => some { s with redis := s.redis.wait ms }

end UserService

end Seckill
