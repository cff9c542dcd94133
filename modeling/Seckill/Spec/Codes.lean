import Seckill.Spec.SmsService

/-!
# Codes and guesses (`genNumericCode` of `service/SmsService.cc`)

`RAND_bytes` is a list of results, one 32-bit word a call, or `none` when it fails.
A guesser decides from the answers so far how long to wait and what to type in next.
-/

namespace Seckill.SmsService

open Redis

/-- `10 ^ 6 * 4294`, a multiple of `10 ^ 6`. -/
def kLimit : UInt32 := 4294000000

/-- `snprintf` of `"%06u"` into `buf[8]`: zeros in front up to six digits, cut at seven. -/
def percent06u (n : ℕ) : String := String.ofList (((Nat.toDigits 10 n).leftpad 6 '0').take 7)

/-- `genNumericCode` on the results of `RAND_bytes`: a word from `kLimit` on is drawn again.
Nothing while it still draws. -/
def genNumericCode : List (Option UInt32) → Option String
  | [] => none
  | none :: _ => some ""
  | some v :: draws => if v ≥ kLimit then genNumericCode draws else some (percent06u (v % 1000000).toNat)

/-- Six digits. -/
def IsCode (code : String) : Prop := code.toList.length = 6 ∧ code.toList.all Char.isDigit = true

instance (code : String) : Decidable (IsCode code) :=
  inferInstanceAs (Decidable (code.toList.length = 6 ∧ code.toList.all Char.isDigit = true))

/-- What a guesser does after these answers: it waits (ms), and types a code in. -/
abbrev Guesser := List VerifyResult → ℕ × String

/-- One of at most `n` guesses is right. The guesser stops half a second before `until_`. -/
def guess (cfg : Config) (phone : String) (until_ : ℕ) (g : Guesser) : ℕ → Store Key → List VerifyResult → Bool
  | 0, _, _ => false
  | n + 1, s, answers =>
    let (ms, input) := g answers
    if until_ < (s.wait ms).now + 500 then false
    else
      let (result, s') := verifyCode cfg (s.wait ms) phone input
      result = .ok || guess cfg phone until_ g n s' (answers ++ [result])

/-- A code is sent to the phone, and a guesser who does not see it gets it verified. -/
def guessed (cfg : Config) (s : Store Key) (phone day : String) (dailyTtl : ℤ) (delivered : Bool) (g : Guesser)
    (n : ℕ) (code : String) : Bool :=
  let (result, t) := sendCode cfg s phone code day dailyTtl delivered
  result = .ok && guess cfg phone (s.now + cfg.codeTtlSeconds.toNat * 1000) g n t []

end Seckill.SmsService
