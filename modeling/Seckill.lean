import Seckill.Lib.Run
import Seckill.Lib.Bits
import Seckill.Spec.InflightGuard
import Seckill.Spec.Mysql
import Seckill.Spec.DoSeckill
import Seckill.Proof.Guard
import Seckill.Proof.Ledger
import Seckill.Proof.DoSeckill
import Seckill.Proof.Orders
import Seckill.Lib.Held
import Seckill.Proof.Gate
import Seckill.Lib.Redis
import Seckill.Spec.Keys
import Seckill.Spec.SmsService
import Seckill.Proof.Sms
import Seckill.Spec.Guards
import Seckill.Proof.LoginGuard
import Seckill.Spec.UserService
import Seckill.Proof.UserService
import Seckill.Lib.Crowd
import Seckill.Proof.Login
import Seckill.Proof.Register
import Seckill.Proof.Jwt
import Seckill.Proof.Session
import Seckill.Lib.Bloom
import Seckill.Proof.BloomFilter
import Seckill.Lib.Lru
import Seckill.Proof.RebuildBloom
import Seckill.Spec.SkuCache
import Seckill.Spec.SkuReads
import Seckill.Proof.SkuCache
import Seckill.Proof.WarmCache
import Seckill.Proof.OrderAnswers
import Seckill.Proof.UserAnswers
import Seckill.Proof.Answers
import Seckill.Proof.Attempts
import Seckill.Proof.Duplicates
import Seckill.Lib.Lin
import Seckill.Spec.Shop
import Seckill.Proof.Linearize
import Seckill.Proof.Progress
import Seckill.Proof.Enumeration
import Seckill.Proof.Authenticate
import Seckill.Proof.Levels
import Seckill.Proof.Redeem
import Seckill.Spec.ReadPath
import Seckill.Proof.ReadPath
import Seckill.Proof.Freshness
import Seckill.Proof.DoubleDelete
import Seckill.Proof.Alone
import Seckill.Spec.LocalLruCache
import Seckill.Proof.LocalLruCache
import Seckill.Proof.Scripts
import Seckill.Proof.SendLimits
import Seckill.Proof.Throws
import Seckill.Proof.SessionKeys
import Seckill.Proof.SmsOnLogin
import Seckill.Proof.FreeGuess
import Seckill.Spec.Bundle
import Seckill.Proof.Bundle
import Seckill.Lib.Ring
import Seckill.Spec.RingBuffer
import Seckill.Proof.RingBuffer
import Seckill.Spec.AsyncLogger
import Seckill.Proof.AsyncLogger
import Seckill.Proof.Eviction
import Seckill.Spec.DelayDeleter
import Seckill.Proof.DelayDeleter
import Seckill.Spec.InflightTokens
import Seckill.Proof.GuardLaw
import Seckill.Proof.GuardKeys
import Seckill.Proof.GuardSizes
import Seckill.Proof.Tokens
import Seckill.Proof.Canonical
import Seckill.Proof.SeckillRequest
import Seckill.Lib.Fields
import Seckill.Spec.CacheKeys
import Seckill.Proof.CacheKeys
import Seckill.Proof.UserProgress
import Seckill.Proof.Lifetime
import Seckill.Proof.Accounts
import Seckill.Lib.Secret
import Seckill.Lib.Draws
import Seckill.Spec.Codes
import Seckill.Proof.Guesses
import Seckill.Lib.Sync
import Seckill.Spec.Traffic
import Seckill.Proof.Traffic
import Seckill.Spec.Http
import Seckill.Proof.Secrecy
import Seckill.Proof.ReadSteps
import Seckill.Proof.Penetration
import Seckill.Proof.ReadProgress
import Seckill.Proof.Requests
import Seckill.Proof.DelayProgress
import Seckill.Proof.LoggerProgress
import Seckill.Spec.GuardThreads
import Seckill.Proof.GuardThreads
import Seckill.Proof.GuardProgress
