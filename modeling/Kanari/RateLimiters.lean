import Kanari.Lib.OrdMap
import Mathlib.Data.String.Basic
import Mathlib.Logic.Function.Basic

/-!
# Rate limiters

`crates/run-auth/src/rate_limiter.rs` and `crates/kanari-crypto/src/security.rs`. Both clocks are
read once for each call.
-/

namespace Kanari

open Lib

structure RateLimitConfig where
  maxRequests : UInt32
  intervalSecs : UInt64

/-- Durations and points in time are in nanoseconds. -/
def fromSecs (secs : Nat) : Nat := secs * 10 ^ 9

structure TokenBucket where
  maxTokens : Nat
  tokens : Nat
  lastRefill : Nat
  lastActivity : Nat
  refillInterval : Nat

def TokenBucket.new (cfg : RateLimitConfig) (now : Nat) : TokenBucket where
  maxTokens := cfg.maxRequests.toNat
  tokens := cfg.maxRequests.toNat
  lastRefill := now
  lastActivity := now
  refillInterval := fromSecs cfg.intervalSecs.toNat

def TokenBucket.refill (b : TokenBucket) (now : Nat) : TokenBucket :=
  if b.refillInterval ≤ now - b.lastRefill then { b with tokens := b.maxTokens, lastRefill := now } else b

def TokenBucket.allowRequest (b : TokenBucket) (now : Nat) : Bool × TokenBucket :=
  let b := { b with lastActivity := now }.refill now
  if 0 < b.tokens then (true, { b with tokens := b.tokens - 1 }) else (false, b)

structure RateLimitError where
  retryAfterSecs : UInt64

namespace RateLimitConfig

variable {Ip : Type} [DecidableEq Ip] (cfg : RateLimitConfig)

def staleAfter : Nat := fromSecs (min (cfg.intervalSecs.toNat * 2) (2 ^ 64 - 1))

def checkRateLimit (buckets : Ip → Option TokenBucket) (ip : Ip) (now : Nat) :
    Except RateLimitError Unit × (Ip → Option TokenBucket) :=
  let buckets := fun ip => (buckets ip).filter fun b => now - b.lastActivity < cfg.staleAfter
  let (allowed, bucket) := ((buckets ip).getD (.new cfg now)).allowRequest now
  (if allowed then .ok () else .error ⟨cfg.intervalSecs⟩, Function.update buckets ip (some bucket))

def answersFrom (buckets : Ip → Option TokenBucket) : List (Ip × Nat) → List ((Ip × Nat) × Bool)
  | [] => []
  | call :: calls =>
    let (answer, buckets) := cfg.checkRateLimit buckets call.1 call.2
    (call, answer.isOk) :: answersFrom buckets calls

def answers (calls : List (Ip × Nat)) : List ((Ip × Nat) × Bool) := cfg.answersFrom (fun _ => none) calls

end RateLimitConfig

def MAX_RATE_LIMITER_ENTRIES : Nat := 1000

/-- The number of failures and the end of the lockout, in seconds, by identifier. -/
structure BackoffLimiter where
  attempts : OrdMap String (Nat × Nat) := .empty
  lockoutDurationSecs : Nat

/-- The result of an operation on words: with checks an overflow stops the program. -/
def wordResult (checks : Bool) (bits value : Nat) : Option Nat :=
  if value < 2 ^ bits then some value else if checks then none else some (value % 2 ^ bits)

namespace BackoffLimiter

def checkAllowed (l : BackoffLimiter) (identifier : String) (now : Nat) : Bool × BackoffLimiter :=
  let attempts := if MAX_RATE_LIMITER_ENTRIES < l.attempts.entries.length then
    ⟨l.attempts.entries.filter fun e => decide (now < e.2.2), l.attempts.sorted.filter _⟩ else l.attempts
  (!(attempts.find? identifier).any fun entry => decide (now < entry.2), { l with attempts })

def recordFailure (checks : Bool) (l : BackoffLimiter) (identifier : String) (now : Nat) :
    Option BackoffLimiter := do
  let count := ((l.attempts.find? identifier).getD (0, 0)).1
  let newCount ← wordResult checks 32 (count + 1)
  let power ← wordResult checks 64 (2 ^ newCount)
  let lockedUntil ← wordResult checks 64 (now + min power l.lockoutDurationSecs)
  return { l with attempts := l.attempts.insert identifier (newCount, lockedUntil) }

def recordSuccess (l : BackoffLimiter) (identifier : String) : BackoffLimiter :=
  { l with attempts := l.attempts.erase identifier }

end BackoffLimiter

/-- One call, by what it reports about an identifier. -/
inductive AttemptCall where
  | checkAllowed (identifier : String)
  | recordFailure (identifier : String)
  | recordSuccess (identifier : String)
  deriving DecidableEq

namespace BackoffLimiter

def call (checks : Bool) (l : BackoffLimiter) (now : Nat) : AttemptCall → Option BackoffLimiter
  | .checkAllowed identifier => some (l.checkAllowed identifier now).2
  | .recordFailure identifier => l.recordFailure checks identifier now
  | .recordSuccess identifier => some (l.recordSuccess identifier)

def calls (checks : Bool) (l : BackoffLimiter) : List (AttemptCall × Nat) → Option BackoffLimiter
  | [] => some l
  | (c, now) :: rest => (l.call checks now c).bind fun l => calls checks l rest

end BackoffLimiter

end Kanari
