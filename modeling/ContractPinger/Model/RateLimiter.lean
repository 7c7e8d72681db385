import ContractPinger.Model.Basic

/-!
# Sliding-window request limiter

`src/utils/rateLimiter.ts`. Every method takes the instant it is called at.
-/

namespace ContractPinger

/-- `class RateLimiter`. -/
structure RateLimiter where
  limit : Nat
  windowMs : Millis := 60000
  hits : List Millis := []
deriving DecidableEq, Repr

namespace RateLimiter

/-- Shift hits off the front while they are a whole window old. -/
def prune (limiter : RateLimiter) (now : Millis) : RateLimiter :=
  { limiter with hits := limiter.hits.dropWhile fun t => decide (t ≤ now - limiter.windowMs) }

/-- Records a hit and reports whether it was allowed. -/
def tryAcquire (limiter : RateLimiter) (now : Millis) : Bool × RateLimiter :=
  let limiter := limiter.prune now
  if limiter.limit ≤ limiter.hits.length then (false, limiter)
  else (true, { limiter with hits := limiter.hits ++ [now] })

/-- Milliseconds until the next slot frees up, or 0 if one is free now. A zero limit never
    frees one, and answers a full window. -/
def retryAfterMs (limiter : RateLimiter) (now : Millis) : Millis × RateLimiter :=
  let limiter := limiter.prune now
  (if limiter.limit ≤ 0 then limiter.windowMs
    else if limiter.hits.length < limiter.limit then 0
    else max 0 (limiter.hits.headD 0 + limiter.windowMs - now),
   limiter)

def used (limiter : RateLimiter) (now : Millis) : Nat × RateLimiter :=
  let limiter := limiter.prune now
  (limiter.hits.length, limiter)

end RateLimiter

end ContractPinger
