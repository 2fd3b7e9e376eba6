import MentorAllocation.Data.Dict
import MentorAllocation.Data.Double

namespace Security
open Data

/-- A limiter; `calls` has the times of the calls that were granted, the oldest first, for
each key. -/
structure RateLimiter where
  maxCalls : Int
  timeWindow : Int
  calls : Dict String (List ℚ)

namespace RateLimiter

def init (maxCalls timeWindow : Int) : RateLimiter :=
  { maxCalls, timeWindow, calls := Dict.empty }

/-- `current_time - window[0] > self.time_window`: the difference of two doubles is a double,
which is compared with the integer as it is. -/
def expired (limiter : RateLimiter) (currentTime time : ℚ) : Bool :=
  limiter.timeWindow < double (currentTime - time)

/-- `check_limit`, and what it leaves of the limiter. -/
def checkLimit (limiter : RateLimiter) (key : String) (currentTime : ℚ) : Bool × RateLimiter :=
  let window := ((limiter.calls.get? key).getD []).dropWhile (limiter.expired currentTime)
  if limiter.maxCalls ≤ window.length then
    (false, { limiter with calls := limiter.calls.set key window })
  else (true, { limiter with calls := limiter.calls.set key (window ++ [currentTime]) })

end RateLimiter

end Security
