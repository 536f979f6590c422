import Graft.Decimal.Fixed

/-!
# How long a campaign takes

A duration is shown with two places in the largest unit of which it has at least
one. The rate is the number of requests in a second.
-/

namespace Graft.Campaign

/-- A span of time. -/
structure Duration where
  nanoseconds : Nat
deriving DecidableEq, Repr

namespace Duration

/-- A duration in its unit. -/
def text (duration : Duration) : String :=
  let span := duration.nanoseconds
  if 1000000000 ≤ span then Decimal.fixed 2 span (1000000000) ++ "s"
  else if 1000000 ≤ span then Decimal.fixed 2 span (1000000) ++ "ms"
  else if 1000 ≤ span then Decimal.fixed 2 span (1000) ++ "µs"
  else Decimal.fixed 2 span 1 ++ "ns"

/-- How many times in a second something happens. In no time at all nothing
    does. -/
def rate (duration : Duration) (times : Nat) : String :=
  if duration.nanoseconds = 0 then Decimal.fixed 2 0 1
  else Decimal.fixed 2 (times * 1000000000) duration.nanoseconds

example : (Duration.mk 1234567).text = "1.23ms" := by decide +kernel
example : (Duration.mk 2000000000).rate 5 = "2.50" := by decide +kernel

end Duration

end Graft.Campaign
