import StakeLedger.Ratio
import StakeLedger.Record.Basic
/-!
# The message throttle

An account pays for messages out of a capacity that recovers with time, up to its stake. An account
without stake sends nothing, and a large stake buys frequent messages without spending any coin.
-/

namespace StakeLedger

/-- The rule by which messages are paid for. -/
structure Throttle where
  /-- The time in which capacity recovers from nothing to its ceiling. -/
  period : Seconds
  /-- The units of one whole coin, the cost of a message of ratio one. -/
  scale : Word64
  deriving DecidableEq

namespace Throttle

/-- What a message of the given ratio costs. -/
def cost (t : Throttle) (ratio : Ratio) : Except Failure Coin := ratio.shareOf t.scale

/-- The capacity at `now`. It grows in proportion to the time since it was last charged and stops at
the ceiling; capacity above the ceiling stays as it is. -/
def recovered (t : Throttle) (usage : Usage) (ceiling : Coin) (now : Seconds) :
    Except Failure Coin :=
  if ceiling.units ≤ usage.capacity.units then .ok usage.capacity
  else
    let elapsed := now.since usage.lastActive
    if t.period.count ≤ elapsed then .ok ceiling
    else
      match Coin.ofNat? (ceiling.units * elapsed / t.period.count.toNat) with
      | none => .error (.overflow "recover capacity")
      | some increase =>
        match usage.capacity.plus? increase with
        | none => .error (.overflow "recover capacity")
        | some capacity => .ok (capacity.least ceiling)

/-- The usage after a message of the given ratio, and the capacity it left or why it was refused. A
message that costs too much is refused, but what had recovered by then is recorded. -/
def charge (t : Throttle) (account : Username) (usage : Usage) (ceiling : Coin) (ratio : Ratio)
    (now : Seconds) : Usage × Except Failure Coin :=
  match t.recovered usage ceiling now with
  | .error f => (usage, .error f)
  | .ok available =>
    match t.cost ratio with
    | .error f => (usage, .error f)
    | .ok cost =>
      match available.minus? cost with
      | some left => ({ usage with capacity := left, lastActive := now }, .ok left)
      | none =>
        ({ usage with capacity := available }, .error (.capacityShort account cost available))

end Throttle

end StakeLedger
