import VaultKeeper.Compile

/-! # Valuation

The value of a position in units of the underlying asset, and the number of groups of a plan. The
last leg is valued from what the owner holds, and each leg before it converts the running value out
of its receipts.
-/

namespace VaultKeeper

namespace Leg

/-- The value of what an owner holds in the last leg of a route. -/
def topValue (l : Leg) (owner : Address) (c : Ledger) : Except AllocationError Amount := do
  if l.step.isBorrow then
    (← l.bound.adapter.lender).borrowValue owner l.input l.pool l.output
      (c.balance l.output owner) c
  else if l.bound.stake then
    (← l.bound.adapter.stakeable).stakedValue owner l.input l.pool c
  else
    l.base.holdingsValue owner l.input l.pool c

/-- The value of a leg whose output is worth `value`. -/
def innerValue (l : Leg) (owner : Address) (value : Amount) (c : Ledger) :
    Except AllocationError Amount := do
  if l.step.isBorrow then
    (← l.bound.adapter.lender).borrowValue owner l.input l.pool l.output value c
  else
    l.base.redeemed l.input l.pool value c

end Leg

/-- The value of a route in units of its first input. -/
def routeValue (owner : Address) (c : Ledger) : List Leg → Except AllocationError Amount
  | [] => .ok 0
  | [top] => top.topValue owner c
  | l :: rest => do l.innerValue owner (← routeValue owner c rest) c

namespace Registry

/-- The value of a position in units of the underlying asset of its strategy. -/
def balanceInUnderlying (r : Registry) (owner : Address) (hash : Digest) (c : Ledger) :
    Except AllocationError Amount := do
  routeValue owner c (← r.route .exit (← r.strategy hash))

/-- How many groups a deposit has. -/
def depositStepCount (r : Registry) (hash : Digest) : Except AllocationError Nat := do
  let strategy ← r.strategy hash
  let route ← r.route .exit strategy
  return route.length + strategy.borrowSteps + (stakesTop route).toNat

/-- How many groups a withdrawal has. -/
def withdrawStepCount (r : Registry) (hash : Digest) : Except AllocationError Nat := do
  let strategy ← r.strategy hash
  return (← r.route .exit strategy).length + strategy.borrowSteps

/-- How many groups a claim or a harvest has. -/
def claimStepCount (r : Registry) (hash : Digest) : Except AllocationError Nat := do
  let some top := (← r.route .exit (← r.strategy hash)).getLast? | return 0
  return (← top.rewardSource?).isSome.toNat

end Registry

end VaultKeeper
