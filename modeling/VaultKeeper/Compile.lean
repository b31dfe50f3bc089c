import VaultKeeper.Route

/-! # Compiling plans

A route is walked leg by leg over an overlay of the ledger, so that each leg consumes what the leg
before it produced. A deposit walks forward, a withdrawal backward, and a rebalance is a withdrawal
followed by a deposit on one overlay. Rewards are those of the last leg.
-/

namespace VaultKeeper

/-- What a part of a plan leaves behind: the changed balances and the groups of calls. -/
abbrev Compiled := Except AllocationError (Overlay × List Group)

namespace Leg

/-- Deposit into the pool of a leg: the requested amount as far as the caps admit it. -/
def deposit (l : Leg) (owner : Address) (requested : Amount) (o : Overlay) : Compiled := do
  let caps := l.bound.caps
  let deposited ← l.base.depositAmount owner l.input l.pool requested caps o.ledger
  let minted ← l.base.minted l.input l.pool deposited o.ledger
  let receipt ← l.base.receipt l.input l.pool
  let calls ← l.base.depositSome owner l.input l.pool requested caps o.ledger
  return ((o.debit l.input owner deposited).credit receipt owner minted,
    [l.group .deposit calls])

/-- Borrow the output of a leg against its deposit. -/
def borrow (l : Leg) (owner : Address) (o : Overlay) : Compiled := do
  let lender ← l.bound.adapter.lender
  let borrowed ← lender.borrowCapacity owner l.input l.pool l.output o.ledger
  let calls ← lender.borrowAll owner l.input l.pool l.output o.ledger
  return ((o.credit l.output owner borrowed).addDebt l.pool l.output owner borrowed,
    [l.group .borrow calls])

/-- Stake the receipts of a leg. -/
def stake (l : Leg) (owner : Address) (o : Overlay) : Compiled := do
  let stakeable ← l.bound.adapter.stakeable
  let token ← stakeable.gauge l.pool
  let receipts ← l.base.receiptBalance owner l.input l.pool o.ledger
  let calls ← stakeable.stakeAll owner l.input l.pool o.ledger
  return ((o.debit l.output owner receipts).credit token owner receipts, [l.group .stake calls])

/-- Repay the loan of a leg as far as the balance covers it. -/
def repay (l : Leg) (owner : Address) (o : Overlay) : Compiled := do
  let lender ← l.bound.adapter.lender
  let repaid := LendingProtocol.repayable owner l.pool l.output o.ledger
  let calls ← lender.repayAll owner l.pool l.output o.ledger
  return ((o.debit l.output owner repaid).reduceDebt l.pool l.output owner repaid,
    [l.group .repay calls])

/-- Redeem what can be withdrawn from the pool of a leg. -/
def withdraw (l : Leg) (owner : Address) (o : Overlay) : Compiled := do
  let receipt ← l.base.receipt l.input l.pool
  let receipts ← l.base.withdrawable owner l.input l.pool o.ledger
  let redeemed ← l.base.redeemed l.input l.pool receipts o.ledger
  let calls ← l.base.withdrawAll owner l.input l.pool o.ledger
  return ((o.debit receipt owner receipts).credit l.input owner redeemed,
    [l.group .withdraw calls])

/-- Take the staked receipts of a leg out and redeem them with the loose ones. -/
def unstakeAndWithdraw (l : Leg) (owner : Address) (o : Overlay) : Compiled := do
  let receipt ← l.base.receipt l.input l.pool
  let stakeable ← l.bound.adapter.stakeable
  let token ← stakeable.gauge l.pool
  let staked ← stakeable.staked owner l.pool o.ledger
  let loose ← l.base.receiptBalance owner l.input l.pool o.ledger
  let redeemed ← l.base.redeemed l.input l.pool (staked.addSat loose) o.ledger
  let calls ← stakeable.unstakeAndWithdrawAll owner l.input l.pool o.ledger
  return (((o.debit token owner staked).debit receipt owner loose).credit l.input owner redeemed,
    [l.group .unstakeAndWithdraw calls])

/-- Do two parts of a plan one after the other. -/
def andThen (first second : Overlay → Compiled) (o : Overlay) : Compiled := do
  let (o, groups) ← first o
  let (o, more) ← second o
  return (o, groups ++ more)

/-- Deposit into a leg, then borrow when the step says so. -/
def enter (l : Leg) (owner : Address) (requested : Option Amount) (o : Overlay) : Compiled :=
  -- Without a request the leg takes in whatever the legs before it produced.
  let amount := requested.getD (o.ledger.balance l.input owner)
  if l.step.isBorrow then andThen (l.deposit owner amount) (l.borrow owner) o
  else l.deposit owner amount o

/-- Repay when the step borrows, then leave the pool. -/
def leave (l : Leg) (owner : Address) (staked : Bool) (o : Overlay) : Compiled :=
  let redeem := if staked then l.unstakeAndWithdraw owner else l.withdraw owner
  if l.step.isBorrow then andThen (l.repay owner) redeem o else redeem o

end Leg

/-! ## Whole routes -/

/-- Enter every leg. A requested amount goes into the first leg; the later ones take in the whole
balance of their input. -/
def enterLegs (owner : Address) : (requested : Option Amount) → List Leg → Overlay → Compiled
  | _, [], o => .ok (o, [])
  | requested, l :: rest, o =>
    Leg.andThen (l.enter owner requested) (enterLegs owner none rest) o

/-- Enter every leg, then stake the receipts of the last one when it stakes. -/
def enterRoute (owner : Address) (requested : Option Amount) (route : List Leg) (o : Overlay) :
    Compiled :=
  match route.getLast?.filter (·.stakes) with
  | some top => Leg.andThen (enterLegs owner requested route) (top.stake owner) o
  | none => enterLegs owner requested route o

/-- Leave every leg of a reversed route; only the first of them may be staked. -/
def leaveLegs (owner : Address) : (staked : Bool) → (reversed : List Leg) → Overlay → Compiled
  | _, [], o => .ok (o, [])
  | staked, l :: rest, o => Leg.andThen (l.leave owner staked) (leaveLegs owner false rest) o

/-- Leave every leg, the last one first. -/
def leaveRoute (owner : Address) (route : List Leg) (o : Overlay) : Compiled :=
  leaveLegs owner (stakesTop route) route.reverse o

/-- Which part of the rewards a plan handles. -/
inductive RewardRequest
  /-- Claim without selling. -/
  | claim
  /-- Claim and sell everything. -/
  | harvestAll
  /-- Claim and sell at most an amount of the reward token. -/
  | harvestSome (amount : Amount)
deriving DecidableEq, Inhabited

namespace RewardRequest

/-- The kind of the group that a request makes. -/
def groupKind : RewardRequest → GroupKind
  | claim => .claim
  | harvestAll | harvestSome _ => .harvest

/-- The operation of a request. -/
def operation : RewardRequest → Operation
  | claim => .claimAll
  | harvestAll => .harvestAll
  | harvestSome _ => .harvestSome

/-- The calls of a request. -/
def calls (q : RewardRequest) (p : CurveProtocol) (owner pool target : Address) (l : Ledger) :
    Except AllocationError (List Instruction) :=
  match q with
  | claim => p.claim owner pool l
  | harvestAll => p.harvestAll owner pool target l
  | harvestSome amount => p.harvestSome owner pool target amount l

end RewardRequest

namespace Leg

/-- The rewards capability of a leg whose pool pays a reward token. -/
def rewardSource? (l : Leg) : Except AllocationError (Option CurveProtocol) :=
  match l.bound.adapter.rewards with
  | none => .ok none
  | some p => do return (← p.rewardToken l.pool).map fun _ => p

end Leg

/-- The group of the last leg's rewards; none when its pool pays no reward token. -/
def rewardGroups (owner target : Address) (q : RewardRequest) (route : List Leg) (l : Ledger) :
    Except AllocationError (List Group) := do
  let some top := route.getLast? | return []
  match ← top.rewardSource? with
  | none => return []
  | some p => return [top.group q.groupKind (← q.calls p owner top.pool target l)]

/-! ## Plans -/

namespace Registry

/-- Deposit a requested amount, or the whole balance, of the underlying asset. -/
def compileDeposit (r : Registry) (owner : Address) (hash : Digest) (requested : Option Amount)
    (l : Ledger) : Except AllocationError Plan := do
  let route ← r.route .enter (← r.strategy hash)
  let (_, groups) ← enterRoute owner requested route (.ofLedger l)
  return ⟨hash, if requested.isSome then .depositSome else .depositAll, groups⟩

/-- Deposit the owner's whole balance of the underlying asset. -/
def depositAll (r : Registry) (owner : Address) (hash : Digest) (l : Ledger) :
    Except AllocationError Plan := r.compileDeposit owner hash none l

/-- Deposit an amount of the underlying asset; later steps take in all that reaches them. -/
def depositSome (r : Registry) (owner : Address) (hash : Digest) (amount : Amount) (l : Ledger) :
    Except AllocationError Plan := r.compileDeposit owner hash (some amount) l

/-- Unwind every step, the last one first, back into the underlying asset. -/
def withdrawAll (r : Registry) (owner : Address) (hash : Digest) (l : Ledger) :
    Except AllocationError Plan := do
  let route ← r.route .exit (← r.strategy hash)
  let (_, groups) ← leaveRoute owner route (.ofLedger l)
  return ⟨hash, .withdrawAll, groups⟩

/-- Handle the rewards of the last step. -/
def compileRewards (r : Registry) (owner : Address) (hash : Digest) (q : RewardRequest)
    (l : Ledger) : Except AllocationError Plan := do
  let strategy ← r.strategy hash
  let route ← r.route .exit strategy
  return ⟨hash, q.operation, ← rewardGroups owner strategy.underlying q route l⟩

/-- Claim the rewards and sell them all for the underlying asset. -/
def harvestAll (r : Registry) (owner : Address) (hash : Digest) (l : Ledger) :
    Except AllocationError Plan := r.compileRewards owner hash .harvestAll l

/-- Claim the rewards and sell at most an amount of the reward token. -/
def harvestSome (r : Registry) (owner : Address) (hash : Digest) (amount : Amount) (l : Ledger) :
    Except AllocationError Plan := r.compileRewards owner hash (.harvestSome amount) l

/-- Claim the rewards without selling them. -/
def claimAll (r : Registry) (owner : Address) (hash : Digest) (l : Ledger) :
    Except AllocationError Plan := r.compileRewards owner hash .claim l

/-- Withdraw everything from one strategy, then deposit it all into another one over the same
underlying asset. -/
def rebalance (r : Registry) (owner : Address) (source target : Digest) (l : Ledger) :
    Except AllocationError Plan := do
  let current ← r.strategy source
  let next ← r.strategy target
  unless current.underlying = next.underlying do
    throw (.strategyMismatch target current.underlying)
  -- Both routes are found before anything is compiled.
  let exits ← r.route .exit current
  let entries ← r.route .enter next
  -- The entry sees the balances that the exit leaves behind.
  let exchange := Leg.andThen (leaveRoute owner exits) (enterRoute owner none entries)
  let (_, groups) ← exchange (.ofLedger l)
  return ⟨target, .rebalance, groups⟩

end Registry

end VaultKeeper
