import VaultKeeper.Abi

/-! # Compiled plans

A plan is what the strategy compiler hands to an executor: ordered groups of contract calls, one
group for each step of the work. The executor applies all of it or none.
-/

namespace VaultKeeper

/-- What a call does. -/
inductive Action
  | approve | deposit | withdraw | stake | unstake | borrow | repay | claim | swap
deriving DecidableEq, Inhabited

/-- The stable label of an action. -/
def Action.text : Action → String
  | approve => "approve"
  | deposit => "deposit"
  | withdraw => "withdraw"
  | stake => "stake"
  | unstake => "unstake"
  | borrow => "borrow"
  | repay => "repay"
  | claim => "claim"
  | swap => "swap"

/-- Every action. -/
def Action.all : List Action :=
  [.approve, .deposit, .withdraw, .stake, .unstake, .borrow, .repay, .claim, .swap]

/-- One contract call with its native value. -/
structure Instruction where
  /-- The contract to call. -/
  target : Address
  /-- The encoded function and arguments. -/
  calldata : Bytes
  /-- Native value attached to the call. -/
  value : Amount
  /-- What the call does. -/
  action : Action
deriving DecidableEq, Inhabited

/-- What a group of instructions accomplishes. -/
inductive GroupKind
  | deposit | borrow | stake | withdraw | unstakeAndWithdraw | repay | harvest | claim
deriving DecidableEq, Inhabited

/-- The stable label of a kind of group. -/
def GroupKind.text : GroupKind → String
  | deposit => "deposit"
  | borrow => "borrow"
  | stake => "stake"
  | withdraw => "withdraw"
  | unstakeAndWithdraw => "unstake_and_withdraw"
  | repay => "repay"
  | harvest => "harvest"
  | claim => "claim"

/-- Every kind of group. -/
def GroupKind.all : List GroupKind :=
  [.deposit, .borrow, .stake, .withdraw, .unstakeAndWithdraw, .repay, .harvest, .claim]

/-- The instructions of one strategy step. A group without instructions still counts as a step. -/
structure Group where
  /-- Index of the strategy step. -/
  stepIndex : Nat
  /-- The pool of the step. -/
  pool : Address
  /-- What the group does. -/
  kind : GroupKind
  /-- The calls, in order. -/
  instructions : List Instruction
deriving DecidableEq, Inhabited

/-- What a plan was compiled for. -/
inductive Operation
  | depositAll | depositSome | withdrawAll | harvestAll | harvestSome | claimAll | rebalance
deriving DecidableEq, Inhabited

namespace Operation

/-- The stable label of an operation. -/
def text : Operation → String
  | depositAll => "deposit_all"
  | depositSome => "deposit_some"
  | withdrawAll => "withdraw_all"
  | harvestAll => "harvest_all"
  | harvestSome => "harvest_some"
  | claimAll => "claim_all"
  | rebalance => "rebalance"

/-- Every operation. -/
def all : List Operation :=
  [.depositAll, .depositSome, .withdrawAll, .harvestAll, .harvestSome, .claimAll, .rebalance]

/-- Whether applying a plan of this kind puts a vault into the plan's strategy. -/
def movesPosition : Operation → Bool
  | depositAll | depositSome | rebalance => true
  | withdrawAll | harvestAll | harvestSome | claimAll => false

end Operation

/-- A compiled plan. -/
structure Plan where
  /-- The strategy the plan runs; the target strategy of a rebalance. -/
  strategy : Digest
  /-- What the plan does. -/
  operation : Operation
  /-- The groups, in order of execution. -/
  groups : List Group
deriving DecidableEq, Inhabited

namespace Plan

/-- Number of groups, empty ones included. -/
def stepCount (p : Plan) : Nat := p.groups.length

/-- All instructions, in order of execution. -/
def instructions (p : Plan) : List Instruction := p.groups.flatMap (·.instructions)

/-- Number of instructions in all groups. -/
def instructionCount (p : Plan) : Nat :=
  (p.groups.map (·.instructions.length)).foldr (· + ·) 0

/-- Whether no group holds an instruction. -/
def isNoop (p : Plan) : Bool := p.instructionCount == 0

end Plan

end VaultKeeper
