import VaultKeeper.Protocol

/-! # Adapters

An adapter is a protocol together with the capabilities that were attached when it was registered:
staking and rewards, which curve pools offer, and borrowing, which lending markets offer. A
capability that was not attached is an error, even where the protocol could offer it.
-/

namespace VaultKeeper

/-- A protocol and its attached capabilities. -/
structure Adapter where
  /-- Deposits and withdrawals. -/
  base : Protocol
  /-- Staking of receipts. -/
  staking : Option CurveProtocol := none
  /-- Reward tokens. -/
  rewards : Option CurveProtocol := none
  /-- Loans against deposits. -/
  borrowing : Option LendingProtocol := none
deriving Inhabited

namespace Adapter

/-- A protocol with every capability of its family. -/
def whole : Protocol → Adapter
  | .vault p => { base := .vault p }
  | .lending p => { base := .lending p, borrowing := some p }
  | .curve p => { base := .curve p, staking := some p, rewards := some p }

/-- The identifier of the protocol. -/
def id (a : Adapter) : String := a.base.id

/-- Whether a capability is attached. -/
def has (a : Adapter) : Capability → Bool
  | .stake => a.staking.isSome
  | .rewards => a.rewards.isSome
  | .borrow => a.borrowing.isSome

/-- What was attached for a capability. -/
def demand {α : Type} (a : Adapter) (capability : Capability) (part : Option α) :
    Except AllocationError α :=
  match part with
  | some p => .ok p
  | none => .error (.capabilityMissing a.id capability)

/-- The staking capability. -/
def stakeable (a : Adapter) : Except AllocationError CurveProtocol := a.demand .stake a.staking

/-- The rewards capability. -/
def rewarding (a : Adapter) : Except AllocationError CurveProtocol := a.demand .rewards a.rewards

/-- The borrowing capability. -/
def lender (a : Adapter) : Except AllocationError LendingProtocol := a.demand .borrow a.borrowing

end Adapter

/-! ## Staking everything -/

namespace CurveProtocol

/-- Stake every loose receipt of an owner. -/
def stakeAll (p : CurveProtocol) (owner asset pool : Address) (l : Ledger) :
    Except AllocationError (List Instruction) := do
  p.stake pool (l.balance (← p.receipt asset pool) owner)

/-- Take all staked receipts of an owner out. -/
def unstakeAll (p : CurveProtocol) (owner pool : Address) (l : Ledger) :
    Except AllocationError (List Instruction) := do
  p.unstake pool (← p.staked owner pool l)

/-- Take all staked receipts out, then redeem them with the loose ones. -/
def unstakeAndWithdrawAll (p : CurveProtocol) (owner asset pool : Address) (l : Ledger) :
    Except AllocationError (List Instruction) := do
  let staked ← p.staked owner pool l
  let loose := l.balance (← p.receipt asset pool) owner
  let unstakes ← p.unstake pool staked
  return unstakes ++ (← p.withdraw asset pool (staked.addSat loose) l)

end CurveProtocol

/-! ## The value of a borrowing position -/

namespace LendingProtocol

/-- The collateral of an owner and what is held of the borrowed asset, less the debt, in units of
the collateral asset. -/
def borrowValue (p : LendingProtocol) (owner asset pool borrowed : Address) (held : Amount)
    (l : Ledger) : Except AllocationError Amount := do
  let collateral ← p.collateral owner asset pool l
  let owed := l.quote borrowed asset (l.debt pool borrowed owner)
  return (collateral.addSat (l.quote borrowed asset held)).subSat owed

end LendingProtocol

end VaultKeeper
