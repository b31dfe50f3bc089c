import VaultKeeper.Amount
import VaultKeeper.Error

/-! # Deposit caps

How much a single deposit may move into a pool. The ceiling is a fixed amount, or a share of the
pool's value; it covers the whole exposure of an owner, so what is left for a request is the ceiling
less the position already held.
-/

namespace VaultKeeper

/-- How deposits into the pools of a protocol are limited. -/
inductive CapMode
  /-- No limit. -/
  | unlimited
  /-- A fixed amount for each pool and asset. -/
  | amount
  /-- A share of the pool's value, set for each pool. -/
  | poolPercentage
  /-- A share of the pool's value, set for the protocol. -/
  | protocolPercentage
deriving DecidableEq, Inhabited

/-- The stable label of a mode. -/
def CapMode.text : CapMode → String
  | unlimited => "unlimited"
  | amount => "amount"
  | poolPercentage => "pool_percentage"
  | protocolPercentage => "protocol_percentage"

/-- Every mode. -/
def CapMode.all : List CapMode := [.unlimited, .amount, .poolPercentage, .protocolPercentage]

/-- The deposit ceilings of one protocol. -/
structure DepositCaps where
  /-- Which ceiling applies. -/
  mode : CapMode := .unlimited
  /-- The share of a pool's value, in basis points. -/
  protocolBps : Nat := 0
  /-- Shares of single pools. -/
  poolBps : Table Address Nat := ∅
  /-- Fixed amounts for pools and assets. -/
  amounts : Table (Address × Address) Amount := ∅

namespace DepositCaps

instance : Inhabited DepositCaps := ⟨⟨.unlimited, 0, ∅, ∅⟩⟩

/-- A ratio of at most one, in basis points. -/
def checkBps (bps : Nat) : Except AllocationError Nat :=
  if 10000 < bps then .error (.invalidPercentage bps) else .ok bps

/-- Choose which ceiling applies. -/
def setMode (c : DepositCaps) (mode : CapMode) : DepositCaps := { c with mode }

/-- Set the share of the protocol. -/
def setProtocolBps (c : DepositCaps) (bps : Nat) : Except AllocationError DepositCaps := do
  return { c with protocolBps := ← checkBps bps }

/-- Set the share of a pool. -/
def setPoolBps (c : DepositCaps) (pool : Address) (bps : Nat) :
    Except AllocationError DepositCaps := do
  return { c with poolBps := c.poolBps.insert pool (← checkBps bps) }

/-- Set the fixed amount of a pool and an asset. -/
def setAmount (c : DepositCaps) (pool asset : Address) (amount : Amount) : DepositCaps :=
  { c with amounts := c.amounts.insert (pool, asset) amount }

/-- The ceiling for a pool of the given value; `none` when there is no limit. -/
def limit (c : DepositCaps) (pool asset : Address) (poolValue : Amount) : Option Amount :=
  match c.mode with
  | .unlimited => none
  | .amount => some ((c.amounts.get? (pool, asset)).getD 0)
  | .poolPercentage => some (poolValue.applyBps ((c.poolBps.get? pool).getD c.protocolBps))
  | .protocolPercentage => some (poolValue.applyBps c.protocolBps)

/-- What an owner who holds `position` may still deposit. -/
def headroom (c : DepositCaps) (pool asset : Address) (poolValue position : Amount) :
    Option Amount :=
  (c.limit pool asset poolValue).map (·.subSat position)

/-- The part of a request that the headroom admits. -/
def clamp (c : DepositCaps) (pool asset : Address) (requested poolValue position : Amount) :
    Amount :=
  match c.headroom pool asset poolValue position with
  | none => requested
  | some room => min requested room

end DepositCaps

end VaultKeeper
