import VaultKeeper.Config.Validation
import VaultKeeper.Registry.Command

/-! # Bootstrapping a registry

A registry is built from a configuration by carrying out commands of the governance account: role
grants, one adapter for each protocol with its deposit caps, then the pools, then the risk profiles.
-/

namespace VaultKeeper

/-- Why no registry can be built. -/
inductive BootstrapFault
  /-- A vault has no asset. -/
  | noAsset (pool : Address)
  /-- A curve pool has no receipt token. -/
  | noReceipt (pool : Address)
  /-- The deposit share of a protocol is out of range. -/
  | protocolPercent (id : String)
  /-- The deposit share of a pool is out of range. -/
  | poolPercent (pool : Address)
  /-- A percentage is too large to be converted. -/
  | percentOverflow
  /-- A fixed ceiling is no number. -/
  | capAmount (amount : String)
  /-- A pool cannot be bound. -/
  | binding (pool : Address) (cause : AllocationError)
  /-- Another command was refused. -/
  | refused (cause : AllocationError)
deriving DecidableEq, Inhabited

namespace BootstrapFault

/-- The message of a fault. -/
def message : BootstrapFault → String
  | noAsset pool => s!"Vault {pool.checksumText} has no asset"
  | noReceipt pool => s!"Curve pool {pool.checksumText} has no lp_token"
  | protocolPercent id => s!"Protocol {id} deposit percent out of range"
  | poolPercent pool => s!"Pool {pool.checksumText} deposit percent out of range"
  | percentOverflow => "Percentage is too large"
  | capAmount amount => s!"Invalid cap amount {amount}"
  | binding pool _ => s!"Failed to bind pool {pool.checksumText}"
  | refused cause => cause.message

/-- The refused command behind a fault. -/
def cause? : BootstrapFault → Option AllocationError
  | binding _ cause | refused cause => some cause
  | _ => none

end BootstrapFault

namespace Config

/-- The protocol of a configuration entry, with the pools that belong to it. -/
def protocol (p : ProtocolConfig) (pools : List PoolConfig) : Except BootstrapFault Protocol :=
  match p.kind with
  | .vault => do
    let vaults ← pools.mapM fun q => match q.coins.head? with
      | some asset => .ok (q.address, asset)
      | none => .error (.noAsset q.address)
    return .vault ⟨p.id, .ofList vaults⟩
  | .lending =>
    let markets := pools.map fun q =>
      let reserves : LendingMarket := ⟨.ofList (q.coins.zip q.receipts), []⟩
      (q.address, q.borrowable.foldl LendingMarket.withBorrowable reserves)
    .ok (.lending ⟨p.id, p.ltvBps, .ofList markets⟩)
  | .curve => do
    let curves ← pools.mapM fun q => match q.receipt with
      | some receipt => .ok (q.address, (⟨q.coins, receipt, q.gauge, q.rewardToken⟩ : CurvePool))
      | none => .error (.noReceipt q.address)
    let router : SwapRouter := ⟨p.router.getD .zero, p.slippageBps⟩
    return .curve ⟨p.id, router, p.slippageBps, .ofList curves⟩

/-- A percentage in basis points. -/
def percentBps (percent : Decimal) (fault : BootstrapFault) : Except BootstrapFault Nat :=
  match percent.toBps with
  | .ok bps => .ok bps
  | .error .outOfRange => .error fault
  | .error .overflow => .error .percentOverflow

end Config

namespace Registry

/-- Carry out a command of the governance account. -/
def govern (r : Registry) (c : Command) : Except BootstrapFault Registry :=
  (r.perform r.governance c).mapError .refused

/-- Set the deposit caps of a protocol. -/
def configureCaps (r : Registry) (p : ProtocolConfig) : Except BootstrapFault Registry := do
  let cap := p.depositCap
  let r ← r.govern (.setCapMode p.id cap.mode)
  let bps ← Config.percentBps cap.protocolPercent (.protocolPercent p.id)
  let r ← r.govern (.setProtocolCap p.id bps)
  let r ← cap.pools.foldlM (fun r c => do
    let bps ← Config.percentBps c.percent (.poolPercent c.pool)
    r.govern (.setPoolCap p.id c.pool bps)) r
  cap.amounts.foldlM (fun r c => do
    let some amount := Amount.ofDecimal? c.amount | throw (.capAmount c.amount)
    r.govern (.setCapAmount p.id c.pool c.asset amount)) r

/-- Register the adapter of a protocol with its pools and caps. -/
def configureProtocol (pools : List PoolConfig) (r : Registry) (p : ProtocolConfig) :
    Except BootstrapFault Registry := do
  let protocol ← Config.protocol p (pools.filter (·.protocol == p.id))
  let r ← r.govern (.registerAdapter (.whole protocol))
  r.configureCaps p

/-- Add, rate, approve and bind a pool. -/
def configurePool (r : Registry) (p : PoolConfig) : Except BootstrapFault Registry := do
  let r ← r.govern (.addPool p.address)
  let r ← r.govern (.ratePool p.address p.rating)
  let r ← r.govern (.approvePool p.address p.approved)
  (r.perform r.governance (.bindPool p.address p.protocol p.stake)).mapError (.binding p.address)

/-- Give a role to accounts. -/
def grantAll (role : Role) (accounts : List Address) (r : Registry) :
    Except BootstrapFault Registry :=
  accounts.foldlM (fun r account => r.govern (.grantRole role account)) r

/-- The registry of a configuration. -/
def ofConfig (c : Config) : Except BootstrapFault Registry := do
  let r ← grantAll .riskOperator c.governance.riskOperators (.new c.governance.admin)
  let r ← grantAll .strategyOperator c.governance.strategyOperators r
  let r ← grantAll .financeOperator c.governance.financeOperators r
  -- Pools are bound to adapters, so the adapters come first.
  let r ← c.protocols.foldlM (configureProtocol c.pools) r
  let r ← c.pools.foldlM configurePool r
  c.riskProfiles.foldlM (fun r p =>
    r.govern (.createProfile p.name p.canBorrow p.minRating p.maxRating)) r

end Registry

end VaultKeeper
